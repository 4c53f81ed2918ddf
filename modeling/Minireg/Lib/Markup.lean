import Mathlib.Data.List.Basic

/-!
# Written markup and its readers

A document of HTML is written piece by piece, every text and every attribute value escaped. A
`Reader` is a parser that hands back what was written: it calls out start tags, end tags and
data, and how the data is cut up is its own affair. `scanner` is such a reader.
-/

namespace Minireg.Lib.Html

/-! ## Escapes -/

/-- The apostrophe. -/
def apostrophe : Char := Char.ofNat 39

/-- `html.escape(c, quote=True)`. -/
def escapeChar (c : Char) : List Char :=
  if c = '&' then ['&', 'a', 'm', 'p', ';']
  else if c = '<' then ['&', 'l', 't', ';']
  else if c = '>' then ['&', 'g', 't', ';']
  else if c = '"' then ['&', 'q', 'u', 'o', 't', ';']
  else if c = apostrophe then ['&', '#', 'x', '2', '7', ';']
  else [c]

def escapeChars (s : List Char) : List Char := s.flatMap escapeChar

def escape (s : String) : String := String.ofList (escapeChars s.toList)

@[simp] theorem escapeChars_append (s t : List Char) :
    escapeChars (s ++ t) = escapeChars s ++ escapeChars t := List.flatMap_append

@[simp] theorem toList_escape (s : String) : (escape s).toList = escapeChars s.toList :=
  String.toList_ofList

/-- The characters that escaping leaves no trace of. -/
theorem escapeChar_avoids (c : Char) : ∀ d ∈ escapeChar c, d ≠ '<' ∧ d ≠ '"' := by
  unfold escapeChar
  split
  · simp
  split
  · simp
  split
  · simp
  split
  · simp
  split
  · simp
  · next hlt _ hquote _ =>
    intro d hd
    obtain rfl := List.mem_singleton.mp hd
    exact ⟨hlt, hquote⟩

theorem escapeChars_avoids (s : List Char) : ∀ d ∈ escapeChars s, d ≠ '<' ∧ d ≠ '"' := by
  intro d hd
  obtain ⟨c, -, hc⟩ := List.mem_flatMap.mp hd
  exact escapeChar_avoids c d hc

/-- The character references of `escape`, read back. -/
def unescapeChars : List Char → List Char
  | '&' :: 'a' :: 'm' :: 'p' :: ';' :: rest => '&' :: unescapeChars rest
  | '&' :: 'l' :: 't' :: ';' :: rest => '<' :: unescapeChars rest
  | '&' :: 'g' :: 't' :: ';' :: rest => '>' :: unescapeChars rest
  | '&' :: 'q' :: 'u' :: 'o' :: 't' :: ';' :: rest => '"' :: unescapeChars rest
  | '&' :: '#' :: 'x' :: '2' :: '7' :: ';' :: rest => apostrophe :: unescapeChars rest
  | c :: rest => c :: unescapeChars rest
  | [] => []

theorem unescapeChars_cons {c : Char} (h : c ≠ '&') (rest : List Char) :
    unescapeChars (c :: rest) = c :: unescapeChars rest := by
  rw [unescapeChars]
  all_goals
    intros
    contradiction

theorem unescapeChars_escapeChar (c : Char) (rest : List Char) :
    unescapeChars (escapeChar c ++ rest) = c :: unescapeChars rest := by
  unfold escapeChar
  split
  · next h =>
    rw [h]
    rfl
  split
  · next h =>
    rw [h]
    rfl
  split
  · next h =>
    rw [h]
    rfl
  split
  · next h =>
    rw [h]
    rfl
  split
  · next h =>
    rw [h]
    rfl
  · next hamp _ _ _ _ => exact unescapeChars_cons hamp rest

/-- **What is escaped reads back.** -/
theorem unescapeChars_escapeChars (s : List Char) : unescapeChars (escapeChars s) = s := by
  induction s with
  | nil => rfl
  | cons c s ih =>
    unfold escapeChars at ih ⊢
    rw [List.flatMap_cons, unescapeChars_escapeChar, ih]

/-! ## Documents -/

inductive Container where
  | html | head | body

inductive Leaf where
  | title | h1 | a

inductive Void where
  | metadata | lineBreak

def Container.name : Container → String
  | .html => "html"
  | .head => "head"
  | .body => "body"

def Leaf.name : Leaf → String
  | .title => "title"
  | .h1 => "h1"
  | .a => "a"

def Void.name : Void → String
  | .metadata => "meta"
  | .lineBreak => "br"

abbrev Attrs := List (String × String)

/-- A piece of a document. What a leaf holds is text. -/
inductive Piece where
  | doctype
  | opening (c : Container) (attrs : Attrs)
  | closing (c : Container)
  | void (v : Void) (attrs : Attrs)
  | leaf (l : Leaf) (attrs : Attrs) (content : String)
  | text (s : String)

/-- One attribute, as it is written behind the name of a tag. -/
def attrChars (a : String × String) : List Char :=
  ' ' :: (a.1.toList ++ '=' :: '"' :: (escapeChars a.2.toList ++ ['"']))

def startTag (name : String) (attrs : Attrs) : List Char :=
  '<' :: (name.toList ++ (attrs.flatMap attrChars ++ ['>']))

def endTag (name : String) : List Char := '<' :: '/' :: (name.toList ++ ['>'])

def Piece.chars : Piece → List Char
  | .doctype => '<' :: '!' :: ("DOCTYPE html".toList ++ ['>'])
  | .opening c attrs => startTag c.name attrs
  | .closing c => endTag c.name
  | .void v attrs => startTag v.name attrs
  | .leaf l attrs content => startTag l.name attrs ++ (escapeChars content.toList ++ endTag l.name)
  | .text s => escapeChars s.toList

def write (m : List Piece) : List Char := m.flatMap Piece.chars

/-- A character of the name of a tag or of an attribute. -/
def inName (c : Char) : Bool := ('a' ≤ c && c ≤ 'z') || c == '-' || c == '1'

/-- The name of an attribute reads as one. -/
def IsName (s : String) : Prop := s ≠ "" ∧ s.toList.all inName = true

def Piece.attrs : Piece → Attrs
  | .opening _ attrs | .void _ attrs | .leaf _ attrs _ => attrs
  | _ => []

/-- The attributes of a document have names. -/
def Named (m : List Piece) : Prop := ∀ piece ∈ m, ∀ a ∈ piece.attrs, IsName a.1

/-! ## Events -/

/-- What a parser calls out. An attribute may come without a value. -/
inductive Event where
  | start (tag : String) (attrs : List (String × Option String))
  | stop (tag : String)
  | data (s : String)
  deriving DecidableEq

def given (attrs : Attrs) : List (String × Option String) := attrs.map fun a => (a.1, some a.2)

def Piece.events : Piece → List Event
  | .doctype => []
  | .opening c attrs => [.start c.name (given attrs)]
  | .closing c => [.stop c.name]
  | .void v attrs => [.start v.name (given attrs)]
  | .leaf l attrs content => [.start l.name (given attrs), .data content, .stop l.name]
  | .text s => [.data s]

/-- Data in front of events, in one piece with the data they start with. -/
def prepend (s : String) : List Event → List Event
  | .data t :: rest => .data (s ++ t) :: rest
  | rest => if s = "" then rest else .data s :: rest

/-- Events with the data between two tags in one piece. -/
def coalesce : List Event → List Event
  | [] => []
  | .data s :: rest => prepend s (coalesce rest)
  | .start tag attrs :: rest => .start tag attrs :: coalesce rest
  | .stop tag :: rest => .stop tag :: coalesce rest

/-- Events that differ only in how data is cut up. -/
def Same (es fs : List Event) : Prop := coalesce es = coalesce fs

/-- A parser that hands back what was written. -/
structure Reader where
  feed : String → List Event
  reads : ∀ m, Named m → Same (feed (String.ofList (write m))) (m.flatMap Piece.events)

theorem Same.cons {es fs : List Event} (h : Same es fs) (e : Event) : Same (e :: es) (e :: fs) := by
  unfold Same at h ⊢
  cases e with
  | start tag attrs => rw [coalesce, coalesce, h]
  | stop tag => rw [coalesce, coalesce, h]
  | data s => rw [coalesce, coalesce, h]

theorem Same.append {es fs : List Event} (h : Same es fs) (before : List Event) :
    Same (before ++ es) (before ++ fs) := by
  induction before with
  | nil => exact h
  | cons e before ih => exact ih.cons e

theorem Same.trans {es fs gs : List Event} (h : Same es fs) (h' : Same fs gs) : Same es gs :=
  Eq.trans h h'

theorem Same.symm {es fs : List Event} (h : Same es fs) : Same fs es := Eq.symm h

theorem same_empty (es : List Event) : Same (.data "" :: es) es := by
  unfold Same
  rw [coalesce]
  rcases coalesce es with _ | ⟨e, rest⟩
  · rfl
  · cases e with
    | data t => simp [prepend]
    | start tag attrs => rfl
    | stop tag => rfl

/-- Two pieces of data are one. -/
theorem same_joined (s t : String) (es : List Event) :
    Same (.data s :: .data t :: es) (.data (s ++ t) :: es) := by
  unfold Same
  rw [coalesce, coalesce, coalesce]
  rcases coalesce es with _ | ⟨e, rest⟩
  · by_cases ht : t = ""
    · by_cases hs : s = "" <;> simp [prepend, hs, ht]
    · simp [prepend, ht]
  · cases e with
    | data u => simp [prepend, String.append_assoc]
    | start tag attrs =>
      by_cases ht : t = ""
      · by_cases hs : s = "" <;> simp [prepend, hs, ht]
      · simp [prepend, ht]
    | stop tag =>
      by_cases ht : t = ""
      · by_cases hs : s = "" <;> simp [prepend, hs, ht]
      · simp [prepend, ht]

/-- **A handler** that adds up its data ends where it does, no matter how they are cut up. -/
theorem Same.foldl {σ : Type} {handle : σ → Event → σ} (hempty : ∀ s, handle s (.data "") = s)
    (hjoin : ∀ s t u, handle (handle s (.data t)) (.data u) = handle s (.data (t ++ u)))
    {es fs : List Event} (h : Same es fs) (s : σ) : es.foldl handle s = fs.foldl handle s := by
  have hprepend (t : String) (es : List Event) (s : σ) :
      (prepend t es).foldl handle s = es.foldl handle (handle s (.data t)) := by
    have hrest (rest : List Event) : (if t = "" then rest else .data t :: rest).foldl handle s =
        rest.foldl handle (handle s (.data t)) := by
      split
      · next ht => rw [ht, hempty]
      · rw [List.foldl_cons]
    rcases es with _ | ⟨e, es⟩
    · exact hrest []
    · cases e with
      | data u =>
        change es.foldl handle (handle s (.data (t ++ u))) = _
        rw [← hjoin, List.foldl_cons]
      | start tag attrs => exact hrest _
      | stop tag => exact hrest _
  have hcoalesce (es : List Event) (s : σ) : (coalesce es).foldl handle s = es.foldl handle s := by
    induction es generalizing s with
    | nil => rfl
    | cons e es ih =>
      cases e with
      | data t => rw [coalesce, hprepend, ih, List.foldl_cons]
      | start tag attrs => rw [coalesce, List.foldl_cons, ih, List.foldl_cons]
      | stop tag => rw [coalesce, List.foldl_cons, ih, List.foldl_cons]
  unfold Same at h
  rw [← hcoalesce es, h, hcoalesce]

/-! ## A reader -/

/-- What is being read. -/
inductive Mode where
  | text (raw : List Char)
  | bracket
  | declaration
  | stopName (name : List Char)
  | startName (name : List Char)
  | attrs (tag : String) (found : List (String × Option String))
  | attrName (tag : String) (found : List (String × Option String)) (name : List Char)
  | attrValue (tag : String) (found : List (String × Option String)) (name : List Char)
  | quoted (tag : String) (found : List (String × Option String)) (name value : List Char)

/-- A document that is being read, with the events so far. -/
structure Scan where
  mode : Mode
  events : List Event

/-- A text that ends. -/
def dataOf (raw : List Char) : Event := .data (String.ofList (unescapeChars raw))

/-- An attribute that ends, without a value. -/
def bare (name : List Char) : String × Option String := (String.ofList name, none)

/-- An attribute that ends, with its value between quotes. -/
def valued (name value : List Char) : String × Option String :=
  (String.ofList name, some (String.ofList (unescapeChars value)))

/-- One character. -/
def Scan.next (s : Scan) (c : Char) : Scan :=
  match s.mode with
  | .text raw =>
    if c = '<' then ⟨.bracket, s.events ++ [dataOf raw]⟩ else ⟨.text (raw ++ [c]), s.events⟩
  | .bracket =>
    if c = '!' then ⟨.declaration, s.events⟩
    else if c = '/' then ⟨.stopName [], s.events⟩
    else ⟨.startName [c], s.events⟩
  | .declaration => if c = '>' then ⟨.text [], s.events⟩ else s
  | .stopName name =>
    if c = '>' then ⟨.text [], s.events ++ [.stop (String.ofList name)]⟩
    else ⟨.stopName (name ++ [c]), s.events⟩
  | .startName name =>
    if c = '>' then ⟨.text [], s.events ++ [.start (String.ofList name) []]⟩
    else if c = ' ' then ⟨.attrs (String.ofList name) [], s.events⟩
    else ⟨.startName (name ++ [c]), s.events⟩
  | .attrs tag found =>
    if c = '>' then ⟨.text [], s.events ++ [.start tag found]⟩
    else if c = ' ' then s
    else ⟨.attrName tag found [c], s.events⟩
  | .attrName tag found name =>
    if c = '=' then ⟨.attrValue tag found name, s.events⟩
    else if c = '>' then ⟨.text [], s.events ++ [.start tag (found ++ [bare name])]⟩
    else if c = ' ' then ⟨.attrs tag (found ++ [bare name]), s.events⟩
    else ⟨.attrName tag found (name ++ [c]), s.events⟩
  | .attrValue tag found name =>
    if c = '"' then ⟨.quoted tag found name [], s.events⟩ else s
  | .quoted tag found name value =>
    if c = '"' then ⟨.attrs tag (found ++ [valued name value]), s.events⟩
    else ⟨.quoted tag found name (value ++ [c]), s.events⟩

def Scan.run (s : Scan) (chars : List Char) : Scan := chars.foldl Scan.next s

/-- What is left when the document ends. -/
def Scan.finish (s : Scan) : List Event :=
  match s.mode with
  | .text raw => s.events ++ [dataOf raw]
  | _ => s.events

def scan (document : String) : List Event := ((⟨.text [], []⟩ : Scan).run document.toList).finish

theorem Scan.run_append (s : Scan) (cs ds : List Char) : s.run (cs ++ ds) = (s.run cs).run ds :=
  List.foldl_append

theorem Scan.run_cons (s : Scan) (c : Char) (cs : List Char) :
    s.run (c :: cs) = (s.next c).run cs := rfl

/-- The characters of a name end nothing. -/
theorem inName_plain {c : Char} (h : inName c = true) :
    c ≠ '>' ∧ c ≠ ' ' ∧ c ≠ '=' ∧ c ≠ '!' ∧ c ≠ '/' := by
  refine ⟨?_, ?_, ?_, ?_, ?_⟩ <;> rintro rfl <;> revert h <;> decide

theorem IsName.chars {s : String} (h : IsName s) :
    ∃ c cs, s.toList = c :: cs ∧ inName c = true ∧ ∀ d ∈ cs, inName d = true := by
  obtain ⟨c, cs, hs⟩ := List.exists_cons_of_ne_nil
    (fun hnil => h.1 (String.toList_eq_nil_iff.mp hnil))
  have hall := List.all_eq_true.mp h.2
  rw [hs] at hall
  obtain ⟨hc, hcs⟩ := List.forall_mem_cons.mp hall
  exact ⟨c, cs, hs, hc, hcs⟩

section Run

variable {events : List Event}

/-- Where every character goes to what is collected, a text does. -/
theorem run_collect (events : List Event) (collect : List Char → Mode) (p : Char → Prop)
    (h : ∀ found c, p c →
      (⟨collect found, events⟩ : Scan).next c = ⟨collect (found ++ [c]), events⟩)
    {cs : List Char} (hcs : ∀ c ∈ cs, p c) (found : List Char) :
    (⟨collect found, events⟩ : Scan).run cs = ⟨collect (found ++ cs), events⟩ := by
  induction cs generalizing found with
  | nil =>
    rw [List.append_nil]
    rfl
  | cons c cs ih =>
    obtain ⟨hc, hcs⟩ := List.forall_mem_cons.mp hcs
    rw [Scan.run_cons, h found c hc, ih hcs, List.append_assoc]
    rfl

theorem dataOf_escaped (s : List Char) : dataOf (escapeChars s) = .data (String.ofList s) := by
  unfold dataOf
  rw [unescapeChars_escapeChars]

/-- The characters of a text that is written. -/
theorem run_text (raw s : List Char) :
    (⟨.text raw, events⟩ : Scan).run (escapeChars s) = ⟨.text (raw ++ escapeChars s), events⟩ :=
  run_collect events .text (· ≠ '<') (fun _ _ hc => if_neg hc)
    (fun c hc => (escapeChars_avoids s c hc).1) raw

theorem run_value {tag : String} {found : List (String × Option String)} (name : List Char)
    (s : String) :
    (⟨.quoted tag found name [], events⟩ : Scan).run (escapeChars s.toList ++ ['"']) =
      ⟨.attrs tag (found ++ [(String.ofList name, some s)]), events⟩ := by
  have hcollect := run_collect events (.quoted tag found name) (· ≠ '"')
    (fun _ _ hc => if_neg hc) (fun c hc => (escapeChars_avoids s.toList c hc).2) []
  rw [Scan.run_append, hcollect, List.nil_append]
  change (⟨.attrs tag (found ++ [valued name (escapeChars s.toList)]), events⟩ : Scan) = _
  unfold valued
  rw [unescapeChars_escapeChars, String.ofList_toList]

/-- One attribute. -/
theorem run_attr {tag : String} {found : List (String × Option String)} {a : String × String}
    (h : IsName a.1) : (⟨.attrs tag found, events⟩ : Scan).run (attrChars a) =
      ⟨.attrs tag (found ++ [(a.1, some a.2)]), events⟩ := by
  obtain ⟨name, value⟩ := a
  obtain ⟨c, cs, hname, hc, hcs⟩ := h.chars
  obtain ⟨hgt, hblank, -⟩ := inName_plain hc
  have hfirst : (⟨.attrs tag found, events⟩ : Scan).next c = ⟨.attrName tag found [c], events⟩ := by
    unfold Scan.next
    dsimp only
    rw [if_neg hgt, if_neg hblank]
  have hrest := run_collect events (.attrName tag found) (fun c => inName c = true)
    (fun name c hc => by
      obtain ⟨hgt, hblank, hequal, -⟩ := inName_plain hc
      unfold Scan.next
      dsimp only
      rw [if_neg hequal, if_neg hgt, if_neg hblank]) hcs [c]
  unfold attrChars
  rw [hname, Scan.run_cons, List.cons_append, Scan.run_cons]
  change (((⟨.attrs tag found, events⟩ : Scan).next c).run _) = _
  rw [hfirst, Scan.run_append, hrest, Scan.run_cons, Scan.run_cons]
  change (⟨.quoted tag found ([c] ++ cs) [], events⟩ : Scan).run _ = _
  rw [run_value, List.singleton_append, ← hname, String.ofList_toList]

theorem run_attrs {tag : String} {attrs : Attrs} (h : ∀ a ∈ attrs, IsName a.1)
    (found : List (String × Option String)) :
    (⟨.attrs tag found, events⟩ : Scan).run (attrs.flatMap attrChars) =
      ⟨.attrs tag (found ++ given attrs), events⟩ := by
  induction attrs generalizing found with
  | nil =>
    rw [given, List.map_nil, List.append_nil]
    rfl
  | cons a attrs ih =>
    obtain ⟨ha, hattrs⟩ := List.forall_mem_cons.mp h
    rw [List.flatMap_cons, Scan.run_append, run_attr ha, ih hattrs, List.append_assoc]
    rfl

/-- Behind the name of a start tag, its attributes are read. -/
theorem run_startName (name : List Char) (attrs : Attrs) :
    (⟨.startName name, events⟩ : Scan).run (attrs.flatMap attrChars ++ ['>']) =
      (⟨.attrs (String.ofList name) [], events⟩ : Scan).run (attrs.flatMap attrChars ++ ['>']) := by
  cases attrs with
  | nil => rfl
  | cons a attrs => rfl

/-- A start tag, behind a text. -/
theorem run_startTag {name : String} {attrs : Attrs} (hname : IsName name)
    (h : ∀ a ∈ attrs, IsName a.1) (raw : List Char) :
    (⟨.text raw, events⟩ : Scan).run (startTag name attrs) =
      ⟨.text [], events ++ [dataOf raw, .start name (given attrs)]⟩ := by
  obtain ⟨c, cs, hchars, hc, hcs⟩ := hname.chars
  obtain ⟨-, -, -, hbang, hslash⟩ := inName_plain hc
  have hfirst : (⟨.bracket, events ++ [dataOf raw]⟩ : Scan).next c =
      ⟨.startName [c], events ++ [dataOf raw]⟩ := by
    unfold Scan.next
    dsimp only
    rw [if_neg hbang, if_neg hslash]
  have hrest := run_collect (events ++ [dataOf raw]) .startName
    (fun c => inName c = true) (fun name c hc => by
      obtain ⟨hgt, hblank, -⟩ := inName_plain hc
      unfold Scan.next
      dsimp only
      rw [if_neg hgt, if_neg hblank]) hcs [c]
  unfold startTag
  rw [hchars, Scan.run_cons, List.cons_append, Scan.run_cons]
  change ((⟨.bracket, events ++ [dataOf raw]⟩ : Scan).next c).run _ = _
  rw [hfirst, Scan.run_append, hrest, run_startName, Scan.run_append, run_attrs h,
    List.singleton_append, ← hchars, String.ofList_toList]
  change (⟨.text [], events ++ [dataOf raw] ++ [.start name (given attrs)]⟩ : Scan) = _
  rw [List.append_assoc]
  rfl

/-- An end tag, behind a text. -/
theorem run_endTag {name : String} (hname : IsName name) (raw : List Char) :
    (⟨.text raw, events⟩ : Scan).run (endTag name) =
      ⟨.text [], events ++ [dataOf raw, .stop name]⟩ := by
  have hrest := run_collect (events ++ [dataOf raw]) .stopName
    (fun c => inName c = true) (fun name c hc => if_neg (inName_plain hc).1)
    (List.all_eq_true.mp hname.2) []
  unfold endTag
  rw [Scan.run_cons, Scan.run_cons, Scan.run_append]
  change ((⟨.stopName [], events ++ [dataOf raw]⟩ : Scan).run name.toList).run ['>'] = _
  rw [hrest, List.nil_append]
  change (⟨.text [], events ++ [dataOf raw] ++ [.stop (String.ofList name.toList)]⟩ : Scan) = _
  rw [List.append_assoc, String.ofList_toList]
  rfl

end Run

/-! ### What it reads -/

theorem Container.isName (c : Container) : IsName c.name := by
  cases c <;> exact ⟨by decide, by decide⟩

theorem Leaf.isName (l : Leaf) : IsName l.name := by
  cases l <;> exact ⟨by decide, by decide⟩

theorem Void.isName (v : Void) : IsName v.name := by
  cases v <;> exact ⟨by decide, by decide⟩

theorem run_doctype {events : List Event} (raw : List Char) :
    (⟨.text raw, events⟩ : Scan).run Piece.doctype.chars = ⟨.text [], events ++ [dataOf raw]⟩ := by
  have hall : "DOCTYPE html".toList.all (fun c => decide (c ≠ '>')) = true := by decide
  have hrest := run_collect (events ++ [dataOf raw]) (fun _ => .declaration) (· ≠ '>')
    (fun _ _ hc => if_neg hc) (fun c hc => of_decide_eq_true (List.all_eq_true.mp hall c hc)) []
  unfold Piece.chars
  rw [Scan.run_cons, Scan.run_cons, Scan.run_append]
  change ((⟨.declaration, events ++ [dataOf raw]⟩ : Scan).run _).run ['>'] = _
  rw [hrest]
  rfl

theorem run_leaf {events : List Event} (l : Leaf) {attrs : Attrs} (h : ∀ a ∈ attrs, IsName a.1)
    (raw : List Char) (content : String) :
    (⟨.text raw, events⟩ : Scan).run (Piece.leaf l attrs content).chars =
      ⟨.text [], events ++
        [dataOf raw, .start l.name (given attrs), .data content, .stop l.name]⟩ := by
  unfold Piece.chars
  rw [Scan.run_append, Scan.run_append, run_startTag l.isName h, run_text, List.nil_append,
    run_endTag l.isName, dataOf_escaped, String.ofList_toList, List.append_assoc]
  rfl

/-- **One piece**, with the text before it: what is called out, and the text that is left. -/
theorem run_piece {piece : Piece} (h : ∀ a ∈ piece.attrs, IsName a.1) (events : List Event)
    (before : List Char) : ∃ called after,
      (⟨.text (escapeChars before), events⟩ : Scan).run piece.chars =
        ⟨.text (escapeChars after), events ++ called⟩ ∧
      ∀ rest, Same (called ++ .data (String.ofList after) :: rest)
        (.data (String.ofList before) :: (piece.events ++ rest)) := by
  have htag (e : Event) (rest : List Event) :
      Same ([.data (String.ofList before), e] ++ .data (String.ofList []) :: rest)
        (.data (String.ofList before) :: ([e] ++ rest)) :=
    ((same_empty rest).cons e).cons _
  cases piece with
  | doctype =>
    refine ⟨_, [], run_doctype _, fun rest => ?_⟩
    rw [dataOf_escaped]
    exact (same_empty rest).cons _
  | opening c attrs =>
    refine ⟨_, [], run_startTag c.isName h _, fun rest => ?_⟩
    rw [dataOf_escaped]
    exact htag _ rest
  | closing c =>
    refine ⟨_, [], run_endTag c.isName _, fun rest => ?_⟩
    rw [dataOf_escaped]
    exact htag _ rest
  | void v attrs =>
    refine ⟨_, [], run_startTag v.isName h _, fun rest => ?_⟩
    rw [dataOf_escaped]
    exact htag _ rest
  | leaf l attrs content =>
    refine ⟨_, [], run_leaf l h _ content, fun rest => ?_⟩
    rw [dataOf_escaped]
    exact ((((same_empty rest).cons _).cons _).cons _).cons _
  | text s =>
    refine ⟨[], before ++ s.toList, ?_, fun rest => ?_⟩
    · unfold Piece.chars
      rw [run_text, escapeChars_append, List.append_nil]
    · rw [String.ofList_append, String.ofList_toList]
      exact (same_joined _ s rest).symm

theorem run_write {m : List Piece} (h : Named m) (events : List Event) (before : List Char) :
    Same ((⟨.text (escapeChars before), events⟩ : Scan).run (write m)).finish
      (events ++ .data (String.ofList before) :: m.flatMap Piece.events) := by
  induction m generalizing events before with
  | nil =>
    have hfinish : ((⟨.text (escapeChars before), events⟩ : Scan).run (write [])).finish =
        events ++ [.data (String.ofList before)] := by
      rw [← dataOf_escaped]
      rfl
    rw [hfinish]
    rfl
  | cons piece m ih =>
    obtain ⟨hpiece, hm⟩ := List.forall_mem_cons.mp h
    obtain ⟨called, after, hrun, hsame⟩ := run_piece hpiece events before
    have hwrite : write (piece :: m) = piece.chars ++ write m := List.flatMap_cons
    rw [hwrite, Scan.run_append, hrun, List.flatMap_cons]
    refine (ih hm (events ++ called) after).trans ?_
    rw [List.append_assoc]
    exact (hsame _).append events

/-- **The scanner reads what was written.** -/
def scanner : Reader where
  feed := scan
  reads m hm := by
    unfold scan
    rw [String.toList_ofList]
    have hrun := run_write hm [] []
    exact hrun.trans (same_empty _)

end Minireg.Lib.Html
