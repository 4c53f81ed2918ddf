import Minireg.Cli.Requirements
import Minireg.Core.SemverText

/-!
# Requirements as PEP 508 writes them

A `Requirement` is a name with what may follow it: extras, version specifiers with or without
parentheses, and a marker or options. `readLine_requirement` says what `readLine` makes of one.
-/

namespace Minireg.Cli

open Py Semver

/-! ## The grammar -/

/-- A blank of the grammar. -/
def isBlank (c : Char) : Bool := c == ' ' || c == '\t'

/-- Blanks between two parts. -/
abbrev Gap := { s : List Char // ∀ c ∈ s, isBlank c = true }

/-- A letter or a digit. -/
def isLetterOrDigit (c : Char) : Bool := isAlnum c && c ≠ '-'

/-- A name starts and ends with a letter or a digit. -/
structure ProjectName where
  chars : List Char
  inName : ∀ c ∈ chars, isNameChar c = true
  first : ∃ c t, chars = c :: t ∧ isLetterOrDigit c = true
  last : ∀ c, chars.getLast? = some c → isLetterOrDigit c = true

/-- A version operator. -/
inductive Compare where
  | le | lt | ne | eq | ge | gt | compatible | arbitrary
  deriving DecidableEq

namespace Compare

def text : Compare → List Char
  | le => ['<', '=']
  | lt => ['<']
  | ne => ['!', '=']
  | eq => ['=', '=']
  | ge => ['>', '=']
  | gt => ['>']
  | compatible => ['~', '=']
  | arbitrary => ['=', '=', '=']

/-- `==` and `===` pin a version. -/
def pins : Compare → Bool
  | eq | arbitrary => true
  | _ => false

end Compare

/-- A character of a version. -/
def isVersionChar (c : Char) : Bool :=
  isAlnum c || c == '_' || c == '.' || c == '*' || c == '+' || c == '!'

structure Clause where
  op : Compare
  gap : Gap
  version : List Char
  version_ne : version ≠ []
  inVersion : ∀ c ∈ version, isVersionChar c = true

def Clause.text (c : Clause) : List Char := c.op.text ++ (c.gap.val ++ c.version)

/-- Clauses separated by commas. -/
structure Clauses where
  first : Clause
  rest : List (Gap × Gap × Clause)

namespace Clauses

/-- What follows the first clause. -/
def restText (cs : Clauses) : List Char :=
  cs.rest.flatMap fun (before, after, clause) => before.val ++ ',' :: (after.val ++ clause.text)

def text (cs : Clauses) : List Char := cs.first.text ++ cs.restText

end Clauses

inductive Specifiers where
  | none
  | bare (clauses : Clauses)
  | parenthesised (before after : Gap) (clauses : Clauses)

namespace Specifiers

def text : Specifiers → List Char
  | none => []
  | bare clauses => clauses.text
  | parenthesised before after clauses =>
    '(' :: (before.val ++ (clauses.text ++ (after.val ++ [')'])))

def clauses? : Specifiers → Option Clauses
  | none => .none
  | bare clauses | parenthesised _ _ clauses => some clauses

end Specifiers

/-- What follows the specifiers: a marker, or options of the requirement. -/
inductive Tail where
  | none
  | marker (text : List Char)
  | options (text : List Char)
  deriving DecidableEq

def Tail.text : Tail → List Char
  | none => []
  | marker text => ';' :: text
  | options text => ' ' :: '-' :: '-' :: text

/-- Extras, without their brackets. -/
abbrev Extras := { s : List Char // ∀ c ∈ s, (isNameChar c || isBlank c || c == ',') = true }

def extrasText : Option Extras → List Char
  | none => []
  | some extras => '[' :: (extras.val ++ [']'])

/-- A name-based requirement. -/
structure Requirement where
  name : ProjectName
  beforeExtras : Gap
  extras : Option Extras
  afterExtras : Gap
  specifiers : Specifiers
  beforeTail : Gap
  tail : Tail

namespace Requirement

/-- What follows the extras. -/
def rest (r : Requirement) : List Char :=
  r.specifiers.text ++ (r.beforeTail.val ++ r.tail.text)

/-- What follows the name. -/
def afterName (r : Requirement) : List Char :=
  r.beforeExtras.val ++ (extrasText r.extras ++ (r.afterExtras.val ++ r.rest))

def text (r : Requirement) : List Char := r.name.chars ++ r.afterName

/-- The version that the first clause pins, up to a blank. -/
def pinned? (r : Requirement) : Option (List Char) :=
  match r.specifiers.clauses? with
  | none => none
  | some cs =>
    if cs.first.op.pins then some ((cs.first.version ++ cs.restText).takeWhile isPinChar) else none

/-- Nothing in parentheses, and nothing right after the name. -/
def plain (r : Requirement) : Bool :=
  match r.specifiers with
  | .bare _ => true
  | .none => r.tail = .none
  | .parenthesised _ _ _ => false

end Requirement

/-! ## Scanning a requirement -/

theorem isSpace_of_isBlank {c : Char} (h : isBlank c = true) : isSpace c = true := by
  unfold isBlank at h
  rw [Bool.or_eq_true, beq_iff_eq, beq_iff_eq] at h
  rcases h with rfl | rfl <;> rfl

theorem Gap.dropWhile (g : Gap) (s : List Char) :
    (g.val ++ s).dropWhile isSpace = s.dropWhile isSpace := by
  rw [List.dropWhile_append_of_pos fun c hc => isSpace_of_isBlank (g.property c hc)]

theorem Gap.stops {p : Char → Bool} (g : Gap) {s : List Char}
    (hp : ∀ c, isBlank c = true → p c = false) (hs : Stops p s) : Stops p (g.val ++ s) := by
  obtain ⟨l, hl⟩ := g
  rcases l with _ | ⟨c, t⟩
  · exact hs
  · exact .cons (hp c (hl c List.mem_cons_self))

theorem isNameChar_of_isBlank {c : Char} (h : isBlank c = true) : isNameChar c = false := by
  unfold isBlank at h
  rw [Bool.or_eq_true, beq_iff_eq, beq_iff_eq] at h
  rcases h with rfl | rfl <;> rfl

theorem isPinChar_of_isBlank {c : Char} (h : isBlank c = true) : isPinChar c = false := by
  unfold isPinChar
  rw [isSpace_of_isBlank h]
  rfl

theorem Compare.text_cons (op : Compare) : ∃ c t, op.text = c :: t ∧ isSpecifierStart c = true := by
  cases op
  case le => exact ⟨'<', ['='], rfl, rfl⟩
  case lt => exact ⟨'<', [], rfl, rfl⟩
  case ne => exact ⟨'!', ['='], rfl, rfl⟩
  case eq => exact ⟨'=', ['='], rfl, rfl⟩
  case ge => exact ⟨'>', ['='], rfl, rfl⟩
  case gt => exact ⟨'>', [], rfl, rfl⟩
  case compatible => exact ⟨'~', ['='], rfl, rfl⟩
  case arbitrary => exact ⟨'=', ['=', '='], rfl, rfl⟩

theorem Clauses.text_cons (cs : Clauses) :
    ∃ c t, cs.text = c :: t ∧ isSpecifierStart c = true := by
  obtain ⟨c, t, hop, hc⟩ := cs.first.op.text_cons
  unfold Clauses.text Clause.text
  rw [hop]
  exact ⟨c, _, rfl, hc⟩

/-- A character that what follows the extras can start with. -/
def isRestStart (c : Char) : Bool := isSpecifierStart c || c == '(' || isBlank c || c == ';'

theorem isRestStart_cases {c : Char} (h : isRestStart c = true) :
    c ∈ ['<', '>', '~', '!', '=', '(', ' ', '\t', ';'] := by
  unfold isRestStart isSpecifierStart isBlank at h
  simp only [Bool.or_eq_true, beq_iff_eq, decide_eq_true_eq] at h
  simp only [List.mem_cons, List.not_mem_nil, or_false] at h ⊢
  tauto

theorem isNameChar_of_isRestStart {c : Char} (h : isRestStart c = true) : isNameChar c = false :=
  List.all_eq_true.mp (by decide : (['<', '>', '~', '!', '=', '(', ' ', '\t', ';'].all
    fun c => isNameChar c == false) = true) c (isRestStart_cases h) |> beq_iff_eq.mp

theorem isSpace_of_isSpecifierStart {c : Char} (h : isSpecifierStart c = true) :
    isSpace c = false :=
  List.all_eq_true.mp (by decide : (['<', '>', '~', '!', '='].all
    fun c => isSpace c == false) = true) c (of_decide_eq_true h) |> beq_iff_eq.mp

namespace Requirement

variable (r : Requirement)

theorem tail_start : ∀ c t, r.tail.text = c :: t → isRestStart c = true := by
  intro c t h
  rcases htail : r.tail with _ | m | o
  · rw [htail] at h
    cases h
  · rw [htail] at h
    obtain ⟨rfl, -⟩ := List.cons.inj h
    rfl
  · rw [htail] at h
    obtain ⟨rfl, -⟩ := List.cons.inj h
    rfl

/-- What follows the specifiers starts with a blank or a semicolon. -/
theorem stops_tail : Stops isPinChar (r.beforeTail.val ++ r.tail.text) := by
  refine r.beforeTail.stops (fun c hc => isPinChar_of_isBlank hc) ?_
  rcases r.tail with _ | m | o
  · exact .nil
  · exact .cons rfl
  · exact .cons rfl

theorem rest_start : ∀ c t, r.rest = c :: t → isRestStart c = true := by
  intro c t h
  unfold rest at h
  rcases hspec : r.specifiers with _ | cs | ⟨before, after, cs⟩
  · rw [hspec] at h
    obtain ⟨l, hl⟩ : ∃ l, r.beforeTail.val = l := ⟨_, rfl⟩
    have hblank := r.beforeTail.property
    rw [hl] at hblank
    rw [hl] at h
    rcases l with _ | ⟨d, l⟩
    · exact r.tail_start c t h
    · obtain ⟨rfl, -⟩ := List.cons.inj h
      unfold isRestStart
      rw [hblank d List.mem_cons_self]
      simp
  · rw [hspec] at h
    obtain ⟨d, u, htext, hd⟩ := cs.text_cons
    have htext' : (Specifiers.bare cs).text = d :: u := htext
    rw [htext'] at h
    obtain ⟨rfl, -⟩ := List.cons.inj h
    unfold isRestStart
    rw [hd]
    rfl
  · rw [hspec] at h
    obtain ⟨rfl, -⟩ := List.cons.inj h
    rfl

theorem stops_afterName : Stops isNameChar r.afterName := by
  have hrest : Stops isNameChar (r.afterExtras.val ++ r.rest) :=
    r.afterExtras.stops (fun c hc => isNameChar_of_isBlank hc)
      fun c t h => isNameChar_of_isRestStart (r.rest_start c t h)
  refine r.beforeExtras.stops (fun c hc => isNameChar_of_isBlank hc) ?_
  rcases r.extras with _ | extras
  · exact hrest
  · exact .cons rfl

/-- What is left of the tail behind its blanks. -/
theorem dropWhile_tail : r.tail.text.dropWhile isSpace =
    match r.tail with
    | .none => []
    | .marker text => ';' :: text
    | .options text => '-' :: '-' :: text := by
  rcases r.tail with _ | m | o <;> rfl

theorem dropWhile_rest_none (h : r.specifiers = .none) :
    r.rest.dropWhile isSpace = r.tail.text.dropWhile isSpace := by
  unfold rest
  rw [h]
  exact Gap.dropWhile _ _

theorem dropWhile_rest_bare {cs : Clauses} (h : r.specifiers = .bare cs) :
    r.rest.dropWhile isSpace = r.rest := by
  obtain ⟨c, t, htext, hc⟩ := cs.text_cons
  unfold rest
  rw [h]
  dsimp only [Specifiers.text]
  rw [htext, List.cons_append,
    List.dropWhile_cons_of_neg (by simp [isSpace_of_isSpecifierStart hc])]

theorem dropWhile_rest_parenthesised {before after : Gap} {cs : Clauses}
    (h : r.specifiers = .parenthesised before after cs) : r.rest.dropWhile isSpace = r.rest := by
  unfold rest
  rw [h]
  rfl

theorem dropWhile_rest_ne (t : List Char) : r.rest.dropWhile isSpace ≠ '[' :: t := by
  intro heq
  rcases hspec : r.specifiers with _ | cs | ⟨before, after, cs⟩
  · rw [r.dropWhile_rest_none hspec, dropWhile_tail] at heq
    split at heq
    · cases heq
    · cases (List.cons.inj heq).1
    · cases (List.cons.inj heq).1
  · rw [r.dropWhile_rest_bare hspec] at heq
    cases r.rest_start _ _ heq
  · rw [r.dropWhile_rest_parenthesised hspec] at heq
    cases r.rest_start _ _ heq

/-- The extras are skipped. -/
theorem skipExtras_afterName : skipExtras r.afterName = r.rest.dropWhile isSpace := by
  unfold skipExtras afterName
  rw [Gap.dropWhile]
  rcases r.extras with _ | extras
  · have hdrop : (extrasText none ++ (r.afterExtras.val ++ r.rest)).dropWhile isSpace =
        r.rest.dropWhile isSpace := Gap.dropWhile _ _
    rw [hdrop]
    split
    · next t heq => exact absurd (r.dropWhile_rest_ne t) (not_not.mpr heq)
    · rfl
  · have hdrop : (extrasText (some extras) ++ (r.afterExtras.val ++ r.rest)).dropWhile isSpace =
        '[' :: (extras.val ++ (']' :: (r.afterExtras.val ++ r.rest))) := by
      simp [extrasText, show isSpace '[' = false from rfl]
    rw [hdrop]
    have hclose : ∀ c ∈ extras.val, decide (c ≠ ']') = true := by
      intro c hc
      have hin := extras.property c hc
      refine decide_eq_true fun heq => ?_
      subst heq
      cases hin
    have hinner : (extras.val ++ (']' :: (r.afterExtras.val ++ r.rest))).dropWhile (· ≠ ']') =
        ']' :: (r.afterExtras.val ++ r.rest) := by
      rw [List.dropWhile_append_of_pos hclose, List.dropWhile_cons_of_neg (by decide)]
    show closeExtras (extras.val ++ (']' :: (r.afterExtras.val ++ r.rest))) = _
    unfold closeExtras
    rw [hinner]
    exact Gap.dropWhile _ _

theorem scan_text : r.text.takeWhile isNameChar = r.name.chars ∧
    r.text.dropWhile isNameChar = r.afterName :=
  takeWhile_append_stops r.name.inName r.stops_afterName

theorem name_ne : r.name.chars ≠ [] := by
  obtain ⟨c, t, hname, -⟩ := r.name.first
  rw [hname]
  exact List.cons_ne_nil _ _

/-- A requirement starts with a letter or a digit. -/
theorem text_cons : ∃ c t, r.text = c :: t ∧ isLetterOrDigit c = true := by
  obtain ⟨c, t, hname, hc⟩ := r.name.first
  unfold text
  rw [hname]
  exact ⟨c, _, rfl, hc⟩

theorem matchInclude_text : matchInclude r.text = none := by
  obtain ⟨c, t, htext, hc⟩ := r.text_cons
  have hne : (c == '-') = false := by
    rw [beq_eq_false_iff_ne]
    rintro rfl
    cases hc
  unfold matchInclude
  rw [htext]
  have hdash (s : List Char) : (c :: t).dropPrefix? ('-' :: s) = none := by
    unfold List.dropPrefix?
    rw [hne]
    rfl
  have hshort : "-r".toList = '-' :: ['r'] := by decide
  have hlong : "--requirement".toList = '-' :: "-requirement".toList := by decide
  rw [hshort, hlong, hdash, hdash]
  rfl

/-- The first clause, and what follows it up to the tail. -/
theorem rest_bare {cs : Clauses} (h : r.specifiers = .bare cs) :
    r.rest = cs.first.op.text ++ (cs.first.gap.val ++ ((cs.first.version ++ cs.restText) ++
      (r.beforeTail.val ++ r.tail.text))) := by
  unfold rest
  rw [h]
  simp [Specifiers.text, Clauses.text, Clause.text]

/-- What follows the operator does not go on with it. -/
theorem clause_start (c : Clause) (more : List Char) :
    ∃ d t, c.gap.val ++ (c.version ++ more) = d :: t ∧ d ≠ '=' := by
  obtain ⟨l, hl⟩ : ∃ l, c.gap.val = l := ⟨_, rfl⟩
  have hblank := c.gap.property
  rw [hl] at hblank ⊢
  rcases l with _ | ⟨d, l⟩
  · obtain ⟨d, t, hversion⟩ := List.exists_cons_of_ne_nil c.version_ne
    have hd := c.inVersion d (hversion ▸ List.mem_cons_self)
    rw [hversion]
    refine ⟨d, _, rfl, ?_⟩
    rintro rfl
    cases hd
  · refine ⟨d, _, rfl, ?_⟩
    rintro rfl
    cases hblank '=' List.mem_cons_self

theorem isPinChar_of_isVersionChar {c : Char} (h : isVersionChar c = true) :
    isPinChar c = true := by
  unfold isVersionChar at h
  simp only [Bool.or_eq_true, beq_iff_eq] at h
  have hspecial : ∀ d ∈ ['_', '.', '*', '+', '!'], isPinChar d = true :=
    List.all_eq_true.mp (by decide)
  have halnum (hc : isAlnum c = true) : isPinChar c = true := by
    unfold isPinChar
    rw [isSpace_of_isAlnum hc]
    have hsemicolon : c ≠ ';' := by
      rintro rfl
      cases hc
    have hhash : c ≠ '#' := by
      rintro rfl
      cases hc
    simp [hsemicolon, hhash]
  rcases h with ((((h | rfl) | rfl) | rfl) | rfl) | rfl
  · exact halnum h
  · exact hspecial _ (by simp)
  · exact hspecial _ (by simp)
  · exact hspecial _ (by simp)
  · exact hspecial _ (by simp)
  · exact hspecial _ (by simp)

theorem scanPinned_clause (c : Clause) (restText : List Char) {more : List Char}
    (hmore : Stops isPinChar more) :
    scanPinned (c.gap.val ++ ((c.version ++ restText) ++ more)) =
      some ((c.version ++ restText).takeWhile isPinChar) := by
  obtain ⟨d, t, hversion⟩ := List.exists_cons_of_ne_nil c.version_ne
  have hd : isPinChar d = true :=
    isPinChar_of_isVersionChar (c.inVersion d (hversion ▸ List.mem_cons_self))
  have hspace : isSpace d = false := by
    unfold isPinChar at hd
    simp only [Bool.and_eq_true, Bool.not_eq_true'] at hd
    exact hd.1.1
  have htake (s : List Char) : (s ++ more).takeWhile isPinChar = s.takeWhile isPinChar := by
    induction s with
    | nil =>
      rcases more with _ | ⟨e, more⟩
      · rfl
      · rw [List.nil_append, List.takeWhile_cons_of_neg (by simp [hmore e more rfl])]
        rfl
    | cons e s ih =>
      rw [List.cons_append, List.takeWhile_cons, List.takeWhile_cons, ih]
  unfold scanPinned
  rw [Gap.dropWhile, hversion, List.cons_append, List.cons_append,
    List.dropWhile_cons_of_neg (by simp [hspace]), ← List.cons_append, htake,
    List.takeWhile_cons_of_pos hd]
  rfl

theorem matchPin_bare {cs : Clauses} (h : r.specifiers = .bare cs) :
    matchPin r.text = if cs.first.op.pins then
      some (r.name.chars, (cs.first.version ++ cs.restText).takeWhile isPinChar) else none := by
  have hscan := scanPinned_clause cs.first cs.restText r.stops_tail
  obtain ⟨d, t, hstart, hd⟩ :=
    clause_start cs.first (cs.restText ++ (r.beforeTail.val ++ r.tail.text))
  rw [← List.append_assoc cs.first.version] at hstart
  unfold matchPin
  rw [r.scan_text.1, r.scan_text.2, if_neg r.name_ne, r.skipExtras_afterName,
    r.dropWhile_rest_bare h, r.rest_bare h]
  rw [hstart] at hscan ⊢
  have heq : pinnedAfter ('=' :: '=' :: d :: t) = scanPinned (d :: t) := by
    unfold pinnedAfter
    split
    · next h => exact absurd (List.cons.inj (List.cons.inj (List.cons.inj h).2).2).1 hd
    · next h => exact absurd (List.cons.inj (List.cons.inj (List.cons.inj h).2).2).1 hd
    · next h => rw [(List.cons.inj (List.cons.inj h).2).2]
    · next h => exact absurd rfl (h (d :: t))
  have harbitrary : pinnedAfter ('=' :: '=' :: '=' :: d :: t) = scanPinned (d :: t) := by
    unfold pinnedAfter
    split
    · next h =>
      exact absurd (List.cons.inj (List.cons.inj (List.cons.inj (List.cons.inj h).2).2).2).1 hd
    · next h => rw [(List.cons.inj (List.cons.inj (List.cons.inj h).2).2).2]
    · next h h' => exact (h (d :: t) (List.cons.inj (List.cons.inj h').2).2.symm).elim
    · next h => exact absurd rfl (h ('=' :: d :: t))
  cases hop : cs.first.op
  case eq => exact congrArg (Option.map _) (heq.trans hscan)
  case arbitrary => exact congrArg (Option.map _) (harbitrary.trans hscan)
  all_goals rfl

theorem matchPin_of_not_bare (h : ∀ cs, r.specifiers ≠ .bare cs) : matchPin r.text = none := by
  unfold matchPin
  rw [r.scan_text.1, r.scan_text.2, if_neg r.name_ne, r.skipExtras_afterName]
  rcases hspec : r.specifiers with _ | cs | ⟨before, after, cs⟩
  · rw [r.dropWhile_rest_none hspec, dropWhile_tail]
    rcases r.tail with _ | m | o <;> rfl
  · exact absurd hspec (h cs)
  · rw [r.dropWhile_rest_parenthesised hspec]
    unfold rest
    rw [hspec]
    rfl

theorem isNamed_text : isNamed r.text = r.plain := by
  have hname : decide (r.name.chars ≠ []) = true := decide_eq_true r.name_ne
  unfold isNamed plain
  rw [r.scan_text.1, r.scan_text.2, hname, Bool.true_and, r.skipExtras_afterName]
  rcases hspec : r.specifiers with _ | cs | ⟨before, after, cs⟩
  · rw [r.dropWhile_rest_none hspec, dropWhile_tail]
    rcases r.tail with _ | m | o <;> rfl
  · rw [r.dropWhile_rest_bare hspec, r.dropWhile_rest_bare hspec]
    obtain ⟨c, t, htext, hc⟩ := cs.text_cons
    unfold rest
    rw [hspec]
    dsimp only [Specifiers.text]
    rw [htext]
    exact hc
  · rw [r.dropWhile_rest_parenthesised hspec, r.dropWhile_rest_parenthesised hspec]
    unfold rest
    rw [hspec]
    rfl

/-- What a line that is a requirement is read as. -/
theorem readLine_requirement {raw : List Char} (h : cleanLine raw = r.text) :
    readLine raw =
      if hasUrl r.text then .option
      else if r.plain then
        match r.specifiers, r.pinned? with
        | .bare _, some version => .pin r.name.chars version
        | _, _ => .named r.text
      else .other := by
  obtain ⟨c, t, htext, hc⟩ := r.text_cons
  have hne : r.text ≠ [] := by
    rw [htext]
    exact List.cons_ne_nil c t
  have hdash : ¬ r.text.head? = some '-' := by
    rw [htext]
    rintro heq
    obtain rfl := Option.some.inj heq
    cases hc
  unfold readLine
  dsimp only
  rw [h, if_neg hne, r.matchInclude_text]
  dsimp only
  by_cases hurl : hasUrl r.text = true
  · rw [if_pos hurl, if_pos (by simp [hurl])]
  rw [if_neg hurl, if_neg (by simp [hurl, hdash]), r.isNamed_text]
  rcases hspec : r.specifiers with _ | cs | ⟨before, after, cs⟩
  · rw [r.matchPin_of_not_bare fun cs hcs => by rw [hspec] at hcs; cases hcs]
  · have hplain : r.plain = true := by
      unfold plain
      rw [hspec]
    have hpinned : r.pinned? = if cs.first.op.pins then
        some ((cs.first.version ++ cs.restText).takeWhile isPinChar) else none := by
      unfold pinned?
      rw [hspec]
      rfl
    rw [r.matchPin_bare hspec, hpinned, if_pos hplain, hplain]
    by_cases hpins : cs.first.op.pins = true
    · rw [if_pos hpins, if_pos hpins]
      rfl
    · rw [if_neg hpins, if_neg hpins]
      rfl
  · rw [r.matchPin_of_not_bare fun cs hcs => by rw [hspec] at hcs; cases hcs]

end Requirement

end Minireg.Cli
