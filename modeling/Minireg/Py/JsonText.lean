import Minireg.Py.Json
import Minireg.Py.Lines

/-!
# JSON as text

`Json.dump` writes a value without blanks, and escapes quotes, backslashes and control characters
only. `Mode` is how a text of JSON is gone over: outside of string literals, in one, or behind a
backslash in one. `dump_written` says where in such a text a backslash and a line break can stand.
-/

namespace Minireg.Py

/-! ## Writing -/

/-- A character that neither ends a line nor means anything to a string literal. -/
def IsPlain (c : Char) : Prop := c ≠ '"' ∧ c ≠ '\\' ∧ isLineBreak c = false

instance : DecidablePred IsPlain := fun c => by unfold IsPlain; infer_instance

/-- `decide` on the quantifier would go through every character. -/
theorem plain_of_all {s : List Char} (h : s.all (fun c => decide (IsPlain c)) = true) :
    ∀ c ∈ s, IsPlain c := fun c hc => of_decide_eq_true (List.all_eq_true.mp h c hc)

/-- How numbers are written. -/
structure Numbers where
  int : Int → List Char
  float : Option Rat → List Char
  int_plain : ∀ n, ∀ c ∈ int n, IsPlain c
  float_plain : ∀ q, ∀ c ∈ float q, IsPlain c

/-- A hexadecimal digit, as an escape has it. -/
def hexChar (n : Nat) : Char := "0123456789abcdef".toList.getD n '0'

/-- What follows the backslash for a control character. -/
def controlEscape (c : Char) : List Char :=
  match c.toNat with
  | 8 => ['b']
  | 9 => ['t']
  | 10 => ['n']
  | 12 => ['f']
  | 13 => ['r']
  | n => ['u', '0', '0', hexChar (n / 16), hexChar (n % 16)]

def dumpChar (c : Char) : List Char :=
  if c = '"' ∨ c = '\\' then ['\\', c]
  else if c.toNat < 0x20 then '\\' :: controlEscape c
  else [c]

def dumpText (s : String) : List Char := '"' :: (s.toList.flatMap dumpChar ++ ['"'])

namespace Json

section Dump

variable (numbers : Numbers)

mutual

def dump : Json → List Char
  | .null => "null".toList
  | .bool b => (if b then "true" else "false").toList
  | .int n => numbers.int n
  | .float q => numbers.float q
  | .str s => dumpText s
  | .arr xs => '[' :: (dumpItems true xs ++ [']'])
  | .obj fields => '{' :: (dumpFields true fields ++ ['}'])

def dumpItems (first : Bool) : List Json → List Char
  | [] => []
  | x :: xs => (if first then [] else [',']) ++ dump x ++ dumpItems false xs

def dumpFields (first : Bool) : List (String × Json) → List Char
  | [] => []
  | (key, x) :: rest =>
    (if first then [] else [',']) ++ dumpText key ++ ':' :: (dump x ++ dumpFields false rest)

end

end Dump

mutual

/-- The characters of the texts in a value. -/
def chars : Json → List Char
  | .null | .bool _ | .int _ | .float _ => []
  | .str s => s.toList
  | .arr xs => charsOfItems xs
  | .obj fields => charsOfFields fields

def charsOfItems : List Json → List Char
  | [] => []
  | x :: xs => chars x ++ charsOfItems xs

def charsOfFields : List (String × Json) → List Char
  | [] => []
  | (key, x) :: rest => key.toList ++ (chars x ++ charsOfFields rest)

end

end Json

/-! ## Reading -/

inductive Mode where
  | outside
  | inside
  | escaped
  deriving DecidableEq

namespace Mode

def next : Mode → Char → Mode
  | .outside, c => if c = '"' then .inside else .outside
  | .inside, c => if c = '"' then .outside else if c = '\\' then .escaped else .inside
  | .escaped, _ => .inside

/-- The mode behind a text. -/
def after (m : Mode) (s : List Char) : Mode := s.foldl next m

/-- The characters of a text, each with the mode it is read in. -/
def reads (m : Mode) : List Char → List (Mode × Char)
  | [] => []
  | c :: rest => (m, c) :: reads (m.next c) rest

variable {m : Mode} {s t : List Char}

theorem after_append : m.after (s ++ t) = (m.after s).after t := List.foldl_append

theorem reads_append : m.reads (s ++ t) = m.reads s ++ (m.after s).reads t := by
  induction s generalizing m with
  | nil => rfl
  | cons c s ih =>
    rw [List.cons_append, reads, ih]
    rfl

theorem snd_mem_of_mem_reads {e : Mode × Char} (h : e ∈ m.reads s) : e.2 ∈ s := by
  induction s generalizing m with
  | nil => exact absurd h List.not_mem_nil
  | cons c s ih =>
    rcases List.mem_cons.mp h with rfl | h
    · exact List.mem_cons_self
    · exact List.mem_cons_of_mem _ (ih h)

theorem mem_reads {c : Char} (m : Mode) (h : c ∈ s) : ∃ e ∈ m.reads s, e.2 = c := by
  induction s generalizing m with
  | nil => exact absurd h List.not_mem_nil
  | cons d s ih =>
    rcases List.mem_cons.mp h with rfl | h
    · exact ⟨_, List.mem_cons_self, rfl⟩
    · obtain ⟨e, he, hc⟩ := ih (m.next d) h
      exact ⟨e, List.mem_cons_of_mem _ he, hc⟩

theorem next_inside {c : Char} (hquote : c ≠ '"') (hslash : c ≠ '\\') :
    Mode.inside.next c = .inside := by
  simp only [next, if_neg hquote, if_neg hslash]

theorem next_plain {c : Char} (hm : m ≠ .escaped) (hc : IsPlain c) : m.next c = m := by
  cases m with
  | outside => exact if_neg hc.1
  | inside => exact next_inside hc.1 hc.2.1
  | escaped => exact absurd rfl hm

/-- Plain characters leave the mode as it is. -/
theorem after_plain (hm : m ≠ .escaped) (hs : ∀ c ∈ s, IsPlain c) : m.after s = m := by
  induction s with
  | nil => rfl
  | cons c s ih =>
    change (m.next c).after s = m
    rw [next_plain hm (hs c List.mem_cons_self)]
    exact ih fun c hc => hs c (List.mem_cons_of_mem _ hc)

theorem reads_plain {e : Mode × Char} (hm : m ≠ .escaped) (hs : ∀ c ∈ s, IsPlain c)
    (he : e ∈ m.reads s) : e.1 = m ∧ IsPlain e.2 := by
  refine ⟨?_, hs e.2 (snd_mem_of_mem_reads he)⟩
  induction s with
  | nil => exact absurd he List.not_mem_nil
  | cons c s ih =>
    rcases List.mem_cons.mp he with rfl | he
    · rfl
    · rw [next_plain hm (hs c List.mem_cons_self)] at he
      exact ih (fun c hc => hs c (List.mem_cons_of_mem _ hc)) he

/-- No backslash is read outside of a literal. -/
def Tidy (m : Mode) (s : List Char) : Prop := ∀ e ∈ m.reads s, e.2 = '\\' → e.1 ≠ .outside

theorem Tidy.cons {c : Char} (h : m.Tidy (c :: s)) : (m.next c).Tidy s := fun e he =>
  h e (List.mem_cons_of_mem _ he)

theorem Tidy.left (h : m.Tidy (s ++ t)) : m.Tidy s := fun e he =>
  h e (by rw [reads_append]; exact List.mem_append_left _ he)

theorem Tidy.right (h : m.Tidy (s ++ t)) : (m.after s).Tidy t := fun e he =>
  h e (by rw [reads_append]; exact List.mem_append_right _ he)

/-- A text that is tidy for one who begins in a literal, and for one who does not, has no
backslash: each is outside of the literals where the other is inside. -/
theorem Tidy.flip (hin : Mode.inside.Tidy s) (hout : Mode.outside.Tidy s) : '\\' ∉ s := by
  have hboth : ∀ m m' : Mode, m.Tidy s → m'.Tidy s →
      m = .inside ∧ m' = .outside ∨ m = .outside ∧ m' = .inside → '\\' ∉ s := by
    clear hin hout
    induction s with
    | nil => exact fun _ _ _ _ _ => List.not_mem_nil
    | cons c s ih =>
      intro m m' h h' hm hmem
      have hc : c ≠ '\\' := by
        rintro rfl
        rcases hm with ⟨-, rfl⟩ | ⟨rfl, -⟩
        · exact h' _ List.mem_cons_self rfl rfl
        · exact h _ List.mem_cons_self rfl rfl
      refine ih (m.next c) (m'.next c) h.cons h'.cons ?_
        ((List.mem_cons.mp hmem).resolve_left (Ne.symm hc))
      by_cases hquote : c = '"'
      · rcases hm with ⟨rfl, rfl⟩ | ⟨rfl, rfl⟩
        · exact .inr ⟨if_pos hquote, if_pos hquote⟩
        · exact .inl ⟨if_pos hquote, if_pos hquote⟩
      · have hin : Mode.inside.next c = .inside := next_inside hquote hc
        rcases hm with ⟨rfl, rfl⟩ | ⟨rfl, rfl⟩
        · exact .inl ⟨hin, if_neg hquote⟩
        · exact .inr ⟨if_neg hquote, hin⟩
  exact hboth _ _ hin hout (.inl ⟨rfl, rfl⟩)

end Mode

/-! ## What is written -/

/-- The text of something with these characters in its literals: it is read to its end, no
backslash stands outside of the literals, and a line break only in one, unless it is escaped. -/
structure Written (chars t : List Char) : Prop where
  closed : Mode.outside.after t = .outside
  tidy : Mode.outside.Tidy t
  breaks : ∀ e ∈ Mode.outside.reads t, isLineBreak e.2 = true →
    e.1 = .inside ∧ e.2 ∈ chars ∧ 0x20 ≤ e.2.toNat

namespace Written

variable {chars chars' s t : List Char}

theorem mono (h : Written chars t) (hsub : chars ⊆ chars') : Written chars' t where
  closed := h.closed
  tidy := h.tidy
  breaks e he hbreak := by
    obtain ⟨hmode, hmem, hcontrol⟩ := h.breaks e he hbreak
    exact ⟨hmode, hsub hmem, hcontrol⟩

theorem append (hs : Written chars s) (ht : Written chars t) : Written chars (s ++ t) where
  closed := by rw [Mode.after_append, hs.closed, ht.closed]
  tidy e he := by
    rw [Mode.reads_append, hs.closed] at he
    exact (List.mem_append.mp he).elim (hs.tidy e) (ht.tidy e)
  breaks e he := by
    rw [Mode.reads_append, hs.closed] at he
    exact (List.mem_append.mp he).elim (hs.breaks e) (ht.breaks e)

theorem plain (h : ∀ c ∈ t, IsPlain c) : Written chars t where
  closed := Mode.after_plain (by decide) h
  tidy e he hslash := absurd hslash (h e.2 (Mode.snd_mem_of_mem_reads he)).2.1
  breaks e he hbreak := by
    rw [(h e.2 (Mode.snd_mem_of_mem_reads he)).2.2] at hbreak
    cases hbreak

end Written

theorem controlEscape_plain {c : Char} (h : c.toNat < 0x20) :
    controlEscape c ≠ [] ∧ ∀ d ∈ controlEscape c, IsPlain d := by
  have hall : ∀ n : Fin 0x20, controlEscape (Char.ofNat n) ≠ [] ∧
      (controlEscape (Char.ofNat n)).all (fun d => decide (IsPlain d)) = true := by decide +kernel
  have hc := hall ⟨c.toNat, h⟩
  rw [Char.ofNat_toNat] at hc
  exact ⟨hc.1, plain_of_all hc.2⟩

/-- One character in a literal: what stands for it leaves the literal open. -/
theorem dumpChar_inside (c : Char) :
    Mode.inside.after (dumpChar c) = .inside ∧ ∀ e ∈ Mode.inside.reads (dumpChar c),
      e.1 ≠ .outside ∧ (isLineBreak e.2 = true → e.1 = .inside ∧ e.2 = c ∧ 0x20 ≤ c.toNat) := by
  unfold dumpChar
  split
  · next hspecial =>
    refine ⟨rfl, fun e he => ?_⟩
    simp only [Mode.reads, List.mem_cons, List.not_mem_nil, or_false] at he
    rcases he with rfl | rfl
    · exact ⟨by decide, fun h => absurd h (by decide)⟩
    · refine ⟨by change Mode.escaped ≠ .outside; decide, fun h => absurd h ?_⟩
      rcases hspecial with rfl | rfl <;> decide
  · next hspecial =>
    split
    · next hcontrol =>
      obtain ⟨hne, hplain⟩ := controlEscape_plain hcontrol
      obtain ⟨d, rest, hescape⟩ := List.exists_cons_of_ne_nil hne
      rw [hescape] at hplain ⊢
      have hrest : ∀ d ∈ rest, IsPlain d := fun d hd => hplain d (List.mem_cons_of_mem _ hd)
      have hinside : Mode.inside.after rest = .inside := Mode.after_plain (by decide) hrest
      refine ⟨hinside, fun e he => ?_⟩
      rcases List.mem_cons.mp he with rfl | he
      · exact ⟨by change Mode.inside ≠ .outside; decide,
          fun h => absurd h (by change ¬ isLineBreak '\\' = true; decide)⟩
      rcases List.mem_cons.mp he with rfl | he
      · refine ⟨by change Mode.escaped ≠ .outside; decide, fun h => ?_⟩
        rw [(hplain d List.mem_cons_self).2.2] at h
        cases h
      · change e ∈ Mode.inside.reads rest at he
        obtain ⟨hmode, hchar⟩ := Mode.reads_plain (by decide) hrest he
        refine ⟨by rw [hmode]; decide, fun h => ?_⟩
        rw [hchar.2.2] at h
        cases h
    · next hcontrol =>
      refine ⟨Mode.next_inside (fun h => hspecial (.inl h)) (fun h => hspecial (.inr h)),
        fun e he => ?_⟩
      rw [List.mem_singleton.mp he]
      exact ⟨by change Mode.inside ≠ .outside; decide, fun _ => ⟨rfl, rfl, Nat.not_lt.mp hcontrol⟩⟩

theorem dumpChars_inside (s : List Char) :
    Mode.inside.after (s.flatMap dumpChar) = .inside ∧
      ∀ e ∈ Mode.inside.reads (s.flatMap dumpChar),
        e.1 ≠ .outside ∧ (isLineBreak e.2 = true → e.1 = .inside ∧ e.2 ∈ s ∧ 0x20 ≤ e.2.toNat) := by
  induction s with
  | nil => exact ⟨rfl, fun e he => absurd he List.not_mem_nil⟩
  | cons c s ih =>
    obtain ⟨hafter, hreads⟩ := dumpChar_inside c
    rw [List.flatMap_cons]
    refine ⟨by rw [Mode.after_append, hafter, ih.1], fun e he => ?_⟩
    rw [Mode.reads_append, hafter] at he
    rcases List.mem_append.mp he with he | he
    · refine ⟨(hreads e he).1, fun h => ?_⟩
      obtain ⟨hmode, hchar, hcontrol⟩ := (hreads e he).2 h
      rw [hchar]
      exact ⟨hmode, List.mem_cons_self, hcontrol⟩
    · refine ⟨(ih.2 e he).1, fun h => ?_⟩
      obtain ⟨hmode, hchar, hcontrol⟩ := (ih.2 e he).2 h
      exact ⟨hmode, List.mem_cons_of_mem _ hchar, hcontrol⟩

/-- A string literal. -/
theorem dumpText_written (s : String) : Written s.toList (dumpText s) := by
  obtain ⟨hafter, hreads⟩ := dumpChars_inside s.toList
  have hall : ∀ e ∈ Mode.outside.reads (dumpText s), e.2 = '"' ∨
      e.1 ≠ .outside ∧
        (isLineBreak e.2 = true → e.1 = .inside ∧ e.2 ∈ s.toList ∧ 0x20 ≤ e.2.toNat) := by
    intro e he
    rcases List.mem_cons.mp he with rfl | he
    · exact .inl rfl
    change e ∈ Mode.inside.reads _ at he
    rw [Mode.reads_append, hafter] at he
    rcases List.mem_append.mp he with he | he
    · exact .inr (hreads e he)
    · rw [List.mem_singleton.mp he]
      exact .inl rfl
  refine ⟨?_, fun e he hslash => ?_, fun e he hbreak => ?_⟩
  · change (Mode.inside).after _ = .outside
    rw [Mode.after_append, hafter]
    rfl
  · rcases hall e he with hquote | ⟨hmode, -⟩
    · rw [hquote] at hslash
      exact absurd hslash (by decide)
    · exact hmode
  · rcases hall e he with hquote | ⟨-, h⟩
    · rw [hquote] at hbreak
      exact absurd hbreak (by decide)
    · exact h hbreak

namespace Json

variable {numbers : Numbers}

mutual

theorem dump_written : ∀ j : Json, Written j.chars (j.dump numbers)
  | .null => by
    have hplain : ∀ c ∈ "null".toList, IsPlain c := plain_of_all (by decide)
    exact Written.plain hplain
  | .bool b => by
    have hplain : ∀ c ∈ (if b then "true" else "false").toList, IsPlain c :=
      plain_of_all (by cases b <;> decide)
    exact Written.plain hplain
  | .int n => Written.plain (numbers.int_plain n)
  | .float q => Written.plain (numbers.float_plain q)
  | .str s => dumpText_written s
  | .arr xs => by
    have hopen : Written (chars (.arr xs)) ['['] := Written.plain (plain_of_all (by decide))
    have hclose : Written (chars (.arr xs)) [']'] := Written.plain (plain_of_all (by decide))
    exact hopen.append ((dumpItems_written true xs).append hclose)
  | .obj fields => by
    have hopen : Written (chars (.obj fields)) ['{'] := Written.plain (plain_of_all (by decide))
    have hclose : Written (chars (.obj fields)) ['}'] := Written.plain (plain_of_all (by decide))
    exact hopen.append ((dumpFields_written true fields).append hclose)

theorem dumpItems_written (first : Bool) :
    ∀ xs : List Json, Written (charsOfItems xs) (dumpItems numbers first xs)
  | [] => Written.plain fun c hc => absurd hc List.not_mem_nil
  | x :: xs => by
    have hcomma : Written (charsOfItems (x :: xs)) (if first then [] else [',']) :=
      Written.plain (plain_of_all (by cases first <;> decide))
    have hx := (dump_written x).mono (List.subset_append_left _ (charsOfItems xs))
    have hxs := (dumpItems_written false xs).mono (List.subset_append_right (chars x) _)
    exact (hcomma.append hx).append hxs

theorem dumpFields_written (first : Bool) :
    ∀ fields : List (String × Json), Written (charsOfFields fields) (dumpFields numbers first fields)
  | [] => Written.plain fun c hc => absurd hc List.not_mem_nil
  | (key, x) :: rest => by
    have hcomma : Written (charsOfFields ((key, x) :: rest)) (if first then [] else [',']) :=
      Written.plain (plain_of_all (by cases first <;> decide))
    have hcolon : Written (charsOfFields ((key, x) :: rest)) [':'] :=
      Written.plain (plain_of_all (by decide))
    have hkey := (dumpText_written key).mono
      (List.subset_append_left _ (chars x ++ charsOfFields rest))
    have hx := (dump_written x).mono (List.subset_append_of_subset_right key.toList
      (List.subset_append_left _ (charsOfFields rest)))
    have hrest := (dumpFields_written false rest).mono
      (List.subset_append_of_subset_right key.toList (List.subset_append_right (chars x) _))
    exact (hcomma.append hkey).append (hcolon.append (hx.append hrest))

end

/-! ### What stays as it is -/

/-- A character that needs no escape. -/
structure Unescaped (c : Char) : Prop where
  quote : c ≠ '"'
  slash : c ≠ '\\'
  control : 0x20 ≤ c.toNat

theorem mem_dumpText {s : String} {c : Char} (hc : Unescaped c) (h : c ∈ s.toList) :
    c ∈ dumpText s := by
  have hself : dumpChar c = [c] := by
    unfold dumpChar
    rw [if_neg (not_or.mpr ⟨hc.quote, hc.slash⟩), if_neg (Nat.not_lt.mpr hc.control)]
  refine List.mem_cons_of_mem _ (List.mem_append_left _ (List.mem_flatMap.mpr ⟨c, h, ?_⟩))
  rw [hself]
  exact List.mem_singleton_self c

mutual

theorem mem_dump {c : Char} (hc : Unescaped c) : ∀ j : Json, c ∈ j.chars → c ∈ j.dump numbers
  | .null, h | .bool _, h | .int _, h | .float _, h => absurd h List.not_mem_nil
  | .str _, h => mem_dumpText hc h
  | .arr xs, h => List.mem_cons_of_mem _ (List.mem_append_left _ (mem_dumpItems hc true xs h))
  | .obj fields, h => List.mem_cons_of_mem _ (List.mem_append_left _ (mem_dumpFields hc true fields h))

theorem mem_dumpItems {c : Char} (hc : Unescaped c) (first : Bool) :
    ∀ xs : List Json, c ∈ charsOfItems xs → c ∈ dumpItems numbers first xs
  | [], h => absurd h List.not_mem_nil
  | x :: xs, h => by
    rcases List.mem_append.mp h with h | h
    · exact List.mem_append_left _ (List.mem_append_right _ (mem_dump hc x h))
    · exact List.mem_append_right _ (mem_dumpItems hc false xs h)

theorem mem_dumpFields {c : Char} (hc : Unescaped c) (first : Bool) :
    ∀ fields : List (String × Json), c ∈ charsOfFields fields →
      c ∈ dumpFields numbers first fields
  | [], h => absurd h List.not_mem_nil
  | (key, x) :: rest, h => by
    rcases List.mem_append.mp h with h | h
    · exact List.mem_append_left _
        (List.mem_append_right _ (mem_dumpText hc h))
    · refine List.mem_append_right _ (List.mem_cons_of_mem _ ?_)
      rcases List.mem_append.mp h with h | h
      · exact List.mem_append_left _ (mem_dump hc x h)
      · exact List.mem_append_right _ (mem_dumpFields hc false rest h)

end

end Json

end Minireg.Py
