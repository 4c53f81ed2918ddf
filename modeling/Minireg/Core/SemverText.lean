import Mathlib.Data.List.TakeDrop
import Minireg.Core.SemverBounds

/-!
# The text of a version

`Groups.text` writes the groups of a version out. What the scanners accept is
`Spelled`, and they read such a text back to the same groups: `scanVersion_text`,
`scanPartial_text`. A comparator spelled this way is its own desugaring.
-/

namespace Minireg.Semver

open Py

/-! ## Characters -/

/-- The text is at its end, or goes on with a character that `p` rejects. -/
def Stops (p : Char → Bool) (rest : List Char) : Prop := ∀ c t, rest = c :: t → p c = false

theorem Stops.nil {p : Char → Bool} : Stops p [] := nofun

theorem Stops.cons {p : Char → Bool} {c : Char} {t : List Char} (h : p c = false) :
    Stops p (c :: t) := by
  intro d u heq
  cases heq
  exact h

theorem takeWhile_append_stops {p : Char → Bool} {s rest : List Char} (hs : ∀ c ∈ s, p c = true)
    (hrest : Stops p rest) : (s ++ rest).takeWhile p = s ∧ (s ++ rest).dropWhile p = rest := by
  rw [List.takeWhile_append_of_pos hs, List.dropWhile_append_of_pos hs]
  cases rest with
  | nil => simp
  | cons c t =>
    rw [List.takeWhile_cons_of_neg (by simp [hrest c t rfl]),
      List.dropWhile_cons_of_neg (by simp [hrest c t rfl]), List.append_nil]
    exact ⟨rfl, rfl⟩

theorem dropWhile_eq_self_of_stops {p : Char → Bool} {s : List Char} (h : Stops p s) :
    s.dropWhile p = s :=
  (takeWhile_append_stops (s := []) nofun h).2

/-- The characters `str.isspace` accepts. -/
def spaces : List Nat :=
  [0x09, 0x0a, 0x0b, 0x0c, 0x0d, 0x1c, 0x1d, 0x1e, 0x1f, 0x20, 0x85, 0xa0, 0x1680, 0x2000, 0x2001,
    0x2002, 0x2003, 0x2004, 0x2005, 0x2006, 0x2007, 0x2008, 0x2009, 0x200a, 0x2028, 0x2029, 0x202f,
    0x205f, 0x3000]

theorem mem_spaces_of_isSpace {c : Char} (h : isSpace c = true) : c.toNat ∈ spaces := by
  unfold isSpace at h
  simp only [Bool.or_eq_true, Bool.and_eq_true, decide_eq_true_eq, beq_iff_eq] at h
  simp only [spaces, List.mem_cons, List.not_mem_nil, or_false]
  omega

/-- No digit is a space. -/
theorem isSpace_of_isDecimal {c : Char} (h : isDecimal c = true) : isSpace c = false := by
  have hnone : ∀ n ∈ spaces, (decimalBlocks.find? fun b => b ≤ n && n < b + 10) = none := by decide
  by_contra hspace
  have hfind := hnone _ (mem_spaces_of_isSpace (by simpa using hspace))
  unfold isDecimal decimal? at h
  rw [hfind] at h
  cases h

theorem toNat_of_isAlnum {c : Char} (h : isAlnum c = true) :
    (48 ≤ c.toNat ∧ c.toNat ≤ 57) ∨ (97 ≤ c.toNat ∧ c.toNat ≤ 122) ∨
      (65 ≤ c.toNat ∧ c.toNat ≤ 90) ∨ c.toNat = 45 := by
  unfold isAlnum isLetter at h
  simp only [Bool.or_eq_true, Bool.and_eq_true, decide_eq_true_eq, beq_iff_eq] at h
  rcases h with ⟨h₁, h₂⟩ | (⟨h₁, h₂⟩ | ⟨h₁, h₂⟩) | rfl
  · exact .inl ⟨h₁, h₂⟩
  · exact .inr (.inl ⟨h₁, h₂⟩)
  · exact .inr (.inr (.inl ⟨h₁, h₂⟩))
  · exact .inr (.inr (.inr rfl))

theorem isSpace_of_isAlnum {c : Char} (h : isAlnum c = true) : isSpace c = false := by
  by_contra hspace
  have hmem := mem_spaces_of_isSpace (by simpa using hspace)
  have halnum := toNat_of_isAlnum h
  simp only [spaces, List.mem_cons, List.not_mem_nil, or_false] at hmem
  omega

/-! ## Numerals -/

/-- What `_NUM` matches. -/
def Numeral (a : List Char) : Prop :=
  a = zero ∨ ∃ c t, a = c :: t ∧ '1' ≤ c ∧ c ≤ '9' ∧ ∀ d ∈ t, isDecimal d = true

theorem Numeral.zero : Numeral zero := .inl rfl

theorem scanNum_numeral {s a r : List Char} (h : scanNum s = some (a, r)) : Numeral a := by
  unfold scanNum at h
  split at h
  · cases h
    exact .inl rfl
  · next c rest _ =>
    split at h
    · next hc =>
      cases h
      exact .inr ⟨c, _, rfl, hc.1, hc.2, fun d hd => List.all_eq_true.mp List.all_takeWhile d hd⟩
    · cases h
  · cases h

theorem isDecimal_of_digit {c : Char} (h₀ : '0' ≤ c) (h₉ : c ≤ '9') : isDecimal c = true := by
  have h₀ : 48 ≤ c.toNat := h₀
  have h₉ : c.toNat ≤ 57 := h₉
  unfold isDecimal decimal? decimalBlocks
  rw [List.find?_cons_of_pos (by simp; omega)]
  rfl

/-- A numeral starts with an ASCII digit, and all of it is digits. -/
theorem Numeral.digits {a : List Char} (h : Numeral a) :
    (∃ c t, a = c :: t ∧ '0' ≤ c ∧ c ≤ '9') ∧ ∀ c ∈ a, isDecimal c = true := by
  rcases h with rfl | ⟨c, t, rfl, h₁, h₉, ht⟩
  · exact ⟨⟨'0', [], rfl, by decide, by decide⟩, List.all_eq_true.mp (by decide)⟩
  · have h₀ : '0' ≤ c := le_trans (by decide) h₁
    exact ⟨⟨c, t, rfl, h₀, h₉⟩, List.forall_mem_cons.mpr ⟨isDecimal_of_digit h₀ h₉, ht⟩⟩

/-- A numeral is read up to the first character that is no digit. -/
theorem Numeral.scan {a rest : List Char} (h : Numeral a) (hrest : Stops isDecimal rest) :
    scanNum (a ++ rest) = some (a, rest) := by
  rcases h with rfl | ⟨c, t, rfl, h₁, h₉, ht⟩
  · rfl
  · have hzero : c ≠ '0' := by
      rintro rfl
      exact absurd h₁ (by decide)
    obtain ⟨htake, hdrop⟩ := takeWhile_append_stops ht hrest
    rw [List.cons_append]
    unfold scanNum
    split
    · next heq => exact absurd (List.cons.inj heq).1 hzero
    · next heq =>
      cases heq
      rw [if_pos ⟨h₁, h₉⟩, htake, hdrop]
    · next heq => cases heq

/-- The placeholders of `_XID` are no numerals. -/
theorem Numeral.isX {a : List Char} (h : Numeral a) : isX (some a) = false := by
  obtain ⟨⟨c, t, rfl, h₀, h₉⟩, -⟩ := h.digits
  have hne (d : Char) (hd : ¬ d ≤ '9') : c :: t ≠ [d] := by
    rintro heq
    cases heq
    exact hd h₉
  have hstar : c :: t ≠ ['*'] := by
    rintro heq
    cases heq
    exact absurd h₀ (by decide)
  simp only [Semver.isX, List.cons_ne_nil, hne 'x' (by decide), hne 'X' (by decide), hstar,
    decide_false, Bool.or_self]

theorem Numeral.scanXid {a rest : List Char} (h : Numeral a) (hrest : Stops isDecimal rest) :
    scanXid (a ++ rest) = some (a, rest) := by
  have hscan := h.scan hrest
  obtain ⟨⟨c, t, rfl, h₀, h₉⟩, -⟩ := h.digits
  rw [List.cons_append] at hscan ⊢
  unfold Semver.scanXid
  split
  · next heq =>
    cases heq
    exact absurd h₉ (by decide)
  · next heq =>
    cases heq
    exact absurd h₉ (by decide)
  · next heq =>
    cases heq
    exact absurd h₀ (by decide)
  · exact hscan

/-- A component that is no placeholder is a numeral. -/
theorem scanXid_numeral {s a r : List Char} (h : scanXid s = some (a, r))
    (hx : isX (some a) = false) : Numeral a := by
  unfold scanXid at h
  split at h
  · cases h
    exact absurd hx (by decide)
  · cases h
    exact absurd hx (by decide)
  · cases h
    exact absurd hx (by decide)
  · exact scanNum_numeral h

/-- The first character of a numeral is none of `[v=\s]`. -/
theorem Numeral.stops {a rest : List Char} (h : Numeral a) :
    Stops isLead (a ++ rest) ∧ Stops isSpace (a ++ rest) := by
  obtain ⟨⟨c, t, rfl, h₀, h₉⟩, -⟩ := h.digits
  have hspace := isSpace_of_isDecimal (isDecimal_of_digit h₀ h₉)
  refine ⟨.cons ?_, .cons hspace⟩
  unfold isLead
  rw [hspace, Bool.or_false, Bool.or_eq_false_iff]
  constructor
  · rw [beq_eq_false_iff_ne]
    rintro rfl
    exact absurd h₉ (by decide)
  · rw [beq_eq_false_iff_ne]
    rintro rfl
    exact absurd h₉ (by decide)

/-! ## Versions -/

/-- A character of a prerelease. -/
def inPre (c : Char) : Bool := isDecimal c || isAlnum c || c == '.'

/-- A character of build metadata. -/
def inBuild (c : Char) : Bool := isAlnum c || c == '.'

/-- Groups that spell a version. -/
structure Groups.Spelled (g : Groups) : Prop where
  major : Numeral g.major
  minor : Numeral g.minor
  patch : Numeral g.patch
  pre : ∀ s, g.pre = some s → (s.splitOn '.').all isPreIdent = true ∧ ∀ c ∈ s, inPre c = true
  build : ∀ s, g.build = some s →
    ((s.splitOn '.').all fun part => !part.isEmpty) = true ∧ ∀ c ∈ s, inBuild c = true

def preText : Option (List Char) → List Char
  | some s => '-' :: s
  | none => []

def buildText : Option (List Char) → List Char
  | some s => '+' :: s
  | none => []

def Groups.text (g : Groups) : List Char :=
  dotted g.major g.minor g.patch ++ preText g.pre ++ buildText g.build

/-- The end of a version: the end of the text, or a blank. -/
def Ends (rest : List Char) : Prop := rest = [] ∨ ∃ w, rest = ' ' :: w

theorem Ends.stops {p : Char → Bool} {rest : List Char} (h : Ends rest) (hp : p ' ' = false) :
    Stops p rest := by
  rcases h with rfl | ⟨w, rfl⟩
  · exact .nil
  · exact .cons hp

variable {g : Groups} {rest : List Char}

theorem scanPrerelease_text {pre : Option (List Char)}
    (hpre : ∀ s, pre = some s → (s.splitOn '.').all isPreIdent = true ∧ ∀ c ∈ s, inPre c = true)
    (hrest : Stops inPre rest) (hhyphen : Stops (· == '-') rest) :
    scanPrerelease (preText pre ++ rest) = (pre, rest) := by
  cases pre with
  | none =>
    rw [preText, List.nil_append]
    unfold scanPrerelease
    split
    · exact absurd (hhyphen _ _ rfl) (by simp)
    · rfl
  | some s =>
    obtain ⟨hparts, hchars⟩ := hpre s rfl
    obtain ⟨htake, hdrop⟩ := takeWhile_append_stops hchars hrest
    unfold inPre at htake hdrop
    rw [preText, List.cons_append]
    simp only [scanPrerelease, htake, hdrop, hparts, if_true]

theorem scanBuild_text {build : Option (List Char)}
    (hbuild : ∀ s, build = some s →
      ((s.splitOn '.').all fun part => !part.isEmpty) = true ∧ ∀ c ∈ s, inBuild c = true)
    (hrest : Ends rest) : scanBuild (buildText build ++ rest) = (build, rest) := by
  cases build with
  | none =>
    rw [buildText, List.nil_append]
    rcases hrest with rfl | ⟨w, rfl⟩ <;> rfl
  | some s =>
    obtain ⟨hparts, hchars⟩ := hbuild s rfl
    obtain ⟨htake, hdrop⟩ := takeWhile_append_stops hchars (hrest.stops (by decide))
    unfold inBuild at htake hdrop
    rw [buildText, List.cons_append]
    simp only [scanBuild, htake, hdrop, hparts, if_true]

/-- What may follow the three numbers of a version. -/
theorem stops_suffix {p : Char → Bool} (hrest : Ends rest) (hhyphen : p '-' = false)
    (hplus : p '+' = false) (hblank : p ' ' = false) (pre build : Option (List Char)) :
    Stops p (preText pre ++ (buildText build ++ rest)) := by
  cases pre with
  | some s => exact .cons hhyphen
  | none =>
    cases build with
    | some s => exact .cons hplus
    | none => exact hrest.stops hblank

theorem stops_build {p : Char → Bool} (hrest : Ends rest) (hplus : p '+' = false)
    (hblank : p ' ' = false) (build : Option (List Char)) : Stops p (buildText build ++ rest) := by
  cases build with
  | some s => exact .cons hplus
  | none => exact hrest.stops hblank

theorem Groups.text_append (g : Groups) (rest : List Char) :
    g.text ++ rest = g.major ++ '.' :: (g.minor ++ '.' :: (g.patch ++
      (preText g.pre ++ (buildText g.build ++ rest)))) := by
  simp only [Groups.text, dotted, List.append_assoc, List.cons_append]

/-- **A version reads back from its text.** -/
theorem scanVersion_text (h : g.Spelled) (hrest : Ends rest) :
    scanVersion (g.text ++ rest) = some (g, rest) := by
  have hdot (t : List Char) : Stops isDecimal ('.' :: t) := .cons (by decide)
  have hpatch := h.patch.scan
    (stops_suffix hrest (by decide) (by decide) (by decide) g.pre g.build)
  have hpre := scanPrerelease_text h.pre (stops_build hrest (by decide) (by decide) g.build)
    (stops_build hrest (by decide) (by decide) g.build)
  rw [Groups.text_append]
  simp only [scanVersion, h.major.scan (hdot _), h.minor.scan (hdot _), hpatch, hpre,
    scanBuild_text h.build hrest]

/-- The groups as a partial version that leaves nothing open. -/
def Groups.toPartial (g : Groups) : Partial where
  major := g.major
  minor := some g.minor
  patch := some g.patch
  pre := g.pre
  build := g.build

theorem scanPartial_text (h : g.Spelled) (hrest : Ends rest) :
    scanPartial (g.text ++ rest) = some (g.toPartial, rest) := by
  have hdot (t : List Char) : Stops isDecimal ('.' :: t) := .cons (by decide)
  have hpatch := h.patch.scanXid
    (stops_suffix hrest (by decide) (by decide) (by decide) g.pre g.build)
  have hpre := scanPrerelease_text h.pre (stops_build hrest (by decide) (by decide) g.build)
    (stops_build hrest (by decide) (by decide) g.build)
  rw [Groups.text_append]
  simp only [scanPartial, dropWhile_eq_self_of_stops h.major.stops.1, h.major.scanXid (hdot _),
    h.minor.scanXid (hdot _), hpatch, hpre, scanBuild_text h.build hrest]
  rfl

/-! ## What a version is written with -/

/-- A character of a version. -/
def inVersion (c : Char) : Bool := inPre c || c == '+'

theorem isSpace_of_inVersion {c : Char} (h : inVersion c = true) : isSpace c = false := by
  unfold inVersion inPre at h
  simp only [Bool.or_eq_true, beq_iff_eq] at h
  rcases h with ((h | h) | rfl) | rfl
  · exact isSpace_of_isDecimal h
  · exact isSpace_of_isAlnum h
  · decide
  · decide

/-- A character that no version has. -/
theorem ne_of_inVersion {c d : Char} (h : inVersion c = true) (hd : inVersion d = false) :
    c ≠ d := by
  rintro rfl
  rw [h] at hd
  cases hd

theorem isOperatorEnd_of_inVersion {c : Char} (h : inVersion c = true) :
    isOperatorEnd c = false := by
  have hne (d : Char) (hd : inVersion d = false) : (c == d) = false := by
    simpa using ne_of_inVersion h hd
  simp only [isOperatorEnd, hne '<' (by decide), hne '>' (by decide), hne '=' (by decide),
    hne '~' (by decide), hne '^' (by decide), Bool.or_self]

theorem inVersion_of_numeral {a : List Char} (h : Numeral a) : ∀ c ∈ a, inVersion c = true := by
  intro c hc
  simp only [inVersion, inPre, h.digits.2 c hc, Bool.true_or]

theorem Groups.Spelled.chars (h : g.Spelled) : ∀ c ∈ g.text, inVersion c = true := by
  have hpre : ∀ c ∈ preText g.pre, inVersion c = true := by
    rcases hs : g.pre with _ | s
    · nofun
    · refine List.forall_mem_cons.mpr ⟨by decide, fun c hc => ?_⟩
      simp only [inVersion, (h.pre s hs).2 c hc, Bool.true_or]
  have hbuild : ∀ c ∈ buildText g.build, inVersion c = true := by
    rcases hs : g.build with _ | s
    · nofun
    · refine List.forall_mem_cons.mpr ⟨by decide, fun c hc => ?_⟩
      have hc := (h.build s hs).2 c hc
      unfold inBuild at hc
      unfold inVersion inPre
      rcases Bool.or_eq_true_iff.mp hc with hc | hc <;> simp only [hc, Bool.or_true, Bool.true_or]
  unfold Groups.text dotted
  simp only [List.forall_mem_append, List.forall_mem_cons]
  exact ⟨⟨⟨⟨inVersion_of_numeral h.major, by decide, inVersion_of_numeral h.minor⟩, by decide,
    inVersion_of_numeral h.patch⟩, hpre⟩, hbuild⟩

/-- The first character of a version is a digit. -/
theorem Groups.Spelled.head (h : g.Spelled) : ∃ c t, g.text = c :: t ∧ '0' ≤ c ∧ c ≤ '9' := by
  obtain ⟨⟨c, t, hct, h₀, h₉⟩, -⟩ := h.major.digits
  unfold Groups.text dotted
  rw [hct]
  exact ⟨c, _, rfl, h₀, h₉⟩

/-! ## Comparators -/

/-- A comparator, spelled out. -/
def comparatorText (operator : Operator) (g : Groups) : List Char := operator.text ++ g.text

/-- A character of a comparator. -/
def inComparator (c : Char) : Bool := inVersion c || c == '<' || c == '>' || c == '='

theorem isSpace_of_inComparator {c : Char} (h : inComparator c = true) : isSpace c = false := by
  unfold inComparator at h
  simp only [Bool.or_eq_true, beq_iff_eq] at h
  rcases h with ((h | rfl) | rfl) | rfl
  · exact isSpace_of_inVersion h
  · decide
  · decide
  · decide

theorem comparatorText_chars (h : g.Spelled) (operator : Operator) :
    ∀ c ∈ comparatorText operator g, inComparator c = true := by
  unfold comparatorText
  rw [List.forall_mem_append]
  refine ⟨List.all_eq_true.mp (by cases operator <;> decide), fun c hc => ?_⟩
  simp only [inComparator, h.chars c hc, Bool.true_or]

/-- Where a comparator starts. -/
theorem comparatorText_head (h : g.Spelled) (operator : Operator) :
    ∃ c t, comparatorText operator g = c :: t ∧
      (('0' ≤ c ∧ c ≤ '9') ∨ c = '<' ∨ c = '>' ∨ c = '=') := by
  obtain ⟨c, t, hct, hdigit⟩ := h.head
  unfold comparatorText
  rw [hct]
  cases operator with
  | empty => exact ⟨c, t, rfl, .inl hdigit⟩
  | eq => exact ⟨'=', c :: t, rfl, .inr (.inr (.inr rfl))⟩
  | lt => exact ⟨'<', c :: t, rfl, .inr (.inl rfl)⟩
  | le => exact ⟨'<', '=' :: c :: t, rfl, .inr (.inl rfl)⟩
  | gt => exact ⟨'>', c :: t, rfl, .inr (.inr (.inl rfl))⟩
  | ge => exact ⟨'>', '=' :: c :: t, rfl, .inr (.inr (.inl rfl))⟩

theorem comparatorText_ne {operator : Operator} (h : g.Spelled) {c d : Char} {t : List Char}
    (htext : comparatorText operator g = c :: t) (hd : d ≠ '<' ∧ d ≠ '>' ∧ d ≠ '=')
    (hdigit : ¬ ('0' ≤ d ∧ d ≤ '9')) : c ≠ d := by
  obtain ⟨c', t', htext', hstart⟩ := comparatorText_head h operator
  obtain ⟨rfl, rfl⟩ := List.cons.inj (htext.symm.trans htext')
  rintro rfl
  rcases hstart with hstart | rfl | rfl | rfl
  · exact hdigit hstart
  · exact hd.1 rfl
  · exact hd.2.1 rfl
  · exact hd.2.2 rfl

/-- A text without blanks is left alone where blanks are stripped or split at. -/
theorem dropWhile_isSpace {s : List Char} (h : ∀ c ∈ s, isSpace c = false) :
    s.dropWhile isSpace = s :=
  dropWhile_eq_self_of_stops fun c _ heq => h c (heq ▸ List.mem_cons_self)

theorem stripChars_eq_self {s : List Char} (h : ∀ c ∈ s, isSpace c = false) : stripChars s = s := by
  unfold stripChars
  rw [dropWhile_isSpace h, dropWhile_isSpace fun c hc => h c (List.mem_reverse.mp hc),
    List.reverse_reverse]

theorem splitSpaces_eq_singleton {s : List Char} (hne : s ≠ []) (h : ∀ c ∈ s, isSpace c = false) :
    splitSpaces s = [s] := by
  unfold splitSpaces
  rw [List.splitOnP_eq_singleton h, List.filter_cons_of_pos (by simpa using hne), List.filter_nil]

section

variable (h : g.Spelled) (operator : Operator)

include h

theorem comparatorText_isSpace : ∀ c ∈ comparatorText operator g, isSpace c = false :=
  fun c hc => isSpace_of_inComparator (comparatorText_chars h operator c hc)

theorem comparatorText_ne_nil : comparatorText operator g ≠ [] := by
  obtain ⟨c, t, htext, -⟩ := comparatorText_head h operator
  rw [htext]
  exact List.cons_ne_nil _ _

theorem scanOperator_text : scanOperator (comparatorText operator g) = (operator, g.text) := by
  obtain ⟨c, t, hct, hdigit⟩ := h.head
  have hne (d : Char) (hd : ¬ ('0' ≤ d ∧ d ≤ '9')) : c ≠ d := by
    rintro rfl
    exact hd hdigit
  have hlt := hne '<' (by decide)
  have hgt := hne '>' (by decide)
  have heq := hne '=' (by decide)
  unfold comparatorText
  rw [hct]
  cases operator <;> simp [Operator.text, scanOperator, hlt, hgt, heq]

theorem matchTilde_text : matchTilde (comparatorText operator g) = none := by
  obtain ⟨c, t, htext, -⟩ := comparatorText_head h operator
  have htilde := comparatorText_ne h htext (d := '~') (by decide) (by decide)
  unfold matchTilde
  rw [dropWhile_isSpace (comparatorText_isSpace h operator), htext]
  split
  · next heq => exact absurd (List.cons.inj heq).1 htilde
  · next heq => exact absurd (List.cons.inj heq).1 htilde
  · rfl

theorem matchCaret_text : matchCaret (comparatorText operator g) = none := by
  obtain ⟨c, t, htext, -⟩ := comparatorText_head h operator
  have hcaret := comparatorText_ne h htext (d := '^') (by decide) (by decide)
  unfold matchCaret
  rw [dropWhile_isSpace (comparatorText_isSpace h operator), htext]
  split
  · next heq => exact absurd (List.cons.inj heq).1 hcaret
  · rfl

theorem text_isSpace : ∀ c ∈ g.text, isSpace c = false :=
  fun c hc => isSpace_of_inVersion (h.chars c hc)

theorem text_stops : Stops isLead g.text := by
  rw [← List.append_nil g.text, Groups.text_append]
  exact h.major.stops.1

theorem matchXrange_text :
    matchXrange (comparatorText operator g) = some (operator, g.toPartial) := by
  have hscan := scanPartial_text h (.inl rfl)
  rw [List.append_nil] at hscan
  unfold matchXrange
  rw [dropWhile_isSpace (comparatorText_isSpace h operator), scanOperator_text h]
  simp only [dropWhile_isSpace (text_isSpace h), matchPartial, hscan, List.all_nil, if_true,
    Option.map_some]

theorem matchComparator_text :
    matchComparator (comparatorText operator g) = some (operator, g) := by
  have hscan := scanVersion_text h (.inl rfl)
  rw [List.append_nil] at hscan
  unfold matchComparator
  rw [dropWhile_isSpace (comparatorText_isSpace h operator), scanOperator_text h]
  simp only [dropWhile_isSpace (text_isSpace h), matchFullVersion,
    dropWhile_eq_self_of_stops (text_stops h), hscan, List.all_nil, if_true, Option.map_some]

/-- **A comparator is its own desugaring.** -/
theorem expandToken_text (b : Bool) :
    expandToken (comparatorText operator g) b = .ok (comparatorText operator g) := by
  unfold expandToken
  rw [matchTilde_text h, matchCaret_text h, matchXrange_text h]
  simp only [desugarXrange, Groups.toPartial, h.major.isX, h.minor.isX, h.patch.isX, Bool.or_self,
    Bool.false_eq_true, if_false, Bool.and_false,
    stripChars_eq_self (comparatorText_isSpace h operator)]
  rfl

theorem parseComparator_text :
    parseComparator (comparatorText operator g) =
      (raised g.toSemVer).map fun v => { operator := operator, semver := .version v } := by
  obtain ⟨c, t, htext, -⟩ := comparatorText_head h operator
  have hne (d : Char) (hd : d ≠ '<' ∧ d ≠ '>' ∧ d ≠ '=') (hdigit : ¬ ('0' ≤ d ∧ d ≤ '9')) :
      comparatorText operator g ≠ [d] := fun heq => comparatorText_ne h heq hd hdigit rfl
  unfold parseComparator
  rw [stripChars_eq_self (comparatorText_isSpace h operator)]
  simp only [comparatorText_ne_nil h, hne '*' (by decide) (by decide),
    hne 'x' (by decide) (by decide), hne 'X' (by decide) (by decide), decide_false, Bool.or_self, Bool.false_eq_true, if_false,
    matchComparator_text h]

/-- **A comparator parses to itself**, in either mode. -/
theorem parseToken_text (b : Bool) :
    parseToken (comparatorText operator g) b =
      (raised g.toSemVer).map fun v => [{ operator := operator, semver := .version v }] := by
  unfold parseToken
  rw [expandToken_text h]
  simp only [raised, Except.mapError, bind, Except.bind,
    splitSpaces_eq_singleton (comparatorText_ne_nil h operator) (comparatorText_isSpace h operator),
    List.mapM_cons, parseComparator_text h, List.mapM_nil]
  rcases g.toSemVer with e | v <;> rfl

end

/-! ## Tokens -/

/-- The tokens of a comparator set, once a hyphen range is expanded. -/
def tokens (s : List Char) : List (List Char) := splitSpaces (dropOperatorSpace false (stripChars s))

/-- A set without comparators admits everything. -/
def orAny (comparators : List Comparator) : List Comparator :=
  if comparators = [] then anyComparator else comparators

/-- A comparator set parses token by token. -/
theorem parseComparatorSet_eq (raw : List Char) (b : Bool) :
    parseComparatorSet raw b = (do
      let expanded ← raised (expandHyphen (stripChars raw) b)
      let groups ← (tokens expanded).mapM fun token => parseToken token b
      return orAny groups.flatten) := by
  unfold parseComparatorSet tokens
  dsimp only
  split
  · next hempty =>
    rw [hempty]
    rfl
  · rcases raised (expandHyphen (stripChars raw) b) with e | t
    · rfl
    · simp only [bind, Except.bind]
      split
      · next hempty =>
        rw [hempty]
        rfl
      · rfl

/-- Parsing strips the text. -/
theorem parseComparatorSet_strip {s t : List Char} (h : stripChars s = stripChars t) (b : Bool) :
    parseComparatorSet s b = parseComparatorSet t b := by
  rw [parseComparatorSet_eq, parseComparatorSet_eq, h]

/-- A text that stays one token. -/
structure IsToken (s : List Char) : Prop where
  ne_nil : s ≠ []
  isSpace : ∀ c ∈ s, isSpace c = false
  last : ∀ c, s.getLast? = some c → isOperatorEnd c = false

theorem comparatorText_isToken (h : g.Spelled) (operator : Operator) :
    IsToken (comparatorText operator g) where
  ne_nil := comparatorText_ne_nil h operator
  isSpace := comparatorText_isSpace h operator
  last c hc := by
    obtain ⟨d, t, htext, -⟩ := h.head
    unfold comparatorText at hc
    rw [List.getLast?_append_of_ne_nil _ (by rw [htext]; exact List.cons_ne_nil _ _)] at hc
    exact isOperatorEnd_of_inVersion (h.chars c (List.mem_of_getLast? hc))

/-- `s.rstrip()`. -/
def stripRight (s : List Char) : List Char := (s.reverse.dropWhile isSpace).reverse

theorem isPrefix_stripRight (s : List Char) : stripRight s <+: s := by
  unfold stripRight
  rw [← List.reverse_suffix, List.reverse_reverse]
  exact List.dropWhile_suffix _

theorem stops_dropWhile (p : Char → Bool) (s : List Char) : Stops p (s.dropWhile p) := by
  intro c t heq
  have hhead := List.head?_dropWhile_not p s
  rwa [heq] at hhead

theorem stripRight_idem (s : List Char) : stripRight (stripRight s) = stripRight s := by
  unfold stripRight
  rw [List.reverse_reverse, dropWhile_eq_self_of_stops (stops_dropWhile _ _)]

/-- Stripping twice strips once. -/
theorem stripChars_idem (s : List Char) : stripChars (stripChars s) = stripChars s := by
  have hstops : Stops isSpace (stripRight (s.dropWhile isSpace)) := by
    rintro c t heq
    obtain ⟨w, hw⟩ := isPrefix_stripRight (s.dropWhile isSpace)
    rw [heq] at hw
    exact stops_dropWhile isSpace s c (t ++ w) hw.symm
  change stripRight ((stripRight (s.dropWhile isSpace)).dropWhile isSpace) = _
  rw [dropWhile_eq_self_of_stops hstops, stripRight_idem]
  rfl

theorem Ends.stripRight {w : List Char} (h : Ends w) : Ends (stripRight w) := by
  rcases h with rfl | ⟨t, rfl⟩
  · exact .inl rfl
  · rcases List.prefix_cons_iff.mp (isPrefix_stripRight (' ' :: t)) with hnil | ⟨u, hu, -⟩
    · exact .inl hnil
    · exact .inr ⟨u, hu⟩

/-- Stripping a text that starts with a token strips what follows it. -/
theorem stripChars_append {s : List Char} (h : IsToken s) (w : List Char) :
    stripChars (s ++ w) = s ++ stripRight w := by
  obtain ⟨c, t, rfl⟩ := List.exists_cons_of_ne_nil h.ne_nil
  have hleft : (c :: t ++ w).dropWhile isSpace = c :: t ++ w :=
    dropWhile_eq_self_of_stops (.cons (h.isSpace c List.mem_cons_self))
  have hright : (c :: t).reverse.dropWhile isSpace = (c :: t).reverse :=
    dropWhile_isSpace fun d hd => h.isSpace d (List.mem_reverse.mp hd)
  unfold stripChars stripRight
  rw [hleft, List.reverse_append, List.dropWhile_append]
  split
  · next hempty =>
    rw [hright, List.reverse_reverse, List.isEmpty_iff.mp hempty]
    exact (List.append_nil _).symm
  · rw [List.reverse_append, List.reverse_reverse]

theorem dropOperatorSpace_append {s : List Char} (h : ∀ c ∈ s, isSpace c = false) (b : Bool)
    (w : List Char) :
    dropOperatorSpace b (s ++ w) =
      s ++ dropOperatorSpace ((s.getLast?.map isOperatorEnd).getD b) w := by
  induction s generalizing b with
  | nil => rfl
  | cons c s ih =>
    have hc := h c List.mem_cons_self
    rw [List.cons_append, dropOperatorSpace, hc, Bool.and_false, if_neg Bool.false_ne_true,
      ih fun d hd => h d (List.mem_cons_of_mem _ hd), List.getLast?_cons]
    cases s.getLast? <;> rfl

theorem splitSpaces_cons {s w : List Char} (hne : s ≠ []) (h : ∀ c ∈ s, isSpace c = false) :
    splitSpaces (s ++ ' ' :: w) = s :: splitSpaces w := by
  unfold splitSpaces
  rw [List.splitOnP_append_cons_of_forall_mem h ' ' (by decide),
    List.filter_cons_of_pos (by simpa using hne)]

/-- **The first token** is read off, whatever follows it. -/
theorem tokens_append {s w : List Char} (h : IsToken s) (hw : Ends w) :
    splitSpaces (dropOperatorSpace false (s ++ w)) = s :: splitSpaces (dropOperatorSpace false w) := by
  obtain ⟨c, hc⟩ := Option.ne_none_iff_exists'.mp (mt List.getLast?_eq_none_iff.mp h.ne_nil)
  rw [dropOperatorSpace_append h.isSpace, hc, Option.map_some, Option.getD_some, h.last c hc]
  rcases hw with rfl | ⟨w, rfl⟩
  · rw [dropOperatorSpace, List.append_nil, splitSpaces_eq_singleton h.ne_nil h.isSpace]
    rfl
  · rw [dropOperatorSpace, Bool.false_and, if_neg Bool.false_ne_true,
      splitSpaces_cons h.ne_nil h.isSpace]
    rfl

/-! ## Tokens in a row -/

/-- Where a token starts that is no hyphen. -/
def IsStart (c : Char) : Prop := isSpace c = false ∧ c ≠ '-'

/-- A token that no hyphen range starts with, unless a hyphen follows it. -/
structure Plain (t : List Char) : Prop extends IsToken t where
  start : ∃ d u, t = d :: u ∧ IsStart d
  scan : ∀ w, Ends w → scanPartial (t ++ w) = none ∨ ∃ p, scanPartial (t ++ w) = some (p, w)

/-- Tokens with a blank between them. -/
def spaced (ts : List (List Char)) : List Char := [' '].intercalate ts

/-- What follows the first of them. -/
def spacedRest : List (List Char) → List Char
  | [] => []
  | t :: ts => ' ' :: spaced (t :: ts)

theorem spaced_cons (t : List Char) (ts : List (List Char)) :
    spaced (t :: ts) = t ++ spacedRest ts := by
  cases ts with
  | nil => simp [spaced, spacedRest]
  | cons u ts => simp only [spaced, spacedRest, List.intercalate_cons_cons, List.append_assoc,
      List.singleton_append]

theorem spacedRest_ends (ts : List (List Char)) : Ends (spacedRest ts) := by
  cases ts with
  | nil => exact .inl rfl
  | cons t ts => exact .inr ⟨_, rfl⟩

variable {ts : List (List Char)}

theorem spaced_ne_nil {t : List Char} (h : IsToken t) (ts : List (List Char)) :
    spaced (t :: ts) ≠ [] := by
  rw [spaced_cons]
  exact List.append_ne_nil_of_left_ne_nil h.ne_nil _

/-- The last character of a row is not blank. -/
theorem getLast?_spaced (h : ∀ t ∈ ts, IsToken t) :
    ∀ d, (spaced ts).getLast? = some d → isSpace d = false := by
  induction ts with
  | nil => nofun
  | cons t ts ih =>
    have ht := h t List.mem_cons_self
    intro d hd
    rw [spaced_cons] at hd
    cases ts with
    | nil =>
      rw [spacedRest, List.append_nil] at hd
      exact ht.isSpace d (List.mem_of_getLast? hd)
    | cons u ts =>
      have hne := spaced_ne_nil (h u (List.mem_cons_of_mem _ List.mem_cons_self)) ts
      rw [spacedRest, List.getLast?_append_of_ne_nil _ (List.cons_ne_nil _ _),
        List.getLast?_cons_of_ne_nil hne] at hd
      exact ih (fun e he => h e (List.mem_cons_of_mem _ he)) d hd

theorem stripRight_eq_self {s : List Char} (h : ∀ d, s.getLast? = some d → isSpace d = false) :
    stripRight s = s := by
  unfold stripRight
  rw [dropWhile_eq_self_of_stops, List.reverse_reverse]
  intro d t heq
  refine h d ?_
  rw [← List.head?_reverse, heq]
  rfl

theorem stripChars_spaced (h : ∀ t ∈ ts, IsToken t) : stripChars (spaced ts) = spaced ts := by
  cases ts with
  | nil => rfl
  | cons t ts =>
    have hlast := getLast?_spaced h
    rw [spaced_cons] at hlast ⊢
    rw [stripChars_append (h t List.mem_cons_self), stripRight_eq_self]
    intro d hd
    refine hlast d ?_
    rw [List.getLast?_append, hd]
    rfl

/-- **A row reads token by token.** -/
theorem splitSpaces_spaced (h : ∀ t ∈ ts, IsToken t) :
    splitSpaces (dropOperatorSpace false (spaced ts)) = ts := by
  induction ts with
  | nil => rfl
  | cons t ts ih =>
    rw [spaced_cons, tokens_append (h t List.mem_cons_self) (spacedRest_ends ts)]
    congr 1
    refine Eq.trans ?_ (ih fun e he => h e (List.mem_cons_of_mem _ he))
    cases ts with
    | nil => rfl
    | cons u ts =>
      rw [spacedRest, dropOperatorSpace, Bool.false_and, if_neg Bool.false_ne_true]
      rfl

/-- No hyphen follows the first token of a row. -/
theorem matchHyphen_eq_none {s w : List Char} (hs : Stops isSpace s)
    (hscan : scanPartial s = none ∨ ∃ p, scanPartial s = some (p, w))
    (hw : w = [] ∨ ∃ d u, w = ' ' :: d :: u ∧ IsStart d) : matchHyphen s = none := by
  unfold matchHyphen
  dsimp only
  rw [dropWhile_eq_self_of_stops hs]
  rcases hscan with hscan | ⟨p, hscan⟩
  · rw [hscan]
  rw [hscan]
  rcases hw with rfl | ⟨d, u, rfl, hspace, hhyphen⟩
  · rfl
  · have hdrop : (' ' :: d :: u).dropWhile isSpace = d :: u := by
      rw [List.dropWhile_cons_of_pos (by decide), dropWhile_eq_self_of_stops (.cons hspace)]
    dsimp only
    rw [hdrop]
    split
    · next heq => exact absurd (List.cons.inj heq).1 hhyphen
    · rfl

theorem spacedRest_start (h : ∀ t ∈ ts, Plain t) :
    spacedRest ts = [] ∨ ∃ d u, spacedRest ts = ' ' :: d :: u ∧ IsStart d := by
  cases ts with
  | nil => exact .inl rfl
  | cons t ts =>
    obtain ⟨d, u, rfl, hstart⟩ := (h t List.mem_cons_self).start
    refine .inr ⟨d, u ++ spacedRest ts, ?_, hstart⟩
    rw [spacedRest, spaced_cons]
    rfl

theorem matchHyphen_spaced (h : ∀ t ∈ ts, Plain t) : matchHyphen (spaced ts) = none := by
  cases ts with
  | nil => rfl
  | cons t ts =>
    have hplain := h t List.mem_cons_self
    have hrest := spacedRest_start fun e he => h e (List.mem_cons_of_mem _ he)
    rw [spaced_cons]
    refine matchHyphen_eq_none ?_ (hplain.scan _ (spacedRest_ends ts)) hrest
    obtain ⟨d, u, rfl, hd, -⟩ := hplain.start
    exact .cons hd

/-- **A row of plain tokens** parses token by token. -/
theorem parseComparatorSet_spaced (h : ∀ t ∈ ts, Plain t) (b : Bool) :
    parseComparatorSet (spaced ts) b = (do
      let groups ← ts.mapM fun token => parseToken token b
      return orAny groups.flatten) := by
  have hstrip := stripChars_spaced fun t ht => (h t ht).toIsToken
  have hexpand : expandHyphen (spaced ts) b = .ok (spaced ts) := by
    unfold expandHyphen
    rw [matchHyphen_spaced h]
  rw [parseComparatorSet_eq, hstrip, hexpand]
  have htokens : tokens (spaced ts) = ts := by
    unfold tokens
    rw [hstrip, splitSpaces_spaced fun t ht => (h t ht).toIsToken]
  simp only [raised, Except.mapError, bind, Except.bind, htokens]

end Minireg.Semver
