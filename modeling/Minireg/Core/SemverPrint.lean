import Minireg.Core.SemverText
import Minireg.Py.Raise

/-!
# Ranges print and parse back

`Range.text` is `str` of a range. The numbers of a parsed version are short
enough to print, and what is printed parses, in either mode, to the comparators
it was printed from: `parseRange_text`.
-/

namespace Minireg.Semver

open Py

/-- `Comparator.__str__`. -/
def Comparator.text (c : Comparator) : String :=
  match c.semver with
  | .any => "*"
  | .version v => String.ofList c.operator.text ++ v.text

/-- `ComparatorSet.__str__`. -/
def setText (comparators : List Comparator) : String :=
  let text := join " " (comparators.map Comparator.text)
  if text = "" then "*" else text

/-- `Range.__str__`. -/
def Range.text (r : Range) : String := join " || " (r.sets.map setText)

/-! ## Numbers -/

theorem toDigits_numeral_pos {n : Nat} (hn : 0 < n) :
    ∃ c t, Nat.toDigits 10 n = c :: t ∧ '1' ≤ c ∧ c ≤ '9' ∧ ∀ d ∈ t, isDecimal d = true := by
  induction n using Nat.strongRecOn with
  | ind n ih =>
    rcases Nat.lt_or_ge n 10 with hlt | hge
    · rw [Nat.toDigits_of_lt_base hlt]
      have hdigit : ∀ d < 10, 0 < d → '1' ≤ Nat.digitChar d ∧ Nat.digitChar d ≤ '9' := by decide
      obtain ⟨h₁, h₉⟩ := hdigit n hlt hn
      exact ⟨_, [], rfl, h₁, h₉, nofun⟩
    · obtain ⟨c, t, htext, h₁, h₉, ht⟩ := ih (n / 10) (by omega) (by omega)
      have hdigit : ∀ d < 10, isDecimal (Nat.digitChar d) = true := by decide
      rw [Nat.toDigits_of_base_le (by decide) hge, htext]
      refine ⟨c, t ++ [(n % 10).digitChar], rfl, h₁, h₉, ?_⟩
      rw [List.forall_mem_append]
      exact ⟨ht, by simpa using hdigit _ (Nat.mod_lt n (by decide))⟩

theorem toDigits_numeral (n : Nat) : Numeral (Nat.toDigits 10 n) := by
  rcases Nat.eq_zero_or_pos n with rfl | hn
  · exact .inl (Nat.toDigits_zero 10)
  · exact .inr (toDigits_numeral_pos hn)

/-- A number Python can print. -/
def Short (n : Nat) : Prop := n < 10 ^ maxStrDigits

theorem pyInt_short {s : List Char} {n : Nat} (h : pyInt s = .ok n) : Short n := by
  refine (pyInt_lt h).trans_le (Nat.pow_le_pow_right (by decide) ?_)
  unfold pyInt at h
  split at h
  · cases h
  · omega

theorem foldl_decimal {s : List Char} (h : ∀ c ∈ s, c.isDigit = true) (n : Nat) :
    s.foldl (fun n c => 10 * n + (decimal? c).getD 0) n = Nat.ofDigitChars 10 s n := by
  induction s generalizing n with
  | nil => exact Nat.ofDigitChars_nil.symm
  | cons c s ih =>
    have hc : 48 ≤ c.toNat ∧ c.toNat ≤ 57 := by
      simpa [Char.isDigit, UInt32.le_iff_toNat_le] using h c List.mem_cons_self
    have hdecimal : (decimal? c).getD 0 = c.toNat - '0'.toNat := by
      unfold decimal? decimalBlocks
      rw [List.find?_cons_of_pos (by simp; omega)]
      rfl
    rw [List.foldl_cons, Nat.ofDigitChars_cons, hdecimal]
    exact ih (fun d hd => h d (List.mem_cons_of_mem _ hd)) _

/-- **A number parses back from its digits.** -/
theorem pyInt_toDigits {n : Nat} (h : Short n) : pyInt (Nat.toDigits 10 n) = .ok n := by
  have hlength : (Nat.toDigits 10 n).length ≤ maxStrDigits :=
    (Nat.length_toDigits_le_iff (by decide) (by decide)).mpr h
  have hdigits : ∀ c ∈ Nat.toDigits 10 n, c.isDigit = true :=
    fun c hc => Nat.isDigit_of_mem_toDigits (by decide) (by decide) hc
  unfold pyInt
  rw [if_neg (by omega), foldl_decimal hdigits, Nat.ofDigitChars_ten_toDigits]

/-! ## Prereleases -/

theorem scanNum_append {s a r : List Char} (h : scanNum s = some (a, r)) : s = a ++ r := by
  unfold scanNum at h
  split at h
  · cases h
    rfl
  · split at h
    · obtain ⟨rfl, rfl⟩ := Prod.mk.inj (Option.some.inj h)
      rw [List.cons_append, List.takeWhile_append_dropWhile]
    · cases h
  · cases h

/-- The characters of an identifier. -/
theorem inPre_of_isPreIdent {s : List Char} (h : isPreIdent s = true) :
    s ≠ [] ∧ ∀ c ∈ s, (isDecimal c || isAlnum c) = true := by
  unfold isPreIdent at h
  rcases Bool.or_eq_true_iff.mp h with h | h
  · split at h
    · next a rest hscan =>
      rw [List.isEmpty_iff.mp h] at hscan
      have hnumeral := scanNum_numeral hscan
      have hself : s = a := (scanNum_append hscan).trans (List.append_nil a)
      rw [hself]
      obtain ⟨⟨c, t, hct, -⟩, hdigits⟩ := hnumeral.digits
      exact ⟨by rw [hct]; exact List.cons_ne_nil _ _,
        fun c hc => by rw [hdigits c hc, Bool.true_or]⟩
    · cases h
  · split at h
    · next c rest hdrop =>
      rw [Bool.and_eq_true] at h
      have happend := List.takeWhile_append_dropWhile (p := isDecimal) (l := s)
      rw [hdrop] at happend
      rw [← happend]
      refine ⟨by simp, ?_⟩
      rw [List.forall_mem_append, List.forall_mem_cons]
      refine ⟨fun d hd => ?_, ?_, fun d hd => ?_⟩
      · rw [List.all_eq_true.mp List.all_takeWhile d hd, Bool.true_or]
      · rw [isAlnum, h.1, Bool.or_true, Bool.or_true]
      · rw [List.all_eq_true.mp h.2 d hd, Bool.or_true]
    · cases h

/-- An identifier of the grammar. -/
def Ident.WellFormed : Ident → Prop
  | .num _ => True
  | .alpha s => isPreIdent s.toList = true ∧ s.toList.all isDecimal = false

/-- An identifier that prints as what it was parsed from. -/
def Ident.Printable : Ident → Prop
  | .num n => Short n
  | .alpha s => isPreIdent s.toList = true ∧ s.toList.all isDecimal = false

theorem Ident.Printable.wellFormed {id : Ident} (h : id.Printable) : id.WellFormed := by
  cases id with
  | num n => trivial
  | alpha s => exact h

/-- One turn of `_split_prerelease`. -/
def parseIdent (part : List Char) : Except ValueError Ident :=
  if part.all isDecimal then (pyInt part).map .num else .ok (.alpha (String.ofList part))

theorem parseIdent_printable {part : List Char} {id : Ident} (hpart : isPreIdent part = true)
    (h : parseIdent part = .ok id) : id.Printable := by
  unfold parseIdent at h
  split at h
  · obtain ⟨n, hn, rfl⟩ := map_ok h
    exact pyInt_short hn
  · next hall =>
    cases h
    exact ⟨by rwa [String.toList_ofList], by simpa using hall⟩

theorem Ident.toList_text (n : Nat) : (Ident.num n).text.toList = Nat.toDigits 10 n :=
  Nat.toList_repr

theorem Ident.WellFormed.isPreIdent {id : Ident} (h : id.WellFormed) :
    isPreIdent id.text.toList = true := by
  cases id with
  | num n =>
    have hscan := (toDigits_numeral n).scan .nil
    rw [List.append_nil] at hscan
    unfold Semver.isPreIdent
    rw [Ident.toList_text, hscan]
    rfl
  | alpha s => exact h.1

theorem Ident.Printable.parse {id : Ident} (h : id.Printable) :
    parseIdent id.text.toList = .ok id := by
  unfold parseIdent
  cases id with
  | num n =>
    rw [Ident.toList_text, if_pos (List.all_eq_true.mpr (toDigits_numeral n).digits.2),
      pyInt_toDigits h]
    rfl
  | alpha s =>
    rw [if_neg (by simpa [Ident.text] using h.2)]
    exact congrArg (Except.ok ∘ Ident.alpha) String.ofList_toList

/-- The text between a hyphen and the build metadata. -/
def identsText (ids : List Ident) : List Char := ['.'].intercalate (ids.map (·.text.toList))

theorem mem_intercalate {sep : List Char} {l : List (List Char)} {c : Char}
    (h : c ∈ sep.intercalate l) : c ∈ sep ∨ ∃ s ∈ l, c ∈ s := by
  induction l with
  | nil => cases h
  | cons s l ih =>
    cases l with
    | nil => exact .inr ⟨s, List.mem_singleton_self s, by simpa using h⟩
    | cons t l =>
      rw [List.intercalate_cons_cons, List.append_assoc, List.mem_append, List.mem_append] at h
      rcases h with h | h | h
      · exact .inr ⟨s, List.mem_cons_self, h⟩
      · exact .inl h
      · exact (ih h).imp_right fun ⟨u, hu, hc⟩ => ⟨u, List.mem_cons_of_mem _ hu, hc⟩

variable {ids : List Ident}

theorem splitOn_identsText (hne : ids ≠ []) (h : ∀ id ∈ ids, id.WellFormed) :
    (identsText ids).splitOn '.' = ids.map (·.text.toList) := by
  refine List.splitOn_intercalate '.' (fun l hl hdot => ?_) (by simpa using hne)
  obtain ⟨id, hid, rfl⟩ := List.mem_map.mp hl
  exact absurd ((inPre_of_isPreIdent (h id hid).isPreIdent).2 '.' hdot) (by decide)

/-- What is printed of a prerelease, its groups match again. -/
theorem identsText_spelled (hne : ids ≠ []) (h : ∀ id ∈ ids, id.WellFormed) :
    ((identsText ids).splitOn '.').all isPreIdent = true ∧
      ∀ c ∈ identsText ids, inPre c = true := by
  constructor
  · rw [splitOn_identsText hne h, List.all_map, List.all_eq_true]
    exact fun id hid => (h id hid).isPreIdent
  · intro c hc
    unfold inPre
    rcases mem_intercalate hc with hc | ⟨l, hl, hc⟩
    · rw [List.mem_singleton.mp hc]
      decide
    · obtain ⟨id, hid, rfl⟩ := List.mem_map.mp hl
      rw [(inPre_of_isPreIdent (h id hid).isPreIdent).2 c hc, Bool.true_or]

theorem splitPrerelease_eq {raw : List Char} (h : raw ≠ []) :
    splitPrerelease (some raw) = (raw.splitOn '.').mapM parseIdent := by
  unfold splitPrerelease
  split
  · next heq => cases heq
  · next heq =>
    cases heq
    exact absurd rfl h
  · next heq =>
    cases heq
    rfl

theorem identsText_ne_nil (hne : ids ≠ []) (h : ∀ id ∈ ids, id.WellFormed) :
    identsText ids ≠ [] := by
  intro hnil
  have hspelled := (identsText_spelled hne h).1
  rw [hnil] at hspelled
  revert hspelled
  decide

theorem splitPrerelease_identsText (hne : ids ≠ []) (h : ∀ id ∈ ids, id.Printable) :
    splitPrerelease (some (identsText ids)) = .ok ids := by
  have hwell (id : Ident) (hid : id ∈ ids) := (h id hid).wellFormed
  rw [splitPrerelease_eq (identsText_ne_nil hne hwell), splitOn_identsText hne hwell,
    List.mapM_map]
  exact mapM_eq_self fun id hid => (h id hid).parse

/-! ## Versions -/

/-- A version of the grammar. -/
structure SemVer.WellFormed (v : SemVer) : Prop where
  prerelease : ∀ id ∈ v.prerelease, id.WellFormed
  build : ∀ s, v.build = some s →
    ((s.toList.splitOn '.').all fun part => !part.isEmpty) = true ∧
      ∀ c ∈ s.toList, inBuild c = true

/-- A version that prints as what it was parsed from. -/
structure SemVer.Printable (v : SemVer) : Prop where
  major : Short v.major
  minor : Short v.minor
  patch : Short v.patch
  prerelease : ∀ id ∈ v.prerelease, id.Printable
  build : ∀ s, v.build = some s →
    ((s.toList.splitOn '.').all fun part => !part.isEmpty) = true ∧
      ∀ c ∈ s.toList, inBuild c = true

theorem Groups.Spelled.printable {g : Groups} (hg : g.Spelled) {v : SemVer}
    (h : g.toSemVer = .ok v) : v.Printable := by
  unfold Groups.toSemVer at h
  obtain ⟨major, hmajor, h⟩ := bind_ok h
  obtain ⟨minor, hminor, h⟩ := bind_ok h
  obtain ⟨patch, hpatch, h⟩ := bind_ok h
  obtain ⟨prerelease, hprerelease, h⟩ := bind_ok h
  cases h
  refine ⟨pyInt_short hmajor, pyInt_short hminor, pyInt_short hpatch, ?_, ?_⟩
  · dsimp only
    rcases hpre : g.pre with _ | raw
    · rw [hpre] at hprerelease
      cases hprerelease
      exact nofun
    · rw [hpre] at hprerelease
      have hparts := List.all_eq_true.mp (hg.pre raw hpre).1
      have hne : raw ≠ [] := by
        rintro rfl
        exact absurd (hparts [] List.mem_cons_self) (by decide)
      rw [splitPrerelease_eq hne] at hprerelease
      intro id hid
      obtain ⟨part, hpart, hid⟩ := mapM_mem hprerelease id hid
      exact parseIdent_printable (hparts part hpart) hid
  · intro s hs
    obtain ⟨t, ht, rfl⟩ := Option.map_eq_some_iff.mp hs
    rw [String.toList_ofList]
    exact hg.build t ht

/-- The groups a version is printed from. -/
def SemVer.groups (v : SemVer) : Groups where
  major := Nat.toDigits 10 v.major
  minor := Nat.toDigits 10 v.minor
  patch := Nat.toDigits 10 v.patch
  pre := if v.prerelease = [] then none else some (identsText v.prerelease)
  build := v.build.map String.toList

variable {v : SemVer}

theorem SemVer.Printable.wellFormed (h : v.Printable) : v.WellFormed where
  prerelease id hid := (h.prerelease id hid).wellFormed
  build := h.build

theorem SemVer.WellFormed.spelled (h : v.WellFormed) : v.groups.Spelled where
  major := toDigits_numeral v.major
  minor := toDigits_numeral v.minor
  patch := toDigits_numeral v.patch
  pre s hs := by
    obtain ⟨hne, hs⟩ := Option.ite_none_left_eq_some.mp hs
    obtain rfl := Option.some.inj hs
    exact identsText_spelled hne h.prerelease
  build s hs := by
    obtain ⟨t, ht, rfl⟩ := Option.map_eq_some_iff.mp hs
    exact h.build t ht

/-- **A version parses back from what is printed of it.** -/
theorem SemVer.Printable.toSemVer (h : v.Printable) : v.groups.toSemVer = .ok v := by
  have hpre : splitPrerelease v.groups.pre = .ok v.prerelease := by
    unfold SemVer.groups
    dsimp only
    split
    · next hnil =>
      rw [hnil]
      rfl
    · next hne => exact splitPrerelease_identsText hne h.prerelease
  have hbuild : v.groups.build.map String.ofList = v.build := by
    unfold SemVer.groups
    rw [Option.map_map]
    rcases v.build with _ | s
    · rfl
    · exact congrArg some String.ofList_toList
  unfold Groups.toSemVer
  rw [hpre, hbuild]
  unfold SemVer.groups
  simp only [pyInt_toDigits h.major, pyInt_toDigits h.minor, pyInt_toDigits h.patch]
  rfl

theorem toList_join (sep : String) (l : List String) :
    (join sep l).toList = sep.toList.intercalate (l.map String.toList) := by
  induction l with
  | nil => rfl
  | cons s l ih =>
    cases l with
    | nil => simp [join]
    | cons t l =>
      rw [join, String.toList_append, String.toList_append, ih]
      · simp only [List.map_cons, List.intercalate_cons_cons]
      · exact List.cons_ne_nil _ _

theorem SemVer.Printable.build_ne {s : String} (h : v.Printable) (hs : v.build = some s) :
    s ≠ "" := by
  rintro rfl
  have hparts := (h.build "" hs).1
  revert hparts
  decide

/-- What is printed is the text of the groups. -/
theorem SemVer.Printable.toList_text (h : v.Printable) : v.text.toList = v.groups.text := by
  have hbase : (toString v.major ++ "." ++ toString v.minor ++ "." ++ toString v.patch).toList =
      dotted v.groups.major v.groups.minor v.groups.patch := by
    simp only [String.toList_append, Nat.toString_eq_repr, Nat.toList_repr, dotted, SemVer.groups]
    simp
  have hpre (base : String) : (if v.prerelease.isEmpty then base
      else base ++ "-" ++ join "." (v.prerelease.map Ident.text)).toList =
        base.toList ++ preText v.groups.pre := by
    unfold SemVer.groups
    rcases v.prerelease with _ | ⟨id, ids⟩
    · exact (List.append_nil _).symm
    · simp only [List.isEmpty_cons, Bool.false_eq_true, if_false, String.toList_append,
        toList_join, List.map_map, List.cons_ne_nil, preText, identsText]
      simp [Function.comp_def]
  unfold SemVer.text Groups.text
  rw [← hbase, ← hpre]
  rcases hbuild : v.build with _ | s
  · simp only [SemVer.groups, hbuild, Option.map_none, buildText, List.append_nil]
  · simp only [SemVer.groups, hbuild, Option.map_some, buildText, h.build_ne hbuild, if_false,
      String.toList_append]
    simp

/-! ## Comparators -/

/-- A comparator that prints as what it was parsed from. -/
inductive Comparator.Printable : Comparator → Prop where
  | any : Printable { operator := .empty, semver := .any }
  | version (operator : Operator) (v : SemVer) : v.Printable →
      Printable { operator := operator, semver := .version v }

variable {c : Comparator}

theorem isStart_of_comparatorText {g : Groups} (h : g.Spelled) (operator : Operator) :
    ∃ d t, comparatorText operator g = d :: t ∧ IsStart d := by
  obtain ⟨d, t, htext, hstart⟩ := comparatorText_head h operator
  have hmem : d ∈ comparatorText operator g := htext ▸ List.mem_cons_self
  refine ⟨d, t, htext, comparatorText_isSpace h operator d hmem, ?_⟩
  rintro rfl
  revert hstart
  decide

theorem Comparator.Printable.toList_text (h : c.Printable) :
    c.text.toList = ['*'] ∧ c = { operator := .empty, semver := .any } ∨
      ∃ operator v, c = { operator := operator, semver := .version v } ∧ v.Printable ∧
        c.text.toList = comparatorText operator v.groups := by
  cases h with
  | any => exact .inl ⟨rfl, rfl⟩
  | version operator v hv =>
    refine .inr ⟨operator, v, rfl, hv, ?_⟩
    unfold Comparator.text comparatorText
    rw [String.toList_append, String.toList_ofList, hv.toList_text]

/-- What a partial version can be at the start of a comparator: nothing, or the comparator. -/
theorem scanPartial_comparator {g : Groups} {w : List Char} (h : g.Spelled) (hw : Ends w)
    (operator : Operator) :
    scanPartial (comparatorText operator g ++ w) = none ∨
      ∃ p, scanPartial (comparatorText operator g ++ w) = some (p, w) := by
  have hscan := scanPartial_text h hw
  have hnone (d : Char) (t : List Char) (hd : isLead d = false) (hxid : scanXid (d :: t) = none) :
      scanPartial (d :: t) = none := by
    unfold scanPartial
    rw [dropWhile_eq_self_of_stops (.cons hd), hxid]
  cases operator with
  | empty => exact .inr ⟨_, hscan⟩
  | eq => exact .inr ⟨_, hscan⟩
  | lt => exact .inl (hnone '<' _ (by decide) rfl)
  | le => exact .inl (hnone '<' _ (by decide) rfl)
  | gt => exact .inl (hnone '>' _ (by decide) rfl)
  | ge => exact .inl (hnone '>' _ (by decide) rfl)

theorem scanPartial_star {w : List Char} (hw : Ends w) :
    scanPartial ('*' :: w) = some ({ major := ['*'] }, w) := by
  rcases hw with rfl | ⟨t, rfl⟩ <;> rfl

theorem plain_star : Plain ['*'] where
  ne_nil := List.cons_ne_nil _ _
  isSpace d hd := by
    rw [List.mem_singleton.mp hd]
    decide
  last d hd := by
    cases hd
    decide
  start := ⟨'*', [], rfl, by decide, by decide⟩
  scan _ hw := .inr ⟨_, scanPartial_star hw⟩

theorem plain_comparatorText {g : Groups} (h : g.Spelled) (operator : Operator) :
    Plain (comparatorText operator g) where
  toIsToken := comparatorText_isToken h operator
  start := isStart_of_comparatorText h operator
  scan _ hw := scanPartial_comparator h hw operator

theorem Comparator.Printable.plain (h : c.Printable) : Plain c.text.toList := by
  rcases h.toList_text with ⟨htext, -⟩ | ⟨operator, v, -, hv, htext⟩
  · rw [htext]
    exact plain_star
  · rw [htext]
    exact plain_comparatorText hv.wellFormed.spelled operator

/-- **A comparator parses back from what is printed of it**, in either mode. -/
theorem Comparator.Printable.parseToken (h : c.Printable) (b : Bool) :
    parseToken c.text.toList b = .ok [c] := by
  rcases h.toList_text with ⟨htext, rfl⟩ | ⟨operator, v, rfl, hv, htext⟩
  · rw [htext]
    cases b <;> rfl
  · rw [htext, parseToken_text hv.wellFormed.spelled, hv.toSemVer]
    rfl

/-! ## Comparator sets -/

/-- The characters of a printed set. -/
def setChars (cs : List Comparator) : List Char := [' '].intercalate (cs.map (·.text.toList))

theorem setChars_eq (cs : List Comparator) : setChars cs = spaced (cs.map (·.text.toList)) := rfl

variable {cs : List Comparator}

theorem toList_setText (hne : cs ≠ []) (h : ∀ c ∈ cs, c.Printable) :
    (setText cs).toList = setChars cs := by
  obtain ⟨c, cs, rfl⟩ := List.exists_cons_of_ne_nil hne
  have hchars : (join " " ((c :: cs).map Comparator.text)).toList = setChars (c :: cs) := by
    rw [toList_join, List.map_map]
    rfl
  unfold setText
  dsimp only
  rw [if_neg, hchars]
  intro hempty
  rw [hempty] at hchars
  exact spaced_ne_nil (h c List.mem_cons_self).plain.toIsToken _ hchars.symm

theorem plain_texts (h : ∀ c ∈ cs, c.Printable) :
    ∀ t ∈ cs.map (·.text.toList), Plain t := by
  intro t ht
  obtain ⟨c, hc, rfl⟩ := List.mem_map.mp ht
  exact (h c hc).plain

theorem stripChars_setChars (h : ∀ c ∈ cs, c.Printable) :
    stripChars (setChars cs) = setChars cs :=
  stripChars_spaced fun t ht => (plain_texts h t ht).toIsToken

/-- **A set parses back from what is printed of it**, in either mode. -/
theorem parseComparatorSet_setChars (hne : cs ≠ []) (h : ∀ c ∈ cs, c.Printable) (b : Bool) :
    parseComparatorSet (setChars cs) b = .ok cs := by
  have hgroups : (cs.map (·.text.toList)).mapM (fun token => parseToken token b) =
      .ok (cs.map fun c => [c]) := by
    clear hne
    induction cs with
    | nil => rfl
    | cons c cs ih =>
      rw [List.map_cons, List.mapM_cons, (h c List.mem_cons_self).parseToken,
        ih fun e he => h e (List.mem_cons_of_mem _ he)]
      rfl
  have hflatten : (cs.map fun c => [c]).flatten = cs := by
    rw [← List.flatMap_def, List.flatMap_singleton']
  rw [setChars_eq, parseComparatorSet_spaced (plain_texts h), hgroups]
  simp only [bind, Except.bind, hflatten, orAny, if_neg hne]
  rfl

/-! ## What parses is printable -/

theorem scanPrerelease_spelled {s r : List Char} {pre : Option (List Char)}
    (h : scanPrerelease s = (pre, r)) : ∀ t, pre = some t →
      (t.splitOn '.').all isPreIdent = true ∧ ∀ c ∈ t, inPre c = true := by
  rintro t rfl
  unfold scanPrerelease at h
  split at h
  · dsimp only at h
    split at h
    · next hparts =>
      obtain rfl := Option.some.inj (Prod.mk.inj h).1
      exact ⟨hparts, fun c hc => List.all_eq_true.mp List.all_takeWhile c hc⟩
    · cases (Prod.mk.inj h).1
  · cases (Prod.mk.inj h).1

theorem scanBuild_spelled {s r : List Char} {build : Option (List Char)}
    (h : scanBuild s = (build, r)) : ∀ t, build = some t →
      ((t.splitOn '.').all fun part => !part.isEmpty) = true ∧ ∀ c ∈ t, inBuild c = true := by
  rintro t rfl
  unfold scanBuild at h
  split at h
  · dsimp only at h
    split at h
    · next hparts =>
      obtain rfl := Option.some.inj (Prod.mk.inj h).1
      exact ⟨hparts, fun c hc => List.all_eq_true.mp List.all_takeWhile c hc⟩
    · cases (Prod.mk.inj h).1
  · cases (Prod.mk.inj h).1

/-- The parts of a version, one after the other. -/
theorem scanVersion_some {s r : List Char} {g : Groups} (h : scanVersion s = some (g, r)) :
    ∃ s₁ s₂ s₃ s₄, scanNum s = some (g.major, '.' :: s₁) ∧
      scanNum s₁ = some (g.minor, '.' :: s₂) ∧ scanNum s₂ = some (g.patch, s₃) ∧
      scanPrerelease s₃ = (g.pre, s₄) ∧ scanBuild s₄ = (g.build, r) := by
  unfold scanVersion at h
  split at h
  · next hmajor =>
    split at h
    · next hminor =>
      split at h
      · next hpatch =>
        cases h
        exact ⟨_, _, _, _, hmajor, hminor, hpatch, rfl, rfl⟩
      · cases h
    · cases h
  · cases h

theorem scanVersion_spelled {s r : List Char} {g : Groups} (h : scanVersion s = some (g, r)) :
    g.Spelled := by
  obtain ⟨_, _, _, _, hmajor, hminor, hpatch, hpre, hbuild⟩ := scanVersion_some h
  exact ⟨scanNum_numeral hmajor, scanNum_numeral hminor, scanNum_numeral hpatch,
    scanPrerelease_spelled hpre, scanBuild_spelled hbuild⟩

theorem matchComparator_spelled {s : List Char} {operator : Operator} {g : Groups}
    (h : matchComparator s = some (operator, g)) : g.Spelled := by
  unfold matchComparator at h
  obtain ⟨g', hg', heq⟩ := Option.map_eq_some_iff.mp h
  cases heq
  unfold matchFullVersion at hg'
  split at hg'
  · next hscan =>
    split at hg'
    · cases hg'
      exact scanVersion_spelled hscan
    · cases hg'
  · cases hg'

theorem parseComparator_printable {token : List Char} (h : parseComparator token = .ok c) :
    c.Printable := by
  unfold parseComparator at h
  dsimp only at h
  split at h
  · cases h
    exact .any
  · split at h
    · cases h
    · next hmatch =>
      obtain ⟨v, hv, rfl⟩ := map_ok h
      exact .version _ v ((matchComparator_spelled hmatch).printable (raised_ok hv))

theorem parseComparatorSet_printable {raw : List Char} {b : Bool}
    (h : parseComparatorSet raw b = .ok cs) : cs ≠ [] ∧ ∀ c ∈ cs, c.Printable := by
  rw [parseComparatorSet_eq] at h
  obtain ⟨t, -, h⟩ := bind_ok h
  obtain ⟨groups, hgroups, h⟩ := bind_ok h
  cases h
  unfold orAny
  split
  · refine ⟨List.cons_ne_nil _ _, fun c hc => ?_⟩
    rw [List.mem_singleton.mp hc]
    exact .any
  · next hne =>
    refine ⟨hne, fun c hc => ?_⟩
    obtain ⟨group, hgroup, hc⟩ := List.mem_flatten.mp hc
    obtain ⟨token, -, htoken⟩ := mapM_mem hgroups group hgroup
    obtain ⟨expanded, -, htoken⟩ := bind_ok htoken
    obtain ⟨part, -, hpart⟩ := mapM_mem htoken c hc
    exact parseComparator_printable hpart

/-! ## Ranges -/

/-- A range of sets that print as what they were parsed from. -/
structure Range.Printable (r : Range) : Prop where
  ne_nil : r.sets ≠ []
  sets : ∀ cs ∈ r.sets, cs ≠ [] ∧ ∀ c ∈ cs, c.Printable

theorem splitBars_ne_nil (s : List Char) : splitBars s ≠ [] := by
  fun_cases splitBars s <;> exact List.cons_ne_nil _ _

theorem parseRange_printable {rangeStr : String} {b : Bool} {r : Range}
    (h : parseRange rangeStr b = .ok r) : r.Printable := by
  unfold parseRange at h
  obtain ⟨sets, hsets, h⟩ := bind_ok h
  cases h
  constructor
  · dsimp only
    rintro rfl
    cases hparts : splitBars (stripChars rangeStr.toList) with
    | nil => exact splitBars_ne_nil _ hparts
    | cons part parts =>
      rw [hparts] at hsets
      obtain ⟨cs, hcs, -⟩ := mapM_mem_of_mem hsets part List.mem_cons_self
      cases hcs
  · intro cs hcs
    obtain ⟨part, -, hpart⟩ := mapM_mem hsets cs hcs
    exact parseComparatorSet_printable hpart

theorem splitBars_cons {c : Char} {s part : List Char} {parts : List (List Char)} (hc : c ≠ '|')
    (h : splitBars s = part :: parts) : splitBars (c :: s) = (c :: part) :: parts := by
  unfold splitBars
  split
  · next heq => exact absurd (List.cons.inj heq).1 hc
  · next heq =>
    cases heq
    rw [h]
  · next heq => cases heq

theorem splitBars_of_not_mem {s : List Char} (h : '|' ∉ s) : splitBars s = [s] := by
  induction s with
  | nil => rfl
  | cons c s ih =>
    exact splitBars_cons (fun hc => h (hc ▸ List.mem_cons_self))
      (ih fun hs => h (List.mem_cons_of_mem _ hs))

theorem splitBars_append {s : List Char} (h : '|' ∉ s) (rest : List Char) :
    splitBars (s ++ '|' :: '|' :: rest) = s :: splitBars rest := by
  induction s with
  | nil => rfl
  | cons c s ih =>
    exact splitBars_cons (fun hc => h (hc ▸ List.mem_cons_self))
      (ih fun hs => h (List.mem_cons_of_mem _ hs))

theorem bar_not_mem_setChars (h : ∀ c ∈ cs, c.Printable) : '|' ∉ setChars cs := by
  intro hmem
  rcases mem_intercalate hmem with hmem | ⟨s, hs, hmem⟩
  · exact absurd (List.mem_singleton.mp hmem) (by decide)
  · obtain ⟨c, hc, rfl⟩ := List.mem_map.mp hs
    rcases (h c hc).toList_text with ⟨htext, -⟩ | ⟨operator, v, -, hv, htext⟩
    · rw [htext] at hmem
      exact absurd (List.mem_singleton.mp hmem) (by decide)
    · rw [htext] at hmem
      exact absurd (comparatorText_chars hv.wellFormed.spelled operator '|' hmem) (by decide)

theorem stripChars_cons_blank (s : List Char) : stripChars (' ' :: s) = stripChars s := by
  unfold stripChars
  rw [List.dropWhile_cons_of_pos (by decide)]

theorem stripChars_append_blank (s : List Char) : stripChars (s ++ [' ']) = stripChars s := by
  unfold stripChars
  rw [List.dropWhile_append]
  split
  · next hempty =>
    rw [List.isEmpty_iff.mp hempty]
    rfl
  · rw [List.reverse_append, List.reverse_singleton, List.singleton_append,
      List.dropWhile_cons_of_pos (by decide)]

/-- The characters of a printed range. -/
def rangeChars (sets : List (List Comparator)) : List Char :=
  [' ', '|', '|', ' '].intercalate (sets.map setChars)

variable {sets : List (List Comparator)}

/-- **The sets of a printed range** are its parts, blanks aside. -/
theorem splitBars_rangeChars (hne : sets ≠ []) (h : ∀ cs ∈ sets, ∀ c ∈ cs, c.Printable)
    {lead : List Char} (hlead : lead = [] ∨ lead = [' ']) :
    List.Forall₂ (fun part cs => stripChars part = setChars cs)
      (splitBars (lead ++ rangeChars sets)) sets := by
  have hnotLead : '|' ∉ lead := by
    rcases hlead with rfl | rfl <;> decide
  have hstrip (s : List Char) : stripChars (lead ++ s) = stripChars s := by
    rcases hlead with rfl | rfl
    · rfl
    · exact stripChars_cons_blank s
  induction sets generalizing lead with
  | nil => exact absurd rfl hne
  | cons cs sets ih =>
    have hcs := h cs List.mem_cons_self
    cases sets with
    | nil =>
      have hchars : rangeChars [cs] = setChars cs := by simp [rangeChars]
      rw [hchars, splitBars_of_not_mem (by
        rw [List.mem_append]
        exact not_or.mpr ⟨hnotLead, bar_not_mem_setChars hcs⟩)]
      exact .cons (by rw [hstrip, stripChars_setChars hcs]) .nil
    | cons cs' sets =>
      have hchars : lead ++ rangeChars (cs :: cs' :: sets) =
          lead ++ (setChars cs ++ [' ']) ++ '|' :: '|' :: ([' '] ++ rangeChars (cs' :: sets)) := by
        simp [rangeChars, List.intercalate_cons_cons]
      rw [hchars, splitBars_append (by
        rw [List.mem_append, List.mem_append]
        exact not_or.mpr ⟨hnotLead, not_or.mpr ⟨bar_not_mem_setChars hcs, by decide⟩⟩)]
      refine .cons ?_ (ih (List.cons_ne_nil _ _) (fun e he => h e (List.mem_cons_of_mem _ he))
        (.inr rfl) (by decide) stripChars_cons_blank)
      rw [hstrip, stripChars_append_blank, stripChars_setChars hcs]

theorem setChars_ne_nil (hne : cs ≠ []) (h : ∀ c ∈ cs, c.Printable) : setChars cs ≠ [] := by
  obtain ⟨c, cs, rfl⟩ := List.exists_cons_of_ne_nil hne
  exact spaced_ne_nil (h c List.mem_cons_self).plain.toIsToken _

theorem getLast?_rangeChars (h : ∀ cs ∈ sets, cs ≠ [] ∧ ∀ c ∈ cs, c.Printable) :
    ∀ d, (rangeChars sets).getLast? = some d → isSpace d = false := by
  induction sets with
  | nil => nofun
  | cons cs sets ih =>
    have hcs := h cs List.mem_cons_self
    cases sets with
    | nil =>
      have hchars : rangeChars [cs] = setChars cs := by simp [rangeChars]
      rw [hchars]
      exact getLast?_spaced fun t ht => (plain_texts hcs.2 t ht).toIsToken
    | cons cs' sets =>
      have hne : rangeChars (cs' :: sets) ≠ [] := by
        have hcs' := h cs' (List.mem_cons_of_mem _ List.mem_cons_self)
        cases sets with
        | nil => simpa [rangeChars] using setChars_ne_nil hcs'.1 hcs'.2
        | cons => simp [rangeChars, List.intercalate_cons_cons]
      intro d hd
      refine ih (fun e he => h e (List.mem_cons_of_mem _ he)) d ?_
      rw [← hd]
      unfold rangeChars
      simp only [List.map_cons, List.intercalate_cons_cons]
      rw [List.getLast?_append_of_ne_nil]
      simpa [rangeChars] using hne

theorem rangeChars_cons (cs : List Comparator) (sets : List (List Comparator)) :
    ∃ w, rangeChars (cs :: sets) = setChars cs ++ w := by
  cases sets with
  | nil => exact ⟨[], by simp [rangeChars]⟩
  | cons cs' sets =>
    refine ⟨[' ', '|', '|', ' '] ++ rangeChars (cs' :: sets), ?_⟩
    simp [rangeChars, List.intercalate_cons_cons]

theorem stripChars_rangeChars (h : ∀ cs ∈ sets, cs ≠ [] ∧ ∀ c ∈ cs, c.Printable) :
    stripChars (rangeChars sets) = rangeChars sets := by
  have hhead : Stops isSpace (rangeChars sets) := by
    rcases sets with _ | ⟨cs, sets⟩
    · exact .nil
    · obtain ⟨hne, hcs⟩ := h cs List.mem_cons_self
      obtain ⟨c, cs, rfl⟩ := List.exists_cons_of_ne_nil hne
      obtain ⟨d, t, htext, hd, -⟩ := (hcs c List.mem_cons_self).plain.start
      obtain ⟨w, hw⟩ := rangeChars_cons (c :: cs) sets
      rw [hw, setChars_eq, List.map_cons, spaced_cons, htext]
      exact .cons hd
  unfold stripChars
  rw [dropWhile_eq_self_of_stops hhead]
  exact stripRight_eq_self (getLast?_rangeChars h)

theorem Range.Printable.toList_text {r : Range} (h : r.Printable) :
    r.text.toList = rangeChars r.sets := by
  unfold Range.text rangeChars
  rw [toList_join, List.map_map]
  congr 1
  exact List.map_congr_left fun cs hcs => toList_setText (h.sets cs hcs).1 (h.sets cs hcs).2

/-- **A range parses back from what is printed of it**: in either mode, to the same sets. -/
theorem parseRange_text {r : Range} (h : r.Printable) (b : Bool) :
    parseRange r.text b = .ok { sets := r.sets, includePrerelease := b } := by
  have hparts := splitBars_rangeChars h.ne_nil (fun cs hcs => (h.sets cs hcs).2) (.inl rfl)
  have hsets : (splitBars (rangeChars r.sets)).mapM (fun part => parseComparatorSet part b) =
      .ok r.sets := by
    have hall := h.sets
    generalize r.sets = sets at hparts hall
    rw [List.nil_append] at hparts
    generalize splitBars (rangeChars sets) = parts at hparts
    induction hparts with
    | nil => rfl
    | @cons part cs parts sets hpart _ ih =>
      obtain ⟨hne, hcs⟩ := hall cs List.mem_cons_self
      rw [List.mapM_cons,
        parseComparatorSet_strip (hpart.trans (stripChars_setChars hcs).symm) b,
        parseComparatorSet_setChars hne hcs, ih fun e he => hall e (List.mem_cons_of_mem _ he)]
      rfl
  unfold parseRange
  rw [h.toList_text, stripChars_rangeChars h.sets, hsets]
  rfl

/-- **Printing a range keeps it**: the text parses in either mode, and in the mode the range was
read in, to a range of the same versions. -/
theorem printed_range_keeps (rangeStr : String) (includePrerelease : Bool) (r : Range)
    (h : parseRange rangeStr includePrerelease = .ok r) :
    (∀ mode, ∃ r', parseRange r.text mode = .ok r') ∧
      ∃ r', parseRange r.text includePrerelease = .ok r' ∧ ∀ v, r'.test v = r.test v := by
  have hprint := parseRange_text (parseRange_printable h)
  refine ⟨fun mode => ⟨_, hprint mode⟩, _, hprint includePrerelease, fun v => ?_⟩
  have hmode : r.includePrerelease = includePrerelease := by
    unfold parseRange at h
    obtain ⟨sets, -, h⟩ := bind_ok h
    cases h
    rfl
  unfold Range.test
  rw [hmode]

/-- `^0.0.3 || *`, with prereleases included. -/
def caretOrAny : Range where
  sets := [[{ operator := .ge, semver := .version ⟨0, 0, 3, [.num 0], none⟩ },
    { operator := .lt, semver := .version ⟨0, 0, 4, [.num 0], none⟩ }], anyComparator]
  includePrerelease := true

theorem printed_range_keeps_caret :
    ∃ r', parseRange caretOrAny.text true = .ok r' ∧ ∀ v, r'.test v = caretOrAny.test v :=
  (printed_range_keeps "^0.0.3 || *" true caretOrAny (by decide +kernel)).2

end Minireg.Semver
