import Mathlib.Data.List.TakeWhile
import Minireg.Core.SemverGrammar

/-!
# Expressions parse to their comparators

Each desugaring writes the bounds of a simple range out as text, and the text is
read again, so what comes back is the comparators of the range or an error for a
number Python does not convert. `parseRange_expr` puts the sets together.
-/

namespace Minireg.Semver

open Py

/-! ## Bounds as text -/

theorem zero_eq : zero = Nat.toDigits 10 0 := (Nat.toDigits_zero 10).symm

theorem isZero_iff (n : Nat) : Nat.toDigits 10 n = zero ↔ n = 0 := by
  constructor
  · intro h
    have hvalue : Nat.ofDigitChars 10 (Nat.toDigits 10 n) 0 =
        Nat.ofDigitChars 10 (Nat.toDigits 10 0) 0 := by rw [h, zero_eq]
    rwa [Nat.ofDigitChars_ten_toDigits, Nat.ofDigitChars_ten_toDigits] at hvalue
  · rintro rfl
    exact Nat.toDigits_zero 10

theorem release_wellFormed (a b c : Nat) : (release a b c).WellFormed := ⟨nofun, nofun⟩

theorem first_wellFormed (a b c : Nat) : (first a b c).WellFormed := by
  refine ⟨fun id hid => ?_, nofun⟩
  rw [List.mem_singleton.mp hid]
  trivial

theorem start_wellFormed (opened : Bool) (a b c : Nat) : (start opened a b c).WellFormed := by
  unfold start
  split
  · exact first_wellFormed a b c
  · exact release_wellFormed a b c

theorem SemVer.WellFormed.dropBuild {v : SemVer} (h : v.WellFormed) :
    ({ v with build := none } : SemVer).WellFormed := ⟨h.prerelease, nofun⟩

theorem SemVer.WellFormed.asLower {v : SemVer} (h : v.WellFormed) (opened : Bool) :
    (v.asLower opened).WellFormed := by
  unfold SemVer.asLower
  split
  · exact start_wellFormed opened _ _ _
  · exact h.dropBuild

theorem first_text (a b c : Nat) :
    '<' :: dotted (Nat.toDigits 10 a) (Nat.toDigits 10 b) (Nat.toDigits 10 c) ++ ['-', '0'] =
      comparatorText .lt (first a b c).groups := by
  simp [comparatorText, Operator.text, SemVer.groups, first, Groups.text, preText, buildText,
    identsText, Ident.text]

theorem start_text (opened : Bool) (a b c : Nat) :
    atLeast (Nat.toDigits 10 a) (Nat.toDigits 10 b) (Nat.toDigits 10 c) (lowerPre opened) =
      comparatorText .ge (start opened a b c).groups := by
  cases opened <;> simp [atLeast, lowerPre, comparatorText, Operator.text, SemVer.groups, start,
    release, first, Groups.text, preText, buildText, identsText, Ident.text]

theorem fullLower_text {v : SemVer} (h : v.WellFormed) (opened : Bool) :
    fullLower v.groups.toPartial (lowerPre opened) =
      comparatorText .ge (v.asLower opened).groups := by
  unfold fullLower SemVer.asLower
  by_cases hpre : v.prerelease = []
  · rw [if_pos hpre, ← start_text]
    simp only [Groups.toPartial, SemVer.groups, hpre, if_true, digits, Option.getD_some]
  · obtain ⟨c, t, hct⟩ := List.exists_cons_of_ne_nil (identsText_ne_nil hpre h.prerelease)
    rw [if_neg hpre]
    simp only [Groups.toPartial, SemVer.groups, if_neg hpre, hct, digits, Option.getD_some,
      atLeast, comparatorText, Operator.text, Groups.text, preText, buildText, Option.map_none,
      List.append_nil, List.cons_append, List.nil_append]

/-! ## Reading the bounds -/

/-- What becomes of a token once it is expanded. -/
def parseExpanded (expanded : Except ValueError (List Char)) :
    Except RangeError (List Comparator) := do
  (splitSpaces (← raised expanded)).mapM parseComparator

theorem parseToken_eq (token : List Char) (b : Bool) :
    parseToken token b = parseExpanded (expandToken token b) := rfl

theorem parseComparator_groups {v : SemVer} (h : v.WellFormed) (operator : Operator) :
    parseComparator (comparatorText operator v.groups) =
      if v.Readable then .ok { operator := operator, semver := .version v }
      else .error (.valueError .tooManyDigits) := by
  rw [parseComparator_text h.spelled, h.toSemVer]
  split <;> rfl

variable {P : Prop} [Decidable P]

theorem parseExpanded_one {v : SemVer} (h : v.WellFormed) (operator : Operator)
    (hP : v.Readable → P) :
    parseExpanded (if P then .ok (comparatorText operator v.groups) else .error .tooManyDigits) =
      checked [{ operator := operator, semver := .version v }] := by
  have hread : (∀ c ∈ [({ operator := operator, semver := .version v } : Comparator)],
      c.Readable) ↔ v.Readable := List.forall_mem_singleton
  unfold checked
  rw [if_congr hread rfl rfl]
  by_cases hp : P
  · have htoken := comparatorText_isToken h.spelled operator
    rw [if_pos hp]
    simp only [parseExpanded, raised, Except.mapError, bind, Except.bind,
      splitSpaces_eq_singleton htoken.ne_nil htoken.isSpace, List.mapM_cons, List.mapM_nil,
      parseComparator_groups h]
    by_cases hreadV : v.Readable
    · simp only [if_pos hreadV]
      rfl
    · simp only [if_neg hreadV]
  · rw [if_neg hp, if_neg (mt hP hp)]
    rfl

theorem parseExpanded_two {v w : SemVer} (hv : v.WellFormed) (hw : w.WellFormed)
    (hP : w.Readable → P) :
    parseExpanded (if P then .ok (between (comparatorText .ge v.groups)
      (comparatorText .lt w.groups)) else .error .tooManyDigits) =
      checked [atLeastOf v, belowOf w] := by
  have hread : (∀ c ∈ [atLeastOf v, belowOf w], c.Readable) ↔ v.Readable ∧ w.Readable := by
    rw [List.forall_mem_cons, List.forall_mem_singleton]
    rfl
  unfold checked
  rw [if_congr hread rfl rfl]
  by_cases hp : P
  · have hleft := comparatorText_isToken hv.spelled .ge
    have hright := comparatorText_isToken hw.spelled .lt
    rw [if_pos hp]
    simp only [parseExpanded, raised, Except.mapError, bind, Except.bind, between,
      splitSpaces_cons hleft.ne_nil hleft.isSpace,
      splitSpaces_eq_singleton hright.ne_nil hright.isSpace, List.mapM_cons, List.mapM_nil,
      parseComparator_groups hv, parseComparator_groups hw]
    by_cases hreadV : v.Readable
    · by_cases hreadW : w.Readable
      · simp only [hreadV, hreadW, if_true, and_self]
        rfl
      · simp only [hreadV, hreadW, if_true, if_false, and_false]
    · simp only [hreadV, if_false, false_and]
  · rw [if_neg hp, if_neg fun hboth => hp (hP hboth.2)]
    rfl

theorem parseExpanded_star : parseExpanded (.ok ['*']) = checked anyComparator := by
  have hread : ∀ c ∈ anyComparator, c.Readable := List.forall_mem_singleton.mpr trivial
  unfold checked
  rw [if_pos hread]
  rfl

theorem belowNextMajor_eq (major : Nat) :
    belowNextMajor (Nat.toDigits 10 major) =
      if Short (major + 1) then .ok (comparatorText .lt (first (major + 1) 0 0).groups)
      else .error .tooManyDigits := by
  unfold belowNextMajor
  rw [bump_eq, zero_eq]
  split
  · exact congrArg Except.ok (first_text _ _ _)
  · rfl

theorem belowNextMinor_eq (major minor : Nat) :
    belowNextMinor (Nat.toDigits 10 major) (Nat.toDigits 10 minor) =
      if Short (minor + 1) then .ok (comparatorText .lt (first major (minor + 1) 0).groups)
      else .error .tooManyDigits := by
  unfold belowNextMinor
  rw [bump_eq, zero_eq]
  split
  · exact congrArg Except.ok (first_text _ _ _)
  · rfl

/-- A lower bound, and an upper one that may not be written. -/
theorem parseExpanded_between {v w : SemVer} (hv : v.WellFormed) (hw : w.WellFormed)
    {upper : Except ValueError (List Char)} (hP : w.Readable → P)
    (hupper : upper = if P then .ok (comparatorText .lt w.groups) else .error .tooManyDigits) :
    parseExpanded (do return between (comparatorText .ge v.groups) (← upper)) =
      checked [atLeastOf v, belowOf w] := by
  rw [← parseExpanded_two hv hw hP, hupper]
  split <;> rfl

/-! ## Desugaring -/

/-- The groups give what the shape says. -/
inductive Reads : Partial → Shape → Prop where
  | any {q : Partial} : isX (some q.major) = true → Reads q .any
  | major {q : Partial} {major : Nat} : q.major = Nat.toDigits 10 major → isX q.minor = true →
      Reads q (.major major)
  | minor {q : Partial} {major minor : Nat} : q.major = Nat.toDigits 10 major →
      q.minor = some (Nat.toDigits 10 minor) → isX q.patch = true → Reads q (.minor major minor)
  | full {v : SemVer} : v.WellFormed → Reads v.groups.toPartial (.full v)

theorem Wild.isX (w : Wild) : isX (some [w.char]) = true := by
  cases w <;> rfl

theorem PartialVersion.reads (p : PartialVersion) : Reads p.groups p.shape := by
  cases p with
  | one major =>
    cases major with
    | wild w => exact .any w.isX
    | num n => exact .major rfl rfl
  | two major minor =>
    cases major with
    | wild w => exact .any w.isX
    | num n =>
      cases minor with
      | wild w => exact .major rfl w.isX
      | num m => exact .minor rfl rfl rfl
  | three major minor patch q =>
    cases major with
    | wild w => exact .any w.isX
    | num n =>
      cases minor with
      | wild w => exact .major rfl w.isX
      | num m =>
        cases patch with
        | wild w => exact .minor rfl rfl w.isX
        | num k => exact .full (q.version_wellFormed n m k)

theorem isX_toDigits (n : Nat) : isX (some (Nat.toDigits 10 n)) = false :=
  (toDigits_numeral n).isX

variable {q : Partial} {shape : Shape}

theorem desugarTilde_reads (h : Reads q shape) (b : Bool) :
    parseExpanded (desugarTilde q b) = checked (tildeComparators b shape) := by
  unfold desugarTilde
  dsimp only
  cases h with
  | any hmajor =>
    rw [if_pos hmajor]
    exact parseExpanded_star
  | major hmajor hminor =>
    rw [hmajor, if_neg (by simp [isX_toDigits]), if_pos hminor, zero_eq, start_text]
    exact parseExpanded_between (start_wellFormed _ _ _ _) (first_wellFormed _ _ _)
      (·.major) (belowNextMajor_eq _)
  | minor hmajor hminor hpatch =>
    rw [hmajor, hminor, if_neg (by simp [isX_toDigits]), if_neg (by simp [isX_toDigits]),
      if_pos hpatch, digits, Option.getD_some, zero_eq, start_text]
    exact parseExpanded_between (start_wellFormed _ _ _ _) (first_wellFormed _ _ _)
      (·.minor) (belowNextMinor_eq _ _)
  | @full v hv =>
    rw [fullLower_text hv]
    simp only [Groups.toPartial, SemVer.groups, isX_toDigits, Bool.false_eq_true, if_false, digits,
      Option.getD_some]
    exact parseExpanded_between (hv.asLower b) (first_wellFormed _ _ _) (·.minor)
      (belowNextMinor_eq _ _)

theorem desugarCaret_reads (h : Reads q shape) (b : Bool) :
    parseExpanded (desugarCaret q b) = checked (caretComparators b shape) := by
  unfold desugarCaret
  dsimp only
  cases h with
  | any hmajor =>
    rw [if_pos hmajor]
    exact parseExpanded_star
  | major hmajor hminor =>
    rw [hmajor, if_neg (by simp [isX_toDigits]), if_pos hminor, zero_eq, start_text]
    exact parseExpanded_between (start_wellFormed _ _ _ _) (first_wellFormed _ _ _)
      (·.major) (belowNextMajor_eq _)
  | @minor _ major minor hmajor hminor hpatch =>
    rw [hmajor, hminor, if_neg (by simp [isX_toDigits]), if_neg (by simp [isX_toDigits]),
      if_pos hpatch, digits, Option.getD_some, if_congr (isZero_iff major) rfl rfl]
    unfold caretComparators
    dsimp only
    by_cases hzero : major = 0
    · rw [if_pos hzero, if_pos hzero, zero_eq, start_text]
      exact parseExpanded_between (start_wellFormed b major minor 0)
        (first_wellFormed major (minor + 1) 0) (·.minor) (belowNextMinor_eq major minor)
    · rw [if_neg hzero, if_neg hzero, zero_eq, start_text]
      exact parseExpanded_between (start_wellFormed b major minor 0)
        (first_wellFormed (major + 1) 0 0) (·.major) (belowNextMajor_eq major)
  | @full v hv =>
    have hzero : v.groups.toPartial.major = zero ↔ v.major = 0 := isZero_iff v.major
    have hsuffix : (if v.groups.toPartial.major = zero then lowerPre b else []) =
        lowerPre (b && decide (v.major = 0)) := by
      rw [if_congr hzero rfl rfl]
      by_cases hmajor : v.major = 0 <;> cases b <;> simp [hmajor, lowerPre]
    have hmajor : v.groups.toPartial.major = Nat.toDigits 10 v.major := rfl
    have hminor : v.groups.toPartial.minor = some (Nat.toDigits 10 v.minor) := rfl
    have hpatch : v.groups.toPartial.patch = some (Nat.toDigits 10 v.patch) := rfl
    rw [hsuffix, fullLower_text hv]
    simp only [hmajor, hminor, hpatch, isX_toDigits, Bool.false_eq_true, if_false, digits,
      Option.getD_some, isZero_iff]
    unfold caretComparators caretNext
    by_cases hmajorZero : v.major = 0
    · by_cases hminorZero : v.minor = 0
      · simp only [hmajorZero, hminorZero, if_true]
        rw [← parseExpanded_two (P := Short (v.patch + 1)) (hv.asLower _)
          (first_wellFormed 0 0 (v.patch + 1)) (·.patch), bump_eq]
        by_cases hshort : Short (v.patch + 1)
        · rw [if_pos hshort, if_pos hshort]
          exact congrArg (fun upper => parseExpanded (.ok (between _ upper)))
            (first_text 0 0 (v.patch + 1))
        · rw [if_neg hshort, if_neg hshort]
          rfl
      · simp only [hmajorZero, hminorZero, if_true, if_false]
        exact parseExpanded_between (hv.asLower _) (first_wellFormed 0 (v.minor + 1) 0) (·.minor)
          (belowNextMinor_eq 0 v.minor)
    · simp only [hmajorZero, if_false]
      exact parseExpanded_between (hv.asLower _) (first_wellFormed (v.major + 1) 0 0) (·.major)
        (belowNextMajor_eq v.major)

/-- The text of an operator's one bound. -/
theorem operatorBound_text (operator : Operator) (a b c : Nat) :
    operator.text ++ dotted (Nat.toDigits 10 a) (Nat.toDigits 10 b) (Nat.toDigits 10 c) ++
        (if operator = .lt then ['-', '0'] else []) =
      comparatorText operator (if operator = .lt then first a b c else release a b c).groups := by
  cases operator <;> simp [comparatorText, Operator.text, SemVer.groups, first, release,
    Groups.text, preText, buildText, identsText, Ident.text]

/-- The version an operator's one bound is at. -/
def boundAt (moved : Operator × Nat × Nat) : SemVer :=
  if moved.1 = .lt then first moved.2.1 moved.2.2 0 else release moved.2.1 moved.2.2 0

theorem boundAt_wellFormed (moved : Operator × Nat × Nat) : (boundAt moved).WellFormed := by
  unfold boundAt
  split
  · exact first_wellFormed _ _ _
  · exact release_wellFormed _ _ _

theorem SemVer.Readable.bound {moved : Operator × Nat × Nat} (h : (boundAt moved).Readable) :
    Short moved.2.1 ∧ Short moved.2.2 := by
  unfold boundAt at h
  split at h
  · exact ⟨h.major, h.minor⟩
  · exact ⟨h.major, h.minor⟩

theorem operatorBound_eq {operator : Operator} {xMinor : Bool} {major minor : Nat}
    (hmajor : q.major = Nat.toDigits 10 major)
    (hminor : minorOf xMinor q = if Short minor then .ok minor else .error .tooManyDigits) :
    operatorBound operator xMinor q =
      if Short minor ∧ Short major ∧ Short (moveBound operator xMinor major minor).2.1 ∧
        Short (moveBound operator xMinor major minor).2.2 then
        .ok (comparatorText (moveBound operator xMinor major minor).1
          (boundAt (moveBound operator xMinor major minor)).groups)
      else .error .tooManyDigits := by
  unfold operatorBound
  rw [hminor, hmajor, pyInt_eq]
  by_cases h₁ : Short minor
  · by_cases h₂ : Short major
    · rw [if_pos h₁, if_pos h₂]
      generalize hmoved : moveBound operator xMinor major minor = moved
      simp only [bind, Except.bind, hmoved, pyStr_eq, h₁, h₂, true_and]
      by_cases h₃ : Short moved.2.1
      · by_cases h₄ : Short moved.2.2
        · simp only [h₃, h₄, if_true, and_self]
          exact congrArg Except.ok (operatorBound_text moved.1 moved.2.1 moved.2.2 0)
        · simp only [h₃, h₄, if_true, if_false, and_false]
      · simp only [h₃, if_false, false_and]
    · simp only [h₁, h₂, if_true, if_false, false_and, and_false]
      rfl
  · simp only [h₁, if_false, false_and]
    rfl

theorem minorOf_true : minorOf true q = if Short 0 then .ok 0 else .error .tooManyDigits := by
  rw [if_pos Short.zero]
  rfl

theorem minorOf_false {minor : Nat} (h : q.minor = some (Nat.toDigits 10 minor)) :
    minorOf false q = if Short minor then .ok minor else .error .tooManyDigits := by
  rw [← pyInt_eq]
  unfold minorOf
  rw [h]
  rfl

/-- **An operator before a partial version** is one bound. -/
theorem operatorBound_reads (operator : Operator) {xMinor : Bool} {major minor : Nat}
    (hmajor : q.major = Nat.toDigits 10 major)
    (hminor : minorOf xMinor q = if Short minor then .ok minor else .error .tooManyDigits)
    (hx : xMinor = true → minor = 0) :
    parseExpanded (operatorBound operator xMinor q) =
      checked [{ operator := (moveBound operator xMinor major minor).1
                 semver := .version (boundAt (moveBound operator xMinor major minor)) }] := by
  rw [operatorBound_eq hmajor hminor]
  refine parseExpanded_one (boundAt_wellFormed _) _ fun hread => ?_
  obtain ⟨h₁, h₂⟩ := hread.bound
  refine ⟨?_, ?_, h₁, h₂⟩
  · cases operator with
    | empty | eq | lt | ge => exact h₂
    | gt =>
      cases xMinor with
      | true => exact (hx rfl) ▸ Short.zero
      | false => exact Short.of_succ h₂
    | le =>
      cases xMinor with
      | true => exact (hx rfl) ▸ Short.zero
      | false => exact Short.of_succ h₂
  · cases operator with
    | empty | eq | lt | ge => exact h₁
    | gt =>
      cases xMinor with
      | true => exact Short.of_succ h₁
      | false => exact h₁
    | le =>
      cases xMinor with
      | true => exact Short.of_succ h₁
      | false => exact h₁

theorem desugarXrange_any (token : List Char) (operator : Operator) (b : Bool)
    (h : isX (some q.major) = true) :
    parseExpanded (desugarXrange token operator q b) =
      checked (primitiveComparators b operator .any) := by
  have hfirst : "<0.0.0-0".toList = comparatorText .lt (first 0 0 0).groups := by
    rw [← first_text, Nat.toDigits_zero]
    decide
  have hbound : parseExpanded (.ok "<0.0.0-0".toList) = checked [belowOf (first 0 0 0)] := by
    have hone := parseExpanded_one (P := True) (first_wellFormed 0 0 0) .lt fun _ => trivial
    rwa [if_pos trivial, ← hfirst] at hone
  unfold desugarXrange
  simp only [h, Bool.true_or, Bool.and_true, if_true]
  cases operator with
  | lt | gt => exact hbound
  | empty | eq | le | ge => exact parseExpanded_star

theorem desugarXrange_major (token : List Char) (operator : Operator) (b : Bool) {major : Nat}
    (hmajor : q.major = Nat.toDigits 10 major) (hminor : isX q.minor = true) :
    parseExpanded (desugarXrange token operator q b) =
      checked (primitiveComparators b operator (.major major)) := by
  have hx : isX (some q.major) = false := hmajor ▸ isX_toDigits major
  have hbound (operator : Operator) := operatorBound_reads operator hmajor
    (minorOf_true (q := q)) fun _ => rfl
  have hspan : parseExpanded (do
      return between (atLeast q.major zero zero (lowerPre b)) (← belowNextMajor q.major)) =
        checked [atLeastOf (start b major 0 0), belowOf (first (major + 1) 0 0)] := by
    rw [hmajor, zero_eq, start_text]
    exact parseExpanded_between (start_wellFormed b major 0 0) (first_wellFormed (major + 1) 0 0)
      (·.major) (belowNextMajor_eq major)
  unfold desugarXrange
  simp only [hx, hminor, Bool.or_true, Bool.true_or, Bool.and_true, Bool.false_eq_true, if_false]
  cases operator with
  | empty | eq => exact hspan
  | lt | le | gt | ge => exact hbound _

theorem desugarXrange_minor (token : List Char) (operator : Operator) (b : Bool)
    {major minor : Nat} (hmajor : q.major = Nat.toDigits 10 major)
    (hminor : q.minor = some (Nat.toDigits 10 minor)) (hpatch : isX q.patch = true) :
    parseExpanded (desugarXrange token operator q b) =
      checked (primitiveComparators b operator (.minor major minor)) := by
  have hx : isX (some q.major) = false := hmajor ▸ isX_toDigits major
  have hxMinor : isX q.minor = false := hminor ▸ isX_toDigits minor
  have hbound (operator : Operator) := operatorBound_reads operator hmajor
    (minorOf_false hminor) nofun
  have hspan : parseExpanded (do
      return between (atLeast q.major (digits q.minor) zero (lowerPre b))
        (← belowNextMinor q.major (digits q.minor))) =
        checked [atLeastOf (start b major minor 0), belowOf (first major (minor + 1) 0)] := by
    rw [hmajor, hminor, digits, Option.getD_some, zero_eq, start_text]
    exact parseExpanded_between (start_wellFormed b major minor 0)
      (first_wellFormed major (minor + 1) 0) (·.minor) (belowNextMinor_eq major minor)
  unfold desugarXrange
  simp only [hx, hxMinor, hpatch, Bool.or_true, Bool.or_self, Bool.and_true, Bool.false_eq_true,
    if_false]
  cases operator with
  | empty | eq => exact hspan
  | lt | le | gt | ge => exact hbound _

theorem desugarXrange_reads (token : List Char) (operator : Operator) (h : Reads q shape) (b : Bool)
    (hopen : ∀ v, shape ≠ .full v) :
    parseExpanded (desugarXrange token operator q b) =
      checked (primitiveComparators b operator shape) := by
  cases h with
  | any hmajor => exact desugarXrange_any token operator b hmajor
  | major hmajor hminor => exact desugarXrange_major token operator b hmajor hminor
  | minor hmajor hminor hpatch =>
    exact desugarXrange_minor token operator b hmajor hminor hpatch
  | full => exact absurd rfl (hopen _)

/-! ## Simple ranges -/

theorem parseToken_full {v : SemVer} (h : v.WellFormed) (operator : Operator) (b : Bool) :
    parseToken (comparatorText operator v.groups) b =
      checked [{ operator := operator, semver := .version v }] := by
  have hone := parseExpanded_one (P := True) h operator fun _ => trivial
  rwa [if_pos trivial, ← expandToken_text h.spelled operator b] at hone

theorem PartialVersion.text_full {p : PartialVersion} {v : SemVer} (h : p.shape = .full v) :
    p.text = v.groups.text ∧ v.WellFormed := by
  unfold PartialVersion.shape at h
  split at h <;> cases h
  exact ⟨rfl, Qualifier.version_wellFormed _ _ _ _⟩

/-- **A simple range parses to its comparators**, in either mode. -/
theorem Simple.parseToken (s : Simple) (b : Bool) :
    parseToken s.text b = checked (s.comparators b) := by
  cases s with
  | tilde p =>
    rw [parseToken_eq, expandToken_tilde]
    exact desugarTilde_reads p.reads b
  | caret p =>
    rw [parseToken_eq, expandToken_caret]
    exact desugarCaret_reads p.reads b
  | primitive operator p =>
    by_cases hfull : ∃ v, p.shape = .full v
    · obtain ⟨v, hshape⟩ := hfull
      obtain ⟨htext, hv⟩ := p.text_full hshape
      rw [Simple.text, htext, Simple.comparators, hshape]
      exact parseToken_full hv operator b
    · rw [parseToken_eq, expandToken_primitive]
      exact desugarXrange_reads _ operator p.reads b fun v hv => hfull ⟨v, hv⟩

/-! ## Sets -/

theorem checked_pos {cs : List Comparator} (h : ∀ c ∈ cs, c.Readable) : checked cs = .ok cs :=
  if_pos h

theorem checked_neg {cs : List Comparator} (h : ¬ ∀ c ∈ cs, c.Readable) :
    checked cs = .error (.valueError .tooManyDigits) := if_neg h

theorem mapM_checked (groups : List (List Comparator)) :
    groups.mapM checked = if ∀ cs ∈ groups, ∀ c ∈ cs, c.Readable then .ok groups
      else .error (.valueError .tooManyDigits) := by
  induction groups with
  | nil => rfl
  | cons cs groups ih =>
    rw [List.mapM_cons, ih, if_congr List.forall_mem_cons rfl rfl]
    by_cases hcs : ∀ c ∈ cs, c.Readable
    · rw [checked_pos hcs]
      by_cases hgroups : ∀ cs ∈ groups, ∀ c ∈ cs, c.Readable
      · rw [if_pos hgroups, if_pos ⟨hcs, hgroups⟩]
        rfl
      · rw [if_neg hgroups, if_neg fun hboth => hgroups hboth.2]
        rfl
    · have hneither : ¬ ((∀ c ∈ cs, c.Readable) ∧ ∀ cs ∈ groups, ∀ c ∈ cs, c.Readable) :=
        fun hboth => hcs hboth.1
      rw [checked_neg hcs, if_neg hneither]
      rfl

theorem readable_orAny (cs : List Comparator) :
    (∀ c ∈ orAny cs, c.Readable) ↔ ∀ c ∈ cs, c.Readable := by
  unfold orAny
  split
  · next h =>
    rw [h]
    exact ⟨fun _ => nofun, fun _ => List.forall_mem_singleton.mpr trivial⟩
  · rfl

/-- Groups of comparators that are read one by one make a set. -/
theorem checked_groups (groups : List (List Comparator)) :
    (do
      let groups ← groups.mapM checked
      return orAny groups.flatten) = checked (orAny groups.flatten) := by
  have hread : (∀ c ∈ orAny groups.flatten, c.Readable) ↔ ∀ cs ∈ groups, ∀ c ∈ cs, c.Readable := by
    rw [readable_orAny, List.forall_mem_flatten]
  rw [mapM_checked]
  unfold checked
  rw [if_congr hread rfl rfl]
  split <;> rfl

theorem parseSimples (l : List Simple) (b : Bool) :
    parseComparatorSet (spaced (l.map Simple.text)) b =
      checked (orAny (l.flatMap (Simple.comparators b))) := by
  have hplain : ∀ t ∈ l.map Simple.text, Plain t := by
    intro t ht
    obtain ⟨s, -, rfl⟩ := List.mem_map.mp ht
    exact s.plain
  have htokens : (l.map Simple.text).mapM (fun token => parseToken token b) =
      (l.map (Simple.comparators b)).mapM checked := by
    rw [List.mapM_map, List.mapM_map]
    congr 1
    exact funext fun s => s.parseToken b
  rw [parseComparatorSet_spaced hplain, htokens, checked_groups, List.flatMap_def]

/-! ## Hyphen ranges -/

/-- A comparator as a bound is written. -/
def Comparator.chars (c : Comparator) : List Char :=
  match c.semver with
  | .any => ['*']
  | .version v => comparatorText c.operator v.groups

def Comparator.WellFormed (c : Comparator) : Prop :=
  match c.semver with
  | .any => False
  | .version v => v.WellFormed

theorem Comparator.WellFormed.isToken {c : Comparator} (h : c.WellFormed) : IsToken c.chars := by
  rcases c with ⟨operator, _ | v⟩
  · exact h.elim
  · exact comparatorText_isToken (SemVer.WellFormed.spelled h) operator

theorem Comparator.WellFormed.parseToken {c : Comparator} (h : c.WellFormed) (b : Bool) :
    parseToken c.chars b = checked [c] := by
  rcases c with ⟨operator, _ | v⟩
  · exact h.elim
  · exact parseToken_full h operator b

theorem mapM_parseToken {cs : List Comparator} (h : ∀ c ∈ cs, c.WellFormed) (b : Bool) :
    (cs.map Comparator.chars).mapM (fun token => parseToken token b) =
      (cs.map ([·])).mapM checked := by
  induction cs with
  | nil => rfl
  | cons c cs ih =>
    rw [List.map_cons, List.map_cons, List.mapM_cons, List.mapM_cons,
      (h c List.mem_cons_self).parseToken, ih fun d hd => h d (List.mem_cons_of_mem _ hd)]

theorem hyphenFrom_wellFormed (p : PartialVersion) (b : Bool) :
    ∀ c ∈ hyphenFrom b p.shape, c.WellFormed := by
  rcases hshape : p.shape with _ | major | ⟨major, minor⟩ | v
  · exact nofun
  · exact List.forall_mem_singleton.mpr (start_wellFormed b major 0 0)
  · exact List.forall_mem_singleton.mpr (start_wellFormed b major minor 0)
  · exact List.forall_mem_singleton.mpr (p.text_full hshape).2

theorem hyphenTo_wellFormed (p : PartialVersion) : ∀ c ∈ hyphenTo p.shape, c.WellFormed := by
  rcases hshape : p.shape with _ | major | ⟨major, minor⟩ | v
  · exact nofun
  · exact List.forall_mem_singleton.mpr (first_wellFormed (major + 1) 0 0)
  · exact List.forall_mem_singleton.mpr (first_wellFormed major (minor + 1) 0)
  · refine List.forall_mem_singleton.mpr ?_
    have hv := (p.text_full hshape).2
    unfold Comparator.WellFormed
    dsimp only
    split
    · exact hv
    · exact hv.dropBuild

/-- One bound is written as it stands. -/
theorem spaced_singleton (t : List Char) : spaced [t] = t := by
  rw [spaced_cons]
  exact List.append_nil t

theorem PartialVersion.full_groups (p : PartialVersion) {v : SemVer} (h : p.shape = .full v) :
    p.groups = v.groups.toPartial ∧ stripChars p.text = v.groups.text ∧
      isX (some v.groups.toPartial.major) = false ∧ isX v.groups.toPartial.minor = false ∧
      isX v.groups.toPartial.patch = false := by
  refine ⟨?_, by rw [stripChars_eq_self p.isSpace, (p.text_full h).1], isX_toDigits v.major,
    isX_toDigits v.minor, isX_toDigits v.patch⟩
  have hreads := p.reads
  rw [h] at hreads
  generalize p.groups = q at hreads ⊢
  cases hreads
  rfl

theorem hyphenLower_eq (p : PartialVersion) (b : Bool) :
    hyphenLower (p.text, p.groups) b = spaced ((hyphenFrom b p.shape).map Comparator.chars) := by
  by_cases hfull : ∃ v, p.shape = .full v
  · obtain ⟨v, hshape⟩ := hfull
    obtain ⟨hgroups, hstrip, hmajor, hminor, hpatch⟩ := p.full_groups hshape
    unfold hyphenLower
    dsimp only
    rw [hshape, hgroups, hstrip, hmajor, hminor, hpatch]
    exact (spaced_singleton _).symm
  · have hreads := p.reads
    unfold hyphenLower
    generalize p.groups = q at hreads
    generalize hshape : p.shape = shape at hreads hfull
    dsimp only
    cases hreads with
    | any hmajor =>
      rw [if_pos hmajor]
      rfl
    | major hmajor hminor =>
      rw [hmajor, if_neg (by simp [isX_toDigits]), if_pos hminor, zero_eq, start_text]
      exact (spaced_singleton _).symm
    | minor hmajor hminor hpatch =>
      rw [hmajor, hminor, if_neg (by simp [isX_toDigits]), if_neg (by simp [isX_toDigits]),
        if_pos hpatch, digits, Option.getD_some, zero_eq, start_text]
      exact (spaced_singleton _).symm
    | full => exact absurd ⟨_, rfl⟩ hfull

/-- The upper bound as text, unless it needs a number Python does not print. -/
theorem hyphenUpper_eq (p : PartialVersion) :
    hyphenUpper (p.text, p.groups) = .ok (spaced ((hyphenTo p.shape).map Comparator.chars)) ∨
      hyphenUpper (p.text, p.groups) = .error .tooManyDigits ∧
        ¬ ∀ c ∈ hyphenTo p.shape, c.Readable := by
  by_cases hfull : ∃ v, p.shape = .full v
  · obtain ⟨v, hshape⟩ := hfull
    obtain ⟨hgroups, hstrip, hmajor, hminor, hpatch⟩ := p.full_groups hshape
    have hpre : v.groups.toPartial.pre =
      if v.prerelease = [] then none else some (identsText v.prerelease) := rfl
    refine .inl ?_
    unfold hyphenUpper
    dsimp only
    rw [hshape, hgroups, hstrip, hmajor, hminor, hpatch, hpre]
    unfold hyphenTo
    dsimp only
    by_cases hnil : v.prerelease = []
    · simp only [hnil, if_true]
      exact congrArg Except.ok (spaced_singleton _).symm
    · obtain ⟨c, t, hct⟩ :=
        List.exists_cons_of_ne_nil (identsText_ne_nil hnil (p.text_full hshape).2.prerelease)
      rw [if_neg hnil, if_neg hnil, hct]
      refine congrArg Except.ok (Eq.trans ?_ (spaced_singleton _).symm)
      simp [Comparator.chars, comparatorText, Operator.text, SemVer.groups, hnil, Groups.text,
        Groups.toPartial, preText, buildText, hct, digits]
  · have hreads := p.reads
    unfold hyphenUpper
    generalize p.groups = q at hreads
    generalize hshape : p.shape = shape at hreads hfull
    dsimp only
    cases hreads with
    | any hmajor =>
      rw [if_pos hmajor]
      exact .inl rfl
    | @major _ major hmajor hminor =>
      rw [hmajor, if_neg (by simp [isX_toDigits]), if_pos hminor, belowNextMajor_eq]
      by_cases hshort : Short (major + 1)
      · rw [if_pos hshort]
        exact .inl (congrArg Except.ok (spaced_singleton _).symm)
      · rw [if_neg hshort]
        exact .inr ⟨rfl, fun h => hshort (h _ (List.mem_singleton_self _)).major⟩
    | @minor _ major minor hmajor hminor hpatch =>
      rw [hmajor, hminor, if_neg (by simp [isX_toDigits]), if_neg (by simp [isX_toDigits]),
        if_pos hpatch, digits, Option.getD_some, belowNextMinor_eq]
      by_cases hshort : Short (minor + 1)
      · rw [if_pos hshort]
        exact .inl (congrArg Except.ok (spaced_singleton _).symm)
      · rw [if_neg hshort]
        exact .inr ⟨rfl, fun h => hshort (h _ (List.mem_singleton_self _)).minor⟩
    | full => exact absurd ⟨_, rfl⟩ hfull

theorem tokens_spaced {ts : List (List Char)} (h : ∀ t ∈ ts, IsToken t) :
    tokens (spaced ts) = ts := by
  unfold tokens
  rw [stripChars_spaced h, splitSpaces_spaced h]

theorem spaced_append {ts us : List (List Char)} (hts : ts ≠ []) (hus : us ≠ []) :
    spaced ts ++ ' ' :: spaced us = spaced (ts ++ us) := by
  induction ts with
  | nil => exact absurd rfl hts
  | cons t ts ih =>
    rw [List.cons_append, spaced_cons, spaced_cons, List.append_assoc]
    congr 1
    cases ts with
    | nil =>
      obtain ⟨u, us, rfl⟩ := List.exists_cons_of_ne_nil hus
      rfl
    | cons t' ts =>
      have hrest := ih (List.cons_ne_nil _ _)
      rw [spacedRest, List.cons_append, hrest]
      rfl

/-- The tokens of a pair of bounds, either of which may be missing. -/
theorem tokens_pair {ts us : List (List Char)} (hts : ∀ t ∈ ts, IsToken t)
    (hus : ∀ u ∈ us, IsToken u) :
    tokens (stripChars (between (spaced ts) (spaced us))) = ts ++ us := by
  have hstrip (s : List Char) : tokens (stripChars s) = tokens s := by
    unfold tokens
    rw [stripChars_idem]
  have htokens {s t : List Char} (h : stripChars s = stripChars t) : tokens s = tokens t := by
    unfold tokens
    rw [h]
  rw [hstrip]
  unfold between
  by_cases hnilT : ts = []
  · rw [hnilT, List.nil_append]
    exact (htokens (stripChars_cons_blank _)).trans (tokens_spaced hus)
  · by_cases hnilU : us = []
    · rw [hnilU, List.append_nil]
      exact (htokens (stripChars_append_blank _)).trans (tokens_spaced hts)
    · rw [spaced_append hnilT hnilU]
      exact tokens_spaced (List.forall_mem_append.mpr ⟨hts, hus⟩)

theorem matchHyphen_text (low high : PartialVersion) :
    matchHyphen (low.text ++ ' ' :: '-' :: ' ' :: high.text) =
      some ((low.text, low.groups), (high.text, high.groups)) := by
  have hleft : (low.text ++ ' ' :: '-' :: ' ' :: high.text).dropWhile isSpace =
      low.text ++ ' ' :: '-' :: ' ' :: high.text := by
    obtain ⟨c, t, hct, -⟩ := low.head
    rw [hct]
    exact dropWhile_eq_self_of_stops (.cons (low.isSpace c (hct ▸ List.mem_cons_self)))
  have hdrop : (' ' :: '-' :: ' ' :: high.text).dropWhile isSpace = '-' :: ' ' :: high.text := by
    rw [List.dropWhile_cons_of_pos (by decide), List.dropWhile_cons_of_neg (by decide)]
  unfold matchHyphen
  dsimp only
  rw [hleft, low.scan (.inr ⟨_, rfl⟩)]
  dsimp only
  rw [hdrop]
  refine Eq.trans (if_pos (by decide : (isSpace ' ' && isSpace ' ') = true)) ?_
  rw [dropWhile_isSpace high.isSpace, high.matchPartial, stripChars_eq_self high.isSpace]
  simp

/-- **A hyphen range parses to its two bounds.** -/
theorem parseHyphen (low high : PartialVersion) (b : Bool) :
    parseComparatorSet (low.text ++ ' ' :: '-' :: ' ' :: high.text) b =
      checked (orAny (hyphenFrom b low.shape ++ hyphenTo high.shape)) := by
  have hhyphen : IsToken ['-'] := ⟨List.cons_ne_nil _ _, by simp; decide, by simp; decide⟩
  have hplainText (p : PartialVersion) : IsToken p.text :=
    ((IsLeader.operator .empty).plain p).toIsToken
  have hstrip : stripChars (low.text ++ ' ' :: '-' :: ' ' :: high.text) =
      low.text ++ ' ' :: '-' :: ' ' :: high.text := by
    have hspaced : low.text ++ ' ' :: '-' :: ' ' :: high.text =
        spaced [low.text, ['-'], high.text] := by
      simp [spaced, List.intercalate_cons_cons]
    rw [hspaced]
    exact stripChars_spaced (by simp [hplainText, hhyphen])
  have hwell : ∀ c ∈ hyphenFrom b low.shape ++ hyphenTo high.shape, c.WellFormed :=
    List.forall_mem_append.mpr ⟨hyphenFrom_wellFormed low b, hyphenTo_wellFormed high⟩
  have hexpand : expandHyphen (low.text ++ ' ' :: '-' :: ' ' :: high.text) b =
      desugarHyphen (low.text, low.groups) (high.text, high.groups) b := by
    unfold expandHyphen
    rw [matchHyphen_text]
  rw [parseComparatorSet_eq, hstrip, hexpand]
  unfold desugarHyphen
  rw [hyphenLower_eq]
  rcases hyphenUpper_eq high with hupper | ⟨hupper, hread⟩
  · have htokens := tokens_pair
      (fun t ht => by
        obtain ⟨c, hc, rfl⟩ := List.mem_map.mp ht
        exact (hyphenFrom_wellFormed low b c hc).isToken)
      (fun t ht => by
        obtain ⟨c, hc, rfl⟩ := List.mem_map.mp ht
        exact (hyphenTo_wellFormed high c hc).isToken)
    have hflatten : ((hyphenFrom b low.shape ++ hyphenTo high.shape).map ([·])).flatten =
        hyphenFrom b low.shape ++ hyphenTo high.shape := by
      rw [← List.flatMap_def, List.flatMap_singleton']
    rw [hupper]
    simp only [raised, Except.mapError, bind, Except.bind, pure, Except.pure, htokens,
      ← List.map_append]
    rw [mapM_parseToken hwell]
    exact (checked_groups _).trans (by rw [hflatten])
  · rw [hupper, checked_neg]
    · rfl
    · rw [readable_orAny]
      exact fun h => hread fun c hc => h c (List.mem_append_right _ hc)

theorem Clause.parse (c : Clause) (b : Bool) :
    parseComparatorSet c.text b = checked (c.comparators b) := by
  cases c with
  | hyphen low high => exact parseHyphen low high b
  | simples l => exact parseSimples l b

/-! ## Ranges -/

/-- Blanks at the ends are all that tells the texts apart. -/
def SameStripped (s t : List Char) : Prop := stripChars s = stripChars t

theorem stripChars_blanks_append {u : List Char} (hu : ∀ c ∈ u, isSpace c = true) (s : List Char) :
    stripChars (u ++ s) = stripChars s := by
  unfold stripChars
  rw [List.dropWhile_append_of_pos hu]

theorem stripChars_append_blanks {u : List Char} (hu : ∀ c ∈ u, isSpace c = true) (s : List Char) :
    stripChars (s ++ u) = stripChars s := by
  have hnil : u.dropWhile isSpace = [] := by
    rw [List.dropWhile_eq_nil_iff]
    exact hu
  unfold stripChars
  rw [List.dropWhile_append]
  split
  · next hempty => rw [hnil, List.isEmpty_iff.mp hempty]
  · rw [List.reverse_append,
      List.dropWhile_append_of_pos fun c hc => hu c (List.mem_reverse.mp hc)]

theorem not_bar_of_isSpace {u : List Char} (hu : ∀ c ∈ u, isSpace c = true) : '|' ∉ u := by
  intro hbar
  exact absurd (hu _ hbar) (by decide)

/-- What stands before the first bars belongs to the first part. -/
theorem splitBars_lead {u s part : List Char} {parts : List (List Char)} (hu : '|' ∉ u)
    (h : splitBars s = part :: parts) : splitBars (u ++ s) = (u ++ part) :: parts := by
  induction u with
  | nil => exact h
  | cons c u ih =>
    exact splitBars_cons (fun hc => hu (hc ▸ List.mem_cons_self))
      (ih fun hmem => hu (List.mem_cons_of_mem _ hmem))

/-- Blanks at the end belong to the last part. -/
theorem splitBars_trail {u : List Char} (hu : ∀ c ∈ u, isSpace c = true) (s : List Char) :
    List.Forall₂ (fun p q => p = q ∨ p = q ++ u) (splitBars (s ++ u)) (splitBars s) := by
  fun_induction splitBars s with
  | case1 rest ih => exact .cons (.inl rfl) ih
  | case2 c rest hbars part parts hsplit ih =>
    rw [hsplit] at ih
    have hcons : ∀ q qs, splitBars (rest ++ u) = q :: qs →
        splitBars (c :: (rest ++ u)) = (c :: q) :: qs := by
      intro q qs hq
      unfold splitBars
      split
      · next rest' heq =>
        obtain ⟨rfl, hrest⟩ := List.cons.inj heq
        cases rest with
        | nil =>
          rw [List.nil_append] at hrest
          exact absurd (hrest ▸ List.mem_cons_self) (not_bar_of_isSpace hu)
        | cons d rest =>
          obtain ⟨rfl, -⟩ := List.cons.inj hrest
          exact absurd rfl (hbars rest rfl)
      · next heq =>
        cases heq
        rw [hq]
      · next heq => cases heq
    rcases hq : splitBars (rest ++ u) with _ | ⟨q, qs⟩
    · exact absurd hq (splitBars_ne_nil _)
    · rw [hq] at ih
      cases ih with
      | cons hfirst hrest =>
        rw [List.cons_append, hcons q qs hq]
        refine .cons ?_ hrest
        rcases hfirst with rfl | rfl
        · exact .inl rfl
        · exact .inr rfl
  | case3 c rest hbars hsplit ih => exact absurd hsplit (splitBars_ne_nil _)
  | case4 =>
    rw [List.nil_append, splitBars_of_not_mem (not_bar_of_isSpace hu)]
    exact .cons (.inr rfl) .nil

/-- **Stripping a range** changes its parts by blanks only. -/
theorem splitBars_strip (s : List Char) :
    List.Forall₂ SameStripped (splitBars (stripChars s)) (splitBars s) := by
  have hleft : s = s.takeWhile isSpace ++ s.dropWhile isSpace :=
    (List.takeWhile_append_dropWhile).symm
  have hlead : ∀ c ∈ s.takeWhile isSpace, isSpace c = true := List.all_eq_true.mp List.all_takeWhile
  obtain ⟨u, hu, hright⟩ : ∃ u, (∀ c ∈ u, isSpace c = true) ∧
      s.dropWhile isSpace = stripChars s ++ u := by
    refine ⟨((s.dropWhile isSpace).reverse.takeWhile isSpace).reverse, fun c hc => ?_, ?_⟩
    · exact List.all_eq_true.mp List.all_takeWhile c (List.mem_reverse.mp hc)
    · unfold stripChars
      rw [← List.reverse_append, List.takeWhile_append_dropWhile, List.reverse_reverse]
  have htrail := splitBars_trail hu (stripChars s)
  rw [← hright] at htrail
  rcases hparts : splitBars (s.dropWhile isSpace) with _ | ⟨part, parts⟩
  · exact absurd hparts (splitBars_ne_nil _)
  · have hall := splitBars_lead (not_bar_of_isSpace hlead) hparts
    rw [← hleft] at hall
    rw [hparts] at htrail
    rw [hall]
    have hsame (p q : List Char) (h : p = q ∨ p = q ++ u) : SameStripped q p := by
      rcases h with rfl | rfl
      · rfl
      · exact (stripChars_append_blanks hu q).symm
    cases hsplit : splitBars (stripChars s) with
    | nil => exact absurd hsplit (splitBars_ne_nil _)
    | cons q qs =>
      rw [hsplit] at htrail
      cases htrail with
      | cons hfirst hrest =>
        refine .cons ?_ (hrest.flip.imp fun p q h => hsame q p h)
        exact (hsame _ _ hfirst).trans (stripChars_blanks_append hlead part).symm

theorem Clause.bar (c : Clause) : '|' ∉ c.text := by
  cases c with
  | hyphen low high =>
    have hplainText (p : PartialVersion) : '|' ∉ p.text :=
      fun hbar => bar_of_inPartial (p.inPartial _ hbar) rfl
    unfold Clause.text
    rw [List.mem_append]
    simp [hplainText]
  | simples l =>
    intro hbar
    rcases mem_intercalate hbar with hbar | ⟨t, ht, hbar⟩
    · exact absurd (List.mem_singleton.mp hbar) (by decide)
    · obtain ⟨s, -, rfl⟩ := List.mem_map.mp ht
      exact s.bar hbar

theorem isSpace_replicate (n : Nat) : ∀ c ∈ List.replicate n ' ', isSpace c = true := by
  intro c hc
  rw [List.eq_of_mem_replicate hc]
  decide

/-- **The parts of a range** are its clauses, blanks aside. -/
theorem splitBars_chars (c : Clause) (rest : List Alternative) (n : Nat) :
    List.Forall₂ (fun part clause => SameStripped part clause.text)
      (splitBars (List.replicate n ' ' ++ c.text ++ rest.flatMap Alternative.text))
      (c :: rest.map Alternative.clause) := by
  have hblanks (n : Nat) := not_bar_of_isSpace (isSpace_replicate n)
  induction rest generalizing c n with
  | nil =>
    rw [List.flatMap_nil, List.append_nil, splitBars_of_not_mem (by simp [hblanks, c.bar])]
    exact .cons (stripChars_blanks_append (isSpace_replicate n) _) .nil
  | cons a rest ih =>
    have hchars : List.replicate n ' ' ++ c.text ++ (a :: rest).flatMap Alternative.text =
        (List.replicate n ' ' ++ (c.text ++ List.replicate a.before ' ')) ++ '|' :: '|' ::
          (List.replicate a.after ' ' ++ a.clause.text ++ rest.flatMap Alternative.text) := by
      simp [Alternative.text, List.flatMap_cons]
    rw [hchars, splitBars_append (by simp [hblanks, c.bar])]
    refine .cons ?_ (ih a.clause a.after)
    exact (stripChars_blanks_append (isSpace_replicate n) _).trans
      (stripChars_append_blanks (isSpace_replicate a.before) _)

/-- **The text of an expression parses to its comparators**, where Python converts the numbers
they need, and to nothing otherwise. -/
theorem parseRange_expr (e : RangeExpr) (b : Bool) :
    parseRange e.text b =
      if ∀ cs ∈ e.sets b, ∀ c ∈ cs, c.Readable then .ok { sets := e.sets b, includePrerelease := b }
      else .error (.valueError .tooManyDigits) := by
  have hparts := splitBars_chars e.first e.rest 0
  have hstrip := splitBars_strip e.chars
  rw [List.replicate_zero, List.nil_append] at hparts
  change List.Forall₂ _ (splitBars e.chars) e.clauses at hparts
  have hsets : (splitBars (stripChars e.chars)).mapM (fun part => parseComparatorSet part b) =
      (e.sets b).mapM checked := by
    unfold RangeExpr.sets
    rw [List.mapM_map]
    exact (mapM_eq_of_forall₂ hstrip fun _ _ h => parseComparatorSet_strip h b).trans
      (mapM_eq_of_forall₂ hparts fun _ clause h =>
        (parseComparatorSet_strip h b).trans (clause.parse b))
  unfold parseRange RangeExpr.text
  rw [String.toList_ofList, hsets, mapM_checked]
  split <;> rfl

theorem RangeExpr.Readable.parse {e : RangeExpr} {b : Bool} (h : e.Readable b) :
    parseRange e.text b = .ok { sets := e.sets b, includePrerelease := b } :=
  (parseRange_expr e b).trans (if_pos h)

theorem parse_of_not_readable {e : RangeExpr} {b : Bool} (h : ¬ e.Readable b) :
    parseRange e.text b = .error (.valueError .tooManyDigits) :=
  (parseRange_expr e b).trans (if_neg h)

end Minireg.Semver
