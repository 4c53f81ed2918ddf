import Minireg.Core.SemverDenotes

/-!
# Complementary operators

A policy rule matches prereleases as well, so `<P` and `>=P` should share the versions
out between them, and so should `<=P` and `>P`. Before a whole version they do. Before
a partial one the upper bounds start at the first prerelease (`<1.2.0-0`) and the lower
ones at the release (`>=1.2.0`), so the prereleases of the release are in neither:
`complementary_iff` says that these are all the exceptions.
-/

namespace Minireg.Semver

open Py

/-- The range of one operator before one partial version. -/
def ranged (operator : Operator) (p : PartialVersion) : RangeExpr where
  first := .simples [.primitive operator p]
  rest := []

/-- What a rule with the operator and the version says of a version. -/
def answer (version : String) (operator : Operator) (p : PartialVersion) : Except ValueError Bool :=
  satisfies version (String.ofList (operator.text ++ p.text)) true

/-- The operators share the version out, and what the partial version itself covers is on both
sides of it. -/
structure Complementary (version : String) (p : PartialVersion) : Prop where
  strict : ∃ x, answer version .lt p = .ok x ∧ answer version .ge p = .ok (!x)
  loose : ∃ x, answer version .le p = .ok x ∧ answer version .gt p = .ok (!x)
  covered : answer version .empty p = .ok true →
    answer version .ge p = .ok true ∧ answer version .le p = .ok true

/-- A prerelease of the release. -/
def PrereleaseOf (v : SemVer) (release : Nat × Nat × Nat) : Prop :=
  v.isPrerelease = true ∧ v.tuple = release

/-- Python converts the numbers, and the version is a prerelease neither of the first release the
partial version covers nor of the first after those. -/
def Fits (v : SemVer) : Shape → Prop
  | .any => True
  | .major major => Short (major + 1) ∧
    ¬ PrereleaseOf v (major, 0, 0) ∧ ¬ PrereleaseOf v (major + 1, 0, 0)
  | .minor major minor => Short major ∧ Short (minor + 1) ∧
    ¬ PrereleaseOf v (major, minor, 0) ∧ ¬ PrereleaseOf v (major, minor + 1, 0)
  | .full w => w.Readable

/-! ## What the operators answer -/

theorem ranged_text (operator : Operator) (p : PartialVersion) :
    (ranged operator p).text = String.ofList (operator.text ++ p.text) := by
  simp [ranged, RangeExpr.text, RangeExpr.chars, Clause.text, spaced_singleton, Simple.text]

theorem primitiveComparators_ne_nil (b : Bool) (operator : Operator) (shape : Shape) :
    primitiveComparators b operator shape ≠ [] := by
  unfold primitiveComparators partialComparators
  split
  · split <;> exact List.cons_ne_nil _ _
  · split <;> exact List.cons_ne_nil _ _
  · split <;> exact List.cons_ne_nil _ _
  · exact List.cons_ne_nil _ _

theorem ranged_sets (b : Bool) (operator : Operator) (p : PartialVersion) :
    (ranged operator p).sets b = [primitiveComparators b operator p.shape] := by
  have hflat : [Simple.primitive operator p].flatMap (Simple.comparators b) =
      primitiveComparators b operator p.shape := List.append_nil _
  unfold RangeExpr.sets RangeExpr.clauses ranged
  simp only [List.map_cons, List.map_nil, Clause.comparators, hflat, orAny,
    if_neg (primitiveComparators_ne_nil b operator p.shape)]

/-- **The answer of a rule**: all its comparators, unless a number is too long to read. -/
theorem answer_eq {version : String} {v : SemVer} (hv : Parses version v) (operator : Operator)
    (p : PartialVersion) :
    answer version operator p =
      if ∀ c ∈ primitiveComparators true operator p.shape, c.Readable then
        .ok ((primitiveComparators true operator p.shape).all fun c => c.test v)
      else .error .tooManyDigits := by
  have hparse := parseRange_expr (ranged operator p) true
  rw [ranged_text, ranged_sets, if_congr List.forall_mem_singleton rfl rfl] at hparse
  unfold answer satisfies
  by_cases hread : ∀ c ∈ primitiveComparators true operator p.shape, c.Readable
  · rw [if_pos hread] at hparse ⊢
    rw [hv, hparse]
    simp [bind, Except.bind, pure, Except.pure, Range.test, testSet]
  · rw [if_neg hread] at hparse ⊢
    rw [hv, hparse]
    rfl

theorem answer_one {version : String} {v w : SemVer} (hv : Parses version v)
    {operator operator' : Operator} {p : PartialVersion}
    (h : primitiveComparators true operator p.shape =
      [{ operator := operator', semver := .version w }]) :
    answer version operator p =
      if w.Readable then .ok (Comparator.test { operator := operator', semver := .version w } v)
      else .error .tooManyDigits := by
  have hread : (∀ c ∈ [({ operator := operator', semver := .version w } : Comparator)],
      c.Readable) ↔ w.Readable := List.forall_mem_singleton
  rw [answer_eq hv, h, if_congr hread rfl rfl, List.all_cons, List.all_nil, Bool.and_true]

theorem answer_two {version : String} {v w w' : SemVer} (hv : Parses version v)
    {operator : Operator} {p : PartialVersion}
    (h : primitiveComparators true operator p.shape = [atLeastOf w, belowOf w']) :
    answer version operator p =
      if w.Readable ∧ w'.Readable then .ok (decide (w.key ≤ v.key) && decide (v.key < w'.key))
      else .error .tooManyDigits := by
  have hread : (∀ c ∈ [atLeastOf w, belowOf w'], c.Readable) ↔ w.Readable ∧ w'.Readable := by
    rw [List.forall_mem_cons, List.forall_mem_singleton]
    rfl
  rw [answer_eq hv, h, if_congr hread rfl rfl, List.all_cons, List.all_cons, List.all_nil,
    Bool.and_true]
  rfl

/-- Two answers that share the versions out. -/
theorem shared_iff {P Q : Prop} [Decidable P] [Decidable Q] {a b : Bool} :
    (∃ x, (if P then .ok a else .error .tooManyDigits : Except ValueError Bool) = .ok x ∧
      (if Q then .ok b else .error .tooManyDigits : Except ValueError Bool) = .ok (!x)) ↔
      P ∧ Q ∧ b = !a := by
  by_cases hP : P <;> by_cases hQ : Q <;> simp [hP, hQ]

/-! ## Partial versions -/

/-- An opened bound admits the prereleases of its release too. -/
theorem first_le_iff (v : SemVer) (a b c : Nat) :
    (first a b c).key ≤ v.key ↔ (release a b c).key ≤ v.key ∨ PrereleaseOf v (a, b, c) := by
  have hpre : v.isPrerelease = true ↔ v.prerelease ≠ [] := by simp [SemVer.isPrerelease]
  have htuple (u : SemVer) (hu : u.tuple = (a, b, c)) :
      u.tuple = v.tuple ↔ v.tuple = (a, b, c) := by
    rw [hu]
    exact eq_comm
  rw [SemVer.key_le_iff, SemVer.key_le_iff, htuple (first a b c) rfl, htuple (release a b c) rfl]
  unfold PrereleaseOf
  rw [hpre]
  simp only [first, release, prereleaseKey_zero_le, prereleaseKey_nil_le]
  tauto

theorem readable_first (a b c : Nat) : (first a b c).Readable ↔ Short a ∧ Short b ∧ Short c :=
  ⟨fun h => ⟨h.major, h.minor, h.patch⟩,
    fun ⟨ha, hb, hc⟩ => ⟨ha, hb, hc, List.forall_mem_singleton.mpr Short.zero⟩⟩

theorem readable_release (a b c : Nat) : (release a b c).Readable ↔ (first a b c).Readable := by
  rw [readable_first]
  exact ⟨fun h => ⟨h.major, h.minor, h.patch⟩, fun ⟨ha, hb, hc⟩ => ⟨ha, hb, hc, nofun⟩⟩

/-- **Before a partial version**, the prereleases of the first release it covers and of the first
after those are what the operators leave out. -/
theorem complementary_span {version : String} {v : SemVer} {p : PartialVersion}
    (low next : Nat × Nat × Nat) (hv : Parses version v)
    (hspan : ∀ operator, primitiveComparators true operator p.shape =
      partialComparators true operator low next) :
    Complementary version p ↔
      (first low.1 low.2.1 low.2.2).Readable ∧ (first next.1 next.2.1 next.2.2).Readable ∧
        ¬ PrereleaseOf v low ∧ ¬ PrereleaseOf v next := by
  have hlt := answer_one hv (hspan .lt)
  have hge := answer_one hv (hspan .ge)
  have hle := answer_one hv (hspan .le)
  have hgt := answer_one hv (hspan .gt)
  have hspanEmpty : primitiveComparators true .empty p.shape =
      [atLeastOf (first low.1 low.2.1 low.2.2), belowOf (first next.1 next.2.1 next.2.2)] :=
    hspan .empty
  have hempty := answer_two hv hspanEmpty
  rw [if_congr (readable_release _ _ _) rfl rfl] at hge hgt
  dsimp only [Comparator.test] at hlt hge hle hgt
  have hgap (t : Nat × Nat × Nat) : (decide ((release t.1 t.2.1 t.2.2).key ≤ v.key) =
      !decide (v.key < (first t.1 t.2.1 t.2.2).key)) ↔ ¬ PrereleaseOf v t := by
    rw [← decide_not, decide_eq_decide, not_lt, first_le_iff]
    have hbelow : PrereleaseOf v t → ¬ (release t.1 t.2.1 t.2.2).key ≤ v.key := by
      rintro ⟨hpre, htuple⟩ hle
      rw [SemVer.key_le_iff] at hle
      rcases hle with hle | ⟨-, hle⟩
      · have hrelease : v.release = (release t.1 t.2.1 t.2.2).release := by
          simp only [SemVer.tuple, Prod.ext_iff] at htuple
          simp only [SemVer.release, release, htuple]
        rw [hrelease] at hle
        exact lt_irrefl _ hle
      · rw [release, prereleaseKey_nil_le] at hle
        simp [SemVer.isPrerelease, hle] at hpre
    exact ⟨fun h hpre => hbelow hpre (h.mpr (.inr hpre)), fun h => ⟨.inl, fun h' =>
      h'.resolve_right h⟩⟩
  constructor
  · rintro ⟨hstrict, hloose, -⟩
    rw [hlt, hge, shared_iff] at hstrict
    rw [hle, hgt, shared_iff] at hloose
    exact ⟨hstrict.1, hloose.1, (hgap low).mp hstrict.2.2, (hgap next).mp hloose.2.2⟩
  · rintro ⟨hlow, hnext, hgapLow, hgapNext⟩
    refine ⟨?_, ?_, ?_⟩
    · rw [hlt, hge, shared_iff]
      exact ⟨hlow, hlow, (hgap low).mpr hgapLow⟩
    · rw [hle, hgt, shared_iff]
      exact ⟨hnext, hnext, (hgap next).mpr hgapNext⟩
    · have hboth : (first low.1 low.2.1 low.2.2).Readable ∧
          (first next.1 next.2.1 next.2.2).Readable := ⟨hlow, hnext⟩
      rw [hempty, hge, hle, if_pos hboth, if_pos hlow, if_pos hnext]
      intro hcovered
      have hboth := Except.ok.inj hcovered
      rw [Bool.and_eq_true] at hboth
      refine ⟨congrArg _ ((hgap low).mpr hgapLow |>.trans ?_), congrArg _ hboth.2⟩
      simpa using hboth.1

/-! ## The other shapes -/

theorem complementary_any {version : String} {v : SemVer} {p : PartialVersion}
    (hv : Parses version v) (hshape : p.shape = .any) : Complementary version p := by
  have hanswer (operator : Operator) := answer_eq hv operator p
  simp only [hshape, primitiveComparators] at hanswer
  have hany : ∀ c ∈ anyComparator, c.Readable := List.forall_mem_singleton.mpr trivial
  have hnone : ∀ c ∈ [belowOf (first 0 0 0)], c.Readable :=
    List.forall_mem_singleton.mpr ((readable_first 0 0 0).mpr ⟨.zero, .zero, .zero⟩)
  have hfalse : ([belowOf (first 0 0 0)].all fun c => c.test v) = false := by
    simp [Comparator.test, first_zero_le]
  have htrue : (anyComparator.all fun c => c.test v) = true := rfl
  have hstrict : answer version .lt p = .ok false ∧ answer version .gt p = .ok false := by
    rw [hanswer, hanswer]
    simp only [true_or, or_true, if_true, if_pos hnone, hfalse, and_self]
  have hloose : answer version .ge p = .ok true ∧ answer version .le p = .ok true := by
    rw [hanswer, hanswer]
    simp only [reduceCtorEq, or_self, if_false, if_pos hany, htrue, and_self]
  exact ⟨⟨false, hstrict.1, hloose.1⟩, ⟨true, hloose.2, hstrict.2⟩, fun _ => hloose⟩

theorem complementary_full {version : String} {v w : SemVer} {p : PartialVersion}
    (hv : Parses version v) (hshape : p.shape = .full w) :
    Complementary version p ↔ w.Readable := by
  have hfull (operator : Operator) : primitiveComparators true operator p.shape =
      [{ operator := operator, semver := .version w }] := by
    rw [hshape, primitiveComparators]
  have hanswer (operator : Operator) := answer_one hv (hfull operator)
  constructor
  · rintro ⟨hstrict, -, -⟩
    rw [hanswer, hanswer, shared_iff] at hstrict
    exact hstrict.1
  · intro hread
    simp only [if_pos hread] at hanswer
    refine ⟨⟨_, hanswer .lt, ?_⟩, ⟨_, hanswer .le, ?_⟩, ?_⟩
    · rw [hanswer]
      simp [Comparator.test, ← not_lt]
    · rw [hanswer]
      simp [Comparator.test, ← not_le]
    · rw [hanswer, hanswer, hanswer]
      intro hequal
      have hkey : v.key = w.key := of_decide_eq_true (Except.ok.inj hequal)
      simp [Comparator.test, hkey]

/-- **Complementary operators** share every version out, except the prereleases at the edges of a
partial version. -/
theorem complementary_iff (version : String) (v : SemVer) (p : PartialVersion)
    (hv : Parses version v) : Complementary version p ↔ Fits v p.shape := by
  rcases hshape : p.shape with _ | major | ⟨major, minor⟩ | w
  · exact ⟨fun _ => trivial, fun _ => complementary_any hv hshape⟩
  · have hspan (operator : Operator) : primitiveComparators true operator p.shape =
        partialComparators true operator (major, 0, 0) (major + 1, 0, 0) := by
      rw [hshape, primitiveComparators]
    rw [complementary_span _ _ hv hspan, readable_first, readable_first]
    exact ⟨fun ⟨_, hnext, hgaps⟩ => ⟨hnext.1, hgaps⟩,
      fun ⟨hnext, hgaps⟩ => ⟨⟨hnext.of_succ, .zero, .zero⟩, ⟨hnext, .zero, .zero⟩, hgaps⟩⟩
  · have hspan (operator : Operator) : primitiveComparators true operator p.shape =
        partialComparators true operator (major, minor, 0) (major, minor + 1, 0) := by
      rw [hshape, primitiveComparators]
    rw [complementary_span _ _ hv hspan, readable_first, readable_first]
    exact ⟨fun ⟨_, hnext, hgaps⟩ => ⟨hnext.1, hnext.2.1, hgaps⟩,
      fun ⟨hmajor, hnext, hgaps⟩ =>
        ⟨⟨hmajor, hnext.of_succ, .zero⟩, ⟨hmajor, hnext, .zero⟩, hgaps⟩⟩
  · exact complementary_full hv hshape

/-- `1.2`. -/
def onePointTwo : PartialVersion := .two (.num 1) (.num 2)

theorem complementary_iff_release :
    Complementary "1.2.0" onePointTwo ↔ Fits (release 1 2 0) onePointTwo.shape :=
  complementary_iff "1.2.0" (release 1 2 0) onePointTwo (by
    unfold Parses
    decide +kernel)

/-- `1.2.0-alpha` is in neither `<1.2` nor `>=1.2`, and in `1.2`. -/
theorem alpha_uncovered :
    ¬ Complementary "1.2.0-alpha" onePointTwo ∧
      answer "1.2.0-alpha" .lt onePointTwo = .ok false ∧
      answer "1.2.0-alpha" .ge onePointTwo = .ok false ∧
      answer "1.2.0-alpha" .empty onePointTwo = .ok true := by
  have hlt : answer "1.2.0-alpha" .lt onePointTwo = .ok false := by decide +kernel
  have hge : answer "1.2.0-alpha" .ge onePointTwo = .ok false := by decide +kernel
  refine ⟨?_, hlt, hge, by decide +kernel⟩
  rintro ⟨⟨x, hx, hnot⟩, -, -⟩
  cases hlt.symm.trans hx
  cases hge.symm.trans hnot

end Minireg.Semver
