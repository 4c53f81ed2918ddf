import Mathlib.Order.Interval.Set.Basic
import Minireg.Core.SemverDesugar
import Minireg.Core.Precedence

/-!
# What ranges denote

`RangeExpr.denotes` is the meaning node-semver documents, without a word about how
a range is parsed: an interval of the version order for every simple range, the
intersection of the intervals in a set, the union of the sets, and the rule that a
prerelease needs a prerelease of its own release written in the set. `range_denotes`
compares it with what `parseRange` makes of the text.
-/

namespace Minireg.Semver

open Py

/-! ## Documented intervals -/

/-- The versions whose precedence lies in the set. -/
def within (keys : Set Key) : Set SemVer := {v | v.key ∈ keys}

/-- An operator before a whole version. -/
def Operator.interval (operator : Operator) (v : SemVer) : Set SemVer :=
  match operator with
  | .empty | .eq => within {v.key}
  | .lt => within (Set.Iio v.key)
  | .le => within (Set.Iic v.key)
  | .gt => within (Set.Ioi v.key)
  | .ge => within (Set.Ici v.key)

/-- An operator before a partial version: `low` is the first release it covers, and `next`
the first after those. -/
def Operator.spanInterval (operator : Operator) (low next : Nat × Nat × Nat) : Set SemVer :=
  match operator with
  | .empty | .eq =>
    within (Set.Ico (release low.1 low.2.1 low.2.2).key (first next.1 next.2.1 next.2.2).key)
  | .lt => within (Set.Iio (first low.1 low.2.1 low.2.2).key)
  | .le => within (Set.Iio (first next.1 next.2.1 next.2.2).key)
  | .gt => within (Set.Ici (release next.1 next.2.1 next.2.2).key)
  | .ge => within (Set.Ici (release low.1 low.2.1 low.2.2).key)

def primitiveInterval (operator : Operator) : Shape → Set SemVer
  | .any => if operator = .lt ∨ operator = .gt then ∅ else Set.univ
  | .major major => operator.spanInterval (major, 0, 0) (major + 1, 0, 0)
  | .minor major minor => operator.spanInterval (major, minor, 0) (major, minor + 1, 0)
  | .full v => operator.interval v

/-- `~`: patches where a minor is given, minors where none is. -/
def tildeInterval : Shape → Set SemVer
  | .any => Set.univ
  | .major major => within (Set.Ico (release major 0 0).key (first (major + 1) 0 0).key)
  | .minor major minor =>
    within (Set.Ico (release major minor 0).key (first major (minor + 1) 0).key)
  | .full v => within (Set.Ico v.key (first v.major (v.minor + 1) 0).key)

/-- `^`: whatever leaves the left-most component that is not zero. -/
def caretInterval : Shape → Set SemVer
  | .any => Set.univ
  | .major major => within (Set.Ico (release major 0 0).key (first (major + 1) 0 0).key)
  | .minor 0 minor => within (Set.Ico (release 0 minor 0).key (first 0 (minor + 1) 0).key)
  | .minor (major + 1) minor =>
    within (Set.Ico (release (major + 1) minor 0).key (first (major + 2) 0 0).key)
  | .full v => within (Set.Ico v.key (caretNext v.major v.minor v.patch).key)

def Simple.interval : Simple → Set SemVer
  | .primitive operator p => primitiveInterval operator p.shape
  | .tilde p => tildeInterval p.shape
  | .caret p => caretInterval p.shape

/-- From what a partial version starts with, and to what it ends with. -/
def hyphenInterval (low high : Shape) : Set SemVer :=
  primitiveInterval .ge low ∩ primitiveInterval .le high

def Clause.interval : Clause → Set SemVer
  | .hyphen low high => hyphenInterval low.shape high.shape
  | .simples l => {v | ∀ s ∈ l, v ∈ s.interval}

/-- The whole version a partial version gives. -/
def Shape.written : Shape → List SemVer
  | .full v => [v]
  | _ => []

def Simple.written : Simple → List SemVer
  | .primitive _ p | .tilde p | .caret p => p.shape.written

def Clause.written : Clause → List SemVer
  | .hyphen low high => low.shape.written ++ high.shape.written
  | .simples l => l.flatMap Simple.written

/-- One of the versions is a prerelease of the release. -/
def OptsIn (written : List SemVer) (v : SemVer) : Prop :=
  ∃ w ∈ written, w.isPrerelease = true ∧ w.tuple = v.tuple

theorem not_optsIn_nil (v : SemVer) : ¬ OptsIn [] v := by
  rintro ⟨w, hw, -⟩
  cases hw

/-- A set admits its interval, and of the prereleases those it opts in to. -/
def Clause.denotes (c : Clause) : Set SemVer :=
  {v | v ∈ c.interval ∧ (v.isPrerelease = true → OptsIn c.written v)}

def RangeExpr.denotes (e : RangeExpr) : Set SemVer := {v | ∃ c ∈ e.clauses, v ∈ c.denotes}

/-! ## Comparators that meet an interval -/

/-- The versions among the bounds. -/
def boundVersions (cs : List Comparator) : List SemVer :=
  cs.filterMap fun c => match c.semver with
    | .any => none
    | .version w => some w

/-- The comparators admit the interval, and in it they opt in to what is written. -/
structure Meets (cs : List Comparator) (interval : Set SemVer) (written : List SemVer) : Prop where
  test : ∀ v, (∀ c ∈ cs, c.test v = true) ↔ v ∈ interval
  optsIn : ∀ v ∈ interval, OptsIn (boundVersions cs) v ↔ OptsIn written v

theorem OptsIn.append {l l' : List SemVer} {v : SemVer} :
    OptsIn (l ++ l') v ↔ OptsIn l v ∨ OptsIn l' v := by
  unfold OptsIn
  simp only [List.mem_append, or_and_right, exists_or]

theorem boundVersions_append (cs cs' : List Comparator) :
    boundVersions (cs ++ cs') = boundVersions cs ++ boundVersions cs' := List.filterMap_append

theorem Meets.append {cs cs' : List Comparator} {S S' : Set SemVer} {W W' : List SemVer}
    (h : Meets cs S W) (h' : Meets cs' S' W') : Meets (cs ++ cs') (S ∩ S') (W ++ W') where
  test v := by rw [List.forall_mem_append, h.test, h'.test, Set.mem_inter_iff]
  optsIn v hv := by
    rw [boundVersions_append, OptsIn.append, OptsIn.append, h.optsIn v hv.1, h'.optsIn v hv.2]

theorem Meets.nil : Meets [] Set.univ [] where
  test v := by simp
  optsIn _ _ := Iff.rfl

theorem Meets.any : Meets anyComparator Set.univ [] where
  test v := by simp [anyComparator, Comparator.test]
  optsIn _ _ := Iff.rfl

theorem Meets.orAny {cs : List Comparator} {S : Set SemVer} {W : List SemVer} (h : Meets cs S W) :
    Meets (orAny cs) S W := by
  unfold Semver.orAny
  split
  · next hnil =>
    subst hnil
    have huniv : S = Set.univ := Set.eq_univ_of_forall fun v => (h.test v).mp nofun
    subst huniv
    exact ⟨Meets.any.test, fun v hv => (Meets.any.optsIn v hv).trans (h.optsIn v hv)⟩
  · exact h

/-- **A set of comparators** admits its interval, and of the prereleases those it opts in to. -/
theorem Meets.testSet {cs : List Comparator} {S : Set SemVer} {W : List SemVer} (h : Meets cs S W)
    (v : SemVer) :
    testSet cs v false = true ↔ v ∈ S ∧ (v.isPrerelease = true → OptsIn W v) := by
  have hany : cs.any (fun c => match c.semver with
      | .any => false
      | .version w => w.isPrerelease && decide (w.tuple = v.tuple)) = true ↔
        OptsIn (boundVersions cs) v := by
    unfold OptsIn boundVersions
    simp only [List.any_eq_true, List.mem_filterMap]
    constructor
    · rintro ⟨⟨operator, _ | w⟩, hc, hw⟩
      · cases hw
      · simp only [Bool.and_eq_true, decide_eq_true_iff] at hw
        exact ⟨w, ⟨_, hc, rfl⟩, hw⟩
    · rintro ⟨w, ⟨⟨operator, _ | w'⟩, hc, hw⟩, hopts⟩
      · cases hw
      · cases hw
        exact ⟨_, hc, by simpa using hopts⟩
  unfold Semver.testSet
  rw [Bool.and_eq_true, List.all_eq_true, h.test]
  refine and_congr_right fun hv => ?_
  rw [Bool.not_false, Bool.and_true]
  split
  · next hpre =>
    exact (hany.trans (h.optsIn v hv)).trans ⟨fun hopts _ => hopts, fun hopts => hopts hpre⟩
  · next hpre => exact ⟨fun _ hpre' => absurd hpre' hpre, fun _ => rfl⟩

/-! ## Bounds -/

/-- The first prerelease of a release is below all that share the release. -/
theorem first_le_of_tuple {v : SemVer} {a b c : Nat} (h : v.tuple = (a, b, c)) :
    (first a b c).key ≤ v.key :=
  (SemVer.key_le_iff _ _).mpr (.inr ⟨h.symm, prereleaseKey_zero_le _⟩)

/-- Nothing is below the first prerelease of the first release. -/
theorem first_zero_le (v : SemVer) : (first 0 0 0).key ≤ v.key := by
  rw [SemVer.key_le_iff]
  by_cases hzero : v.tuple = (0, 0, 0)
  · exact .inr ⟨hzero.symm, prereleaseKey_zero_le _⟩
  · refine .inl ?_
    simp only [SemVer.tuple, Prod.mk.injEq] at hzero
    simp only [SemVer.release, first, Prod.Lex.toLex_lt_toLex]
    omega

/-- A bound that is not written opts in to nothing. -/
theorem Meets.below (a b c : Nat) :
    Meets [belowOf (first a b c)] (within (Set.Iio (first a b c).key)) [] where
  test v := by simp [Comparator.test, within]
  optsIn v hv := by
    refine ⟨?_, fun hopts => absurd hopts (not_optsIn_nil v)⟩
    rintro ⟨w, hw, -, htuple⟩
    rw [List.mem_singleton.mp hw] at htuple
    exact absurd (first_le_of_tuple htuple.symm) (not_le_of_gt hv)

theorem Meets.atLeast_release (a b c : Nat) :
    Meets [atLeastOf (release a b c)] (within (Set.Ici (release a b c).key)) [] where
  test v := by simp [Comparator.test, within]
  optsIn v hv := by
    refine ⟨?_, fun hopts => absurd hopts (not_optsIn_nil v)⟩
    rintro ⟨w, hw, hpre, -⟩
    rw [List.mem_singleton.mp hw] at hpre
    cases hpre

theorem Meets.full (operator : Operator) (v : SemVer) :
    Meets [{ operator := operator, semver := .version v }] (operator.interval v) [v] where
  test w := by
    cases operator <;> simp [Comparator.test, Operator.interval, within, SemVer.equivalent]
  optsIn _ _ := Iff.rfl

/-- A written version as a lower bound. Its build metadata does not matter. -/
theorem Meets.asLower (v : SemVer) :
    Meets [atLeastOf (v.asLower false)] (within (Set.Ici v.key)) [v] := by
  by_cases hpre : v.prerelease = []
  · have hlower : v.asLower false = release v.major v.minor v.patch := by
      unfold SemVer.asLower
      rw [if_pos hpre]
      rfl
    have hkey : (release v.major v.minor v.patch).key = v.key := by
      simp only [SemVer.key, release, hpre]
    have hmeets := Meets.atLeast_release v.major v.minor v.patch
    rw [hkey] at hmeets
    rw [hlower]
    refine ⟨hmeets.test, fun w hw => (hmeets.optsIn w hw).trans
      ⟨fun hopts => absurd hopts (not_optsIn_nil w), ?_⟩⟩
    rintro ⟨u, hu, hprerelease, -⟩
    rw [List.mem_singleton.mp hu] at hprerelease
    simp [SemVer.isPrerelease, hpre] at hprerelease
  · have hlower : v.asLower false = { v with build := none } := by
      unfold SemVer.asLower
      rw [if_neg hpre]
    rw [hlower]
    have hmeets := Meets.full .ge { v with build := none }
    refine ⟨hmeets.test, fun w hw => (hmeets.optsIn w hw).trans ?_⟩
    unfold OptsIn
    simp [SemVer.isPrerelease, SemVer.tuple]

/-- An interval between two bounds. -/
theorem Meets.between {low : Comparator} {high : SemVer} {k : Key} {W : List SemVer}
    (hlow : Meets [low] (within (Set.Ici k)) W)
    (hhigh : Meets [belowOf high] (within (Set.Iio high.key)) []) :
    Meets [low, belowOf high] (within (Set.Ico k high.key)) W := by
  have hboth := hlow.append hhigh
  rwa [List.append_nil] at hboth

/-! ## Every form -/

theorem Meets.span (operator : Operator) (low next : Nat × Nat × Nat) :
    Meets (partialComparators false operator low next) (operator.spanInterval low next) [] := by
  have hbelow (t : Nat × Nat × Nat) := Meets.below t.1 t.2.1 t.2.2
  have hlow (t : Nat × Nat × Nat) := Meets.atLeast_release t.1 t.2.1 t.2.2
  cases operator with
  | empty | eq => exact (hlow low).between (hbelow next)
  | lt => exact hbelow low
  | le => exact hbelow next
  | gt => exact hlow next
  | ge => exact hlow low

theorem Meets.none : Meets [belowOf (first 0 0 0)] ∅ [] := by
  have hempty : within (Set.Iio (first 0 0 0).key) = ∅ :=
    Set.eq_empty_of_forall_notMem fun v hv => not_le_of_gt hv (first_zero_le v)
  rw [← hempty]
  exact .below 0 0 0

theorem meets_primitive (operator : Operator) (shape : Shape) :
    Meets (primitiveComparators false operator shape) (primitiveInterval operator shape)
      shape.written := by
  cases shape with
  | any =>
    unfold primitiveComparators primitiveInterval
    dsimp only [Shape.written]
    by_cases hstrict : operator = .lt ∨ operator = .gt
    · rw [if_pos hstrict, if_pos hstrict]
      exact .none
    · rw [if_neg hstrict, if_neg hstrict]
      exact .any
  | major major => exact .span operator _ _
  | minor major minor => exact .span operator _ _
  | full v => exact .full operator v

theorem meets_tilde (shape : Shape) :
    Meets (tildeComparators false shape) (tildeInterval shape) shape.written := by
  cases shape with
  | any => exact .any
  | major major => exact (Meets.atLeast_release _ _ _).between (.below _ _ _)
  | minor major minor => exact (Meets.atLeast_release _ _ _).between (.below _ _ _)
  | full v => exact (Meets.asLower v).between (.below _ _ _)

theorem caretNext_eq (major minor patch : Nat) :
    ∃ a b c, caretNext major minor patch = first a b c := by
  unfold caretNext
  split
  · split
    · exact ⟨_, _, _, rfl⟩
    · exact ⟨_, _, _, rfl⟩
  · exact ⟨_, _, _, rfl⟩

theorem meets_caret (shape : Shape) :
    Meets (caretComparators false shape) (caretInterval shape) shape.written := by
  cases shape with
  | any => exact .any
  | major major => exact (Meets.atLeast_release _ _ _).between (.below _ _ _)
  | minor major minor =>
    cases major with
    | zero => exact (Meets.atLeast_release _ _ _).between (.below _ _ _)
    | succ major => exact (Meets.atLeast_release _ _ _).between (.below _ _ _)
  | full v =>
    obtain ⟨a, b, c, hnext⟩ := caretNext_eq v.major v.minor v.patch
    simp only [caretComparators, caretInterval, hnext, Bool.false_and]
    exact (Meets.asLower v).between (.below _ _ _)

theorem Simple.meets (s : Simple) : Meets (s.comparators false) s.interval s.written := by
  cases s with
  | primitive operator p => exact meets_primitive operator p.shape
  | tilde p => exact meets_tilde p.shape
  | caret p => exact meets_caret p.shape

theorem meets_hyphenFrom (shape : Shape) :
    Meets (hyphenFrom false shape) (primitiveInterval .ge shape) shape.written := by
  cases shape with
  | any => simpa [hyphenFrom, primitiveInterval, Shape.written] using Meets.nil
  | major major => exact .atLeast_release _ _ _
  | minor major minor => exact .atLeast_release _ _ _
  | full v => exact .full .ge v

theorem meets_hyphenTo (shape : Shape) :
    Meets (hyphenTo shape) (primitiveInterval .le shape) shape.written := by
  cases shape with
  | any => simpa [hyphenTo, primitiveInterval, Shape.written] using Meets.nil
  | major major => exact .below _ _ _
  | minor major minor => exact .below _ _ _
  | full v =>
    unfold hyphenTo
    dsimp only
    split
    · exact .full .le v
    · have hmeets := Meets.full .le { v with build := none }
      refine ⟨hmeets.test, fun w hw => (hmeets.optsIn w hw).trans ?_⟩
      unfold OptsIn
      simp [SemVer.isPrerelease, SemVer.tuple, Shape.written]

/-- Blanks between simple ranges intersect. -/
theorem meets_simples (l : List Simple) :
    Meets (l.flatMap (Simple.comparators false)) {v | ∀ s ∈ l, v ∈ s.interval}
      (l.flatMap Simple.written) := by
  induction l with
  | nil => simpa using Meets.nil
  | cons s l ih =>
    have hinter : {v | ∀ t ∈ s :: l, v ∈ t.interval} = s.interval ∩ {v | ∀ t ∈ l, v ∈ t.interval} :=
      Set.ext fun v => List.forall_mem_cons
    rw [List.flatMap_cons, List.flatMap_cons, hinter]
    exact s.meets.append ih

theorem Clause.meets (c : Clause) : Meets (c.comparators false) c.interval c.written := by
  cases c with
  | hyphen low high => exact ((meets_hyphenFrom low.shape).append (meets_hyphenTo high.shape)).orAny
  | simples l => exact (meets_simples l).orAny

/-! ## Ranges -/

/-- The text parses, and a version satisfies it just where the expression denotes it. -/
structure Denoted (e : RangeExpr) : Prop where
  parses : ∃ r, parseRange e.text = .ok r ∧ ∀ v, r.test v = true ↔ v ∈ e.denotes
  satisfies : ∀ version, satisfies version e.text = .ok true ↔ ∃ v, Parses version v ∧ v ∈ e.denotes

theorem sets_test (e : RangeExpr) (v : SemVer) :
    Range.test { sets := e.sets false, includePrerelease := false } v = true ↔ v ∈ e.denotes := by
  unfold Range.test RangeExpr.sets RangeExpr.denotes
  simp only [List.any_map, List.any_eq_true, Function.comp_apply, Clause.denotes, Set.mem_ofPred_eq]
  exact exists_congr fun c => and_congr_right fun _ => c.meets.testSet v

/-- **Ranges denote what node-semver documents**, just where Python converts the numbers of
their bounds. -/
theorem range_denotes (e : RangeExpr) : Denoted e ↔ e.Readable false := by
  constructor
  · rintro ⟨⟨r, hr, -⟩, -⟩
    by_contra hread
    cases (parse_of_not_readable hread).symm.trans hr
  · intro hread
    refine ⟨⟨_, hread.parse, sets_test e⟩, fun version => ?_⟩
    rw [satisfies_iff]
    constructor
    · rintro ⟨v, r, hv, hr, htest⟩
      cases hread.parse.symm.trans hr
      exact ⟨v, hv, (sets_test e v).mp htest⟩
    · rintro ⟨v, hv, hmem⟩
      exact ⟨v, _, hv, hread.parse, (sets_test e v).mpr hmem⟩

/-- A major and nothing else. -/
def majorOnly (n : Nat) : RangeExpr where
  first := .simples [.primitive .empty (.one (.num n))]
  rest := []

theorem short_of_majorOnly {n : Nat} (h : (majorOnly n).Readable false) : Short n :=
  SemVer.Readable.major (h _ List.mem_cons_self (atLeastOf (release n 0 0)) List.mem_cons_self)

/-- A major of 4301 digits denotes an interval that `1.0.0` is below, and reading it raises. -/
theorem hugeMajor_raises :
    ¬ Denoted (majorOnly (10 ^ maxStrDigits)) ∧
      parseRange (majorOnly (10 ^ maxStrDigits)).text = .error (.valueError .tooManyDigits) := by
  have hread : ¬ (majorOnly (10 ^ maxStrDigits)).Readable false :=
    fun h => Nat.lt_irrefl (10 ^ maxStrDigits) (short_of_majorOnly h)
  have hparse := parse_of_not_readable hread
  constructor
  · rintro ⟨⟨r, hr, -⟩, -⟩
    cases hparse.symm.trans hr
  · exact hparse

end Minireg.Semver
