import Minireg.Core.Naming
import Minireg.Core.SemverModes

/-!
# Precedence

`SemVer.Below` is the order of semver 2.0.0, section 11, said rule by rule.
The source encodes it twice: `compare` puts two versions side by side, and
`semverKey` sorts by a tuple. `below_iff` ties the rules to the tuple, and
`precedence` says that `compare` is a total preorder that follows the rules,
with which the comparators, the sorts and `maxSatisfying` all agree.
-/

namespace Minireg.Semver

open Py

/-! ## Section 11 -/

/-- Numeric identifiers are below the others. Numbers compare as numbers, texts as texts. -/
inductive Ident.Below : Ident → Ident → Prop where
  | numeric {m n : Nat} : m < n → Below (.num m) (.num n)
  | kind (n : Nat) (s : String) : Below (.num n) (.alpha s)
  | lexical {s t : String} : s < t → Below (.alpha s) (.alpha t)

/-- The first identifiers that differ decide; of a list and what it starts, the start is below. -/
inductive IdentsBelow : List Ident → List Ident → Prop where
  | shorter (id : Ident) (ids : List Ident) : IdentsBelow [] (id :: ids)
  | first {a b : Ident} (as bs : List Ident) : a.Below b → IdentsBelow (a :: as) (b :: bs)
  | rest (a : Ident) {as bs : List Ident} : IdentsBelow as bs → IdentsBelow (a :: as) (a :: bs)

/-- A release is above all its prereleases. -/
inductive PrereleaseBelow : List Ident → List Ident → Prop where
  | release (id : Ident) (ids : List Ident) : PrereleaseBelow (id :: ids) []
  | identifiers {id : Ident} {ids ids' : List Ident} : IdentsBelow (id :: ids) ids' →
      PrereleaseBelow (id :: ids) ids'

/-- The components decide from left to right, and the prerelease last. -/
inductive SemVer.Below (v w : SemVer) : Prop where
  | major : v.major < w.major → Below v w
  | minor : v.major = w.major → v.minor < w.minor → Below v w
  | patch : v.major = w.major → v.minor = w.minor → v.patch < w.patch → Below v w
  | prerelease : v.tuple = w.tuple → PrereleaseBelow v.prerelease w.prerelease → Below v w

theorem Ident.below_iff (a b : Ident) : a.Below b ↔ a.part < b.part := by
  constructor
  · rintro (h | _ | h)
    · exact Prod.Lex.toLex_lt_toLex.mpr (.inr ⟨rfl, Prod.Lex.toLex_lt_toLex.mpr (.inl h)⟩)
    · exact Prod.Lex.toLex_lt_toLex.mpr (.inl Nat.zero_lt_one)
    · exact Prod.Lex.toLex_lt_toLex.mpr (.inr ⟨rfl, Prod.Lex.toLex_lt_toLex.mpr (.inr ⟨rfl, h⟩)⟩)
  · intro h
    cases a <;> cases b <;> simp only [Ident.part, Prod.Lex.toLex_lt_toLex] at h
    · exact .numeric (by simpa using h)
    · exact .kind _ _
    · simp at h
    · exact .lexical (by simpa using h)

theorem identsBelow_iff (as bs : List Ident) :
    IdentsBelow as bs ↔ as.map Ident.part < bs.map Ident.part := by
  constructor
  · intro h
    induction h with
    | shorter id ids => exact List.nil_lt_cons _ _
    | first as bs h => exact List.cons_lt_cons_iff.mpr (.inl ((Ident.below_iff _ _).mp h))
    | rest a _ ih => exact List.cons_lt_cons_iff.mpr (.inr ⟨rfl, ih⟩)
  · intro h
    induction as generalizing bs with
    | nil =>
      cases bs with
      | nil => exact absurd h (lt_irrefl _)
      | cons b bs => exact .shorter b bs
    | cons a as ih =>
      cases bs with
      | nil => exact absurd h (List.not_lt_nil _)
      | cons b bs =>
        rcases List.cons_lt_cons_iff.mp h with hfirst | ⟨heq, hrest⟩
        · exact .first as bs ((Ident.below_iff a b).mpr hfirst)
        · obtain rfl := part_injective heq
          exact .rest a (ih bs hrest)

theorem prereleaseBelow_iff (as bs : List Ident) :
    PrereleaseBelow as bs ↔ prereleaseKey as < prereleaseKey bs := by
  unfold prereleaseKey
  constructor
  · rintro (⟨id, ids⟩ | h)
    · exact Prod.Lex.toLex_lt_toLex.mpr (.inl Nat.zero_lt_one)
    · have hkey := (identsBelow_iff _ _).mp h
      cases h <;> exact Prod.Lex.toLex_lt_toLex.mpr (.inr ⟨rfl, hkey⟩)
  · intro h
    rcases as with _ | ⟨a, as⟩
    · rcases bs with _ | ⟨b, bs⟩ <;> simp [Prod.Lex.toLex_lt_toLex] at h
    · rcases bs with _ | ⟨b, bs⟩
      · exact .release a as
      · refine .identifiers ((identsBelow_iff _ _).mpr ?_)
        simpa [Prod.Lex.toLex_lt_toLex] using h

/-- **The key orders by section 11.** -/
theorem SemVer.below_iff (v w : SemVer) : v.Below w ↔ v.key < w.key := by
  unfold SemVer.key
  simp only [Prod.Lex.toLex_lt_toLex, ← prereleaseBelow_iff]
  constructor
  · rintro (h | ⟨h₁, h₂⟩ | ⟨h₁, h₂, h₃⟩ | ⟨h, hpre⟩)
    · exact .inl h
    · exact .inr ⟨h₁, .inl h₂⟩
    · exact .inr ⟨h₁, .inr ⟨h₂, .inl h₃⟩⟩
    · simp only [SemVer.tuple, Prod.mk.injEq] at h
      exact .inr ⟨h.1, .inr ⟨h.2.1, .inr ⟨h.2.2, hpre⟩⟩⟩
  · rintro (h | ⟨h₁, h | ⟨h₂, h | ⟨h₃, hpre⟩⟩⟩)
    · exact .major h
    · exact .minor h₁ h
    · exact .patch h₁ h₂ h
    · exact .prerelease (by simp only [SemVer.tuple, h₁, h₂, h₃]) hpre

/-- One precedence is one version, up to build metadata. -/
theorem SemVer.key_inj (v w : SemVer) :
    v.key = w.key ↔ ({ v with build := none } : SemVer) = { w with build := none } := by
  unfold SemVer.key
  simp only [toLex_inj, Prod.mk.injEq, SemVer.mk.injEq, prereleaseKey_injective.eq_iff, and_true]

/-! ## Comparing -/

/-- `(a > b) - (a < b)`. -/
def sign {α : Type} [LinearOrder α] (a b : α) : Int :=
  (if b < a then 1 else 0) - (if a < b then 1 else 0)

/-- `compare`: a version that does not parse is below all that do. -/
def compare (a b : String) : Except ValueError Int := do
  let left ← SemVer.parse a
  let right ← SemVer.parse b
  match left, right with
  | none, none => return sign a b
  | none, some _ => return -1
  | some _, none => return 1
  | some v, some w => return sign v.key w.key

section

variable {α : Type} [LinearOrder α] (a b : α)

theorem sign_eq_zero : sign a b = 0 ↔ a = b := by
  unfold sign
  rcases lt_trichotomy a b with h | rfl | h
  · simp [h, h.not_gt, h.ne]
  · simp
  · simp [h, h.not_gt, h.ne']

theorem sign_eq_neg_one : sign a b = -1 ↔ a < b := by
  unfold sign
  rcases lt_trichotomy a b with h | rfl | h
  · simp [h, h.not_gt]
  · simp
  · simp [h, h.not_gt]

theorem sign_swap : sign b a = -sign a b := by
  unfold sign
  omega

theorem sign_eq_one : sign a b = 1 ↔ b < a := by
  rw [← sign_eq_neg_one, sign_swap]
  omega

theorem sign_nonpos : sign a b ≤ 0 ↔ a ≤ b := by
  unfold sign
  rcases lt_trichotomy a b with h | rfl | h
  · simp [h, h.not_gt, h.le]
  · simp
  · simp [h, h.not_gt]

end

/-- The text is a version's. -/
def Parses (a : String) (v : SemVer) : Prop := SemVer.parse a = .ok (some v)

theorem compare_parsed {a b : String} {v w : SemVer} (ha : Parses a v) (hb : Parses b w) :
    compare a b = .ok (sign v.key w.key) := by
  unfold compare
  rw [ha, hb]
  rfl

/-- `compare` is a total preorder on the versions, of one class for each up to build metadata,
and it is the one of section 11. -/
structure Precedence : Prop where
  refl {a : String} {v : SemVer} : Parses a v → compare a a = .ok 0
  total {a b : String} {v w : SemVer} : Parses a v → Parses b w →
    ∃ n, compare a b = .ok n ∧ compare b a = .ok (-n)
  trans {a b c : String} {u v w : SemVer} {m n : Int} : Parses a u → Parses b v → Parses c w →
    compare a b = .ok m → compare b c = .ok n → m ≤ 0 → n ≤ 0 → ∃ k ≤ 0, compare a c = .ok k
  antisymm {a b : String} {v w : SemVer} : Parses a v → Parses b w →
    (compare a b = .ok 0 ↔ ({ v with build := none } : SemVer) = { w with build := none })
  section11 {a b : String} {v w : SemVer} : Parses a v → Parses b w →
    (compare a b = .ok (-1) ↔ v.Below w)

theorem compare_precedence : Precedence where
  refl ha := by rw [compare_parsed ha ha, (sign_eq_zero _ _).mpr rfl]
  total ha hb := ⟨_, compare_parsed ha hb, by rw [compare_parsed hb ha, sign_swap]⟩
  trans ha hb hc hm hn hm₀ hn₀ := by
    rw [compare_parsed ha hb] at hm
    rw [compare_parsed hb hc] at hn
    obtain rfl := Except.ok.inj hm
    obtain rfl := Except.ok.inj hn
    have hle := ((sign_nonpos _ _).mp hm₀).trans ((sign_nonpos _ _).mp hn₀)
    exact ⟨_, (sign_nonpos _ _).mpr hle, compare_parsed ha hc⟩
  antisymm ha hb := by
    rw [compare_parsed ha hb, Except.ok.injEq, sign_eq_zero, SemVer.key_inj]
  section11 ha hb := by
    rw [compare_parsed ha hb, Except.ok.injEq, sign_eq_neg_one, SemVer.below_iff]

/-! ## Sort keys -/

/-- `compare` on any two texts is the order of their sort keys. -/
theorem compare_semverKey {a b : String} {j k : SemverKey} (ha : semverKey a = .ok j)
    (hb : semverKey b = .ok k) : compare a b = .ok (sign j k) := by
  obtain ⟨left, hleft, rfl⟩ := map_ok ha
  obtain ⟨right, hright, rfl⟩ := map_ok hb
  unfold compare
  rw [hleft, hright]
  rcases left with _ | v <;> rcases right with _ | w <;> refine congrArg Except.ok ?_
  · simp [sign, Prod.Lex.toLex_lt_toLex]
  · simp [sign, Prod.Lex.toLex_lt_toLex]
  · simp [sign, Prod.Lex.toLex_lt_toLex]
  · simp [sign, Prod.Lex.toLex_lt_toLex]

/-- Not above: `compare a b <= 0`. -/
def NotAbove (a b : String) : Prop := ∃ n ≤ 0, compare a b = .ok n

theorem notAbove_of_keys {a b : String} {j k : SemverKey} (ha : semverKey a = .ok j)
    (hb : semverKey b = .ok k) (h : j ≤ k) : NotAbove a b :=
  ⟨_, (sign_nonpos j k).mpr h, compare_semverKey ha hb⟩

theorem notAbove_of_parsed {a b : String} {v w : SemVer} (ha : Parses a v) (hb : Parses b w)
    (h : v.key ≤ w.key) : NotAbove a b :=
  ⟨_, (sign_nonpos _ _).mpr h, compare_parsed ha hb⟩

theorem sortSemver_keyed {versions sorted : List String} (h : sortSemver versions = .ok sorted) :
    ∃ keyed : List (SemverKey × String), (∀ p ∈ keyed, semverKey p.2 = .ok p.1) ∧
      keyed.map Prod.snd = versions ∧
      (keyed.insertionSort fun a b => a.1 ≤ b.1).map Prod.snd = sorted := by
  unfold sortSemver at h
  obtain ⟨keyed, hkeyed, h⟩ := bind_ok h
  refine ⟨keyed, fun p hp => ?_, mem_of_mapM_snd hkeyed, Except.ok.inj h⟩
  obtain ⟨a, -, ha⟩ := mapM_mem hkeyed p hp
  obtain ⟨k, hk, rfl⟩ := map_ok ha
  exact hk

/-- Sorting puts every version after those whose keys are above its own. -/
theorem sortSemver_keys {versions sorted : List String} (h : sortSemver versions = .ok sorted) :
    sorted.Pairwise fun a b => ∃ j k, semverKey a = .ok j ∧ semverKey b = .ok k ∧ j ≤ k := by
  obtain ⟨keyed, hkeys, -, rfl⟩ := sortSemver_keyed h
  have hsorted := List.pairwise_insertionSort (fun a b : SemverKey × String => a.1 ≤ b.1) keyed
  refine List.pairwise_map.mpr (hsorted.imp_of_mem fun {p q} hp hq hle => ?_)
  have hmem (r : SemverKey × String) (hr : r ∈ keyed.insertionSort fun a b => a.1 ≤ b.1) :
      r ∈ keyed := (List.perm_insertionSort _ keyed).mem_iff.mp hr
  exact ⟨p.1, q.1, hkeys p (hmem p hp), hkeys q (hmem q hq), hle⟩

/-- Sorting puts every version after those it is above. -/
theorem sortSemver_sorted {versions sorted : List String} (h : sortSemver versions = .ok sorted) :
    sorted.Pairwise NotAbove :=
  (sortSemver_keys h).imp fun ⟨_, _, ha, hb, hle⟩ => notAbove_of_keys ha hb hle

/-- Versions that parse can be sorted. -/
theorem sortSemver_returns {versions : List String} (h : ∀ a ∈ versions, ∃ v, Parses a v) :
    ∃ sorted, sortSemver versions = .ok sorted := by
  have hkeyed : ∃ keyed,
      versions.mapM (fun v => (semverKey v).map fun k => (k, v)) = .ok keyed := by
    induction versions with
    | nil => exact ⟨[], rfl⟩
    | cons a versions ih =>
      obtain ⟨v, hv⟩ := h a List.mem_cons_self
      obtain ⟨keyed, hkeyed⟩ := ih fun b hb => h b (List.mem_cons_of_mem _ hb)
      rw [List.mapM_cons, hkeyed]
      unfold semverKey
      rw [hv]
      exact ⟨_, rfl⟩
  obtain ⟨keyed, hkeyed⟩ := hkeyed
  unfold sortSemver
  rw [hkeyed]
  exact ⟨_, rfl⟩

/-- What `maxSemver` picks from: the stable versions, or all where there is none. -/
def stablePool (versions : List String) : List String :=
  if versions.filter isStableSemver = [] then versions else versions.filter isStableSemver

/-- The greatest version is in the pool, and its key is not below any of the pool. -/
theorem maxSemver_key {versions : List String} {a : String}
    (h : maxSemver versions = .ok (some a)) :
    a ∈ stablePool versions ∧ ∃ k, semverKey a = .ok k ∧
      ∀ b ∈ stablePool versions, ∃ j, semverKey b = .ok j ∧ j ≤ k := by
  unfold maxSemver at h
  split at h
  · cases h
  obtain ⟨sorted, hsorted, hlast⟩ := map_ok h
  change sortSemver (stablePool versions) = .ok sorted at hsorted
  have hperm := sortSemver_perm hsorted
  have hmem : a ∈ stablePool versions := hperm.mem_iff.mp (List.mem_of_getLast? hlast)
  have hkeys : ∀ b ∈ stablePool versions, ∃ k, semverKey b = .ok k := by
    intro b hb
    obtain ⟨keyed, hkeyed, -⟩ := bind_ok hsorted
    obtain ⟨p, hp⟩ := mapM_returns hkeyed b hb
    obtain ⟨k, hk, -⟩ := map_ok hp
    exact ⟨k, hk⟩
  obtain ⟨k, hk⟩ := hkeys a hmem
  refine ⟨hmem, k, hk, fun b hb => ?_⟩
  obtain ⟨front, hfront⟩ := List.getLast?_eq_some_iff.mp hlast
  have hb := hperm.mem_iff.mpr hb
  have hpairs := sortSemver_keys hsorted
  rw [hfront] at hb hpairs
  rcases List.mem_append.mp hb with hb | hb
  · obtain ⟨j, k', hj, hk', hle⟩ :=
      (List.pairwise_append.mp hpairs).2.2 b hb a (List.mem_singleton_self a)
    obtain rfl := Except.ok.inj (hk.symm.trans hk')
    exact ⟨j, hj, hle⟩
  · rw [List.mem_singleton.mp hb]
    exact ⟨k, hk, le_refl k⟩

theorem maxSemver_greatest {versions : List String} {a : String}
    (h : maxSemver versions = .ok (some a)) :
    a ∈ stablePool versions ∧ ∀ b ∈ stablePool versions, NotAbove b a := by
  obtain ⟨hmem, k, hk, habove⟩ := maxSemver_key h
  refine ⟨hmem, fun b hb => ?_⟩
  obtain ⟨j, hj, hle⟩ := habove b hb
  exact notAbove_of_keys hj hk hle

/-! ## The greatest that satisfies a range -/

/-- `best_parsed is None or parsed > best_parsed`. -/
def improves (best : Option (String × SemVer)) (v : SemVer) : Bool :=
  match best with
  | none => true
  | some (_, w) => w.key < v.key

/-- One turn of the loop of `max_satisfying`. -/
def keepBetter (range : Range) (best : Option (String × SemVer)) (candidate : String) :
    Except ValueError (Option (String × SemVer)) := do
  match ← SemVer.parse candidate with
  | none => return best
  | some v => return if range.test v && improves best v then some (candidate, v) else best

/-- `max_satisfying`. -/
def maxSatisfying (versions : List String) (rangeStr : String) (includePrerelease : Bool := false) :
    Except ValueError (Option String) :=
  match parseRange rangeStr includePrerelease with
  | .ok range => (versions.foldlM (keepBetter range) none).map fun best => best.map Prod.fst
  | .error (.invalidRange _) => .ok none
  | .error (.valueError e) => .error e

/-- The best of what the loop has seen. -/
structure Best (range : Range) (seen : List String) (best : Option (String × SemVer)) : Prop where
  mem : ∀ p, best = some p → p.1 ∈ seen ∧ Parses p.1 p.2 ∧ range.test p.2 = true
  above : ∀ b ∈ seen, ∀ w, Parses b w → range.test w = true →
    ∃ p, best = some p ∧ w.key ≤ p.2.key

theorem Best.keepBetter {range : Range} {seen : List String} {best best' : Option (String × SemVer)}
    {candidate : String} (h : Best range seen best)
    (hstep : keepBetter range best candidate = .ok best') :
    Best range (seen ++ [candidate]) best' := by
  unfold Semver.keepBetter at hstep
  obtain ⟨parsed, hparsed, hstep⟩ := bind_ok hstep
  have hold (p : String × SemVer) (hp : best = some p) :
      p.1 ∈ seen ++ [candidate] ∧ Parses p.1 p.2 ∧ range.test p.2 = true :=
    ⟨List.mem_append_left _ (h.mem p hp).1, (h.mem p hp).2⟩
  rcases parsed with _ | v
  · cases hstep
    refine ⟨hold, fun b hb w hw htest => ?_⟩
    rcases List.mem_append.mp hb with hb | hb
    · exact h.above b hb w hw htest
    · rw [List.mem_singleton.mp hb, Parses, hparsed] at hw
      cases hw
  cases hstep
  split
  · next hnew =>
    obtain ⟨htest, himproves⟩ := Bool.and_eq_true_iff.mp hnew
    constructor
    · intro p hp
      cases hp
      exact ⟨List.mem_append_right _ (List.mem_singleton_self _), hparsed, htest⟩
    · intro b hb w hw hwtest
      refine ⟨_, rfl, ?_⟩
      rcases List.mem_append.mp hb with hb | hb
      · obtain ⟨p, rfl, hle⟩ := h.above b hb w hw hwtest
        exact hle.trans (of_decide_eq_true himproves).le
      · rw [List.mem_singleton.mp hb, Parses, hparsed] at hw
        cases hw
        exact le_refl _
  · next hkeep =>
    refine ⟨hold, fun b hb w hw htest => ?_⟩
    rcases List.mem_append.mp hb with hb | hb
    · exact h.above b hb w hw htest
    · rw [List.mem_singleton.mp hb, Parses, hparsed] at hw
      cases hw
      rw [htest, Bool.true_and] at hkeep
      rcases best with _ | p
      · exact absurd rfl hkeep
      · exact ⟨p, rfl, not_lt.mp fun hlt => hkeep (decide_eq_true hlt)⟩

/-- What the loop keeps is the best of all the versions. -/
theorem Best.foldlM {range : Range} {versions seen : List String}
    {best best' : Option (String × SemVer)} (h : Best range seen best)
    (hfold : versions.foldlM (Semver.keepBetter range) best = .ok best') :
    Best range (seen ++ versions) best' := by
  induction versions generalizing seen best with
  | nil =>
    cases hfold
    rwa [List.append_nil]
  | cons candidate versions ih =>
    rw [List.foldlM_cons] at hfold
    obtain ⟨next, hnext, hfold⟩ := bind_ok hfold
    have := ih (h.keepBetter hnext) hfold
    rwa [List.append_assoc] at this

theorem maxSatisfying_best {versions : List String} {rangeStr : String} {mode : Bool}
    {range : Range} {best : Option String} (hrange : parseRange rangeStr mode = .ok range)
    (h : maxSatisfying versions rangeStr mode = .ok best) :
    ∃ found, best = found.map Prod.fst ∧ Best range versions found := by
  unfold maxSatisfying at h
  rw [hrange] at h
  obtain ⟨found, hfound, rfl⟩ := map_ok h
  have hempty : Best range [] none := ⟨nofun, fun b hb => absurd hb List.not_mem_nil⟩
  exact ⟨found, rfl, hempty.foldlM hfound⟩

/-! ## The users of the order -/

/-- What an operator asks of `compare`. -/
def Operator.Holds (operator : Operator) (n : Int) : Prop :=
  match operator with
  | .empty | .eq => n = 0
  | .gt => n = 1
  | .ge => 0 ≤ n
  | .lt => n = -1
  | .le => n ≤ 0

/-- The comparators, the sort key, the sorts and the searches all order as `compare` does. -/
structure OrderedAlike : Prop where
  comparators {a b : String} {v w : SemVer} (operator : Operator) : Parses a v → Parses b w →
    (Comparator.test { operator := operator, semver := .version w } v = true ↔
      ∃ n, compare a b = .ok n ∧ operator.Holds n)
  keys {a b : String} {j k : SemverKey} : semverKey a = .ok j → semverKey b = .ok k →
    compare a b = .ok (sign j k)
  sorts {versions : List String} : (∀ a ∈ versions, ∃ v, Parses a v) →
    ∃ sorted, sortSemver versions = .ok sorted
  sorted {versions sorted : List String} : sortSemver versions = .ok sorted →
    sorted.Perm versions ∧ sorted.Pairwise NotAbove
  greatest {versions : List String} {a : String} : maxSemver versions = .ok (some a) →
    a ∈ stablePool versions ∧ ∀ b ∈ stablePool versions, NotAbove b a
  satisfying {versions : List String} {rangeStr a : String} {mode : Bool} :
    maxSatisfying versions rangeStr mode = .ok (some a) →
      a ∈ versions ∧ satisfies a rangeStr mode = .ok true ∧
        ∀ b ∈ versions, satisfies b rangeStr mode = .ok true → NotAbove b a
  unsatisfied {versions : List String} {rangeStr : String} {mode : Bool} :
    maxSatisfying versions rangeStr mode = .ok none →
      ∀ b ∈ versions, satisfies b rangeStr mode ≠ .ok true

theorem Operator.holds_iff (operator : Operator) (v w : SemVer) :
    Comparator.test { operator := operator, semver := .version w } v = true ↔
      operator.Holds (sign v.key w.key) := by
  have hge : 0 ≤ sign v.key w.key ↔ w.key ≤ v.key := by
    rw [← sign_nonpos w.key v.key, sign_swap v.key w.key]
    omega
  cases operator <;>
    simp only [Comparator.test, Operator.Holds, SemVer.equivalent, decide_eq_true_iff,
      sign_eq_zero, sign_eq_one, sign_eq_neg_one, sign_nonpos, hge]

theorem orderedAlike : OrderedAlike where
  comparators operator ha hb := by
    rw [Operator.holds_iff, compare_parsed ha hb]
    exact ⟨fun h => ⟨_, rfl, h⟩, fun ⟨_, hn, h⟩ => Except.ok.inj hn ▸ h⟩
  keys := compare_semverKey
  sorts := sortSemver_returns
  sorted h := ⟨sortSemver_perm h, sortSemver_sorted h⟩
  greatest := maxSemver_greatest
  satisfying {versions rangeStr a mode} h := by
    rcases hrange : parseRange rangeStr mode with e | range
    · unfold maxSatisfying at h
      rw [hrange] at h
      cases e <;> cases h
    obtain ⟨found, hfound, hbest⟩ := maxSatisfying_best hrange h
    obtain ⟨p, rfl, rfl⟩ := Option.map_eq_some_iff.mp hfound.symm
    obtain ⟨hmem, hparses, htest⟩ := hbest.mem p rfl
    refine ⟨hmem, (satisfies_iff _ _ _).mpr ⟨_, _, hparses, hrange, htest⟩, fun b hb hsat => ?_⟩
    obtain ⟨w, range', hw, hrange', hwtest⟩ := (satisfies_iff _ _ _).mp hsat
    cases hrange.symm.trans hrange'
    obtain ⟨q, hq, hle⟩ := hbest.above b hb w hw hwtest
    cases hq
    exact notAbove_of_parsed hw hparses hle
  unsatisfied {versions rangeStr mode} h := by
    intro b hb hsat
    obtain ⟨w, range, hw, hrange, htest⟩ := (satisfies_iff _ _ _).mp hsat
    obtain ⟨found, hfound, hbest⟩ := maxSatisfying_best hrange h
    obtain ⟨p, rfl, -⟩ := hbest.above b hb w hw htest
    cases hfound

/-- **One order of versions.** -/
theorem precedence : Precedence ∧ OrderedAlike := ⟨compare_precedence, orderedAlike⟩

example : maxSatisfying ["1.2.0", "2.0.0", "1.10.0", "1.9.9"] "^1.2.0" = .ok (some "1.10.0") := by
  decide +kernel

end Minireg.Semver
