import Mathlib.Data.Sum.Order
import Minireg.Core.Precedence
import Minireg.Upstreams.Base

/-!
# Versions in their ecosystem's order

`sort_versions_for` sorts PyPI versions as PEP 440 has them and every other version as
semver. `versionKey` is the order that both sorts agree with: texts that do not parse are
below all that do.
-/

namespace Minireg

open Py Semver

section Sorting

variable {α : Type} {r : α → α → Prop} [DecidableRel r]

theorem getLast?_orderedInsert {a t : α} (h : r a t) (l : List α) :
    ((l ++ [t]).orderedInsert r a).getLast? = some t := by
  induction l with
  | nil => simp [h]
  | cons b l ih =>
    rw [List.cons_append, List.orderedInsert_cons]
    split
    · rw [List.getLast?_cons, List.getLast?_cons, List.getLast?_append]
      rfl
    · rw [List.getLast?_cons, ih]
      rfl

/-- Of equals the last stays last: the sort is stable. -/
theorem getLast?_insertionSort {t : α} {l : List α} (h : ∀ a ∈ l, r a t) :
    ((l ++ [t]).insertionSort r).getLast? = some t := by
  induction l with
  | nil => rfl
  | cons a l ih =>
    obtain ⟨front, hfront⟩ := List.getLast?_eq_some_iff.mp
      (ih fun b hb => h b (List.mem_cons_of_mem _ hb))
    rw [List.cons_append, List.insertionSort_cons, hfront]
    exact getLast?_orderedInsert (h a List.mem_cons_self) front

end Sorting

/-- `packaging.version`: its versions in their order, and the reading of a text. -/
structure Pep440Order (V : Type) where
  version : String → Option V
  version_empty : version "" = none

section Order

variable {V : Type} [LinearOrder V] (pypi : Pep440Order V)

/-- `sort_pypi_versions`. -/
def sortPypiVersions (versions : List String) : List String :=
  let parseable := versions.filterMap fun v => (pypi.version v).map fun k => (k, v)
  let other := (versions.filter fun v => (pypi.version v).isNone).insertionSort (· ≤ ·)
  other ++ (parseable.insertionSort fun a b => a.1 ≤ b.1).map Prod.snd

/-- `sort_versions_for`. -/
def sortVersionsFor (ecosystem : Ecosystem) (versions : List String) (reverse : Bool := false) :
    Except ValueError (List String) := do
  let ordered ←
    if ecosystem = .pypi then pure (sortPypiVersions pypi versions) else sortSemver versions
  return if reverse then ordered.reverse else ordered

theorem sortVersionsFor_semver {ecosystem : Ecosystem} (h : ecosystem ≠ .pypi)
    (versions : List String) : sortVersionsFor pypi ecosystem versions = sortSemver versions := by
  unfold sortVersionsFor
  rw [if_neg h]
  rcases sortSemver versions with e | sorted <;> rfl

abbrev VersionKey (V : Type) := SemverKey ⊕ₗ (String ⊕ₗ V)

/-- A PEP 440 version is above every text that is none. -/
def pypiKey (version : String) : String ⊕ₗ V :=
  match pypi.version version with
  | none => toLex (.inl version)
  | some v => toLex (.inr v)

def versionKey (ecosystem : Ecosystem) (version : String) : Except ValueError (VersionKey V) :=
  if ecosystem = .pypi then .ok (toLex (.inr (pypiKey pypi version)))
  else (semverKey version).map fun k => toLex (.inl k)

/-- The first version is no newer than the second. -/
def NoNewer (ecosystem : Ecosystem) (a b : String) : Prop :=
  ∃ j k, versionKey pypi ecosystem a = .ok j ∧ versionKey pypi ecosystem b = .ok k ∧ j ≤ k

/-- The first version is strictly older than the second. -/
def Older (ecosystem : Ecosystem) (a b : String) : Prop :=
  ∃ j k, versionKey pypi ecosystem a = .ok j ∧ versionKey pypi ecosystem b = .ok k ∧ j < k

variable {pypi} {ecosystem : Ecosystem} {a b c : String}

theorem NoNewer.trans (hab : NoNewer pypi ecosystem a b) (hbc : NoNewer pypi ecosystem b c) :
    NoNewer pypi ecosystem a c := by
  obtain ⟨i, j, ha, hb, hij⟩ := hab
  obtain ⟨j', k, hb', hc, hjk⟩ := hbc
  obtain rfl := Except.ok.inj (hb.symm.trans hb')
  exact ⟨i, k, ha, hc, hij.trans hjk⟩

theorem Older.noNewer (h : Older pypi ecosystem a b) : NoNewer pypi ecosystem a b := by
  obtain ⟨j, k, ha, hb, hjk⟩ := h
  exact ⟨j, k, ha, hb, hjk.le⟩

theorem Older.not_noNewer (h : Older pypi ecosystem a b) : ¬ NoNewer pypi ecosystem b a := by
  obtain ⟨j, k, ha, hb, hjk⟩ := h
  rintro ⟨k', j', hb', ha', hle⟩
  obtain rfl := Except.ok.inj (ha.symm.trans ha')
  obtain rfl := Except.ok.inj (hb.symm.trans hb')
  exact absurd hjk hle.not_gt

/-- A version that the order has a place for. -/
def HasPlace (pypi : Pep440Order V) (ecosystem : Ecosystem) (a : String) : Prop :=
  ∃ k, versionKey pypi ecosystem a = .ok k

theorem NoNewer.left (h : NoNewer pypi ecosystem a b) : HasPlace pypi ecosystem a :=
  let ⟨j, _, ha, _, _⟩ := h
  ⟨j, ha⟩

theorem NoNewer.right (h : NoNewer pypi ecosystem a b) : HasPlace pypi ecosystem b :=
  let ⟨_, k, _, hb, _⟩ := h
  ⟨k, hb⟩

theorem HasPlace.refl (h : HasPlace pypi ecosystem a) : NoNewer pypi ecosystem a a :=
  let ⟨k, hk⟩ := h
  ⟨k, k, hk, hk, le_refl k⟩

theorem HasPlace.noNewer_or_older (ha : HasPlace pypi ecosystem a) (hb : HasPlace pypi ecosystem b) :
    NoNewer pypi ecosystem a b ∨ Older pypi ecosystem b a := by
  obtain ⟨j, hj⟩ := ha
  obtain ⟨k, hk⟩ := hb
  rcases le_or_gt j k with h | h
  · exact .inl ⟨j, k, hj, hk, h⟩
  · exact .inr ⟨k, j, hk, hj, h⟩

omit [LinearOrder V] in
theorem placed_pypi (a : String) : HasPlace pypi .pypi a := ⟨_, rfl⟩

omit [LinearOrder V] in
theorem placed_semver (h : ecosystem ≠ .pypi) :
    HasPlace pypi ecosystem a ↔ ∃ k, semverKey a = .ok k := by
  unfold HasPlace versionKey
  rw [if_neg h]
  constructor
  · rintro ⟨k, hk⟩
    obtain ⟨j, hj, -⟩ := map_ok hk
    exact ⟨j, hj⟩
  · rintro ⟨k, hk⟩
    exact ⟨_, by rw [hk]; rfl⟩

theorem noNewer_pypi : NoNewer pypi .pypi a b ↔ pypiKey pypi a ≤ pypiKey pypi b := by
  constructor
  · rintro ⟨j, k, ha, hb, hle⟩
    obtain rfl := Except.ok.inj ha
    obtain rfl := Except.ok.inj hb
    exact Sum.Lex.inr_le_inr_iff.mp hle
  · intro h
    exact ⟨_, _, rfl, rfl, Sum.Lex.inr_le_inr_iff.mpr h⟩

omit [LinearOrder V] in
theorem exists_keys {r : VersionKey V → VersionKey V → Prop} {s : SemverKey → SemverKey → Prop}
    (hrs : ∀ j k, r (toLex (.inl j)) (toLex (.inl k)) ↔ s j k) :
    (∃ j k, (semverKey a).map (fun k => toLex (.inl k)) = .ok j ∧
      (semverKey b).map (fun k => toLex (.inl k)) = .ok k ∧ r j k) ↔
    ∃ j k, semverKey a = .ok j ∧ semverKey b = .ok k ∧ s j k := by
  constructor
  · rintro ⟨_, _, ha, hb, hle⟩
    obtain ⟨j, hj, rfl⟩ := map_ok ha
    obtain ⟨k, hk, rfl⟩ := map_ok hb
    exact ⟨j, k, hj, hk, (hrs j k).mp hle⟩
  · rintro ⟨j, k, ha, hb, hle⟩
    exact ⟨_, _, by rw [ha]; rfl, by rw [hb]; rfl, (hrs j k).mpr hle⟩

theorem noNewer_semver (h : ecosystem ≠ .pypi) : NoNewer pypi ecosystem a b ↔
    ∃ j k, semverKey a = .ok j ∧ semverKey b = .ok k ∧ j ≤ k := by
  unfold NoNewer versionKey
  rw [if_neg h, if_neg h]
  exact exists_keys fun _ _ => Sum.Lex.inl_le_inl_iff

theorem older_semver (h : ecosystem ≠ .pypi) : Older pypi ecosystem a b ↔
    ∃ j k, semverKey a = .ok j ∧ semverKey b = .ok k ∧ j < k := by
  unfold Older versionKey
  rw [if_neg h, if_neg h]
  exact exists_keys fun _ _ => Sum.Lex.inl_lt_inl_iff

theorem empty_lt {s : String} (h : s ≠ "") : "" < s := by
  rw [String.lt_iff_toList_lt]
  rcases hs : s.toList with _ | ⟨c, t⟩
  · exact absurd (String.toList_eq_nil_iff.mp hs) h
  · exact List.Lex.nil

/-- The empty text is below every other. -/
theorem older_empty (h : HasPlace pypi ecosystem a) (hne : a ≠ "") : Older pypi ecosystem "" a := by
  by_cases hpypi : ecosystem = .pypi
  · subst hpypi
    refine ⟨_, _, rfl, rfl, Sum.Lex.inr_lt_inr_iff.mpr ?_⟩
    unfold pypiKey
    rw [pypi.version_empty]
    rcases pypi.version a with _ | v
    · exact Sum.Lex.inl_lt_inl_iff.mpr (empty_lt hne)
    · exact Sum.Lex.inl_lt_inr _ _
  · obtain ⟨k, hk⟩ := (placed_semver hpypi).mp h
    refine (older_semver hpypi).mpr ⟨_, k, rfl, hk, ?_⟩
    obtain ⟨parsed, -, rfl⟩ := map_ok hk
    rcases parsed with _ | v
    · simp [Prod.Lex.toLex_lt_toLex, empty_lt hne]
    · simp [Prod.Lex.toLex_lt_toLex]

/-! ## What sorting does -/

omit [LinearOrder V] in
theorem filterMap_version_snd (versions : List String) :
    (versions.filterMap fun v => (pypi.version v).map fun k => (k, v)).map Prod.snd =
      versions.filter fun v => (pypi.version v).isSome := by
  induction versions with
  | nil => rfl
  | cons v vs ih =>
    rcases hv : pypi.version v with _ | k
    · rw [List.filterMap_cons_none (by rw [hv]; rfl), ih, List.filter_cons_of_neg (by simp [hv])]
    · rw [List.filterMap_cons_some (b := (k, v)) (by rw [hv]; rfl), List.map_cons, ih,
        List.filter_cons_of_pos (by simp [hv])]

omit [LinearOrder V] in
theorem mem_filterMap_version {versions : List String} {p : V × String}
    (h : p ∈ versions.filterMap fun v => (pypi.version v).map fun k => (k, v)) :
    pypi.version p.2 = some p.1 := by
  obtain ⟨v, -, hv⟩ := List.mem_filterMap.mp h
  obtain ⟨k, hk, rfl⟩ := Option.map_eq_some_iff.mp hv
  exact hk

theorem sortPypiVersions_perm (versions : List String) :
    (sortPypiVersions pypi versions).Perm versions := by
  unfold sortPypiVersions
  have hother := List.perm_insertionSort (· ≤ ·)
    (versions.filter fun v => (pypi.version v).isNone)
  have hparseable := (List.perm_insertionSort (fun a b : V × String => a.1 ≤ b.1)
    (versions.filterMap fun v => (pypi.version v).map fun k => (k, v))).map Prod.snd
  rw [filterMap_version_snd] at hparseable
  refine (hother.append hparseable).trans ?_
  have hsplit := List.filter_append_perm (fun v => (pypi.version v).isNone) versions
  simpa [Option.not_isNone] using hsplit

theorem sortPypiVersions_sorted (versions : List String) :
    (sortPypiVersions pypi versions).Pairwise (NoNewer pypi .pypi) := by
  unfold sortPypiVersions
  have hnone : ∀ a ∈ (versions.filter fun v => (pypi.version v).isNone).insertionSort (· ≤ ·),
      pypiKey pypi a = toLex (.inl a) := by
    intro a ha
    have hparse := (List.mem_filter.mp ((List.mem_insertionSort _).mp ha)).2
    unfold pypiKey
    rw [Option.isNone_iff_eq_none.mp hparse]
  have hsome (p : V × String)
      (hp : p ∈ (versions.filterMap fun v => (pypi.version v).map fun k => (k, v)).insertionSort
        fun a b => a.1 ≤ b.1) : pypiKey pypi p.2 = toLex (.inr p.1) := by
    unfold pypiKey
    rw [mem_filterMap_version ((List.mem_insertionSort _).mp hp)]
  refine List.pairwise_append.mpr ⟨?_, List.pairwise_map.mpr ?_, fun a ha b hb => ?_⟩
  · refine (List.pairwise_insertionSort _ _).imp_of_mem fun {a b} ha hb hle => noNewer_pypi.mpr ?_
    rw [hnone a ha, hnone b hb]
    exact Sum.Lex.inl_le_inl_iff.mpr hle
  · refine (List.pairwise_insertionSort _ _).imp_of_mem fun {p q} hp hq hle => noNewer_pypi.mpr ?_
    rw [hsome p hp, hsome q hq]
    exact Sum.Lex.inr_le_inr_iff.mpr hle
  · obtain ⟨p, hp, rfl⟩ := List.mem_map.mp hb
    refine noNewer_pypi.mpr ?_
    rw [hnone a ha, hsome p hp]
    exact (Sum.Lex.inl_lt_inr _ _).le

theorem sortPypiVersions_last {versions : List String}
    (h : ∀ b ∈ versions, NoNewer pypi .pypi b a) :
    (sortPypiVersions pypi (versions ++ [a])).getLast? = some a := by
  unfold sortPypiVersions
  rw [List.filterMap_append, List.filter_append]
  rcases ha : pypi.version a with _ | k
  · -- Nothing parses, since what does is above `a`.
    have hnone : ∀ b ∈ versions, pypi.version b = none := by
      intro b hb
      have hle := noNewer_pypi.mp (h b hb)
      unfold pypiKey at hle
      rw [ha] at hle
      rcases hparse : pypi.version b with _ | j
      · rfl
      · rw [hparse] at hle
        exact absurd hle Sum.Lex.not_inr_le_inl
    have hparseable : (versions.filterMap fun v => (pypi.version v).map fun k => (k, v)) = [] :=
      List.filterMap_eq_nil_iff.mpr fun b hb => by rw [hnone b hb]; rfl
    rw [hparseable, List.filterMap_cons_none (by rw [ha]; rfl),
      List.filter_cons_of_pos (by rw [ha]; rfl)]
    simp only [List.filter_nil, List.filterMap_nil, List.append_nil, List.insertionSort_nil,
      List.map_nil]
    refine getLast?_insertionSort (r := fun s t : String => s ≤ t) fun b hb => ?_
    have hle := noNewer_pypi.mp (h b (List.mem_filter.mp hb).1)
    unfold pypiKey at hle
    rw [ha, hnone b (List.mem_filter.mp hb).1] at hle
    exact Sum.Lex.inl_le_inl_iff.mp hle
  · have hmax : ∀ p ∈ versions.filterMap (fun v => (pypi.version v).map fun k => (k, v)),
        p.1 ≤ k := by
      intro p hp
      obtain ⟨b, hb, hv⟩ := List.mem_filterMap.mp hp
      obtain ⟨j, hj, rfl⟩ := Option.map_eq_some_iff.mp hv
      have hle := noNewer_pypi.mp (h b hb)
      unfold pypiKey at hle
      rw [ha, hj] at hle
      exact Sum.Lex.inr_le_inr_iff.mp hle
    rw [List.filterMap_cons_some (b := (k, a)) (by rw [ha]; rfl), List.filterMap_nil]
    dsimp only
    rw [List.getLast?_append, List.getLast?_map,
      getLast?_insertionSort (r := fun a b : V × String => a.1 ≤ b.1) hmax]
    rfl

theorem sortSemver_last {versions sorted : List String}
    (hsort : sortSemver (versions ++ [a]) = .ok sorted)
    (h : ∀ b ∈ versions, ∃ j k, semverKey b = .ok j ∧ semverKey a = .ok k ∧ j ≤ k) :
    sorted.getLast? = some a := by
  obtain ⟨keyed, hkeys, hversions, rfl⟩ := sortSemver_keyed hsort
  obtain ⟨front, last, rfl, rfl, hlast⟩ := List.map_eq_append_iff.mp hversions
  obtain ⟨p, rest, rfl, rfl, hrest⟩ := List.map_eq_cons_iff.mp hlast
  obtain rfl := List.map_eq_nil_iff.mp hrest
  have hmax : ∀ q ∈ front, q.1 ≤ p.1 := by
    intro q hq
    obtain ⟨j, k, hj, hk, hle⟩ := h q.2 (List.mem_map_of_mem hq)
    rw [hkeys q (List.mem_append_left _ hq)] at hj
    rw [hkeys p (List.mem_append_right _ (List.mem_singleton_self p))] at hk
    obtain rfl := Except.ok.inj hj
    obtain rfl := Except.ok.inj hk
    exact hle
  rw [List.getLast?_map, getLast?_insertionSort hmax]
  rfl

theorem sortVersionsFor_perm {versions sorted : List String}
    (h : sortVersionsFor pypi ecosystem versions = .ok sorted) : sorted.Perm versions := by
  by_cases hpypi : ecosystem = .pypi
  · subst hpypi
    obtain rfl := Except.ok.inj h
    exact sortPypiVersions_perm versions
  · rw [sortVersionsFor_semver pypi hpypi] at h
    exact sortSemver_perm h

/-- Sorting puts no version after a newer one. -/
theorem sortVersionsFor_sorted {versions sorted : List String}
    (h : sortVersionsFor pypi ecosystem versions = .ok sorted) :
    sorted.Pairwise (NoNewer pypi ecosystem) := by
  by_cases hpypi : ecosystem = .pypi
  · subst hpypi
    obtain rfl := Except.ok.inj h
    exact sortPypiVersions_sorted versions
  · rw [sortVersionsFor_semver pypi hpypi] at h
    exact (sortSemver_keys h).imp (noNewer_semver hpypi).mpr

/-- A sort returns where the order has a place for every version. -/
theorem sortVersionsFor_returns_iff {versions : List String} :
    (∃ sorted, sortVersionsFor pypi ecosystem versions = .ok sorted) ↔
      ∀ a ∈ versions, HasPlace pypi ecosystem a := by
  by_cases hpypi : ecosystem = .pypi
  · subst hpypi
    exact ⟨fun _ a _ => placed_pypi a, fun _ => ⟨_, rfl⟩⟩
  rw [sortVersionsFor_semver pypi hpypi]
  constructor
  · rintro ⟨sorted, h⟩ a ha
    obtain ⟨keyed, hkeys, rfl, -⟩ := sortSemver_keyed h
    obtain ⟨p, hp, rfl⟩ := List.mem_map.mp ha
    exact (placed_semver hpypi).mpr ⟨p.1, hkeys p hp⟩
  · intro h
    obtain ⟨keyed, hkeyed⟩ := mapM_of_returns
      (f := fun v => (semverKey v).map fun k => (k, v)) (l := versions) fun a ha => by
        obtain ⟨k, hk⟩ := (placed_semver hpypi).mp (h a ha)
        exact ⟨(k, a), by rw [hk]; rfl⟩
    unfold sortSemver
    rw [hkeyed]
    exact ⟨_, rfl⟩

/-- The last of the newest versions is last. -/
theorem sortVersionsFor_last {versions sorted : List String}
    (hsort : sortVersionsFor pypi ecosystem (versions ++ [a]) = .ok sorted)
    (h : ∀ b ∈ versions, NoNewer pypi ecosystem b a) : sorted.getLast? = some a := by
  by_cases hpypi : ecosystem = .pypi
  · subst hpypi
    obtain rfl := Except.ok.inj hsort
    exact sortPypiVersions_last h
  · rw [sortVersionsFor_semver pypi hpypi] at hsort
    exact sortSemver_last hsort fun b hb => (noNewer_semver hpypi).mp (h b hb)

/-- What is last is one of the newest. -/
theorem noNewer_getLast {versions sorted : List String}
    (hsort : sortVersionsFor pypi ecosystem versions = .ok sorted)
    (hlast : sorted.getLast? = some a) (hb : b ∈ versions) : NoNewer pypi ecosystem b a := by
  have hplaced := sortVersionsFor_returns_iff.mp ⟨sorted, hsort⟩
  have hperm := sortVersionsFor_perm hsort
  have hsorted := sortVersionsFor_sorted hsort
  have ha := hplaced a (hperm.mem_iff.mp (List.mem_of_getLast? hlast))
  obtain ⟨front, rfl⟩ := List.getLast?_eq_some_iff.mp hlast
  rcases List.mem_append.mp (hperm.mem_iff.mpr hb) with hb | hb
  · exact (List.pairwise_append.mp hsorted).2.2 b hb a (List.mem_singleton_self a)
  · rw [List.mem_singleton.mp hb]
    exact ha.refl

end Order

end Minireg
