import Mathlib.Data.List.Induction
import Minireg.Services.Vulns

/-!
# When the offered fix clears the findings

The order in which the records arrive must not show, and what is offered must be the newest
of all the fixed versions. `audited_clears_iff` says for which records that is so: merging
compares the bounds of a CVE as semver whatever the ecosystem, takes the suppression of the
highest score, and of equal versions keeps one spelling.
-/

namespace Minireg.Vulns

open Py Lib Semver

/-! ## The order of the bounds -/

/-- Texts are below versions. -/
def FixKey.rank : FixKey → String ⊕ₗ Key
  | .text s => toLex (.inl s)
  | .version k => toLex (.inr k)

theorem FixKey.gt_ok {j k : FixKey} {t : Bool} (h : j.gt k = .ok t) :
    t = true ↔ k.rank < j.rank := by
  rcases j with j | s <;> rcases k with k | u
  · obtain rfl := Except.ok.inj h
    exact decide_eq_true_iff.trans Sum.Lex.inr_lt_inr_iff.symm
  · dsimp only [FixKey.gt] at h
    split at h
    · cases h
    · obtain rfl := Except.ok.inj h
      exact iff_of_true rfl (Sum.Lex.inl_lt_inr _ _)
  · dsimp only [FixKey.gt] at h
    split at h
    · cases h
    · obtain rfl := Except.ok.inj h
      exact iff_of_false Bool.false_ne_true Sum.Lex.not_inr_lt_inl
  · obtain rfl := Except.ok.inj h
    exact decide_eq_true_iff.trans Sum.Lex.inl_lt_inl_iff.symm

/-- The first bound is above the second in the order of `fix_key`. -/
def Outranks (b c : String) : Prop :=
  ∃ j k, fixKey b = .ok j ∧ fixKey c = .ok k ∧ k.rank < j.rank

/-- The two bounds can be compared. -/
def Comparable (b c : String) : Prop := ∃ t, beats b c = .ok t

section Bounds

variable {a b c : String}

theorem Outranks.trans (hab : Outranks a b) (hbc : Outranks b c) : Outranks a c := by
  obtain ⟨i, j, ha, hb, hij⟩ := hab
  obtain ⟨j', k, hb', hc, hjk⟩ := hbc
  obtain rfl := Except.ok.inj (hb.symm.trans hb')
  exact ⟨i, k, ha, hc, hjk.trans hij⟩

theorem Outranks.irrefl (b : String) : ¬ Outranks b b := by
  rintro ⟨j, k, hj, hk, hlt⟩
  obtain rfl := Except.ok.inj (hj.symm.trans hk)
  exact lt_irrefl _ hlt

theorem beats_ok {t : Bool} (h : beats b c = .ok t) : t = true ↔ Outranks b c := by
  obtain ⟨j, hj, h⟩ := bind_ok h
  obtain ⟨k, hk, h⟩ := bind_ok h
  rw [FixKey.gt_ok h]
  constructor
  · exact fun hlt => ⟨j, k, hj, hk, hlt⟩
  · rintro ⟨j', k', hj', hk', hlt⟩
    obtain rfl := Except.ok.inj (hj.symm.trans hj')
    obtain rfl := Except.ok.inj (hk.symm.trans hk')
    exact hlt

end Bounds

/-! ## One merge -/

section Merge

variable {m e m' : Entry}

theorem takeScore_of_lt (h : m.points < e.points) : takeScore m e =
    { e with fixedVersion := if m.bound.isSome then m.fixedVersion else e.fixedVersion } :=
  if_pos h

theorem takeScore_of_not_lt (h : ¬ m.points < e.points) : takeScore m e = m := if_neg h

theorem takeScore_bound : (takeScore m e).bound =
    m.bound.or (if m.points < e.points then e.bound else none) := by
  by_cases h : m.points < e.points
  · rw [takeScore_of_lt h, if_pos h]
    rcases hm : m.bound with _ | b
    · rfl
    · exact hm
  · rw [takeScore_of_not_lt h, if_neg h, Option.or_none]

/-- What merging an entry yields. -/
structure Took (m e m' : Entry) (replaced : Bool) : Prop where
  replaces : replacesBound (takeScore m e) e = .ok replaced
  cve : m'.cve = (takeScore m e).cve
  score : m'.cvssScore = (takeScore m e).cvssScore
  fixed : m'.fixedVersion = if replaced then e.fixedVersion else (takeScore m e).fixedVersion
  suppressed : m'.suppressed = ((takeScore m e).suppressed && e.suppressed)

theorem mergeEntry_ok (h : mergeEntry m e = .ok m') : ∃ replaced, Took m e m' replaced := by
  obtain ⟨replaced, hreplaced, h⟩ := bind_ok h
  cases h
  cases replaced <;> exact ⟨_, hreplaced, rfl, rfl, rfl, rfl⟩

theorem mergeEntry_returns {t : Bool} (h : replacesBound (takeScore m e) e = .ok t) :
    ∃ m', mergeEntry m e = .ok m' := by
  unfold mergeEntry
  dsimp only
  rw [h]
  exact ⟨_, rfl⟩

/-- The bounds that merging the second entry into the first compares can be compared. -/
structure Admits (m e : Entry) : Prop where
  both : ∀ b c, m.bound = some b → e.bound = some c → Comparable c b
  first : ∀ c, m.bound = none → e.bound = some c → m.points < e.points → Comparable c c

theorem admits_iff : Admits m e ↔ ∃ m', mergeEntry m e = .ok m' := by
  constructor
  · intro h
    have hreplaces : ∃ t, replacesBound (takeScore m e) e = .ok t := by
      unfold replacesBound
      rw [takeScore_bound]
      rcases he : e.bound with _ | c
      · exact ⟨false, rfl⟩
      rcases hm : m.bound with _ | b
      · by_cases hlt : m.points < e.points
        · rw [if_pos hlt]
          exact h.first c hm he hlt
        · rw [if_neg hlt]
          exact ⟨true, rfl⟩
      · exact h.both b c hm he
    obtain ⟨t, ht⟩ := hreplaces
    exact mergeEntry_returns ht
  · rintro ⟨m', hm'⟩
    obtain ⟨t, htook⟩ := mergeEntry_ok hm'
    have hreplaces := htook.replaces
    unfold replacesBound at hreplaces
    rw [takeScore_bound] at hreplaces
    constructor
    · intro b c hb hc
      rw [hb, hc] at hreplaces
      exact ⟨t, hreplaces⟩
    · intro c hb hc hlt
      rw [hb, hc, if_pos hlt] at hreplaces
      exact ⟨t, hreplaces⟩

/-- The score of a merged entry is the higher one. -/
theorem Took.points {t : Bool} (h : Took m e m' t) :
    m'.points = if m.points < e.points then e.points else m.points := by
  have hscore : m'.points = (takeScore m e).points := congrArg (·.getD 0) h.score
  rw [hscore]
  split
  · next hlt =>
    rw [takeScore_of_lt hlt]
    rfl
  · next hlt => rw [takeScore_of_not_lt hlt]

/-- Without a bound on either side the fixed version goes with the score. -/
theorem Took.unbound {t : Bool} (h : Took m e m' t) (hm : m.bound = none) (he : e.bound = none) :
    m'.fixedVersion = if m.points < e.points then e.fixedVersion else m.fixedVersion := by
  rw [h.fixed]
  by_cases hlt : m.points < e.points
  · rw [takeScore_of_lt hlt, if_pos hlt, hm]
    split <;> rfl
  · have hreplaces := h.replaces
    unfold replacesBound at hreplaces
    rw [he] at hreplaces
    obtain rfl := Except.ok.inj hreplaces
    rw [takeScore_of_not_lt hlt, if_neg hlt]
    rfl

/-- The bound of a merged entry, where there was none. -/
theorem Took.bound_none {t : Bool} (h : Took m e m' t) (hm : m.bound = none) :
    m'.bound = e.bound := by
  by_cases hlt : m.points < e.points
  · have hfixed := h.fixed
    rw [takeScore_of_lt hlt, hm] at hfixed
    exact congrArg truthy (hfixed.trans (by split <;> rfl))
  · have hreplaces := h.replaces
    unfold replacesBound at hreplaces
    rw [takeScore_bound, hm, if_neg hlt] at hreplaces
    have hfixed := h.fixed
    rw [takeScore_of_not_lt hlt] at hfixed
    rcases he : e.bound with _ | c
    · rw [he] at hreplaces
      obtain rfl := Except.ok.inj hreplaces
      exact (congrArg truthy hfixed).trans hm
    · rw [he] at hreplaces
      obtain rfl := Except.ok.inj hreplaces
      exact (congrArg truthy hfixed).trans he

/-- The bound of a merged entry is the one that outranks the other. -/
theorem Took.bound_some {t : Bool} (h : Took m e m' t) {b : String} (hm : m.bound = some b) :
    (m'.bound = some b ∧ ∀ c, e.bound = some c → ¬ Outranks c b) ∨
      ∃ c, m'.bound = some c ∧ e.bound = some c ∧ Outranks c b := by
  have hbound : (takeScore m e).bound = some b := by rw [takeScore_bound, hm, Option.some_or]
  have hreplaces := h.replaces
  unfold replacesBound at hreplaces
  rw [hbound] at hreplaces
  rcases he : e.bound with _ | c
  · rw [he] at hreplaces
    obtain rfl := Except.ok.inj hreplaces
    exact .inl ⟨(congrArg truthy h.fixed).trans hbound, nofun⟩
  · rw [he] at hreplaces
    have hbeats := beats_ok hreplaces
    cases t
    · refine .inl ⟨(congrArg truthy h.fixed).trans hbound, fun c' hc' => ?_⟩
      obtain rfl := Option.some.inj hc'
      exact fun hout => Bool.false_ne_true (hbeats.mpr hout)
    · exact .inr ⟨c, (congrArg truthy h.fixed).trans he, rfl, hbeats.mp rfl⟩

/-- A merge stays with its CVE. -/
theorem Took.cve_eq {t : Bool} (h : Took m e m' t) (hcve : e.cve = m.cve) : m'.cve = m.cve := by
  rw [h.cve]
  by_cases hlt : m.points < e.points
  · rw [takeScore_of_lt hlt]
    exact hcve
  · rw [takeScore_of_not_lt hlt]

end Merge

/-! ## The records of one CVE -/

/-- No record scores higher. -/
def Tops (records : List Entry) (e : Entry) : Prop := ∀ e' ∈ records, e'.points ≤ e.points

/-- No record's bound is above this one. -/
def Foremost (records : List Entry) (b : String) : Prop :=
  ∀ e ∈ records, ∀ c, e.bound = some c → ¬ Outranks c b

/-- What the merge of some records of one CVE is. -/
structure MergeOf (records : List Entry) (m : Entry) : Prop where
  cve : ∀ e ∈ records, e.cve = m.cve
  tops : Tops records m
  scored : ∃ e ∈ records, Tops records e ∧ e.cvssScore = m.cvssScore
  hidden : (∀ e ∈ records, e.suppressed = true) → m.suppressed = true
  exposed : ∀ e ∈ records, Tops records e → e.suppressed = false → m.suppressed = false
  bound : ∀ b, m.bound = some b →
    (∃ e ∈ records, e.bound = some b) ∧ Foremost records b
  unbound : m.bound = none → (∀ e ∈ records, e.bound = none) ∧
    ∃ e ∈ records, Tops records e ∧ e.fixedVersion = m.fixedVersion

section Group

variable {records : List Entry} {m e m' : Entry}

theorem tops_append {x : Entry} :
    Tops (records ++ [e]) x ↔ Tops records x ∧ e.points ≤ x.points := by
  unfold Tops
  rw [List.forall_mem_append, List.forall_mem_singleton]

theorem foremost_append {b : String} : Foremost (records ++ [e]) b ↔
    Foremost records b ∧ ∀ c, e.bound = some c → ¬ Outranks c b := by
  unfold Foremost
  rw [List.forall_mem_append, List.forall_mem_singleton]

theorem MergeOf.single (e : Entry) : MergeOf [e] e where
  cve e' he' := by rw [List.mem_singleton.mp he']
  tops e' he' := by rw [List.mem_singleton.mp he']
  scored := ⟨e, List.mem_singleton_self e, fun e' he' => by rw [List.mem_singleton.mp he'], rfl⟩
  hidden h := h e (List.mem_singleton_self e)
  exposed e' he' _ h := List.mem_singleton.mp he' ▸ h
  bound b hb := by
    refine ⟨⟨e, List.mem_singleton_self e, hb⟩, fun e' he' c hc => ?_⟩
    rw [List.mem_singleton.mp he', hb] at hc
    obtain rfl := Option.some.inj hc
    exact Outranks.irrefl b
  unbound h := by
    refine ⟨fun e' he' => by rw [List.mem_singleton.mp he', h], e, List.mem_singleton_self e,
      fun e' he' => by rw [List.mem_singleton.mp he'], rfl⟩

/-- One more record merged. -/
theorem MergeOf.merge (h : MergeOf records m) (hcve : e.cve = m.cve)
    (hmerge : mergeEntry m e = .ok m') : MergeOf (records ++ [e]) m' := by
  obtain ⟨t, htook⟩ := mergeEntry_ok hmerge
  have hmem : e ∈ records ++ [e] := List.mem_append_right _ (List.mem_singleton_self e)
  have hle : ∀ e' ∈ records ++ [e], e'.points ≤ m'.points := by
    intro e' he'
    rw [htook.points]
    rcases List.mem_append.mp he' with he' | he'
    · split
      · next hlt => exact (h.tops e' he').trans hlt.le
      · exact h.tops e' he'
    · rw [List.mem_singleton.mp he']
      split
      · exact le_refl _
      · next hlt => exact not_lt.mp hlt
  refine ⟨fun e' he' => ?_, hle, ?_, fun hall => ?_, fun e' he' htops hshown => ?_, fun b hb => ?_,
    fun hnone => ?_⟩
  · rw [htook.cve_eq hcve]
    rcases List.mem_append.mp he' with he' | he'
    · exact h.cve e' he'
    · rw [List.mem_singleton.mp he', hcve]
  · by_cases hlt : m.points < e.points
    · refine ⟨e, hmem, tops_append.mpr ⟨fun e' he' => (h.tops e' he').trans hlt.le, le_refl _⟩, ?_⟩
      rw [htook.score, takeScore_of_lt hlt]
    · obtain ⟨e₀, he₀, htops, hscore⟩ := h.scored
      have hpoints : e₀.points = m.points := congrArg (·.getD 0) hscore
      refine ⟨e₀, List.mem_append_left _ he₀, tops_append.mpr ⟨htops, ?_⟩, ?_⟩
      · rw [hpoints]
        exact not_lt.mp hlt
      · rw [htook.score, takeScore_of_not_lt hlt, hscore]
  · rw [htook.suppressed, hall e hmem, Bool.and_true]
    by_cases hlt : m.points < e.points
    · rw [takeScore_of_lt hlt]
      exact hall e hmem
    · rw [takeScore_of_not_lt hlt]
      exact h.hidden fun e' he' => hall e' (List.mem_append_left _ he')
  · rw [htook.suppressed]
    rcases List.mem_append.mp he' with he' | he'
    · have hlt : ¬ m.points < e.points := by
        intro hlt
        exact absurd ((tops_append.mp htops).2.trans (h.tops e' he')) (not_le.mpr hlt)
      rw [takeScore_of_not_lt hlt, h.exposed e' he' (tops_append.mp htops).1 hshown,
        Bool.false_and]
    · rw [← List.mem_singleton.mp he', hshown, Bool.and_false]
  · rcases hm : m.bound with _ | b₀
    · rw [htook.bound_none hm] at hb
      refine ⟨⟨e, hmem, hb⟩, foremost_append.mpr ⟨fun e' he' c hc => ?_, fun c hc => ?_⟩⟩
      · rw [(h.unbound hm).1 e' he'] at hc
        cases hc
      · rw [hb] at hc
        obtain rfl := Option.some.inj hc
        exact Outranks.irrefl b
    · obtain ⟨⟨e₀, he₀, hbound₀⟩, hfore⟩ := h.bound b₀ hm
      obtain ⟨hkept, hnot⟩ | ⟨c, hnew, hc, hout⟩ := htook.bound_some hm
      · rw [hkept] at hb
        obtain rfl := Option.some.inj hb
        exact ⟨⟨e₀, List.mem_append_left _ he₀, hbound₀⟩, foremost_append.mpr ⟨hfore, hnot⟩⟩
      · rw [hnew] at hb
        obtain rfl := Option.some.inj hb
        refine ⟨⟨e, hmem, hc⟩, foremost_append.mpr ⟨fun e' he' d hd hup => ?_, fun d hd => ?_⟩⟩
        · exact hfore e' he' d hd (hup.trans hout)
        · rw [hc] at hd
          obtain rfl := Option.some.inj hd
          exact Outranks.irrefl c
  · rcases hm : m.bound with _ | b₀
    · obtain ⟨hall, e₀, he₀, htops₀, hfixed₀⟩ := h.unbound hm
      rw [htook.bound_none hm] at hnone
      refine ⟨fun e' he' => ?_, ?_⟩
      · rcases List.mem_append.mp he' with he' | he'
        · exact hall e' he'
        · rw [List.mem_singleton.mp he', hnone]
      · rw [htook.unbound hm hnone]
        by_cases hlt : m.points < e.points
        · rw [if_pos hlt]
          exact ⟨e, hmem, tops_append.mpr ⟨fun e' he' => (h.tops e' he').trans hlt.le, le_refl _⟩,
            rfl⟩
        · rw [if_neg hlt]
          refine ⟨e₀, List.mem_append_left _ he₀, tops_append.mpr ⟨htops₀, ?_⟩, hfixed₀⟩
          obtain ⟨e₁, he₁, -, hscore⟩ := h.scored
          have hpoints : e₁.points = m.points := congrArg (·.getD 0) hscore
          exact (not_lt.mp hlt).trans (hpoints ▸ htops₀ e₁ he₁)
    · obtain ⟨hkept, -⟩ | ⟨c, hnew, -, -⟩ := htook.bound_some hm
      · rw [hkept] at hnone
        cases hnone
      · rw [hnew] at hnone
        cases hnone

/-- A merged entry can take a record that every record of its own can. -/
theorem MergeOf.admits (h : MergeOf records m) (he : ∀ e₀ ∈ records, Admits e₀ e) : Admits m e := by
  constructor
  · intro b c hb hc
    obtain ⟨⟨e₀, he₀, hbound₀⟩, -⟩ := h.bound b hb
    exact (he e₀ he₀).both b c hbound₀ hc
  · intro c hb hc hlt
    obtain ⟨e₀, he₀, -, hscore⟩ := h.scored
    have hpoints : e₀.points = m.points := congrArg (·.getD 0) hscore
    exact (he e₀ he₀).first c ((h.unbound hb).1 e₀ he₀) hc (hpoints ▸ hlt)

end Group

/-! ## The merged dictionary -/

/-- The records of a CVE, in order. -/
def ofCve (records : List Entry) (cve : String) : List Entry := records.filter (·.cve = cve)

/-- The dictionary has the merge of the records of every CVE. -/
structure Merges (records : List Entry) (merged : Dict String Entry) : Prop where
  keys : (merged.map Prod.fst).Nodup
  found : ∀ cve m, merged.get? cve = some m → MergeOf (ofCve records cve) m
  missing : ∀ cve, merged.get? cve = none → ofCve records cve = []

section Dictionary

variable {records : List Entry} {merged merged' : Dict String Entry} {e m : Entry} {cve : String}

theorem mem_ofCve : e ∈ ofCve records cve ↔ e ∈ records ∧ e.cve = cve := by
  unfold ofCve
  rw [List.mem_filter, decide_eq_true_iff]

theorem ofCve_append_self : ofCve (records ++ [e]) e.cve = ofCve records e.cve ++ [e] := by
  unfold ofCve
  rw [List.filter_append]
  simp

theorem ofCve_append_of_ne (h : cve ≠ e.cve) : ofCve (records ++ [e]) cve = ofCve records cve := by
  unfold ofCve
  rw [List.filter_append, List.filter_cons_of_neg (by simpa using Ne.symm h)]
  exact List.append_nil _

/-- What the entry of a CVE was, and what it is after one more record. -/
theorem mergeInto_ok (h : mergeInto merged e = .ok merged') :
    ∃ m', merged' = merged.set e.cve m' ∧ (merged.get? e.cve = none ∧ m' = e ∨
      ∃ m, merged.get? e.cve = some m ∧ mergeEntry m e = .ok m') := by
  unfold mergeInto at h
  split at h
  · next hnone =>
    obtain rfl := Except.ok.inj h
    exact ⟨e, rfl, .inl ⟨hnone, rfl⟩⟩
  · next m hm =>
    obtain ⟨m', hm', rfl⟩ := map_ok h
    exact ⟨m', rfl, .inr ⟨m, hm, hm'⟩⟩

theorem Merges.nil : Merges [] [] where
  keys := List.nodup_nil
  found _ _ h := nomatch h
  missing _ _ := rfl

theorem Merges.step (h : Merges records merged) (hstep : mergeInto merged e = .ok merged') :
    Merges (records ++ [e]) merged' := by
  obtain ⟨m', rfl, hold⟩ := mergeInto_ok hstep
  have hself : MergeOf (ofCve (records ++ [e]) e.cve) m' := by
    rw [ofCve_append_self]
    obtain ⟨hnone, rfl⟩ | ⟨m, hm, hmerge⟩ := hold
    · rw [h.missing _ hnone]
      exact .single m'
    · have hof := h.found _ m hm
      obtain ⟨e₀, he₀, -, -⟩ := hof.scored
      exact hof.merge ((mem_ofCve.mp he₀).2.symm.trans (hof.cve e₀ he₀)) hmerge
  refine ⟨Dict.nodup_keys_set h.keys _ _, fun cve m hm => ?_, fun cve hnone => ?_⟩
  · rw [Dict.get?_set] at hm
    split at hm
    · next hcve =>
      obtain rfl := Option.some.inj hm
      exact hcve ▸ hself
    · next hcve =>
      rw [ofCve_append_of_ne hcve]
      exact h.found cve m hm
  · rw [Dict.get?_set] at hnone
    split at hnone
    · cases hnone
    · next hcve =>
      rw [ofCve_append_of_ne hcve]
      exact h.missing cve hnone

/-- The dictionary after all records. -/
theorem merges_of_ok {merged : Dict String Entry} (h : records.foldlM mergeInto [] = .ok merged) :
    Merges records merged := by
  induction records using List.reverseRecOn generalizing merged with
  | nil =>
    cases h
    exact .nil
  | append_singleton records e ih =>
    rw [List.foldlM_append] at h
    obtain ⟨before, hbefore, h⟩ := bind_ok h
    obtain ⟨after, hafter, h⟩ := bind_ok h
    cases h
    exact (ih hbefore).step hafter

/-- Two records of one CVE that can be merged in either order. -/
def Mergeable (e e' : Entry) : Prop := e.cve = e'.cve → Admits e e' ∧ Admits e' e

/-- The loop returns where any two records can be merged. -/
theorem dedupe_returns (h : records.Pairwise Mergeable) :
    ∃ merged, records.foldlM mergeInto [] = .ok merged := by
  induction records using List.reverseRecOn with
  | nil => exact ⟨[], rfl⟩
  | append_singleton records e ih =>
    obtain ⟨hrecords, -, hlast⟩ := List.pairwise_append.mp h
    obtain ⟨merged, hmerged⟩ := ih hrecords
    have hstep : ∃ merged', mergeInto merged e = .ok merged' := by
      unfold mergeInto
      split
      · exact ⟨_, rfl⟩
      · next m hm =>
        have hadmits : Admits m e := ((merges_of_ok hmerged).found _ m hm).admits fun e₀ he₀ =>
          (hlast e₀ (mem_ofCve.mp he₀).1 e (List.mem_singleton_self e) (mem_ofCve.mp he₀).2).1
        obtain ⟨m', hm'⟩ := admits_iff.mp hadmits
        exact ⟨_, by rw [hm']; rfl⟩
    obtain ⟨merged', hmerged'⟩ := hstep
    refine ⟨merged', ?_⟩
    rw [List.foldlM_append, hmerged]
    dsimp only [bind, Except.bind]
    rw [List.foldlM_cons, hmerged']
    rfl

/-- What merging keeps of the entry of a CVE, the loop keeps. -/
theorem foldlM_keeps (cve : String) {P : Entry → Prop} (h : records.foldlM mergeInto merged = .ok merged')
    (hm : merged.get? cve = some m) (hP : P m)
    (hkeep : ∀ e ∈ records, e.cve = cve → ∀ m m', P m → mergeEntry m e = .ok m' → P m') :
    ∃ m', merged'.get? cve = some m' ∧ P m' := by
  induction records generalizing merged m with
  | nil =>
    cases h
    exact ⟨m, hm, hP⟩
  | cons e rest ih =>
    rw [List.foldlM_cons] at h
    obtain ⟨next, hnext, h⟩ := bind_ok h
    obtain ⟨m₁, rfl, hold⟩ := mergeInto_ok hnext
    by_cases hcve : cve = e.cve
    · subst hcve
      obtain ⟨hnone, -⟩ | ⟨m₀, hm₀, hmerge⟩ := hold
      · rw [hm] at hnone
        cases hnone
      · rw [hm] at hm₀
        obtain rfl := Option.some.inj hm₀
        refine ih h (by rw [Dict.get?_set, if_pos rfl])
          (hkeep e List.mem_cons_self rfl m m₁ hP hmerge)
          fun e' he' => hkeep e' (List.mem_cons_of_mem _ he')
    · refine ih h ?_ hP fun e' he' => hkeep e' (List.mem_cons_of_mem _ he')
      rw [Dict.get?_set, if_neg hcve]
      exact hm

/-- What the merge of some records is does not depend on their order. -/
theorem MergeOf.perm {records' : List Entry} (h : MergeOf records m)
    (hperm : records'.Perm records) : MergeOf records' m := by
  have htops (e : Entry) (he : Tops records e) : Tops records' e :=
    fun e' he' => he e' (hperm.mem_iff.mp he')
  have htops' (e : Entry) (he : Tops records' e) : Tops records e :=
    fun e' he' => he e' (hperm.mem_iff.mpr he')
  refine ⟨fun e he => h.cve e (hperm.mem_iff.mp he), htops m h.tops, ?_, fun hall => ?_,
    fun e he ht hs => h.exposed e (hperm.mem_iff.mp he) (htops' e ht) hs, fun b hb => ?_,
    fun hnone => ?_⟩
  · obtain ⟨e, he, ht, hscore⟩ := h.scored
    exact ⟨e, hperm.mem_iff.mpr he, htops e ht, hscore⟩
  · exact h.hidden fun e he => hall e (hperm.mem_iff.mpr he)
  · obtain ⟨⟨e, he, hbound⟩, hfore⟩ := h.bound b hb
    exact ⟨⟨e, hperm.mem_iff.mpr he, hbound⟩, fun e' he' => hfore e' (hperm.mem_iff.mp he')⟩
  · obtain ⟨hall, e, he, ht, hfixed⟩ := h.unbound hnone
    exact ⟨fun e' he' => hall e' (hperm.mem_iff.mp he'), e, hperm.mem_iff.mpr he, htops e ht,
      hfixed⟩

theorem mem_byScore {cves : List Entry} : e ∈ byScore cves ↔ e ∈ cves := List.mem_insertionSort _

/-- An entry for every CVE, which is the merge of its records. -/
structure Presents (records cves : List Entry) : Prop where
  merge : ∀ c ∈ cves, MergeOf (ofCve records c.cve) c
  every : ∀ e ∈ records, ∃ c ∈ cves, c.cve = e.cve

theorem Merges.get?_mem (h : Merges records merged) (hm : merged.get? cve = some m) :
    m ∈ merged.map Prod.snd ∧ m.cve = cve := by
  refine ⟨List.mem_map.mpr ⟨(cve, m), Dict.mem_of_get? hm, rfl⟩, ?_⟩
  have hof := h.found cve m hm
  obtain ⟨e, he, -, -⟩ := hof.scored
  exact (hof.cve e he).symm.trans (mem_ofCve.mp he).2

theorem Merges.presents (h : Merges records merged) : Presents records (merged.map Prod.snd) where
  merge c hc := by
    obtain ⟨⟨cve, m⟩, hm, rfl⟩ := List.mem_map.mp hc
    have hget := (Dict.get?_eq_some_iff h.keys).mpr hm
    have hcve := (h.get?_mem hget).2
    dsimp only at hcve ⊢
    rw [hcve]
    exact h.found cve m hget
  every e he := by
    rcases hget : merged.get? e.cve with _ | m
    · have hnone := h.missing _ hget
      have hmem : e ∈ ofCve records e.cve := mem_ofCve.mpr ⟨he, rfl⟩
      rw [hnone] at hmem
      exact absurd hmem List.not_mem_nil
    · exact ⟨m, (h.get?_mem hget).1, (h.get?_mem hget).2⟩

theorem Presents.perm {records' cves : List Entry} (h : Presents records' cves)
    (hperm : records'.Perm records) : Presents records cves where
  merge c hc := (h.merge c hc).perm (hperm.symm.filter _)
  every e he := h.every e (hperm.mem_iff.mpr he)

end Dictionary

/-! ## What is picked -/

section Pick

variable {V : Type} [LinearOrder V] {pypi : Pep440Order V} {order : SetOrder String}
variable {ecosystem : Ecosystem} {cves : List Entry} {installed : String} {offer : Option String}

omit [LinearOrder V] in
theorem mem_fixes {b : String} : b ∈ fixes pypi ecosystem cves ↔
    (∃ c ∈ cves, c.fixedVersion = some b) ∧ installableVersion pypi ecosystem b = true := by
  unfold fixes
  rw [List.mem_filter, List.mem_filterMap]

/-- The offer where `target` is the newest of the fixes. -/
inductive PicksAt (pypi : Pep440Order V) (ecosystem : Ecosystem) (installed target : String) :
    Option String → Prop where
  | nothing : installed ≠ "" → Older pypi ecosystem target installed ∨ target = installed →
      PicksAt pypi ecosystem installed target none
  | upgrade : installed = "" ∨ NoNewer pypi ecosystem installed target ∧ target ≠ installed →
      PicksAt pypi ecosystem installed target (some target)

/-- Sorting the installed version and a target. -/
theorem ranked_last {target : String} {ranked : List String}
    (h : sortVersionsFor pypi ecosystem [installed, target] = .ok ranked) :
    ranked.getLast? = some installed ↔
      Older pypi ecosystem target installed ∨ target = installed := by
  have hplaced := sortVersionsFor_returns_iff.mp ⟨ranked, h⟩
  have hinstalled := hplaced installed List.mem_cons_self
  have htarget := hplaced target (List.mem_cons_of_mem _ List.mem_cons_self)
  rcases hinstalled.noNewer_or_older htarget with hle | hlt
  · have hlast : ranked.getLast? = some target :=
      sortVersionsFor_last (show sortVersionsFor pypi ecosystem ([installed] ++ [target]) = _ from h)
        fun b hb => List.mem_singleton.mp hb ▸ hle
    rw [hlast]
    constructor
    · exact fun heq => .inr (Option.some.inj heq)
    · rintro (hlt | rfl)
      · exact absurd hle hlt.not_noNewer
      · rfl
  · refine iff_of_true ?_ (.inl hlt)
    rcases hlast : ranked.getLast? with _ | last
    · rw [List.getLast?_eq_none_iff] at hlast
      rw [hlast] at h
      exact absurd (sortVersionsFor_perm h).symm (List.not_perm_nil_cons _ _ ∘ List.Perm.symm)
    · have hmem := (sortVersionsFor_perm h).mem_iff.mp (List.mem_of_getLast? hlast)
      rcases List.mem_cons.mp hmem with rfl | hmem
      · rfl
      · obtain rfl := List.mem_singleton.mp hmem
        exact absurd (noNewer_getLast h hlast List.mem_cons_self) hlt.not_noNewer

/-- What is picked, where there is something to pick from. -/
theorem lowestClearingVersion_ok (hne : fixes pypi ecosystem cves ≠ [])
    (h : lowestClearingVersion pypi order ecosystem cves (some installed) = .ok offer) :
    ∃ ordered target,
      sortVersionsFor pypi ecosystem (order.elements (fixes pypi ecosystem cves)) = .ok ordered ∧
      ordered.getLast? = some target ∧ PicksAt pypi ecosystem installed target offer ∧
      (installed = "" ∨ HasPlace pypi ecosystem installed) := by
  unfold lowestClearingVersion at h
  rw [if_neg hne] at h
  obtain ⟨ordered, hordered, h⟩ := bind_ok h
  rcases hlast : ordered.getLast? with _ | target
  · rw [List.getLast?_eq_none_iff] at hlast
    rw [hlast] at hordered
    exact absurd (order.elements_eq_nil.mp (List.nil_perm.mp (sortVersionsFor_perm hordered))) hne
  · refine ⟨ordered, target, hordered, hlast, ?_⟩
    rw [hlast] at h
    dsimp only at h
    by_cases hempty : installed = ""
    · subst hempty
      cases h
      exact ⟨.upgrade (.inl rfl), .inl rfl⟩
    · have htruthy : truthy (some installed) = some installed := by simp [truthy, hempty]
      rw [htruthy] at h
      obtain ⟨ranked, hranked, h⟩ := bind_ok h
      have hplaced := sortVersionsFor_returns_iff.mp ⟨ranked, hranked⟩
      have hinstalled := hplaced installed List.mem_cons_self
      have htarget := hplaced target (List.mem_cons_of_mem _ List.mem_cons_self)
      by_cases hback : ranked.getLast? = some installed
      · rw [if_pos hback] at h
        cases h
        exact ⟨.nothing hempty ((ranked_last hranked).mp hback), .inr hinstalled⟩
      · rw [if_neg hback] at h
        cases h
        have hnot := fun hor => hback ((ranked_last hranked).mpr hor)
        refine ⟨.upgrade (.inr ⟨?_, fun heq => hnot (.inr heq)⟩), .inr hinstalled⟩
        exact (hinstalled.noNewer_or_older htarget).resolve_right fun hlt => hnot (.inl hlt)

theorem lowestClearingVersion_nil (h : fixes pypi ecosystem cves = []) :
    lowestClearingVersion pypi order ecosystem cves (some installed) = .ok none := by
  unfold lowestClearingVersion
  rw [if_pos h]
  rfl

/-- A version is picked where the order has a place for all that are compared. -/
theorem lowestClearingVersion_returns
    (hfixes : ∀ b ∈ fixes pypi ecosystem cves, HasPlace pypi ecosystem b)
    (hinstalled : fixes pypi ecosystem cves ≠ [] → HasPlace pypi ecosystem installed) :
    ∃ offer, lowestClearingVersion pypi order ecosystem cves (some installed) = .ok offer := by
  by_cases hne : fixes pypi ecosystem cves = []
  · exact ⟨none, lowestClearingVersion_nil hne⟩
  have helements : ∀ b ∈ order.elements (fixes pypi ecosystem cves), HasPlace pypi ecosystem b :=
    fun b hb => hfixes b (order.mem_elements.mp hb)
  obtain ⟨ordered, hordered⟩ := sortVersionsFor_returns_iff.mpr helements
  unfold lowestClearingVersion
  rw [if_neg hne, hordered]
  rcases hlast : ordered.getLast? with _ | target
  · exact ⟨none, by dsimp only [bind, Except.bind]; rw [hlast]; rfl⟩
  · have htarget := (sortVersionsFor_perm hordered).mem_iff.mp (List.mem_of_getLast? hlast)
    rcases ht : truthy (some installed) with _ | current
    · exact ⟨some target, by dsimp only [bind, Except.bind]; rw [hlast]; rfl⟩
    · obtain rfl := Option.some.inj (Option.filter_eq_some_iff.mp ht).1
      have hplaced : ∀ b ∈ [installed, target], HasPlace pypi ecosystem b := by
        intro b hb
        rcases List.mem_cons.mp hb with hb | hb
        · exact hb ▸ hinstalled hne
        · exact List.mem_singleton.mp hb ▸ hfixes target (order.mem_elements.mp htarget)
      obtain ⟨ranked, hranked⟩ := sortVersionsFor_returns_iff.mpr hplaced
      dsimp only [bind, Except.bind]
      rw [hlast]
      dsimp only
      rw [hranked]
      exact ⟨_, rfl⟩

/-- The choice among the newest falls on the one that a set hands out last. -/
theorem lowestClearingVersion_leaving {target : String} (ht : target ∈ fixes pypi ecosystem cves)
    (hnewest : ∀ b ∈ fixes pypi ecosystem cves, NoNewer pypi ecosystem b target)
    (h : lowestClearingVersion pypi (.leaving target) ecosystem cves (some installed) = .ok offer) :
    PicksAt pypi ecosystem installed target offer := by
  obtain ⟨ordered, last, hordered, hlast, hpicks, -⟩ :=
    lowestClearingVersion_ok (List.ne_nil_of_mem ht) h
  rw [SetOrder.leaving_elements ht] at hordered
  rw [sortVersionsFor_last hordered fun b hb =>
    hnewest b (List.mem_dedup.mp (List.mem_of_mem_erase hb))] at hlast
  exact Option.some.inj hlast ▸ hpicks

end Pick

/-! ## Clearing the findings -/

section Clears

variable {V : Type} [LinearOrder V] (pypi : Pep440Order V) (ecosystem : Ecosystem)
variable (installed : String) (records : List Entry)

/-- A well-formed fixed version of one of the records. -/
def IsFix (b : String) : Prop :=
  (∃ e ∈ records, e.fixedVersion = some b) ∧ installableVersion pypi ecosystem b = true

/-- The newest of the fixes if it is newer than the installed version, and nothing if none is. -/
def RightOffer : Option String → Prop
  | some b => IsFix pypi ecosystem records b ∧ Older pypi ecosystem installed b ∧
      ∀ c, IsFix pypi ecosystem records c → NoNewer pypi ecosystem c b
  | none => ∀ b, IsFix pypi ecosystem records b → NoNewer pypi ecosystem b installed

/-- What an audit says of a CVE beside its texts. -/
def Entry.facts (e : Entry) : Option ℚ × Option String × Bool :=
  (e.cvssScore, e.fixedVersion, e.suppressed)

/-- In whatever order the records arrive, the right fix is offered, every CVE is listed, and the
offer and what is said of each CVE are those of any other order. -/
def ClearsFindings : Prop :=
  ∀ order records', records'.Perm records → ∃ cves offer,
    audited pypi order ecosystem installed records' = .ok (cves, offer) ∧
    RightOffer pypi ecosystem installed records offer ∧
    (∀ e ∈ records, ∃ c ∈ cves, c.cve = e.cve) ∧
    ∀ order' records'', records''.Perm records → ∀ cves' offer',
      audited pypi order' ecosystem installed records'' = .ok (cves', offer') →
      offer' = offer ∧ ∀ c ∈ cves, ∀ c' ∈ cves', c'.cve = c.cve → c'.facts = c.facts

/-- A fix that no other bound of its CVE is above, in the order of `fix_key`. -/
def Kept (b : String) : Prop :=
  (∃ e ∈ records, e.bound = some b ∧ Foremost (ofCve records e.cve) b) ∧
    installableVersion pypi ecosystem b = true

/-- One of the newest among the fixes that are kept. -/
def NewestKept (b : String) : Prop :=
  Kept pypi ecosystem records b ∧
    ∀ c, Kept pypi ecosystem records c → NoNewer pypi ecosystem c b

/-- The records agree where merging them depends on their order, and merging loses no fix. -/
structure Settled : Prop where
  /-- Comparing the bounds of a CVE raises nothing. -/
  mergeable : records.Pairwise Mergeable
  /-- The highest score of a CVE is written one way: it is not both `0` and missing. -/
  scored : ∀ e ∈ records, ∀ e' ∈ records, e.cve = e'.cve → Tops (ofCve records e.cve) e →
    Tops (ofCve records e.cve) e' → e.cvssScore = e'.cvssScore
  /-- Where a record of a CVE is not suppressed, one with the highest score is not. -/
  shown : ∀ e ∈ records, e.suppressed = false →
    ∃ e' ∈ ofCve records e.cve, Tops (ofCve records e.cve) e' ∧ e'.suppressed = false
  /-- Of the bounds of a CVE, one text is above all others. -/
  spelled : ∀ e ∈ records, ∀ e' ∈ records, e.cve = e'.cve → ∀ b c, e.bound = some b →
    e'.bound = some c → Foremost (ofCve records e.cve) b → Foremost (ofCve records e.cve) c → b = c
  /-- Where a CVE has no bound, its highest scores do not have both an empty one and none. -/
  unbound : ∀ e ∈ records, ∀ e' ∈ records, e.cve = e'.cve →
    (∀ x ∈ ofCve records e.cve, x.bound = none) → Tops (ofCve records e.cve) e →
    Tops (ofCve records e.cve) e' → e.fixedVersion = e'.fixedVersion
  /-- A fix newer than the installed version is no newer than one that is kept. -/
  reached : ∀ b, IsFix pypi ecosystem records b → NoNewer pypi ecosystem b installed ∨
    ∃ k, Kept pypi ecosystem records k ∧ Older pypi ecosystem installed k ∧
      NoNewer pypi ecosystem b k
  /-- What is newest among the kept is written one way. -/
  alike : ∀ b c, NewestKept pypi ecosystem records b → NewestKept pypi ecosystem records c →
    Older pypi ecosystem installed b → b = c
  /-- What is newest among the kept is not the installed version in another spelling. -/
  distinct : ∀ b, NewestKept pypi ecosystem records b → NoNewer pypi ecosystem installed b →
    NoNewer pypi ecosystem b installed → b = installed

variable {pypi ecosystem installed records}
variable {order : SetOrder String} {cves : List Entry} {offer : Option String}

omit [LinearOrder V] in
theorem Kept.isFix {b : String} (h : Kept pypi ecosystem records b) :
    IsFix pypi ecosystem records b := by
  obtain ⟨⟨e, he, hbound, -⟩, hinstallable⟩ := h
  exact ⟨⟨e, he, (Option.filter_eq_some_iff.mp hbound).1⟩, hinstallable⟩

omit [LinearOrder V] in
theorem bound_of_installable {e : Entry} {b : String} (h : e.fixedVersion = some b)
    (hb : installableVersion pypi ecosystem b = true) : e.bound = some b := by
  refine Option.filter_eq_some_iff.mpr ⟨h, ?_⟩
  unfold installableVersion at hb
  simp only [Bool.and_eq_true] at hb
  exact hb.1.1

theorem audited_ok {records' : List Entry} (hperm : records'.Perm records)
    (h : audited pypi order ecosystem installed records' = .ok (cves, offer)) :
    Presents records cves ∧
      lowestClearingVersion pypi order ecosystem cves (some installed) = .ok offer := by
  obtain ⟨deduped, hdeduped, h⟩ := bind_ok h
  obtain ⟨fix, hfix, h⟩ := bind_ok h
  obtain ⟨merged, hmerged, hcves⟩ := bind_ok hdeduped
  cases hcves
  cases h
  refine ⟨?_, mapError_ok hfix⟩
  have hpresents := (merges_of_ok hmerged).presents.perm hperm
  constructor
  · exact fun c hc => hpresents.merge c (mem_byScore.mp (mem_byScore.mp hc))
  · intro e he
    obtain ⟨c, hc, hcve⟩ := hpresents.every e he
    exact ⟨c, mem_byScore.mpr (mem_byScore.mpr hc), hcve⟩

omit [LinearOrder V] in
/-- What is picked from is what the merge keeps. -/
theorem mem_fixes_iff (hpresents : Presents records cves)
    (hspelled : ∀ e ∈ records, ∀ e' ∈ records, e.cve = e'.cve → ∀ b c, e.bound = some b →
      e'.bound = some c → Foremost (ofCve records e.cve) b → Foremost (ofCve records e.cve) c →
      b = c) {b : String} :
    b ∈ fixes pypi ecosystem cves ↔ Kept pypi ecosystem records b := by
  rw [mem_fixes]
  constructor
  · rintro ⟨⟨c, hc, hfixed⟩, hinstallable⟩
    obtain ⟨⟨e, he, hbound⟩, hfore⟩ :=
      (hpresents.merge c hc).bound b (bound_of_installable hfixed hinstallable)
    obtain ⟨hmem, hcve⟩ := mem_ofCve.mp he
    exact ⟨⟨e, hmem, hbound, hcve.symm ▸ hfore⟩, hinstallable⟩
  · rintro ⟨⟨e, he, hbound, hfore⟩, hinstallable⟩
    obtain ⟨c, hc, hcve⟩ := hpresents.every e he
    have hmerge := hpresents.merge c hc
    rw [hcve] at hmerge
    refine ⟨⟨c, hc, ?_⟩, hinstallable⟩
    rcases hcb : c.bound with _ | b'
    · have hnone := (hmerge.unbound hcb).1 e (mem_ofCve.mpr ⟨he, rfl⟩)
      rw [hbound] at hnone
      cases hnone
    · obtain ⟨⟨e', he', hbound'⟩, hfore'⟩ := hmerge.bound b' hcb
      obtain ⟨hmem', hcve'⟩ := mem_ofCve.mp he'
      rw [hspelled e he e' hmem' hcve'.symm b b' hbound hbound' hfore hfore']
      exact (Option.filter_eq_some_iff.mp hcb).1

/-! ### Where the records are settled -/

/-- The offer made from the fixes that are kept. -/
theorem Settled.picked (h : Settled pypi ecosystem installed records)
    (hpresents : Presents records cves)
    (hlow : lowestClearingVersion pypi order ecosystem cves (some installed) = .ok offer) :
    (∃ b, NewestKept pypi ecosystem records b ∧ Older pypi ecosystem installed b ∧
      offer = some b) ∨
    (offer = none ∧ ∀ b, Kept pypi ecosystem records b → NoNewer pypi ecosystem b installed) := by
  have hkept {b : String} : b ∈ fixes pypi ecosystem cves ↔ Kept pypi ecosystem records b :=
    mem_fixes_iff hpresents h.spelled
  by_cases hne : fixes pypi ecosystem cves = []
  · rw [lowestClearingVersion_nil hne] at hlow
    cases hlow
    refine .inr ⟨rfl, fun b hb => ?_⟩
    rw [← hkept, hne] at hb
    exact absurd hb List.not_mem_nil
  obtain ⟨ordered, target, hordered, hlast, hpicks, -⟩ := lowestClearingVersion_ok hne hlow
  have htarget := order.mem_elements.mp
    ((sortVersionsFor_perm hordered).mem_iff.mp (List.mem_of_getLast? hlast))
  have hnewest : NewestKept pypi ecosystem records target := ⟨hkept.mp htarget, fun c hc =>
    noNewer_getLast hordered hlast (order.mem_elements.mpr (hkept.mpr hc))⟩
  have hself := hnewest.2 target hnewest.1
  cases hpicks with
  | nothing _ hback =>
    refine .inr ⟨rfl, fun b hb => (hnewest.2 b hb).trans ?_⟩
    rcases hback with hlt | rfl
    · exact hlt.noNewer
    · exact hself
  | upgrade hforward =>
    refine .inl ⟨target, hnewest, ?_, rfl⟩
    rcases hforward with rfl | ⟨hle, hdiff⟩
    · refine older_empty hself.left fun hempty => ?_
      obtain ⟨⟨e, -, hbound, -⟩, -⟩ := hnewest.1
      exact of_decide_eq_true (Option.filter_eq_some_iff.mp hbound).2 hempty
    · refine (hself.left.noNewer_or_older hle.left).resolve_left fun hback => ?_
      exact hdiff (h.distinct target hnewest hle hback)

theorem Settled.rightOffer (h : Settled pypi ecosystem installed records)
    (hpresents : Presents records cves)
    (hlow : lowestClearingVersion pypi order ecosystem cves (some installed) = .ok offer) :
    RightOffer pypi ecosystem installed records offer := by
  obtain ⟨b, hnewest, hlt, rfl⟩ | ⟨rfl, hall⟩ := h.picked hpresents hlow
  · refine ⟨hnewest.1.isFix, hlt, fun c hc => ?_⟩
    obtain hle | ⟨k, hk, -, hle⟩ := h.reached c hc
    · exact hle.trans hlt.noNewer
    · exact hle.trans (hnewest.2 k hk)
  · intro b hb
    obtain hle | ⟨k, hk, hlt, -⟩ := h.reached b hb
    · exact hle
    · exact absurd (hall k hk) hlt.not_noNewer

theorem Settled.sameOffer (h : Settled pypi ecosystem installed records) {order' : SetOrder String}
    {cves' : List Entry} {offer' : Option String} (hpresents : Presents records cves)
    (hlow : lowestClearingVersion pypi order ecosystem cves (some installed) = .ok offer)
    (hpresents' : Presents records cves')
    (hlow' : lowestClearingVersion pypi order' ecosystem cves' (some installed) = .ok offer') :
    offer' = offer := by
  obtain ⟨b, hb, hlt, rfl⟩ | ⟨rfl, hall⟩ := h.picked hpresents hlow <;>
    obtain ⟨b', hb', hlt', rfl⟩ | ⟨rfl, hall'⟩ := h.picked hpresents' hlow'
  · rw [h.alike b b' hb hb' hlt]
  · exact absurd (hall' b hb.1) hlt.not_noNewer
  · exact absurd (hall b' hb'.1) hlt'.not_noNewer
  · rfl

/-- What is said of a CVE depends on its records alone. -/
theorem Settled.sameFacts (h : Settled pypi ecosystem installed records) {c c' : Entry}
    (hc : MergeOf (ofCve records c.cve) c) (hc' : MergeOf (ofCve records c.cve) c') :
    c'.facts = c.facts := by
  have hsame {e e' : Entry} (he : e ∈ ofCve records c.cve) (he' : e' ∈ ofCve records c.cve) :
      e ∈ records ∧ e' ∈ records ∧ e.cve = e'.cve ∧ c.cve = e.cve := by
    obtain ⟨hmem, hcve⟩ := mem_ofCve.mp he
    obtain ⟨hmem', hcve'⟩ := mem_ofCve.mp he'
    exact ⟨hmem, hmem', hcve.trans hcve'.symm, hcve.symm⟩
  have hscore : c'.cvssScore = c.cvssScore := by
    obtain ⟨e, he, htops, hscore⟩ := hc.scored
    obtain ⟨e', he', htops', hscore'⟩ := hc'.scored
    obtain ⟨hmem, hmem', hcve, hk⟩ := hsame he he'
    rw [hk] at htops htops'
    rw [← hscore, ← hscore', h.scored e hmem e' hmem' hcve htops htops']
  have hsuppressed : c'.suppressed = c.suppressed := by
    by_cases hall : ∀ e ∈ ofCve records c.cve, e.suppressed = true
    · rw [hc.hidden hall, hc'.hidden hall]
    · obtain ⟨e, he, hshown⟩ : ∃ e ∈ ofCve records c.cve, e.suppressed = false := by
        simpa using hall
      obtain ⟨hmem, -, -, hk⟩ := hsame he he
      obtain ⟨e', he', htops', hshown'⟩ := h.shown e hmem hshown
      rw [← hk] at he' htops'
      rw [hc.exposed e' he' htops' hshown', hc'.exposed e' he' htops' hshown']
  have hfixed : c'.fixedVersion = c.fixedVersion := by
    rcases hb : c.bound with _ | b
    · obtain ⟨hall, e, he, htops, hfixed⟩ := hc.unbound hb
      have hb' : c'.bound = none := by
        rcases hb' : c'.bound with _ | b'
        · rfl
        · obtain ⟨⟨e', he', hbound'⟩, -⟩ := hc'.bound b' hb'
          rw [hall e' he'] at hbound'
          cases hbound'
      obtain ⟨-, e', he', htops', hfixed'⟩ := hc'.unbound hb'
      obtain ⟨hmem, hmem', hcve, hk⟩ := hsame he he'
      rw [hk] at htops htops' hall
      rw [← hfixed, ← hfixed', h.unbound e hmem e' hmem' hcve hall htops htops']
    · obtain ⟨⟨e, he, hbound⟩, hfore⟩ := hc.bound b hb
      rcases hb' : c'.bound with _ | b'
      · rw [(hc'.unbound hb').1 e he] at hbound
        cases hbound
      · obtain ⟨⟨e', he', hbound'⟩, hfore'⟩ := hc'.bound b' hb'
        obtain ⟨hmem, hmem', hcve, hk⟩ := hsame he he'
        rw [hk] at hfore hfore'
        have heq := h.spelled e hmem e' hmem' hcve b b' hbound hbound' hfore hfore'
        rw [(Option.filter_eq_some_iff.mp hb).1, (Option.filter_eq_some_iff.mp hb').1, heq]
  unfold Entry.facts
  rw [hscore, hsuppressed, hfixed]

theorem Settled.returns (h : Settled pypi ecosystem installed records) (order : SetOrder String)
    {records' : List Entry} (hperm : records'.Perm records) :
    ∃ cves offer, audited pypi order ecosystem installed records' = .ok (cves, offer) := by
  obtain ⟨merged, hmerged⟩ := dedupe_returns
    (h.mergeable.perm hperm.symm fun {e e'} hm hcve => (hm hcve.symm).symm)
  let cves := byScore (byScore (merged.map Prod.snd))
  have hmem {c : Entry} : c ∈ cves ↔ c ∈ merged.map Prod.snd := mem_byScore.trans mem_byScore
  have hmerged' := (merges_of_ok hmerged).presents.perm hperm
  have hpresents : Presents records cves := by
    refine ⟨fun c hc => hmerged'.merge c (hmem.mp hc), fun e he => ?_⟩
    obtain ⟨c, hc, hcve⟩ := hmerged'.every e he
    exact ⟨c, hmem.mpr hc, hcve⟩
  have hplaced : ∀ b ∈ fixes pypi ecosystem cves,
      HasPlace pypi ecosystem b ∧ HasPlace pypi ecosystem installed := by
    intro b hb
    have hfix := ((mem_fixes_iff hpresents h.spelled).mp hb).isFix
    obtain hle | ⟨k, -, hlt, hle⟩ := h.reached b hfix
    · exact ⟨hle.left, hle.right⟩
    · exact ⟨hle.left, hlt.noNewer.left⟩
  obtain ⟨offer, hoffer⟩ : ∃ offer,
      lowestClearingVersion pypi order ecosystem cves (some installed) = .ok offer := by
    refine lowestClearingVersion_returns (fun b hb => (hplaced b hb).1) fun hne => ?_
    obtain ⟨b, hb⟩ := List.exists_mem_of_ne_nil _ hne
    exact (hplaced b hb).2
  refine ⟨cves, offer, ?_⟩
  unfold audited dedupeByCve
  rw [hmerged]
  dsimp only [bind, Except.bind, pure, Except.pure]
  rw [hoffer]
  rfl

/-- Settled records clear the findings. -/
theorem Settled.clears (h : Settled pypi ecosystem installed records) :
    ClearsFindings pypi ecosystem installed records := by
  intro order records' hperm
  obtain ⟨cves, offer, haudited⟩ := h.returns order hperm
  obtain ⟨hpresents, hlow⟩ := audited_ok hperm haudited
  refine ⟨cves, offer, haudited, h.rightOffer hpresents hlow, hpresents.every, ?_⟩
  intro order' records'' hperm' cves' offer' haudited'
  obtain ⟨hpresents', hlow'⟩ := audited_ok hperm' haudited'
  refine ⟨h.sameOffer hpresents hlow hpresents' hlow', fun c hc c' hc' hcve => ?_⟩
  exact h.sameFacts (hpresents.merge c hc) (hcve ▸ hpresents'.merge c' hc')

/-! ### Where the findings are cleared -/

/-- One run, with the records in some order. -/
theorem ClearsFindings.run (h : ClearsFindings pypi ecosystem installed records)
    (order : SetOrder String) {records' : List Entry} (hperm : records'.Perm records) :
    ∃ merged offer, records'.foldlM mergeInto [] = .ok merged ∧
      audited pypi order ecosystem installed records' =
        .ok (byScore (byScore (merged.map Prod.snd)), offer) := by
  obtain ⟨cves, offer, haudited, -⟩ := h order records' hperm
  have hrun := haudited
  obtain ⟨deduped, hdeduped, hrun⟩ := bind_ok hrun
  obtain ⟨fixVersion, -, hrun⟩ := bind_ok hrun
  obtain ⟨merged, hmerged, hcves⟩ := bind_ok hdeduped
  cases hcves
  cases hrun
  exact ⟨merged, _, hmerged, haudited⟩

/-- In some order the records of a CVE are merged into this entry. -/
def CanBecome (records : List Entry) (cve : String) (c : Entry) : Prop :=
  ∃ (records' : List Entry) (merged : Dict String Entry), records'.Perm records ∧
    records'.foldlM mergeInto [] = .ok merged ∧ merged.get? cve = some c

/-- Two orders say the same of a CVE. -/
theorem ClearsFindings.agree (h : ClearsFindings pypi ecosystem installed records)
    {cve : String} {c₁ c₂ : Entry} (h₁ : CanBecome records cve c₁)
    (h₂ : CanBecome records cve c₂) : c₁.facts = c₂.facts := by
  obtain ⟨records₁, merged₁, hperm₁, hm₁, hc₁⟩ := h₁
  obtain ⟨records₂, merged₂, hperm₂, hm₂, hc₂⟩ := h₂
  let order : SetOrder String := .leaving ""
  obtain ⟨cves, offer, haudited, -, -, hsame⟩ := h order records₁ hperm₁
  obtain ⟨merged₁', offer₁, hm₁', haudited₁⟩ := h.run order hperm₁
  obtain ⟨merged₂', offer₂, hm₂', haudited₂⟩ := h.run order hperm₂
  obtain rfl := Except.ok.inj (hm₁.symm.trans hm₁')
  obtain rfl := Except.ok.inj (hm₂.symm.trans hm₂')
  cases haudited₁.symm.trans haudited
  obtain ⟨hmem₁, hcve₁⟩ := (merges_of_ok hm₁).get?_mem hc₁
  obtain ⟨hmem₂, hcve₂⟩ := (merges_of_ok hm₂).get?_mem hc₂
  exact ((hsame order records₂ hperm₂ _ _ haudited₂).2 c₁
    (mem_byScore.mpr (mem_byScore.mpr hmem₁)) c₂ (mem_byScore.mpr (mem_byScore.mpr hmem₂))
    (hcve₂.trans hcve₁.symm)).symm

/-- A record put first: what later records of its CVE leave as it is, the audit says. -/
theorem ClearsFindings.first (h : ClearsFindings pypi ecosystem installed records) {e : Entry}
    (he : e ∈ records) {P : Entry → Prop} (hP : P e)
    (hkeep : ∀ x ∈ ofCve records e.cve, ∀ m m', P m → mergeEntry m x = .ok m' → P m') :
    ∃ c, CanBecome records e.cve c ∧ P c := by
  have hperm : (e :: records.erase e).Perm records := (List.perm_cons_erase he).symm
  obtain ⟨merged, -, hmerged, -⟩ := h.run (.leaving "") hperm
  have hrest := hmerged
  rw [List.foldlM_cons] at hrest
  obtain ⟨first, hfirst, hrest⟩ := bind_ok hrest
  obtain rfl := Except.ok.inj hfirst
  obtain ⟨c, hc, hPc⟩ := foldlM_keeps e.cve (m := e) hrest
    (by rw [Dict.get?_set, if_pos rfl]) hP fun x hx hcve =>
      hkeep x (mem_ofCve.mpr ⟨List.mem_of_mem_erase hx, hcve⟩)
  exact ⟨c, ⟨_, merged, hperm, hmerged, hc⟩, hPc⟩

theorem ClearsFindings.admits (h : ClearsFindings pypi ecosystem installed records) {e e' : Entry}
    {rest : List Entry} (hperm : (e :: e' :: rest).Perm records) (hcve : e.cve = e'.cve) :
    Admits e e' := by
  obtain ⟨merged, -, hmerged, -⟩ := h.run (.leaving "") hperm
  rw [List.foldlM_cons] at hmerged
  obtain ⟨first, hfirst, hmerged⟩ := bind_ok hmerged
  obtain rfl := Except.ok.inj hfirst
  rw [List.foldlM_cons] at hmerged
  obtain ⟨second, hsecond, -⟩ := bind_ok hmerged
  obtain ⟨m', -, ⟨hnone, -⟩ | ⟨m, hm, hmerge⟩⟩ := mergeInto_ok hsecond
  · rw [Dict.get?_set, if_pos hcve.symm] at hnone
    cases hnone
  · rw [Dict.get?_set, if_pos hcve.symm] at hm
    obtain rfl := Option.some.inj hm
    exact admits_iff.mpr ⟨m', hmerge⟩

theorem ClearsFindings.mergeable (h : ClearsFindings pypi ecosystem installed records) :
    records.Pairwise Mergeable := by
  refine List.pairwise_iff_forall_sublist.mpr fun {e e'} hsub hcve => ?_
  obtain ⟨rest, hrest⟩ := hsub.exists_perm_append
  exact ⟨h.admits hrest.symm hcve,
    h.admits ((List.Perm.swap e e' rest).trans hrest.symm) hcve.symm⟩

/-- A merge with a record that scores no higher. -/
theorem Took.lower {m x m' : Entry} {t : Bool} (h : Took m x m' t) (hle : x.points ≤ m.points) :
    m'.cvssScore = m.cvssScore ∧ m'.suppressed = (m.suppressed && x.suppressed) := by
  rw [h.score, h.suppressed, takeScore_of_not_lt hle.not_gt]
  exact ⟨rfl, rfl⟩

theorem ClearsFindings.scored (h : ClearsFindings pypi ecosystem installed records) :
    ∀ e ∈ records, ∀ e' ∈ records, e.cve = e'.cve → Tops (ofCve records e.cve) e →
      Tops (ofCve records e.cve) e' → e.cvssScore = e'.cvssScore := by
  have hfirst {e : Entry} (he : e ∈ records) (htops : Tops (ofCve records e.cve) e) :
      ∃ c, CanBecome records e.cve c ∧ c.cvssScore = e.cvssScore := by
    refine h.first he (P := fun m => m.cvssScore = e.cvssScore) rfl fun x hx m m' hm hmerge => ?_
    obtain ⟨t, htook⟩ := mergeEntry_ok hmerge
    have hpoints : m.points = e.points := congrArg (·.getD 0) hm
    exact (htook.lower (hpoints ▸ htops x hx)).1.trans hm
  intro e he e' he' hcve htops htops'
  obtain ⟨c, hc, hscore⟩ := hfirst he htops
  obtain ⟨c', hc', hscore'⟩ := hfirst he' (hcve ▸ htops')
  rw [← hscore, ← hscore']
  exact congrArg Prod.fst (h.agree hc (hcve ▸ hc'))

theorem ClearsFindings.unbound (h : ClearsFindings pypi ecosystem installed records) :
    ∀ e ∈ records, ∀ e' ∈ records, e.cve = e'.cve →
      (∀ x ∈ ofCve records e.cve, x.bound = none) → Tops (ofCve records e.cve) e →
      Tops (ofCve records e.cve) e' → e.fixedVersion = e'.fixedVersion := by
  have hfirst {e : Entry} (he : e ∈ records) (hall : ∀ x ∈ ofCve records e.cve, x.bound = none)
      (htops : Tops (ofCve records e.cve) e) :
      ∃ c, CanBecome records e.cve c ∧ c.points = e.points ∧ c.bound = none ∧
        c.fixedVersion = e.fixedVersion := by
    refine h.first he
      (P := fun m => m.points = e.points ∧ m.bound = none ∧ m.fixedVersion = e.fixedVersion)
      ⟨rfl, hall e (mem_ofCve.mpr ⟨he, rfl⟩), rfl⟩ ?_
    rintro x hx m m' ⟨hpoints, hnone, hfixed⟩ hmerge
    obtain ⟨t, htook⟩ := mergeEntry_ok hmerge
    have hle : ¬ m.points < x.points := (hpoints ▸ htops x hx).not_gt
    refine ⟨?_, (htook.bound_none hnone).trans (hall x hx), ?_⟩
    · rw [htook.points, if_neg hle, hpoints]
    · rw [htook.unbound hnone (hall x hx), if_neg hle, hfixed]
  intro e he e' he' hcve hall htops htops'
  obtain ⟨c, hc, -, -, hfixed⟩ := hfirst he hall htops
  obtain ⟨c', hc', -, -, hfixed'⟩ := hfirst he' (hcve ▸ hall) (hcve ▸ htops')
  rw [← hfixed, ← hfixed']
  exact congrArg (·.2.1) (h.agree hc (hcve ▸ hc'))

theorem ClearsFindings.spelled (h : ClearsFindings pypi ecosystem installed records) :
    ∀ e ∈ records, ∀ e' ∈ records, e.cve = e'.cve → ∀ b c, e.bound = some b → e'.bound = some c →
      Foremost (ofCve records e.cve) b → Foremost (ofCve records e.cve) c → b = c := by
  have hfirst {e : Entry} {b : String} (he : e ∈ records) (hbound : e.bound = some b)
      (hfore : Foremost (ofCve records e.cve) b) :
      ∃ c, CanBecome records e.cve c ∧ c.bound = some b := by
    refine h.first he (P := fun m => m.bound = some b) hbound fun x hx m m' hm hmerge => ?_
    obtain ⟨t, htook⟩ := mergeEntry_ok hmerge
    obtain ⟨hkept, -⟩ | ⟨c, -, hc, hout⟩ := htook.bound_some hm
    · exact hkept
    · exact absurd hout (hfore x hx c hc)
  intro e he e' he' hcve b b' hbound hbound' hfore hfore'
  obtain ⟨c, hc, hb⟩ := hfirst he hbound hfore
  obtain ⟨c', hc', hb'⟩ := hfirst he' hbound' (hcve ▸ hfore')
  have hsame : c.bound = c'.bound :=
    congrArg (fun f : Option ℚ × Option String × Bool => truthy f.2.1) (h.agree hc (hcve ▸ hc'))
  rw [hb, hb'] at hsame
  exact Option.some.inj hsame

/-- A record of a CVE with the highest score. -/
theorem ClearsFindings.exists_tops (h : ClearsFindings pypi ecosystem installed records) {e : Entry}
    (he : e ∈ records) :
    ∃ top ∈ ofCve records e.cve, Tops (ofCve records e.cve) top := by
  obtain ⟨cves, offer, haudited, -⟩ := h (.leaving "") records (.refl _)
  obtain ⟨hpresents, -⟩ := audited_ok (.refl _) haudited
  obtain ⟨c, hc, hcve⟩ := hpresents.every e he
  obtain ⟨top, htop, htops, -⟩ := (hpresents.merge c hc).scored
  exact hcve ▸ ⟨top, htop, htops⟩

/-- A shown record right after one with the highest score is seen. -/
theorem ClearsFindings.seen (h : ClearsFindings pypi ecosystem installed records)
    {top e : Entry} {rest : List Entry} (hperm : (top :: e :: rest).Perm records)
    (hcve : top.cve = e.cve) (htops : Tops (ofCve records e.cve) top) (he : e.suppressed = false) :
    ∃ c, CanBecome records e.cve c ∧ c.suppressed = false := by
  obtain ⟨merged, -, hmerged, -⟩ := h.run (.leaving "") hperm
  have hrest := hmerged
  rw [List.foldlM_cons] at hrest
  obtain ⟨first, hfirst, hrest⟩ := bind_ok hrest
  obtain rfl := Except.ok.inj hfirst
  rw [List.foldlM_cons] at hrest
  obtain ⟨second, hsecond, hrest⟩ := bind_ok hrest
  obtain ⟨m₁, rfl, hold⟩ := mergeInto_ok hsecond
  rw [Dict.get?_set, if_pos hcve.symm] at hold
  obtain ⟨hnone, -⟩ | ⟨m, hm, hmerge⟩ := hold
  · cases hnone
  obtain rfl := Option.some.inj hm
  have hlower {x m m' : Entry} (hx : x ∈ ofCve records e.cve) (hpoints : m.points = top.points)
      (hmerge : mergeEntry m x = .ok m') :
      m'.points = top.points ∧ m'.suppressed = (m.suppressed && x.suppressed) := by
    obtain ⟨t, htook⟩ := mergeEntry_ok hmerge
    obtain ⟨hscore, hsuppressed⟩ := htook.lower (hpoints ▸ htops x hx)
    exact ⟨(congrArg (·.getD 0) hscore).trans hpoints, hsuppressed⟩
  have hmem {x : Entry} (hx : x ∈ top :: e :: rest) : x ∈ records := hperm.mem_iff.mp hx
  obtain ⟨hpoints₁, hsuppressed₁⟩ := hlower
    (mem_ofCve.mpr ⟨hmem (List.mem_cons_of_mem _ List.mem_cons_self), rfl⟩) rfl hmerge
  rw [he, Bool.and_false] at hsuppressed₁
  obtain ⟨c, hc, -, hseen⟩ := foldlM_keeps e.cve (m := m₁)
    (P := fun m => m.points = top.points ∧ m.suppressed = false) hrest
    (by rw [Dict.get?_set, if_pos rfl]) ⟨hpoints₁, hsuppressed₁⟩
    fun x hx hxcve m m' ⟨hpoints, hsuppressed⟩ hmerge => by
      have hxmem := hmem (List.mem_cons_of_mem _ (List.mem_cons_of_mem _ hx))
      obtain ⟨hpoints', hsuppressed'⟩ := hlower (mem_ofCve.mpr ⟨hxmem, hxcve⟩) hpoints hmerge
      exact ⟨hpoints', by rw [hsuppressed', hsuppressed, Bool.false_and]⟩
  exact ⟨c, ⟨_, merged, hperm, hmerged, hc⟩, hseen⟩

/-- Records with the highest score that are all suppressed, put last, hide the others. -/
theorem ClearsFindings.hides (h : ClearsFindings pypi ecosystem installed records)
    {top : Entry} (htop : top ∈ records) (htops : Tops (ofCve records top.cve) top)
    (hall : ∀ x ∈ ofCve records top.cve, Tops (ofCve records top.cve) x → x.suppressed = true) :
    ∃ c, CanBecome records top.cve c ∧ c.suppressed = true := by
  let isTop (x : Entry) : Bool := x.cve = top.cve ∧ x.points = top.points
  let others := records.filter fun x => !isTop x
  let tops := records.filter isTop
  have hperm : (others ++ tops).Perm records :=
    List.perm_append_comm.trans (List.filter_append_perm isTop records)
  have hsuppressed : ∀ x ∈ tops, x.cve = top.cve ∧ x.points = top.points ∧ x.suppressed = true := by
    intro x hx
    obtain ⟨hmem, hx⟩ := List.mem_filter.mp hx
    obtain ⟨hcve, hpoints⟩ := of_decide_eq_true hx
    refine ⟨hcve, hpoints, hall x (mem_ofCve.mpr ⟨hmem, hcve⟩) fun y hy => ?_⟩
    rw [hpoints]
    exact htops y hy
  have hmem : top ∈ tops := List.mem_filter.mpr ⟨htop, decide_eq_true ⟨rfl, rfl⟩⟩
  obtain ⟨merged, -, hmerged, -⟩ := h.run (.leaving "") hperm
  have hrest := hmerged
  rw [List.foldlM_append] at hrest
  obtain ⟨before, hbefore, hrest⟩ := bind_ok hrest
  obtain ⟨first, rest, htopsEq⟩ := List.exists_cons_of_ne_nil (List.ne_nil_of_mem hmem)
  rw [htopsEq] at hrest hsuppressed
  rw [List.foldlM_cons] at hrest
  obtain ⟨next, hnext, hrest⟩ := bind_ok hrest
  obtain ⟨hcve, hpoints, hhidden⟩ := hsuppressed first List.mem_cons_self
  obtain ⟨m₁, rfl, hold⟩ := mergeInto_ok hnext
  have hm₁ : m₁.suppressed = true := by
    obtain ⟨-, rfl⟩ | ⟨m, hm, hmerge⟩ := hold
    · exact hhidden
    · obtain ⟨e, he, -, hscore⟩ := ((merges_of_ok hbefore).found _ m hm).scored
      obtain ⟨hother, hecve⟩ := mem_ofCve.mp he
      obtain ⟨heRecords, heTop⟩ := List.mem_filter.mp hother
      have hne : e.points ≠ top.points := by
        intro heq
        rw [show isTop e = true from decide_eq_true ⟨hecve.trans hcve, heq⟩] at heTop
        cases heTop
      have hlt : m.points < first.points := by
        rw [hpoints, ← show e.points = m.points from congrArg (·.getD 0) hscore]
        exact lt_of_le_of_ne (htops e (mem_ofCve.mpr ⟨heRecords, hecve.trans hcve⟩)) hne
      obtain ⟨t, htook⟩ := mergeEntry_ok hmerge
      rw [htook.suppressed, takeScore_of_lt hlt]
      exact Bool.and_eq_true_iff.mpr ⟨hhidden, hhidden⟩
  obtain ⟨c, hc, hseen⟩ := foldlM_keeps top.cve (m := m₁)
    (P := fun m => m.suppressed = true) hrest (by rw [Dict.get?_set, if_pos hcve.symm]) hm₁
    fun x hx _ m m' hm hmerge => by
      obtain ⟨t, htook⟩ := mergeEntry_ok hmerge
      have hxhidden := (hsuppressed x (List.mem_cons_of_mem _ hx)).2.2
      rw [htook.suppressed, hxhidden, Bool.and_true]
      by_cases hlt : m.points < x.points
      · rw [takeScore_of_lt hlt]
        exact hxhidden
      · rw [takeScore_of_not_lt hlt]
        exact hm
  exact ⟨c, ⟨_, merged, hperm, hmerged, hc⟩, hseen⟩

theorem ClearsFindings.shown (h : ClearsFindings pypi ecosystem installed records) :
    ∀ e ∈ records, e.suppressed = false →
      ∃ e' ∈ ofCve records e.cve, Tops (ofCve records e.cve) e' ∧ e'.suppressed = false := by
  intro e he hshown
  by_contra hnone
  have hall : ∀ x ∈ ofCve records e.cve, Tops (ofCve records e.cve) x → x.suppressed = true := by
    intro x hx htops
    rw [← Bool.not_eq_false]
    exact fun hx' => hnone ⟨x, hx, htops, hx'⟩
  obtain ⟨top, htop, htops⟩ := h.exists_tops he
  obtain ⟨hmem, hcve⟩ := mem_ofCve.mp htop
  have hne : e ≠ top := by
    rintro rfl
    rw [hall e htop htops] at hshown
    cases hshown
  have hperm : (top :: e :: (records.erase top).erase e).Perm records :=
    ((List.perm_cons_erase ((List.mem_erase_of_ne hne).mpr he)).symm.cons top).trans
      (List.perm_cons_erase hmem).symm
  obtain ⟨c, hc, hseen⟩ := h.seen hperm hcve htops hshown
  obtain ⟨c', hc', hhidden⟩ := h.hides hmem (hcve ▸ htops) (hcve ▸ hall)
  have hsame : c.suppressed = c'.suppressed := congrArg (·.2.2) (h.agree hc (hcve ▸ hc'))
  rw [hseen, hhidden] at hsame
  cases hsame

/-- The offer whichever of the newest fixes a set hands out last. -/
theorem ClearsFindings.picks (h : ClearsFindings pypi ecosystem installed records) :
    ∃ offer, RightOffer pypi ecosystem installed records offer ∧
      (∀ b, offer = some b → Kept pypi ecosystem records b) ∧
      ∀ b, NewestKept pypi ecosystem records b → PicksAt pypi ecosystem installed b offer := by
  obtain ⟨cves, offer, haudited, hright, -, hsame⟩ := h (.leaving "") records (.refl _)
  refine ⟨offer, hright, fun b hb => ?_, fun b hb => ?_⟩
  · subst hb
    obtain ⟨hpresents, hlow⟩ := audited_ok (.refl _) haudited
    have hne : fixes pypi ecosystem cves ≠ [] := by
      intro hnil
      rw [lowestClearingVersion_nil hnil] at hlow
      cases hlow
    obtain ⟨ordered, target, hordered, hlast, hpicks, -⟩ := lowestClearingVersion_ok hne hlow
    cases hpicks
    have hmem := (sortVersionsFor_perm hordered).mem_iff.mp (List.mem_of_getLast? hlast)
    exact (mem_fixes_iff hpresents h.spelled).mp (SetOrder.mem_elements _ |>.mp hmem)
  · obtain ⟨cves', offer', haudited', -⟩ := h (.leaving b) records (.refl _)
    obtain rfl := (hsame (.leaving b) records (.refl _) cves' offer' haudited').1
    obtain ⟨hpresents, hlow⟩ := audited_ok (.refl _) haudited'
    have hkept {c : String} : c ∈ fixes pypi ecosystem cves' ↔ Kept pypi ecosystem records c :=
      mem_fixes_iff hpresents h.spelled
    exact lowestClearingVersion_leaving (hkept.mpr hb.1) (fun c hc => hb.2 c (hkept.mp hc)) hlow

/-- Records whose findings are cleared are settled. -/
theorem ClearsFindings.settled (h : ClearsFindings pypi ecosystem installed records) :
    Settled pypi ecosystem installed records := by
  obtain ⟨offer, hright, hkept, hpicks⟩ := h.picks
  refine ⟨h.mergeable, h.scored, h.shown, h.spelled, h.unbound, fun b hb => ?_,
    fun b c hb hc hlt => ?_, fun b hb hforward hback => ?_⟩
  · rcases offer with _ | target
    · exact .inl (hright b hb)
    · exact .inr ⟨target, hkept target rfl, hright.2.1, hright.2.2 b hb⟩
  · cases hpicks b hb with
    | nothing => exact absurd (hright b hb.1.isFix) hlt.not_noNewer
    | upgrade _ =>
      cases hpicks c hc
      rfl
  · cases hpicks b hb with
    | nothing _ hor => exact hor.resolve_left fun hlt => hlt.not_noNewer hforward
    | upgrade _ => exact absurd hback hright.2.1.not_noNewer

end Clears

/-- **The offered fix clears the findings exactly where the records are settled**: in whatever
order they arrive, the newest well-formed fixed version is offered if it is newer than the
installed one and nothing if none is, and each CVE is merged alike. -/
theorem audited_clears_iff {V : Type} [LinearOrder V] (pypi : Pep440Order V) (ecosystem : Ecosystem)
    (installed : String) (records : List Entry) :
    ClearsFindings pypi ecosystem installed records ↔ Settled pypi ecosystem installed records :=
  ⟨ClearsFindings.settled, Settled.clears⟩

/-! ### A bound that semver cannot read -/

/-- Three PyPI releases, by major and minor number. -/
def threeReleases : Pep440Order (ℕ ×ₗ ℕ) where
  version text :=
    if text = "2.0.0" then some (toLex (2, 0))
    else if text = "2.5.0" then some (toLex (2, 5))
    else if text = "10.0" then some (toLex (10, 0))
    else none
  version_empty := by decide

/-- Two records of one CVE, with the bounds `2.0.0` and `10.0`. -/
def disagreeing : List Entry :=
  [{ cveId := some "CVE-2024-1", osvId := some "GHSA-1", fixedVersion := some "2.0.0" },
   { cveId := some "CVE-2024-1", osvId := some "PYSEC-1", fixedVersion := some "10.0" }]

theorem outranks_tenth : Outranks "2.0.0" "10.0" := by
  have hversion : fixKey "2.0.0" =
      .ok (.version (toLex (2, toLex (0, toLex (0, toLex (1, [])))))) := rfl
  have htext : fixKey "10.0" = .ok (.text "10.0") := rfl
  exact ⟨_, _, hversion, htext, Sum.Lex.inl_lt_inr _ _⟩

/-- The release `10.0`, which fixes the CVE, is not offered to who has `2.5.0`. -/
theorem tenth_not_offered : ¬ ClearsFindings threeReleases .pypi "2.5.0" disagreeing := by
  intro h
  have hfix : IsFix threeReleases .pypi disagreeing "10.0" :=
    ⟨⟨_, List.mem_cons_of_mem _ List.mem_cons_self, rfl⟩, by decide⟩
  obtain hle | ⟨k, ⟨⟨e, he, hbound, hfore⟩, -⟩, -, hle⟩ := h.settled.reached "10.0" hfix
  · exact absurd (noNewer_pypi.mp hle) (by decide)
  · rcases List.mem_cons.mp he with rfl | he
    · obtain rfl := Option.some.inj hbound
      exact absurd (noNewer_pypi.mp hle) (by decide)
    · obtain rfl := List.mem_singleton.mp he
      obtain rfl := Option.some.inj hbound
      exact hfore _ List.mem_cons_self "2.0.0" rfl outranks_tenth

end Minireg.Vulns
