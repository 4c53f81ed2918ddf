import Mathlib.Data.List.Basic

/-!
# Python dictionaries

Association lists in insertion order: `set` replaces in place or appends,
`setdefault` only appends.
-/

namespace Minireg.Py

abbrev Dict (κ ν : Type) := List (κ × ν)

namespace Dict

variable {κ ν : Type} [DecidableEq κ]

def get? (d : Dict κ ν) (k : κ) : Option ν := List.lookup k d

def set (d : Dict κ ν) (k : κ) (v : ν) : Dict κ ν :=
  if d.any (fun e => e.1 = k) then d.map fun e => if e.1 = k then (k, v) else e else d ++ [(k, v)]

def setdefault (d : Dict κ ν) (k : κ) (v : ν) : Dict κ ν :=
  if d.any (fun e => e.1 = k) then d else d ++ [(k, v)]

@[simp] theorem get?_nil (k : κ) : get? ([] : Dict κ ν) k = none := rfl

theorem get?_cons (e : κ × ν) (d : Dict κ ν) (k : κ) :
    get? (e :: d) k = if k = e.1 then some e.2 else get? d k := by
  obtain ⟨l, v⟩ := e
  unfold get?
  rw [List.lookup_cons]
  by_cases h : k = l
  · simp [h]
  · simp [h, beq_eq_false_iff_ne.mpr h]

theorem get?_map_replace (d : Dict κ ν) (k k' : κ) (v : ν) :
    get? (d.map fun e => if e.1 = k then (k, v) else e) k' =
      if k' = k then (get? d k).map fun _ => v else get? d k' := by
  induction d with
  | nil => simp
  | cons e d ih =>
    rw [List.map_cons, get?_cons, ih, get?_cons, get?_cons]
    by_cases he : e.1 = k
    · rw [if_pos he]
      by_cases hk : k' = k
      · simp [hk, he]
      · rw [if_neg hk, if_neg hk, if_neg hk, if_neg fun h => hk (h.trans he)]
    · rw [if_neg he]
      by_cases hk : k' = k
      · subst hk
        have hne : k' ≠ e.1 := fun h => he h.symm
        simp [hne]
      · rw [if_neg hk, if_neg hk]

theorem get?_append (d d' : Dict κ ν) (k : κ) : get? (d ++ d') k = (get? d k).or (get? d' k) := by
  induction d with
  | nil => simp
  | cons e d ih =>
    rw [List.cons_append, get?_cons, get?_cons, ih]
    split <;> rfl

theorem get?_eq_none_iff {d : Dict κ ν} {k : κ} :
    get? d k = none ↔ d.any (fun e => e.1 = k) = false := by
  induction d with
  | nil => simp
  | cons e d ih =>
    rw [get?_cons, List.any_cons]
    by_cases hk : k = e.1
    · simp [hk]
    · rw [if_neg hk, ih]
      simp [Ne.symm hk]

theorem mem_of_get? {d : Dict κ ν} {k : κ} {v : ν} (h : get? d k = some v) : (k, v) ∈ d := by
  induction d with
  | nil => cases h
  | cons e d ih =>
    rw [get?_cons] at h
    split at h
    · next hk =>
      obtain rfl := Option.some.inj h
      exact hk ▸ List.mem_cons_self
    · exact List.mem_cons_of_mem _ (ih h)

theorem get?_set (d : Dict κ ν) (k k' : κ) (v : ν) :
    get? (set d k v) k' = if k' = k then some v else get? d k' := by
  unfold set
  rcases hg : get? d k with _ | w
  · rw [get?_eq_none_iff.mp hg, if_neg (by simp), get?_append, get?_cons]
    by_cases hk : k' = k
    · rw [hk, hg]
      simp
    · simp [hk]
  · have hany : d.any (fun e => e.1 = k) = true := by
      rw [← Bool.not_eq_false]
      intro h
      rw [get?_eq_none_iff.mpr h] at hg
      cases hg
    rw [if_pos hany, get?_map_replace, hg]
    rfl

theorem mem_of_mem_set {d : Dict κ ν} {k : κ} {v : ν} {e : κ × ν} (h : e ∈ d.set k v) :
    e = (k, v) ∨ e ∈ d := by
  unfold set at h
  split at h
  · obtain ⟨e', he', rfl⟩ := List.mem_map.mp h
    split
    · exact .inl rfl
    · exact .inr he'
  · rcases List.mem_append.mp h with h | h
    · exact .inr h
    · exact .inl (List.mem_singleton.mp h)

theorem mem_of_mem_setdefault {d : Dict κ ν} {k : κ} {v : ν} {e : κ × ν}
    (h : e ∈ d.setdefault k v) : e = (k, v) ∨ e ∈ d := by
  unfold setdefault at h
  split at h
  · exact .inr h
  · rcases List.mem_append.mp h with h | h
    · exact .inr h
    · exact .inl (List.mem_singleton.mp h)

theorem get?_setdefault_of_some {d : Dict κ ν} {k : κ} {v : ν} (h : get? d k = some v) (k' : κ)
    (v' : ν) : get? (setdefault d k' v') k = some v := by
  unfold setdefault
  split
  · exact h
  · rw [get?_append, h]
    rfl

theorem nodup_keys_set {d : Dict κ ν} (h : (d.map Prod.fst).Nodup) (k : κ) (v : ν) :
    ((set d k v).map Prod.fst).Nodup := by
  unfold set
  split
  · have hkeys : (d.map fun e => if e.1 = k then (k, v) else e).map Prod.fst = d.map Prod.fst := by
      rw [List.map_map]
      refine List.map_congr_left fun e _ => ?_
      dsimp only [Function.comp]
      split
      · next he => exact he.symm
      · rfl
    rwa [hkeys]
  · next hnone =>
    rw [List.map_append, List.nodup_append]
    refine ⟨h, List.pairwise_singleton _ _, fun a ha b hb hab => hnone ?_⟩
    obtain ⟨e, he, rfl⟩ := List.mem_map.mp ha
    obtain rfl := List.mem_singleton.mp hb
    exact List.any_eq_true.mpr ⟨e, he, by simpa using hab⟩

theorem get?_filter (p : κ → Bool) (d : Dict κ ν) (k : κ) :
    get? (d.filter fun e => p e.1) k = if p k then get? d k else none := by
  induction d with
  | nil => simp
  | cons e d ih =>
    rw [List.filter_cons, get?_cons]
    by_cases hk : k = e.1
    · subst hk
      split
      · rw [get?_cons, if_pos rfl, if_pos rfl]
      · next hp => rw [ih, if_neg hp]
    · rw [if_neg hk, ← ih]
      split
      · rw [get?_cons, if_neg hk]
      · rfl

theorem get?_filter_of {p : κ → Bool} {k : κ} (h : p k = true) (d : Dict κ ν) :
    get? (d.filter fun e => p e.1) k = get? d k := (get?_filter p d k).trans (if_pos h)

theorem get?_eq_some_iff {d : Dict κ ν} (h : (d.map Prod.fst).Nodup) {k : κ} {v : ν} :
    get? d k = some v ↔ (k, v) ∈ d := by
  induction d with
  | nil => simp
  | cons e d ih =>
    rw [List.map_cons, List.nodup_cons] at h
    rw [get?_cons, List.mem_cons]
    by_cases hk : k = e.1
    · have hne : (k, v) ∉ d := fun hm => h.1 (hk ▸ List.mem_map_of_mem (f := Prod.fst) hm)
      rw [if_pos hk]
      constructor
      · intro he
        exact .inl (Prod.ext hk (Option.some.inj he).symm)
      · intro hm
        exact congrArg some (congrArg Prod.snd (hm.resolve_right hne)).symm
    · rw [if_neg hk, ih h.2]
      refine ⟨.inr, fun hm => hm.resolve_left fun he => hk (congrArg Prod.fst he)⟩

end Dict

end Minireg.Py
