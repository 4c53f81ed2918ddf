import Mathlib.Data.List.Induction
import Minireg.Py.Dict

/-!
# Grouping

`d.setdefault(k, []).append(v)` over a run of pairs collects the values of every key, and
`d[k] = v` keeps the last of them. `chunks` cuts a list into slices.
-/

namespace Minireg.Py

/-! ## Dictionaries built from pairs -/

namespace Dict

variable {κ ν : Type} [DecidableEq κ]

/-- `d.setdefault(k, []).append(v)`. -/
def push (d : Dict κ (List ν)) (e : κ × ν) : Dict κ (List ν) :=
  d.set e.1 ((d.get? e.1).getD [] ++ [e.2])

/-- The values of every key, keys in the order they come up in. -/
def group (pairs : List (κ × ν)) : Dict κ (List ν) := pairs.foldl push []

/-- `dict(pairs)`. -/
def ofPairs (pairs : List (κ × ν)) : Dict κ ν := pairs.foldl (fun d e => d.set e.1 e.2) []

/-- The values that come with a key. -/
def valuesOf (pairs : List (κ × ν)) (k : κ) : List ν :=
  (pairs.filter fun e => e.1 = k).map Prod.snd

theorem mem_valuesOf {pairs : List (κ × ν)} {k : κ} {v : ν} :
    v ∈ valuesOf pairs k ↔ (k, v) ∈ pairs := by
  unfold valuesOf
  simp only [List.mem_map, List.mem_filter, decide_eq_true_eq]
  constructor
  · rintro ⟨e, ⟨he, rfl⟩, rfl⟩
    exact he
  · exact fun h => ⟨(k, v), ⟨h, rfl⟩, rfl⟩

theorem group_concat (pairs : List (κ × ν)) (e : κ × ν) :
    group (pairs ++ [e]) = push (group pairs) e := by
  unfold group
  rw [List.foldl_append]
  rfl

theorem valuesOf_concat (pairs : List (κ × ν)) (e : κ × ν) (k : κ) :
    valuesOf (pairs ++ [e]) k = valuesOf pairs k ++ if e.1 = k then [e.2] else [] := by
  unfold valuesOf
  rw [List.filter_append, List.map_append]
  congr 1
  by_cases h : e.1 = k <;> simp [h]

theorem nodup_keys_group (pairs : List (κ × ν)) : ((group pairs).map Prod.fst).Nodup := by
  induction pairs using List.reverseRecOn with
  | nil => exact List.nodup_nil
  | append_singleton pairs e ih =>
    rw [group_concat]
    exact nodup_keys_set ih _ _

/-- **A group** holds the values of its key. -/
theorem getD_group (pairs : List (κ × ν)) (k : κ) :
    ((group pairs).get? k).getD [] = valuesOf pairs k := by
  induction pairs using List.reverseRecOn with
  | nil => rfl
  | append_singleton pairs e ih =>
    rw [group_concat, valuesOf_concat, push, get?_set]
    by_cases hk : k = e.1
    · subst hk
      rw [if_pos rfl, if_pos rfl, Option.getD_some, ih]
    · rw [if_neg hk, if_neg fun h => hk h.symm, ih, List.append_nil]

theorem group_ne_nil {pairs : List (κ × ν)} {k : κ} {l : List ν} (h : (k, l) ∈ group pairs) :
    l ≠ [] := by
  induction pairs using List.reverseRecOn with
  | nil => cases h
  | append_singleton pairs e ih =>
    rw [group_concat] at h
    rcases mem_of_mem_set h with h | h
    · rw [(Prod.mk.inj h).2]
      exact List.append_ne_nil_of_right_ne_nil _ (List.cons_ne_nil _ _)
    · exact ih h

theorem mem_group {pairs : List (κ × ν)} {k : κ} {l : List ν} :
    (k, l) ∈ group pairs ↔ l = valuesOf pairs k ∧ l ≠ [] := by
  rw [← getD_group]
  constructor
  · intro h
    have hget := (get?_eq_some_iff (nodup_keys_group pairs)).mpr h
    exact ⟨by rw [hget]; rfl, group_ne_nil h⟩
  · rintro ⟨rfl, hne⟩
    rcases hget : (group pairs).get? k with _ | l
    · rw [hget] at hne
      exact absurd rfl hne
    · exact mem_of_get? hget

theorem mem_of_group {pairs : List (κ × ν)} {k : κ} {l : List ν} (h : (k, l) ∈ group pairs)
    {v : ν} : v ∈ l ↔ (k, v) ∈ pairs := by
  rw [(mem_group.mp h).1, mem_valuesOf]

theorem exists_group {pairs : List (κ × ν)} {k : κ} {v : ν} (h : (k, v) ∈ pairs) :
    ∃ l, (k, l) ∈ group pairs :=
  ⟨_, mem_group.mpr ⟨rfl, List.ne_nil_of_mem (mem_valuesOf.mpr h)⟩⟩

/-- **Grouping** loses nothing and repeats nothing. -/
theorem perm_push {d : Dict κ (List ν)} (h : (d.map Prod.fst).Nodup) (e : κ × ν) :
    ((push d e).flatMap Prod.snd).Perm (d.flatMap Prod.snd ++ [e.2]) := by
  unfold push
  induction d with
  | nil => exact List.Perm.refl _
  | cons e' d ih =>
    rw [List.map_cons, List.nodup_cons] at h
    unfold set at ih ⊢
    by_cases hk : e'.1 = e.1
    · have hnew : ∀ x ∈ d, ¬x.1 = e.1 := fun x hx heq =>
        h.1 (List.mem_map.mpr ⟨x, hx, heq.trans hk.symm⟩)
      have hrest : (d.map fun x => if x.1 = e.1 then
          (e.1, (get? (e' :: d) e.1).getD [] ++ [e.2]) else x) = d :=
        (List.map_congr_left fun x hx => if_neg (hnew x hx)).trans (List.map_id _)
      have hget : (get? (e' :: d) e.1).getD [] = e'.2 := by
        rw [get?_cons, if_pos hk.symm]
        rfl
      rw [if_pos (List.any_eq_true.mpr ⟨e', List.mem_cons_self, decide_eq_true hk⟩), List.map_cons,
        hrest, if_pos hk, hget, List.flatMap_cons, List.flatMap_cons, List.append_assoc,
        List.append_assoc]
      exact List.Perm.append_left _ List.perm_append_comm
    · have hget : get? (e' :: d) e.1 = get? d e.1 := by
        rw [get?_cons, if_neg (Ne.symm hk)]
      have hcons : (if (e' :: d).any (fun x => decide (x.1 = e.1)) then
          (e' :: d).map fun x => if x.1 = e.1 then (e.1, (get? d e.1).getD [] ++ [e.2]) else x
          else (e' :: d) ++ [(e.1, (get? d e.1).getD [] ++ [e.2])]) =
            e' :: if d.any (fun x => decide (x.1 = e.1)) then
              d.map fun x => if x.1 = e.1 then (e.1, (get? d e.1).getD [] ++ [e.2]) else x
              else d ++ [(e.1, (get? d e.1).getD [] ++ [e.2])] := by
        rw [List.any_cons, decide_eq_false hk, Bool.false_or, List.map_cons, if_neg hk]
        split <;> rfl
      rw [hget, hcons, List.flatMap_cons, List.flatMap_cons, List.append_assoc]
      exact List.Perm.append_left _ (ih h.2)

theorem perm_group (pairs : List (κ × ν)) :
    ((group pairs).flatMap Prod.snd).Perm (pairs.map Prod.snd) := by
  induction pairs using List.reverseRecOn with
  | nil => exact List.Perm.refl _
  | append_singleton pairs e ih =>
    rw [group_concat, List.map_append]
    exact (perm_push (nodup_keys_group pairs) e).trans (ih.append_right _)

theorem ofPairs_concat (pairs : List (κ × ν)) (e : κ × ν) :
    ofPairs (pairs ++ [e]) = (ofPairs pairs).set e.1 e.2 := by
  unfold ofPairs
  rw [List.foldl_append]
  rfl

theorem mem_of_mem_ofPairs {pairs : List (κ × ν)} {e : κ × ν} (h : e ∈ ofPairs pairs) :
    e ∈ pairs := by
  induction pairs using List.reverseRecOn with
  | nil => cases h
  | append_singleton pairs e' ih =>
    rw [ofPairs_concat] at h
    rcases mem_of_mem_set h with rfl | h
    · exact List.mem_append_right _ List.mem_cons_self
    · exact List.mem_append_left _ (ih h)

theorem nodup_keys_ofPairs (pairs : List (κ × ν)) : ((ofPairs pairs).map Prod.fst).Nodup := by
  induction pairs using List.reverseRecOn with
  | nil => exact List.nodup_nil
  | append_singleton pairs e ih =>
    rw [ofPairs_concat]
    exact nodup_keys_set ih _ _

/-- **A dictionary of pairs**, no two of which differ in the value of a key, holds them all. -/
theorem get?_ofPairs {pairs : List (κ × ν)} (h : ∀ k v w, (k, v) ∈ pairs → (k, w) ∈ pairs → v = w)
    {k : κ} {v : ν} : (ofPairs pairs).get? k = some v ↔ (k, v) ∈ pairs := by
  induction pairs using List.reverseRecOn with
  | nil => simp [ofPairs]
  | append_singleton pairs e ih =>
    have hrest := ih fun k v w hv hw =>
      h k v w (List.mem_append_left _ hv) (List.mem_append_left _ hw)
    rw [ofPairs_concat, get?_set, List.mem_append, List.mem_singleton]
    by_cases hk : k = e.1
    · subst hk
      rw [if_pos rfl, Option.some.injEq]
      constructor
      · rintro rfl
        exact .inr rfl
      · rintro (hv | hv)
        · exact h e.1 e.2 v (List.mem_append_right _ (List.mem_singleton.mpr rfl))
            (List.mem_append_left _ hv)
        · exact (congrArg Prod.snd hv).symm
    · rw [if_neg hk, hrest]
      refine ⟨.inl, fun hv => hv.resolve_right fun hv => hk (congrArg Prod.fst hv)⟩

theorem mem_ofPairs {pairs : List (κ × ν)} (h : ∀ k v w, (k, v) ∈ pairs → (k, w) ∈ pairs → v = w)
    {e : κ × ν} : e ∈ ofPairs pairs ↔ e ∈ pairs := by
  obtain ⟨k, v⟩ := e
  rw [← get?_eq_some_iff (nodup_keys_ofPairs pairs), get?_ofPairs h]

theorem ofPairs_of_nodup {pairs : List (κ × ν)} (h : (pairs.map Prod.fst).Nodup) :
    ofPairs pairs = pairs := by
  induction pairs using List.reverseRecOn with
  | nil => rfl
  | append_singleton pairs e ih =>
    rw [List.map_append, List.nodup_append] at h
    obtain ⟨hpairs, -, hnew⟩ := h
    rw [ofPairs_concat, ih hpairs, set, if_neg]
    intro hany
    obtain ⟨e', he', hkey⟩ := List.any_eq_true.mp hany
    exact hnew _ (List.mem_map_of_mem he') _ List.mem_cons_self (by simpa using hkey)

/-! ### Values that may be missing -/

/-- The entries of the values that there are. -/
def present (slots : List (κ × Option ν)) : List (κ × ν) :=
  slots.filterMap fun e => e.2.map fun v => (e.1, v)

omit [DecidableEq κ] in
theorem map_fst_present (slots : List (κ × Option ν)) :
    ((present slots).map Prod.fst).Sublist (slots.map Prod.fst) := by
  induction slots with
  | nil => exact List.Sublist.refl _
  | cons e slots ih =>
    obtain ⟨k, _ | v⟩ := e
    · exact ih.cons k
    · exact ih.cons_cons k

omit [DecidableEq κ] in
theorem nodup_keys_present {slots : List (κ × Option ν)} (h : (slots.map Prod.fst).Nodup) :
    ((present slots).map Prod.fst).Nodup := h.sublist (map_fst_present slots)

omit [DecidableEq κ] in
theorem mem_of_mem_present {slots : List (κ × Option ν)} {e : κ × ν} (h : e ∈ present slots) :
    (e.1, some e.2) ∈ slots := by
  obtain ⟨⟨k, o⟩, hslot, he⟩ := List.mem_filterMap.mp h
  obtain ⟨v, rfl, rfl⟩ := Option.map_eq_some_iff.mp he
  exact hslot

/-- **The entry of a slot** is its value. -/
theorem get?_present {slots : List (κ × Option ν)} (h : (slots.map Prod.fst).Nodup) (k : κ) :
    get? (present slots) k = (get? slots k).join := by
  induction slots with
  | nil => rfl
  | cons e slots ih =>
    rw [List.map_cons, List.nodup_cons] at h
    obtain ⟨k', _ | v⟩ := e
    · rw [get?_cons]
      have hskip : present ((k', (none : Option ν)) :: slots) = present slots := rfl
      rw [hskip, ih h.2]
      by_cases hk : k = k'
      · rw [if_pos hk, get?_eq_none_iff.mpr]
        · rfl
        · exact List.any_eq_false.mpr fun e he heq =>
            h.1 (List.mem_map.mpr ⟨e, he, (of_decide_eq_true heq).trans hk⟩)
      · rw [if_neg hk]
    · have hcons : present ((k', some v) :: slots) = (k', v) :: present slots := rfl
      rw [hcons, get?_cons, get?_cons, ih h.2]
      by_cases hk : k = k'
      · rw [if_pos hk, if_pos hk]
        rfl
      · rw [if_neg hk, if_neg hk]

end Dict

/-! ## Slices -/

section Chunks

variable {α : Type}

/-- `items[start : start + size] for start in range(0, len(items), size)`. -/
def chunks (size : Nat) (items : List α) : List (List α) :=
  (List.range ((items.length + size - 1) / size)).map fun i => (items.drop (i * size)).take size

theorem flatten_slices (size : Nat) (items : List α) (n : Nat) :
    ((List.range n).map fun i => (items.drop (i * size)).take size).flatten =
      items.take (n * size) := by
  induction n with
  | zero => simp
  | succ n ih =>
    rw [List.range_succ, List.map_append, List.flatten_append, ih, Nat.succ_mul, List.take_add]
    simp

/-- **The slices** are the list. -/
theorem flatten_chunks {size : Nat} (h : 0 < size) (items : List α) :
    (chunks size items).flatten = items := by
  unfold chunks
  rw [flatten_slices, List.take_of_length_le]
  have hlast := Nat.lt_div_mul_add h (a := items.length + size - 1)
  omega

theorem mem_chunks {size : Nat} (h : 0 < size) {items : List α} {a : α} :
    (∃ chunk ∈ chunks size items, a ∈ chunk) ↔ a ∈ items := by
  rw [← List.mem_flatten, flatten_chunks h]

/-- A query that is asked for a slice at a time finds what it finds for the list. -/
theorem mem_flatMap_chunks {β : Type} {size : Nat} (h : 0 < size) {items : List α}
    {query : List α → List β} {b : β} {a : α} {p : Prop}
    (hquery : ∀ chunk, b ∈ query chunk ↔ a ∈ chunk ∧ p) :
    b ∈ (chunks size items).flatMap query ↔ a ∈ items ∧ p := by
  have hitems : (∃ chunk ∈ chunks size items, a ∈ chunk) ↔ a ∈ items := mem_chunks h
  rw [← hitems, List.mem_flatMap]
  simp only [hquery]
  constructor
  · rintro ⟨chunk, hchunk, ha, hp⟩
    exact ⟨⟨chunk, hchunk, ha⟩, hp⟩
  · rintro ⟨⟨chunk, hchunk, ha⟩, hp⟩
    exact ⟨chunk, hchunk, ha, hp⟩

end Chunks

end Minireg.Py
