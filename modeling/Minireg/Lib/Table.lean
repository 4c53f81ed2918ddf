import Mathlib.Algebra.GroupWithZero.Nat
import Mathlib.Algebra.Order.BigOperators.Group.List
import Mathlib.Algebra.Order.Group.Nat
import Mathlib.Data.List.Nodup
import Mathlib.Data.List.Perm.Subperm
import Minireg.Py.Raise

/-!
# Tables with a unique key

`Table key` is a list of rows no two of which have the same key, in insertion
order. `find?` looks a row up, `put` replaces the row of the same key or appends,
`modify` rewrites rows without touching their keys, `filter` deletes.
-/

namespace Minireg.Lib

variable {α κ : Type}

/-- Rows with a unique key. -/
structure Table (key : α → κ) where
  rows : List α := []
  nodup : (rows.map key).Nodup := by decide

namespace Table

variable {key : α → κ}

theorem ext_rows {t u : Table key} (h : t.rows = u.rows) : t = u := by
  cases t; cases u; cases h; rfl

instance [DecidableEq α] : DecidableEq (Table key) := fun t u =>
  decidable_of_iff (t.rows = u.rows) ⟨ext_rows, fun h => h ▸ rfl⟩

instance : Membership α (Table key) := ⟨fun t a => a ∈ t.rows⟩

instance [DecidableEq α] (a : α) (t : Table key) : Decidable (a ∈ t) :=
  inferInstanceAs (Decidable (a ∈ t.rows))

theorem mem_rows {t : Table key} {a : α} : a ∈ t.rows ↔ a ∈ t := Iff.rfl

/-- Rows of one key are the same row. -/
theorem eq_of_key {t : Table key} {a b : α} (ha : a ∈ t) (hb : b ∈ t) (h : key a = key b) :
    a = b :=
  List.inj_on_of_nodup_map t.nodup ha hb h

/-- A row is the only one of its kind. -/
theorem countP_le_one_iff {t : Table key} {p : α → Bool} {a : α} (ha : a ∈ t) (hp : p a = true) :
    t.rows.countP p ≤ 1 ↔ ∀ b ∈ t, p b = true → b = a := by
  have hmem : ∀ b, b ∈ t.rows.filter p ↔ b ∈ t ∧ p b = true := fun b => List.mem_filter
  have hnodup : (t.rows.filter p).Nodup := (List.Nodup.of_map key t.nodup).filter p
  rw [List.countP_eq_length_filter]
  constructor
  · intro hle b hb hpb
    have ha' := (hmem a).mpr ⟨ha, hp⟩
    have hb' := (hmem b).mpr ⟨hb, hpb⟩
    generalize t.rows.filter p = rows at hle ha' hb'
    match rows, hle with
    | [x], _ => rw [List.mem_singleton.mp ha', List.mem_singleton.mp hb']
  · intro h
    have hsub : t.rows.filter p ⊆ [a] := fun b hb =>
      List.mem_singleton.mpr (h b ((hmem b).mp hb).1 ((hmem b).mp hb).2)
    exact (hnodup.subperm hsub).length_le

variable (key) in
def empty : Table key := { nodup := by simp }

instance : Inhabited (Table key) := ⟨empty key⟩

@[simp] theorem empty_rows : (empty key).rows = [] := rfl

@[simp] theorem not_mem_empty {a : α} : a ∉ empty key := List.not_mem_nil

/-! ## Deleting -/

def filter (p : α → Bool) (t : Table key) : Table key where
  rows := t.rows.filter p
  nodup := t.nodup.sublist ((List.filter_sublist).map key)

@[simp] theorem mem_filter {p : α → Bool} {t : Table key} {a : α} :
    a ∈ t.filter p ↔ a ∈ t ∧ p a = true := List.mem_filter

theorem filter_eq_self {p : α → Bool} {t : Table key} (h : ∀ a ∈ t, p a = true) :
    t.filter p = t :=
  ext_rows (List.filter_eq_self.mpr h)

/-! ## Rewriting rows -/

/-- Apply `f`, which keeps every row's key. -/
def modify (f : α → α) (hf : ∀ a, key (f a) = key a := by intro _; rfl) (t : Table key) :
    Table key where
  rows := t.rows.map f
  nodup := by
    rw [List.map_map, show key ∘ f = key from funext hf]
    exact t.nodup

theorem mem_modify {f : α → α} {hf : ∀ a, key (f a) = key a} {t : Table key} {a : α} :
    a ∈ t.modify f hf ↔ ∃ b ∈ t, f b = a := List.mem_map

theorem mem_modify_of_fixed {f : α → α} {hf : ∀ a, key (f a) = key a} {t : Table key} {a : α}
    (ha : a ∈ t) (h : f a = a) : a ∈ t.modify f hf := mem_modify.mpr ⟨a, ha, h⟩

/-! ## Rewriting rows with a function that may raise -/

section Raise

variable {ε : Type} {f : α → Except ε α} {hf : ∀ a b, f a = .ok b → key b = key a}
  {t t' : Table key}

def modifyM (f : α → Except ε α) (hf : ∀ a b, f a = .ok b → key b = key a) (t : Table key) :
    Except ε (Table key) :=
  match h : t.rows.mapM f with
  | .error e => .error e
  | .ok rows => .ok { rows := rows, nodup := Py.mapM_map h hf ▸ t.nodup }

theorem modifyM_ok (h : t.modifyM f hf = .ok t') : t.rows.mapM f = .ok t'.rows := by
  unfold modifyM at h
  split at h
  · cases h
  · next rows hrows =>
    obtain rfl := Except.ok.inj h
    exact hrows

/-- Every row is rewritten. -/
theorem modifyM_mem (h : t.modifyM f hf = .ok t') {a : α} (ha : a ∈ t) :
    ∃ b ∈ t', f a = .ok b := Py.mapM_mem_of_mem (modifyM_ok h) a ha

/-- Every row is a rewritten one. -/
theorem mem_of_modifyM (h : t.modifyM f hf = .ok t') {b : α} (hb : b ∈ t') :
    ∃ a ∈ t, f a = .ok b := Py.mapM_mem (modifyM_ok h) b hb

theorem modifyM_returns (hf : ∀ a b, f a = .ok b → key b = key a)
    (h : ∀ a ∈ t, ∃ b, f a = .ok b) : ∃ t', t.modifyM f hf = .ok t' := by
  obtain ⟨rows, hrows⟩ := Py.mapM_of_returns h
  unfold modifyM
  split
  · next e he =>
    rw [hrows] at he
    cases he
  · exact ⟨_, rfl⟩

end Raise

/-! ## Counting rows -/

/-- The rows before and after a row, which have other keys. -/
theorem exists_split {t : Table key} {a : α} (ha : a ∈ t) : ∃ l l', t.rows = l ++ a :: l' ∧
    (∀ b ∈ l, key b ≠ key a) ∧ ∀ b ∈ l', key b ≠ key a := by
  obtain ⟨l, l', heq⟩ := List.append_of_mem ha
  have hnodup := t.nodup
  rw [heq, List.map_append, List.map_cons, List.nodup_append] at hnodup
  obtain ⟨-, hright, hdisjoint⟩ := hnodup
  refine ⟨l, l', heq, fun b hb heq' => ?_, fun b hb heq' => ?_⟩
  · exact hdisjoint _ (List.mem_map_of_mem hb) _ List.mem_cons_self heq'
  · exact (List.nodup_cons.mp hright).1 (List.mem_map.mpr ⟨b, hb, heq'⟩)

/-- What a rewrite of one row does to a count. -/
theorem countP_modify {t : Table key} {f : α → α} (hf : ∀ a, key (f a) = key a) {a : α}
    (ha : a ∈ t) (hother : ∀ b ∈ t, key b ≠ key a → f b = b) (p : α → Bool) :
    (t.modify f hf).rows.countP p + (if p a then 1 else 0) =
      t.rows.countP p + if p (f a) then 1 else 0 := by
  obtain ⟨l, l', heq, hl, hl'⟩ := exists_split ha
  have hrows : (t.modify f hf).rows = l ++ f a :: l' := by
    refine (congrArg (List.map f) heq).trans ?_
    rw [List.map_append, List.map_cons]
    have hfix : ∀ {m : List α}, (∀ b ∈ m, b ∈ t ∧ key b ≠ key a) → m.map f = m := fun h =>
      (List.map_congr_left fun b hb => hother b (h b hb).1 (h b hb).2).trans (List.map_id _)
    have hmem : ∀ b, b ∈ l ++ a :: l' → b ∈ t := fun b hb => mem_rows.mp (heq ▸ hb)
    rw [hfix fun b hb => ⟨hmem b (List.mem_append_left _ hb), hl b hb⟩,
      hfix fun b hb => ⟨hmem b (List.mem_append_right _ (List.mem_cons_of_mem _ hb)), hl' b hb⟩]
  rw [hrows, heq]
  simp only [List.countP_append, List.countP_cons]
  omega

/-- What a deletion of one row leaves. -/
theorem exists_filter_ne [DecidableEq κ] {t : Table key} {a : α} (ha : a ∈ t) :
    ∃ l l', t.rows = l ++ a :: l' ∧ (t.filter (key · ≠ key a)).rows = l ++ l' := by
  obtain ⟨l, l', heq, hl, hl'⟩ := exists_split ha
  refine ⟨l, l', heq, (congrArg (List.filter _) heq).trans ?_⟩
  rw [List.filter_append, List.filter_cons_of_neg (by simp),
    List.filter_eq_self.mpr fun b hb => decide_eq_true (hl b hb),
    List.filter_eq_self.mpr fun b hb => decide_eq_true (hl' b hb)]

/-- What a deletion of one row does to a count. -/
theorem countP_filter_ne [DecidableEq κ] {t : Table key} {a : α} (ha : a ∈ t) (p : α → Bool) :
    (t.filter (key · ≠ key a)).rows.countP p + (if p a then 1 else 0) = t.rows.countP p := by
  obtain ⟨l, l', heq, hrows⟩ := exists_filter_ne ha
  rw [hrows, heq]
  simp only [List.countP_append, List.countP_cons]
  omega

/-! ## Adding up over the rows -/

/-- What the rows weigh. -/
def sum (w : α → Nat) (t : Table key) : Nat := (t.rows.map w).sum

@[simp] theorem sum_empty (w : α → Nat) : (empty key).sum w = 0 := rfl

theorem sum_modify {f : α → α} {hf : ∀ a, key (f a) = key a} (w : α → Nat) (t : Table key) :
    (t.modify f hf).sum w = t.sum fun a => w (f a) :=
  congrArg List.sum List.map_map

theorem sum_congr {w w' : α → Nat} {t : Table key} (h : ∀ a ∈ t, w a = w' a) :
    t.sum w = t.sum w' := congrArg List.sum (List.map_congr_left h)

/-- A rewrite that clears every row, or none. -/
theorem sum_modify_clear {f : α → α} {hf : ∀ a, key (f a) = key a} {w : α → Nat} {t : Table key}
    {c : Prop} [Decidable c] (h : ∀ a ∈ t, w (f a) = if c then 0 else w a) :
    (t.modify f hf).sum w = if c then 0 else t.sum w := by
  rw [sum_modify, sum_congr h]
  split
  · simp [sum]
  · rfl

theorem sum_le_sum {w w' : α → Nat} {t : Table key} (h : ∀ a ∈ t, w a ≤ w' a) :
    t.sum w ≤ t.sum w' := List.sum_le_sum h

theorem sum_add (w w' : α → Nat) (t : Table key) :
    (t.sum fun a => w a + w' a) = t.sum w + t.sum w' := List.sum_map_add

/-- A deletion keeps what it keeps. -/
theorem sum_filter (p : α → Bool) (w : α → Nat) (t : Table key) :
    (t.filter p).sum w = t.sum fun a => if p a then w a else 0 := by
  have hrows : ∀ rows : List α,
      ((rows.filter p).map w).sum = (rows.map fun a => if p a then w a else 0).sum := by
    intro rows
    induction rows with
    | nil => rfl
    | cons a rows ih => by_cases hp : p a <;> simp [hp, ih]
  exact hrows t.rows

/-- What is kept and what is deleted. -/
theorem sum_filter_add (p : α → Bool) (w : α → Nat) (t : Table key) :
    (t.filter p).sum w + (t.filter fun a => !p a).sum w = t.sum w := by
  rw [sum_filter, sum_filter, ← sum_add]
  refine sum_congr fun a _ => ?_
  by_cases hp : p a <;> simp [hp]

/-- A deletion of one row takes it away. -/
theorem sum_filter_ne [DecidableEq κ] (w : α → Nat) {t : Table key} {a : α} (ha : a ∈ t) :
    (t.filter (key · ≠ key a)).sum w + w a = t.sum w := by
  obtain ⟨l, l', heq, hrows⟩ := exists_filter_ne ha
  simp only [sum, hrows, heq, List.map_append, List.map_cons, List.sum_append, List.sum_cons]
  omega

variable [DecidableEq κ]

/-! ## Looking up -/

def find? (t : Table key) (k : κ) : Option α := t.rows.find? fun a => key a = k

theorem find?_mem {t : Table key} {k : κ} {a : α} (h : t.find? k = some a) : a ∈ t :=
  List.mem_of_find?_eq_some h

theorem find?_key {t : Table key} {k : κ} {a : α} (h : t.find? k = some a) : key a = k := by
  simpa using List.find?_some h

theorem find?_eq_some_iff {t : Table key} {k : κ} {a : α} :
    t.find? k = some a ↔ a ∈ t ∧ key a = k := by
  constructor
  · exact fun h => ⟨find?_mem h, find?_key h⟩
  · rintro ⟨ha, rfl⟩
    rcases hf : t.find? (key a) with _ | b
    · have hne := List.find?_eq_none.mp hf a ha
      simp at hne
    · rw [eq_of_key (find?_mem hf) ha (find?_key hf)]

theorem find?_of_mem {t : Table key} {a : α} (h : a ∈ t) : t.find? (key a) = some a :=
  find?_eq_some_iff.mpr ⟨h, rfl⟩

theorem find?_eq_none_iff {t : Table key} {k : κ} : t.find? k = none ↔ ∀ a ∈ t, key a ≠ k := by
  unfold find?
  rw [List.find?_eq_none]
  exact forall₂_congr fun a _ => by simp

/-- A deletion that spares the rows of a key. -/
theorem find?_filter {p : α → Bool} {t : Table key} {k : κ}
    (h : ∀ a ∈ t, key a = k → p a = true) : (t.filter p).find? k = t.find? k := by
  rcases hf : t.find? k with _ | a
  · exact find?_eq_none_iff.mpr fun b hb => find?_eq_none_iff.mp hf b (mem_filter.mp hb).1
  · obtain ⟨ha, hk⟩ := find?_eq_some_iff.mp hf
    exact find?_eq_some_iff.mpr ⟨mem_filter.mpr ⟨ha, h a ha hk⟩, hk⟩

/-- A deletion of the rows of a key. -/
theorem find?_filter_none {p : α → Bool} {t : Table key} {k : κ}
    (h : ∀ a ∈ t, key a = k → p a = false) : (t.filter p).find? k = none := by
  refine find?_eq_none_iff.mpr fun a ha hk => ?_
  obtain ⟨ha, hp⟩ := mem_filter.mp ha
  rw [h a ha hk] at hp
  cases hp

/-! ## Upserts -/

/-- Replace the row of the same key, or append. -/
def put (t : Table key) (a : α) : Table key where
  rows := if t.rows.any (fun b => key b = key a) then
      t.rows.map fun b => if key b = key a then a else b
    else t.rows ++ [a]
  nodup := by
    split
    · next h =>
      have hmap : (t.rows.map fun b => if key b = key a then a else b).map key =
          t.rows.map key := by
        rw [List.map_map]
        refine List.map_congr_left fun b _ => ?_
        by_cases hb : key b = key a <;> simp [hb]
      rw [hmap]
      exact t.nodup
    · next h =>
      rw [List.map_append, List.nodup_append]
      refine ⟨t.nodup, List.nodup_singleton _, ?_⟩
      intro k hk l hl
      obtain ⟨b, hb, rfl⟩ := List.mem_map.mp hk
      obtain rfl := List.mem_singleton.mp hl
      intro heq
      exact h (List.any_eq_true.mpr ⟨b, hb, by simpa using heq⟩)

@[simp] theorem mem_put {t : Table key} {a b : α} :
    b ∈ t.put a ↔ b = a ∨ b ∈ t ∧ key b ≠ key a := by
  have hmem : b ∈ t.put a ↔ b ∈ if t.rows.any (fun b => key b = key a) then
      t.rows.map fun b => if key b = key a then a else b else t.rows ++ [a] := Iff.rfl
  rw [hmem]
  by_cases h : t.rows.any (fun b => key b = key a) = true
  · rw [if_pos h, List.mem_map]
    obtain ⟨c, hc, hk⟩ := List.any_eq_true.mp h
    constructor
    · rintro ⟨d, hd, rfl⟩
      by_cases hda : key d = key a
      · exact .inl (if_pos hda)
      · rw [if_neg hda]
        exact .inr ⟨hd, hda⟩
    · rintro (rfl | ⟨hb, hne⟩)
      · exact ⟨c, hc, if_pos (by simpa using hk)⟩
      · exact ⟨b, hb, by simp [hne]⟩
  · rw [if_neg h, List.mem_append, List.mem_singleton]
    have hfresh : ∀ c ∈ t, key c ≠ key a := by
      intro c hc heq
      exact h (List.any_eq_true.mpr ⟨c, hc, by simpa using heq⟩)
    constructor
    · rintro (hb | rfl)
      · exact .inr ⟨hb, hfresh b hb⟩
      · exact .inl rfl
    · rintro (rfl | ⟨hb, -⟩)
      · exact .inr rfl
      · exact .inl hb

/-- A row of a new key is appended. -/
theorem put_rows_of_fresh {t : Table key} {a : α} (h : ∀ b ∈ t, key b ≠ key a) :
    (t.put a).rows = t.rows ++ [a] := by
  refine if_neg fun hany => ?_
  obtain ⟨b, hb, hk⟩ := List.any_eq_true.mp hany
  exact h b hb (of_decide_eq_true hk)

/-- A row that is there may be written again. -/
theorem put_of_mem {t : Table key} {a : α} (h : a ∈ t) : t.put a = t := by
  refine ext_rows ((if_pos (List.any_eq_true.mpr ⟨a, h, by simp⟩)).trans ?_)
  refine (List.map_congr_left fun b hb => ?_).trans (List.map_id t.rows)
  split
  · next hk => exact (eq_of_key hb h hk).symm
  · rfl

/-- A row that is there, of the same key, is replaced. -/
theorem put_rows_of_any {t : Table key} {a : α} (h : ∃ b ∈ t, key b = key a) :
    (t.put a).rows = t.rows.map fun b => if key b = key a then a else b := by
  obtain ⟨b, hb, hk⟩ := h
  exact if_pos (List.any_eq_true.mpr ⟨b, hb, decide_eq_true hk⟩)

/-- Of two rows of one key, the second stays. -/
theorem put_put {t : Table key} {a b : α} (h : key a = key b) : (t.put a).put b = t.put b := by
  have hsecond : ((t.put a).put b).rows = (t.put a).rows.map fun c => if key c = key b then b else c :=
    put_rows_of_any ⟨a, mem_put.mpr (.inl rfl), h⟩
  refine ext_rows (hsecond.trans ?_)
  by_cases hany : ∃ c ∈ t, key c = key a
  · rw [put_rows_of_any hany, put_rows_of_any (h ▸ hany), List.map_map]
    refine List.map_congr_left fun c _ => ?_
    by_cases hc : key c = key b <;> simp [h, hc]
  · push Not at hany
    rw [put_rows_of_fresh hany, put_rows_of_fresh (h ▸ hany), List.map_append, List.map_singleton,
      if_pos h]
    congr 1
    exact (List.map_congr_left fun c hc => if_neg (h ▸ hany c hc)).trans (List.map_id _)

/-! ### What upserts weigh -/

/-- An upsert adds its row, and takes away the row it replaces. -/
theorem sum_put (w : α → Nat) (t : Table key) (a : α) :
    (t.put a).sum w + (t.find? (key a)).elim 0 w = t.sum w + w a := by
  rcases hf : t.find? (key a) with _ | b
  · have hrows : (t.put a).rows = t.rows ++ [a] :=
      put_rows_of_fresh fun b hb => find?_eq_none_iff.mp hf b hb
    simp [sum, hrows]
  · obtain ⟨hb, hk⟩ := find?_eq_some_iff.mp hf
    obtain ⟨l, l', heq, hl, hl'⟩ := exists_split hb
    have hother : ∀ {m : List α}, (∀ c ∈ m, key c ≠ key b) →
        (m.map fun c => if key c = key a then a else c) = m := fun hm =>
      (List.map_congr_left fun c hc => if_neg (hk ▸ hm c hc)).trans (List.map_id _)
    have hrows : (t.put a).rows = l ++ a :: l' := by
      rw [put_rows_of_any ⟨b, hb, hk⟩, heq, List.map_append, List.map_cons, hother hl, hother hl',
        if_pos hk]
    simp only [sum, hrows, heq, List.map_append, List.map_cons, List.sum_append, List.sum_cons,
      Option.elim_some]
    omega

theorem sum_put_le (w : α → Nat) (t : Table key) (a : α) : (t.put a).sum w ≤ t.sum w + w a := by
  have hput := sum_put w t a
  omega

/-! ### A run of upserts -/

theorem mem_of_mem_foldl_put {rows : List α} {t : Table key} {a : α} (h : a ∈ rows.foldl put t) :
    a ∈ rows ∨ a ∈ t := by
  induction rows generalizing t with
  | nil => exact .inr h
  | cons r rows ih =>
    rcases ih h with h | h
    · exact .inl (List.mem_cons_of_mem _ h)
    · rcases mem_put.mp h with rfl | ⟨h, -⟩
      · exact .inl List.mem_cons_self
      · exact .inr h

theorem mem_foldl_put_of_ne {rows : List α} {t : Table key} {a : α} (ha : a ∈ t)
    (h : ∀ r ∈ rows, key a ≠ key r) : a ∈ rows.foldl put t := by
  induction rows generalizing t with
  | nil => exact ha
  | cons r rows ih =>
    refine ih (mem_put.mpr (.inr ⟨ha, h r List.mem_cons_self⟩)) fun r' hr' => ?_
    exact h r' (List.mem_cons_of_mem _ hr')

/-- Every key that is written, or was there, is there. -/
theorem exists_mem_foldl_put {rows : List α} {t : Table key} {k : κ}
    (h : (∃ r ∈ rows, key r = k) ∨ ∃ a ∈ t, key a = k) : ∃ a ∈ rows.foldl put t, key a = k := by
  induction rows generalizing t with
  | nil =>
    rcases h with ⟨r, hr, -⟩ | h
    · exact absurd hr List.not_mem_nil
    · exact h
  | cons r rows ih =>
    refine ih ?_
    by_cases hr : key r = k
    · exact .inr ⟨r, mem_put.mpr (.inl rfl), hr⟩
    · rcases h with ⟨r', hr', hk⟩ | ⟨a, ha, hk⟩
      · rcases List.mem_cons.mp hr' with rfl | hr'
        · exact absurd hk hr
        · exact .inl ⟨r', hr', hk⟩
      · exact .inr ⟨a, mem_put.mpr (.inr ⟨ha, fun heq => hr (heq.symm.trans hk)⟩), hk⟩

theorem find?_put_self (t : Table key) (a : α) : (t.put a).find? (key a) = some a :=
  find?_eq_some_iff.mpr ⟨mem_put.mpr (.inl rfl), rfl⟩

theorem find?_put_of_ne {t : Table key} {a : α} {k : κ} (h : k ≠ key a) :
    (t.put a).find? k = t.find? k := by
  rcases hf : t.find? k with _ | b
  · refine find?_eq_none_iff.mpr fun b hb => ?_
    rcases mem_put.mp hb with rfl | ⟨hb, -⟩
    · exact h.symm
    · exact find?_eq_none_iff.mp hf b hb
  · obtain ⟨hb, rfl⟩ := find?_eq_some_iff.mp hf
    exact find?_eq_some_iff.mpr ⟨mem_put.mpr (.inr ⟨hb, h⟩), rfl⟩

/-- Rewriting rows rewrites the row that is found. -/
theorem find?_modify {f : α → α} {hf : ∀ a, key (f a) = key a} (t : Table key) (k : κ) :
    (t.modify f hf).find? k = (t.find? k).map f := by
  rcases h : t.find? k with _ | a
  · refine find?_eq_none_iff.mpr fun b hb => ?_
    obtain ⟨a, ha, rfl⟩ := mem_modify.mp hb
    rw [hf]
    exact find?_eq_none_iff.mp h a ha
  · exact find?_eq_some_iff.mpr
      ⟨mem_modify.mpr ⟨a, find?_mem h, rfl⟩, (hf a).trans (find?_key h)⟩

theorem find?_modifyM {ε : Type} {f : α → Except ε α} {hf : ∀ a b, f a = .ok b → key b = key a}
    {t t' : Table key} (h : t.modifyM f hf = .ok t') {k : κ} {a : α} (ha : t.find? k = some a) :
    ∃ b, f a = .ok b ∧ t'.find? k = some b := by
  obtain ⟨b, hb, hfab⟩ := modifyM_mem h (find?_mem ha)
  exact ⟨b, hfab, find?_eq_some_iff.mpr ⟨hb, (hf a b hfab).trans (find?_key ha)⟩⟩

theorem find?_modifyM_none {ε : Type} {f : α → Except ε α}
    {hf : ∀ a b, f a = .ok b → key b = key a} {t t' : Table key}
    (h : t.modifyM f hf = .ok t') {k : κ} (hnone : t.find? k = none) : t'.find? k = none := by
  refine find?_eq_none_iff.mpr fun b hb => ?_
  obtain ⟨a, ha, hfab⟩ := mem_of_modifyM h hb
  rw [hf a b hfab]
  exact find?_eq_none_iff.mp hnone a ha

end Table

end Minireg.Lib
