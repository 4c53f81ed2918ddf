import Mathlib.Logic.Function.Basic

/-!
# Transactions at read committed

Transactions that write one row each of one table. A flush takes the lock of the row and shows the
transaction the table with its own write applied; the commit applies the write to the table as it is
by then. Between the two, what others commit is not what the transaction was shown, but for the row
it holds the lock of (`Sound.own`). Ids come from a sequence and are not used again.
-/

namespace Minireg.Lib.Transactions

variable {α : Type} {key : α → Nat}

/-- A write of one row. -/
inductive Write (key : α → Nat) where
  | insert (row : Nat → α) (keyed : ∀ n, key (row n) = n)
  | update (id : Nat) (change : α → α) (keyed : ∀ r, key (change r) = key r)
  | delete (id : Nat)

namespace Write

/-- The row whose lock the write takes. -/
def target : Write key → Option Nat
  | .insert _ _ => none
  | .update id _ _ => some id
  | .delete id => some id

/-- The table after the write. -/
def apply (next : Nat) (rows : List α) : Write key → List α
  | .insert row _ => rows ++ [row next]
  | .update id change _ => rows.map fun r => if key r = id then change r else r
  | .delete id => rows.filter fun r => key r ≠ id

variable {w : Write key} {next : Nat} {rows rows' : List α} {r : α}

@[simp] theorem mem_apply_insert {row : Nat → α} {keyed : ∀ n, key (row n) = n} :
    r ∈ (insert row keyed : Write key).apply next rows ↔ r ∈ rows ∨ r = row next := by
  simp [apply]

@[simp] theorem mem_apply_update {id : Nat} {change : α → α}
    {keyed : ∀ r, key (change r) = key r} :
    r ∈ (update id change keyed : Write key).apply next rows ↔
      ∃ s ∈ rows, (if key s = id then change s else s) = r := by
  simp [apply]

@[simp] theorem mem_apply_delete {id : Nat} :
    r ∈ (delete id : Write key).apply next rows ↔ r ∈ rows ∧ key r ≠ id := by
  simp [apply]

/-- A write leaves every row alone but its own. -/
theorem mem_apply_of_ne (hne : w.target ≠ some (key r)) (hnew : key r ≠ next) :
    r ∈ w.apply next rows ↔ r ∈ rows := by
  cases w with
  | insert row keyed =>
    rw [mem_apply_insert, or_iff_left]
    rintro rfl
    exact hnew (keyed next)
  | update id change keyed =>
    have hid : id ≠ key r := fun h => hne (congrArg some h)
    rw [mem_apply_update]
    constructor
    · rintro ⟨s, hs, hsr⟩
      split at hsr
      · next hkey => exact absurd (by rw [← hsr, keyed, hkey]) hid
      · exact hsr ▸ hs
    · exact fun hr => ⟨r, hr, if_neg fun hkey => hid hkey.symm⟩
  | delete id =>
    rw [mem_apply_delete, and_iff_left]
    exact fun hkey => hne (congrArg some hkey.symm)

/-- What a write makes of a row depends on the rows of that id only. -/
theorem mem_apply_congr {next' : Nat} (htarget : w.target = some (key r))
    (hrows : ∀ s, key s = key r → (s ∈ rows ↔ s ∈ rows')) :
    r ∈ w.apply next rows ↔ r ∈ w.apply next' rows' := by
  cases w with
  | insert row keyed => cases htarget
  | update id change keyed =>
    obtain rfl := Option.some.inj htarget
    have hside : ∀ {xs ys : List α}, (∀ s, key s = key r → (s ∈ xs ↔ s ∈ ys)) →
        (∃ s ∈ xs, (if key s = key r then change s else s) = r) →
        ∃ s ∈ ys, (if key s = key r then change s else s) = r := by
      rintro xs ys hxs ⟨s, hs, hsr⟩
      refine ⟨s, (hxs s ?_).mp hs, hsr⟩
      split at hsr
      · next hkey => exact hkey
      · exact congrArg key hsr
    rw [mem_apply_update, mem_apply_update]
    exact ⟨hside hrows, hside fun s hs => (hrows s hs).symm⟩
  | delete id => rw [mem_apply_delete, mem_apply_delete, hrows r rfl]

/-- The ids after a write come from before or from the sequence. -/
theorem key_of_mem_apply (h : r ∈ w.apply next rows) :
    key r = next ∨ ∃ s ∈ rows, key s = key r := by
  cases w with
  | insert row keyed =>
    rcases mem_apply_insert.mp h with h | rfl
    · exact .inr ⟨r, h, rfl⟩
    · exact .inl (keyed next)
  | update id change keyed =>
    obtain ⟨s, hs, rfl⟩ := mem_apply_update.mp h
    refine .inr ⟨s, hs, ?_⟩
    split
    · exact (keyed s).symm
    · rfl
  | delete id => exact .inr ⟨r, (mem_apply_delete.mp h).1, rfl⟩

/-- Ids that are not used twice are not used twice after a write. -/
theorem eq_of_key_apply (hids : ∀ r ∈ rows, key r < next)
    (hunique : ∀ r ∈ rows, ∀ s ∈ rows, key r = key s → r = s) {s : α}
    (hr : r ∈ w.apply next rows) (hs : s ∈ w.apply next rows) (hkey : key r = key s) : r = s := by
  cases w with
  | insert row keyed =>
    rcases mem_apply_insert.mp hr with hr | rfl <;> rcases mem_apply_insert.mp hs with hs | rfl
    · exact hunique r hr s hs hkey
    · exact absurd (hkey.trans (keyed next)) (Nat.ne_of_lt (hids r hr))
    · exact absurd (hkey.symm.trans (keyed next)) (Nat.ne_of_lt (hids s hs))
    · rfl
  | update id change keyed =>
    obtain ⟨r', hr', rfl⟩ := mem_apply_update.mp hr
    obtain ⟨s', hs', rfl⟩ := mem_apply_update.mp hs
    have hkeyed : ∀ r, key (if key r = id then change r else r) = key r := fun r => by
      split
      · exact keyed r
      · rfl
    rw [hkeyed, hkeyed] at hkey
    rw [hunique r' hr' s' hs' hkey]
  | delete id =>
    exact hunique r (mem_apply_delete.mp hr).1 s (mem_apply_delete.mp hs).1 hkey

end Write

/-- A transaction that has flushed its write, and what it was shown. -/
structure Open (key : α → Nat) where
  write : Write key
  view : List α

/-- A table and the transactions on it. -/
structure Txns (key : α → Nat) where
  rows : List α := []
  next : Nat := 1
  /-- The transaction that holds the lock of a row. -/
  locks : Nat → Option Nat := fun _ => none
  opened : Nat → Option (Open key) := fun _ => none

namespace Txns

variable (t : Txns key)

def lock (id : Option Nat) (holder : Option Nat) : Nat → Option Nat :=
  match id with
  | none => t.locks
  | some id => Function.update t.locks id holder

/-- A flush waits for the lock of its row. -/
def flush (i : Nat) (w : Write key) : Option (Txns key) :=
  if (t.opened i).isSome || w.target.any fun id => decide (t.next ≤ id) || (t.locks id).isSome then
    none
  else some
    { t with
      locks := t.lock w.target (some i)
      opened := Function.update t.opened i (some { write := w, view := w.apply t.next t.rows }) }

def rollback (i : Nat) : Txns key :=
  match t.opened i with
  | none => t
  | some o =>
    { t with
      locks := t.lock o.write.target none
      opened := Function.update t.opened i none }

def commit (i : Nat) : Option (Txns key) :=
  (t.opened i).map fun o =>
    { rows := o.write.apply t.next t.rows
      next := t.next + 1
      locks := t.lock o.write.target none
      opened := Function.update t.opened i none }

/-- Every open transaction holds the lock of its row, and will leave that row as it was shown. -/
structure Sound : Prop where
  ids : ∀ r ∈ t.rows, key r < t.next
  unique : ∀ r ∈ t.rows, ∀ s ∈ t.rows, key r = key s → r = s
  locked : ∀ i o id, t.opened i = some o → o.write.target = some id →
    t.locks id = some i ∧ id < t.next
  own : ∀ i o r, t.opened i = some o → o.write.target = some (key r) →
    (r ∈ o.view ↔ r ∈ o.write.apply t.next t.rows)

variable {t} {t' : Txns key} {i : Nat} {w : Write key}

theorem lock_of_ne {id : Option Nat} {holder : Option Nat} {n : Nat} (h : id ≠ some n) :
    t.lock id holder n = t.locks n := by
  cases id with
  | none => rfl
  | some id => exact Function.update_of_ne (fun hn => h (congrArg some hn.symm)) _ _

theorem lock_self {n : Nat} {holder : Option Nat} : t.lock (some n) holder n = holder :=
  Function.update_self _ _ _

/-- What a flush needs and gives. -/
theorem flush_some (h : t.flush i w = some t') :
    t.opened i = none ∧ (∀ id, w.target = some id → id < t.next ∧ t.locks id = none) ∧
      t' = { t with
        locks := t.lock w.target (some i)
        opened := Function.update t.opened i
          (some { write := w, view := w.apply t.next t.rows }) } := by
  unfold flush at h
  split at h
  · cases h
  · next hfree =>
    rw [Bool.not_eq_true, Bool.or_eq_false_iff, Option.isSome_eq_false_iff,
      Option.isNone_iff_eq_none] at hfree
    refine ⟨hfree.1, fun id hid => ?_, (Option.some.inj h).symm⟩
    have hrow := hfree.2
    rw [hid] at hrow
    simpa using hrow

theorem Sound.flush (h : t.Sound) (hflush : t.flush i w = some t') : t'.Sound := by
  obtain ⟨-, hfree, rfl⟩ := flush_some hflush
  refine ⟨h.ids, h.unique, fun j o id hj htarget => ?_, fun j o r hj htarget => ?_⟩
  · by_cases hji : j = i
    · subst hji
      simp only [Function.update_self, Option.some.injEq] at hj
      subst hj
      dsimp only at htarget ⊢
      rw [htarget]
      exact ⟨lock_self, (hfree id htarget).1⟩
    · simp only [Function.update_of_ne hji] at hj
      obtain ⟨hlock, hlt⟩ := h.locked j o id hj htarget
      refine ⟨?_, hlt⟩
      dsimp only
      -- the lock it takes was free, so it is another one
      rw [lock_of_ne fun hid => ?_]
      · exact hlock
      · rw [(hfree id hid).2] at hlock
        cases hlock
  · by_cases hji : j = i
    · subst hji
      simp only [Function.update_self, Option.some.injEq] at hj
      subst hj
      exact Iff.rfl
    · simp only [Function.update_of_ne hji] at hj
      exact h.own j o r hj htarget

/-- Transactions that are open at once hold different rows. -/
theorem Sound.target_ne (h : t.Sound) {j : Nat} {o p : Open key} (hi : t.opened i = some o)
    (hj : t.opened j = some p) (hji : j ≠ i) {id : Nat} (hp : p.write.target = some id) :
    o.write.target ≠ some id := by
  intro ho
  have hlock := (h.locked i o id hi ho).1
  rw [(h.locked j p id hj hp).1] at hlock
  exact hji (Option.some.inj hlock)

theorem Sound.rollback (h : t.Sound) : (t.rollback i).Sound := by
  unfold Txns.rollback
  split
  · exact h
  · next o hi =>
    refine ⟨h.ids, h.unique, fun j p id hj htarget => ?_, fun j p r hj htarget => ?_⟩
    · by_cases hji : j = i
      · subst hji
        simp only [Function.update_self] at hj
        cases hj
      · simp only [Function.update_of_ne hji] at hj
        dsimp only
        rw [lock_of_ne (h.target_ne hi hj hji htarget)]
        exact h.locked j p id hj htarget
    · by_cases hji : j = i
      · subst hji
        simp only [Function.update_self] at hj
        cases hj
      · simp only [Function.update_of_ne hji] at hj
        exact h.own j p r hj htarget

/-- What a commit needs and gives. -/
theorem commit_some (h : t.commit i = some t') :
    ∃ o, t.opened i = some o ∧ t'.rows = o.write.apply t.next t.rows ∧ t'.next = t.next + 1 ∧
      t'.locks = t.lock o.write.target none ∧ t'.opened = Function.update t.opened i none := by
  obtain ⟨o, hi, rfl⟩ := Option.map_eq_some_iff.mp h
  exact ⟨o, hi, rfl, rfl, rfl, rfl⟩

/-- The ids stay below the sequence. -/
theorem Sound.ids_apply (h : t.Sound) {r : α} (hr : r ∈ w.apply t.next t.rows) :
    key r < t.next + 1 := by
  rcases Write.key_of_mem_apply hr with hkey | ⟨s, hs, hkey⟩
  · exact hkey ▸ Nat.lt_succ_self _
  · exact hkey ▸ Nat.lt_succ_of_lt (h.ids s hs)

theorem Sound.commit (h : t.Sound) (hcommit : t.commit i = some t') : t'.Sound := by
  obtain ⟨o, hi, hrows, hnext, hlocks, hopened⟩ := commit_some hcommit
  refine ⟨fun r hr => ?_, fun r hr s hs => ?_, fun j p id hj htarget => ?_,
    fun j p r hj htarget => ?_⟩
  · rw [hrows] at hr
    rw [hnext]
    exact h.ids_apply hr
  · rw [hrows] at hr hs
    exact Write.eq_of_key_apply h.ids h.unique hr hs
  · rw [hopened] at hj
    by_cases hji : j = i
    · subst hji
      rw [Function.update_self] at hj
      cases hj
    · rw [Function.update_of_ne hji] at hj
      obtain ⟨hlock, hlt⟩ := h.locked j p id hj htarget
      rw [hlocks, hnext, lock_of_ne (h.target_ne hi hj hji htarget)]
      exact ⟨hlock, Nat.lt_succ_of_lt hlt⟩
  · rw [hopened] at hj
    by_cases hji : j = i
    · subst hji
      rw [Function.update_self] at hj
      cases hj
    · rw [Function.update_of_ne hji] at hj
      have hlt := (h.locked j p _ hj htarget).2
      rw [h.own j p r hj htarget, hrows]
      refine Write.mem_apply_congr htarget fun s hs => ?_
      -- the row that is committed is another one
      refine (Write.mem_apply_of_ne ?_ ?_).symm
      · exact h.target_ne hi hj hji (hs ▸ htarget)
      · exact hs ▸ Nat.ne_of_lt hlt

end Txns

end Minireg.Lib.Transactions
