import Mathlib.Data.List.Basic

/-!
# A fair lock of a cooperative scheduler

`FairLock α`: a flag and the queue of the tasks that wait for it, each behind a future.
A release wakes the first waiter, which takes the lock when it runs; in between the lock
is free and nobody else may take it. A waiter whose task is cancelled leaves the queue
when it runs and passes its turn on. `Sound` is what every operation keeps.
-/

namespace Minireg.Lib

/-- The future a waiter waits on. -/
inductive Fut where
  | pending
  | woken
  | cancelled
  deriving DecidableEq

structure Waiter (α : Type*) where
  task : α
  fut : Fut := .pending
  deriving DecidableEq

structure FairLock (α : Type*) where
  locked : Bool := false
  waiters : List (Waiter α) := []
  deriving DecidableEq

namespace FairLock

variable {α : Type*} (l : FairLock α) (t : α)

/-- Whether `acquire` takes the lock at once. -/
def free : Bool := !l.locked && l.waiters.all (·.fut = .cancelled)

def take : FairLock α := { l with locked := true }

/-- `acquire` has to wait. -/
def queue : FairLock α := { l with waiters := l.waiters ++ [{ task := t }] }

/-- The first waiter will run, unless its future is done already. -/
def wakeUpFirst : FairLock α :=
  match l.waiters with
  | [] => l
  | w :: ws => if w.fut = .pending then { l with waiters := { w with fut := .woken } :: ws } else l

def release : FairLock α := { l with locked := false }.wakeUpFirst

/-! ## The invariant -/

/-- Only the first waiter of a free lock may be woken, and it is not left asleep. -/
structure Sound : Prop where
  tail : ∀ w ∈ l.waiters.tail, w.fut ≠ .woken
  locked : l.locked → ∀ w ∈ l.waiters, w.fut ≠ .woken
  ready : l.locked = false → ∀ w ∈ l.waiters.head?, w.fut ≠ .pending

theorem sound_new : ({} : FairLock α).Sound :=
  ⟨by simp, by simp, by simp⟩

variable {l t}

@[simp] theorem take_locked : l.take.locked = true := rfl

@[simp] theorem queue_locked : (l.queue t).locked = l.locked := rfl

@[simp] theorem wakeUpFirst_locked : l.wakeUpFirst.locked = l.locked := by
  unfold wakeUpFirst
  split
  · rfl
  · split <;> rfl

@[simp] theorem release_locked : l.release.locked = false := wakeUpFirst_locked

theorem free_unlocked (h : l.free) : l.locked = false := by
  simp only [free, Bool.and_eq_true, Bool.not_eq_true'] at h
  exact h.1

/-- Waking the first waiter of a free lock, of which no other is woken, makes it sound. -/
theorem sound_wakeUpFirst (hl : l.locked = false) (ht : ∀ w ∈ l.waiters.tail, w.fut ≠ .woken) :
    l.wakeUpFirst.Sound := by
  unfold wakeUpFirst
  split
  case h_1 hw => exact ⟨ht, by simp [hl], by simp [hw]⟩
  case h_2 w ws hw =>
    rw [hw] at ht
    split
    · exact ⟨ht, by simp [hl], by simp⟩
    · rename_i hp
      exact ⟨hw ▸ ht, by simp [hl], fun _ => by simpa [hw] using hp⟩

theorem Sound.take (h : l.Sound) (hf : l.free) : l.take.Sound := by
  have hall : ∀ w ∈ l.waiters, w.fut ≠ .woken := by
    intro w hw
    simp only [free, Bool.and_eq_true, List.all_eq_true, decide_eq_true_eq] at hf
    simp [hf.2 w hw]
  exact ⟨h.tail, fun _ => hall, by simp⟩

theorem Sound.queue (h : l.Sound) (hf : l.free = false) : (l.queue t).Sound := by
  rcases hw : l.waiters with _ | ⟨w, ws⟩
  · -- nobody waits, so the lock is held
    have hl : l.locked = true := by simpa [free, hw] using hf
    exact ⟨by simp [FairLock.queue, hw], by simp [FairLock.queue, hw], by simp [hl]⟩
  · have ht := h.tail
    have hlocked := h.locked
    have hready := h.ready
    rw [hw] at ht hlocked hready
    refine ⟨?_, ?_, ?_⟩
    · intro v hv
      simp only [FairLock.queue, hw, List.cons_append, List.tail_cons, List.mem_append,
        List.mem_singleton] at hv
      rcases hv with hv | rfl
      · exact ht v hv
      · simp
    · intro hl v hv
      simp only [FairLock.queue, hw, List.mem_append, List.mem_singleton] at hv
      rcases hv with hv | rfl
      · exact hlocked hl v hv
      · simp
    · intro hl v hv
      exact hready hl v (by simpa [FairLock.queue, hw] using hv)

theorem Sound.release (h : l.Sound) : l.release.Sound :=
  sound_wakeUpFirst rfl h.tail

/-! ## One waiter -/

section

variable [DecidableEq α]

variable (l t)

/-- The future of a waiting task. -/
def futOf : Option Fut := (l.waiters.find? (·.task = t)).map Waiter.fut

/-- The waiter of a task is removed. -/
def drop : FairLock α := { l with waiters := l.waiters.eraseP (·.task = t) }

/-- A woken waiter runs and takes the lock. -/
def resume : FairLock α := { l.drop t with locked := true }

/-- A cancelled waiter runs and leaves. -/
def unwind : FairLock α := if l.locked then l.drop t else (l.drop t).wakeUpFirst

/-- A waiting task is cancelled. A future that is done stays as it is. -/
def cancel : FairLock α :=
  { l with
    waiters := l.waiters.map fun w =>
      if w.task = t ∧ w.fut = .pending then { w with fut := .cancelled } else w }

variable {l t}

@[simp] theorem drop_locked : (l.drop t).locked = l.locked := rfl

@[simp] theorem resume_locked : (l.resume t).locked = true := rfl

@[simp] theorem cancel_locked : (l.cancel t).locked = l.locked := rfl

@[simp] theorem unwind_locked : (l.unwind t).locked = l.locked := by
  unfold unwind
  split <;> simp

/-- Removing a waiter leaves every waiter behind the first where it was. -/
theorem mem_tail_drop {w : Waiter α} (h : w ∈ (l.drop t).waiters.tail) : w ∈ l.waiters.tail := by
  rcases hw : l.waiters with _ | ⟨v, vs⟩
  · simp [drop, hw] at h
  · simp only [drop, hw, List.eraseP_cons, cond_eq_ite] at h
    split at h
    · exact List.mem_of_mem_tail h
    · exact List.mem_of_mem_eraseP h

theorem Sound.unwind (h : l.Sound) : (l.unwind t).Sound := by
  have ht : ∀ w ∈ (l.drop t).waiters.tail, w.fut ≠ .woken := fun w hw => h.tail w (mem_tail_drop hw)
  unfold FairLock.unwind
  split
  case isTrue hl =>
    exact ⟨ht, fun _ w hw => h.locked hl w (List.mem_of_mem_eraseP hw), by simp [hl]⟩
  case isFalse hl => exact sound_wakeUpFirst (by simpa using hl) ht

/-- A woken waiter is the first, and the lock is free. -/
theorem Sound.woken (h : l.Sound) (hf : l.futOf t = some .woken) :
    l.locked = false ∧ ∀ w ∈ (l.drop t).waiters, w.fut ≠ .woken := by
  simp only [futOf, Option.map_eq_some_iff] at hf
  obtain ⟨w, hfind, hwoken⟩ := hf
  have hmem := List.mem_of_find?_eq_some hfind
  refine ⟨?_, ?_⟩
  · by_contra hl
    exact h.locked (by simpa using hl) w hmem hwoken
  · rcases hw : l.waiters with _ | ⟨v, vs⟩
    · simp [hw] at hmem
    · have ht := h.tail
      rw [hw] at ht hmem hfind
      have hv : v.task = t := by
        by_contra hv
        rw [List.find?_cons_of_neg (by simpa using hv)] at hfind
        exact ht w (List.mem_of_find?_eq_some hfind) hwoken
      simpa [drop, hw, hv] using ht

theorem Sound.resume (h : l.Sound) (hf : l.futOf t = some .woken) : (l.resume t).Sound :=
  ⟨fun w hw => h.tail w (mem_tail_drop hw), fun _ => (h.woken hf).2, by simp⟩

theorem Sound.cancel (h : l.Sound) : (l.cancel t).Sound := by
  have hfut : ∀ w : Waiter α, (if w.task = t ∧ w.fut = .pending then { w with fut := .cancelled }
      else w).fut = .woken → w.fut = .woken := by
    intro w
    split <;> simp
  refine ⟨?_, ?_, ?_⟩
  · intro w hw hwoken
    simp only [FairLock.cancel, ← List.map_tail, List.mem_map] at hw
    obtain ⟨v, hv, rfl⟩ := hw
    exact h.tail v hv (hfut v hwoken)
  · intro hl w hw hwoken
    simp only [FairLock.cancel, List.mem_map] at hw
    obtain ⟨v, hv, rfl⟩ := hw
    exact h.locked hl v hv (hfut v hwoken)
  · intro hl w hw
    simp only [FairLock.cancel, List.head?_map, Option.mem_def, Option.map_eq_some_iff] at hw
    obtain ⟨v, hv, rfl⟩ := hw
    have := h.ready hl v hv
    split <;> simp_all

end

end FairLock

end Minireg.Lib
