import Mathlib.Data.Finset.Card
import Mathlib.Logic.Function.Basic
import Minireg.Lib.FairLock

/-!
# The herd guard

`herd_guard` on one key: the tasks of a process, the entries `[lock, users]` of
`_local_locks` and the awaits of `__aenter__` and `__aexit__`. Every step runs one task
from an await to the next. The shared cache answers as it likes, and a task may be
cancelled at every await.
-/

namespace Minireg.Herd

open Lib

/-! ## Guards and entries -/

/-- The await a task is at. -/
inductive Point where
  | outside
  /-- `await lock.acquire()` -/
  | queued
  /-- `await _redis.ping()` in `init_redis` -/
  | pinging
  /-- `await client.set(…)`, with `left` attempts after this one. -/
  | setting (left : ℕ)
  /-- `await asyncio.sleep(0.1)` -/
  | sleeping (left : ℕ)
  /-- The guarded body, with what `__aenter__` returned. -/
  | body (taken : Bool)
  /-- `await client.eval(…)` in `__aexit__` -/
  | releasing
  deriving DecidableEq

/-- The `herd_guard` of a task. -/
structure Guard where
  point : Point := .outside
  wait : Bool := true
  ttl : Int := 30
  entry : Option ℕ := none
  heldLocal : Bool := false
  heldRemote : Bool := false
  /-- The task was cancelled when its future was done already. -/
  mustCancel : Bool := false
  deriving DecidableEq

/-- `[lock, users]`. -/
structure Entry where
  lock : FairLock ℕ := {}
  users : Int := 0
  deriving DecidableEq

/-- The entries made so far, the one `_local_locks` holds for the key, and the tasks. -/
structure State where
  entries : ℕ → Entry := fun _ => {}
  next : ℕ := 0
  localLock : Option ℕ := none
  guards : ℕ → Guard := fun _ => {}

/-- What `ensure_redis` does: no client, a client at once, or a connect. -/
inductive Client where
  | down
  | up
  | connecting
  deriving DecidableEq

/-- How `client.set(nx=True)` ends. -/
inductive Reply where
  | taken
  | refused
  | raised
  deriving DecidableEq

namespace Guard

variable (g : Guard)

/-- The attempts after the first. -/
def attempts : ℕ := (max 1 (if g.wait then g.ttl * 10 else 1)).toNat - 1

/-- `__aenter__` from `ensure_redis` on. -/
def ensured (client : Client) : Guard :=
  match client with
  | .down => { g with point := .body true }
  | .up => { g with point := .setting g.attempts }
  | .connecting => { g with point := .pinging }

end Guard

namespace State

variable (s : State) (t : ℕ)

def setEntry (e : ℕ) (x : Entry) : State := { s with entries := Function.update s.entries e x }

def setGuard (g : Guard) : State := { s with guards := Function.update s.guards t g }

/-- `_enter_local`. -/
def enterLocal (wait : Bool) (ttl : Int) : State :=
  match s.localLock with
  | some e =>
    (s.setEntry e { s.entries e with users := (s.entries e).users + 1 }).setGuard t
      { point := .queued, wait := wait, ttl := ttl, entry := some e }
  | none =>
    ({ s with next := s.next + 1, localLock := some s.next }.setEntry s.next { users := 1 }).setGuard t
      { point := .queued, wait := wait, ttl := ttl, entry := some s.next }

/-- `_leave_local`; the guard is not used again. -/
def leaveLocal : State :=
  match (s.guards t).entry with
  | none => s.setGuard t {}
  | some e =>
    let x := { s.entries e with users := (s.entries e).users - 1 }
    let s := (s.setEntry e x).setGuard t {}
    if x.users ≤ 0 ∧ s.localLock = some e then { s with localLock := none } else s

/-- A step of a task with its entry. -/
def onEntry (f : Guard → Entry → Guard × Entry) : State :=
  match (s.guards t).entry with
  | none => s
  | some e =>
    let (g, x) := f (s.guards t) (s.entries e)
    (s.setEntry e x).setGuard t g

/-- `__aenter__` from the entry to the next await. -/
def acquire (client : Client) : State :=
  s.onEntry t fun g x =>
    if !g.wait && x.lock.locked then ({ g with point := .body false }, x)
    else if x.lock.free then
      ({ g with heldLocal := true }.ensured client, { x with lock := x.lock.take })
    else ({ g with point := .queued }, { x with lock := x.lock.queue t })

/-- `__aexit__` after the remote lock. A lock that is not held cannot be released. -/
def exitLocal : State :=
  match (s.guards t).entry with
  | none => s.leaveLocal t
  | some e =>
    let x := s.entries e
    if !(s.guards t).heldLocal then s.leaveLocal t
    else if !x.lock.locked then s.setGuard t {}
    else (s.setEntry e { x with lock := x.lock.release }).leaveLocal t

/-- `__aexit__`; `reachable` is whether `redis_client` has a client. -/
def aexit (reachable : Bool) : State :=
  let g := s.guards t
  if g.heldRemote && reachable then s.setGuard t { g with point := .releasing, heldRemote := false }
  else s.exitLocal t

/-- A queued task is cancelled. -/
def cancelQueued : State :=
  s.onEntry t fun g x =>
    ({ g with mustCancel := g.mustCancel || x.lock.futOf t ≠ some .pending },
     { x with lock := x.lock.cancel t })

/-- What the waiting task runs into: its turn, or its cancellation. -/
def fut : Option Fut := (s.guards t).entry.bind fun e => (s.entries e).lock.futOf t

variable {s t} {e : ℕ} {g : Guard} {x : Entry}

@[simp] theorem setGuard_entries : (s.setGuard t g).entries = s.entries := rfl

@[simp] theorem setGuard_next : (s.setGuard t g).next = s.next := rfl

@[simp] theorem setGuard_localLock : (s.setGuard t g).localLock = s.localLock := rfl

@[simp] theorem setEntry_guards : (s.setEntry e x).guards = s.guards := rfl

@[simp] theorem setEntry_next : (s.setEntry e x).next = s.next := rfl

@[simp] theorem setEntry_localLock : (s.setEntry e x).localLock = s.localLock := rfl

@[simp] theorem setEntry_entry : (s.setEntry e x).entries e = x := Function.update_self ..

theorem setEntry_of_ne {e' : ℕ} (h : e' ≠ e) : (s.setEntry e x).entries e' = s.entries e' :=
  Function.update_of_ne h ..

theorem setEntry_self : s.setEntry e (s.entries e) = s := by
  simp [setEntry]

theorem setGuard_self : s.setGuard t (s.guards t) = s := by
  simp [setGuard]

theorem setGuard_guards (u : ℕ) :
    (s.setGuard t g).guards u = if u = t then g else s.guards u :=
  Function.update_apply ..

/-- `onEntry` where the task has an entry. -/
theorem onEntry_eq {f : Guard → Entry → Guard × Entry} (h : (s.guards t).entry = some e) :
    s.onEntry t f =
      (s.setEntry e (f (s.guards t) (s.entries e)).2).setGuard t (f (s.guards t) (s.entries e)).1 := by
  simp only [onEntry, h]

/-- `leaveLocal` where the task has the entry of the key, of which it set the lock. -/
theorem leaveLocal_eq {l : FairLock ℕ} (hl : s.localLock = some e)
    (he : (s.guards t).entry = some e) :
    (s.setEntry e { s.entries e with lock := l }).leaveLocal t =
      { (s.setEntry e { lock := l, users := (s.entries e).users - 1 }).setGuard t {} with
        localLock := if (s.entries e).users - 1 ≤ 0 then none else some e } := by
  simp only [leaveLocal, setEntry, setGuard, he, hl, Function.update_self, Function.update_idem,
    and_true]
  split <;> rfl

end State

/-! ## Steps -/

inductive Action where
  | enter (t : ℕ) (wait : Bool) (ttl : Int) (client : Client)
  /-- The lock is the task's. -/
  | wake (t : ℕ) (client : Client)
  /-- The cancelled task leaves the queue. -/
  | unwind (t : ℕ)
  | cancel (t : ℕ) (reachable : Bool)
  | pinged (t : ℕ) (answers : Bool)
  | answered (t : ℕ) (reply : Reply)
  | slept (t : ℕ)
  /-- The body ends: it returns, raises or is cancelled. -/
  | exit (t : ℕ) (reachable : Bool)
  | evaled (t : ℕ)

/-- `cancel` of a task at its await: `CancelledError` is raised there. -/
def cancelAt (s : State) (t : ℕ) (reachable : Bool) : Option State :=
  match (s.guards t).point with
  | .outside | .body _ => none
  | .queued => some (s.cancelQueued t)
  -- `ensure_redis` stands before the `try`
  | .pinging => some (s.setGuard t {})
  | .setting _ | .sleeping _ => some (s.aexit t reachable)
  -- `CancelledError` is no `Exception`, so nothing suppresses it
  | .releasing => some (s.setGuard t {})

def step (s : State) (a : Action) : Option State :=
  match a with
  | .enter t wait ttl client =>
    if (s.guards t).point = .outside then some ((s.enterLocal t wait ttl).acquire t client) else none
  | .wake t client =>
    if (s.guards t).point = .queued ∧ s.fut t = some .woken ∧ (s.guards t).mustCancel = false then
      some (s.onEntry t fun g x =>
        ({ g with heldLocal := true }.ensured client, { x with lock := x.lock.resume t }))
    else none
  | .unwind t =>
    if (s.guards t).point = .queued ∧
        (s.fut t = some .cancelled ∨ s.fut t = some .woken ∧ (s.guards t).mustCancel = true) then
      some ((s.onEntry t fun g x => (g, { x with lock := x.lock.unwind t })).leaveLocal t)
    else none
  | .cancel t reachable => cancelAt s t reachable
  | .pinged t answers =>
    if (s.guards t).point = .pinging then
      some (s.setGuard t ((s.guards t).ensured (if answers then .up else .down)))
    else none
  | .answered t reply =>
    match (s.guards t).point, reply with
    | .setting _, .taken =>
      some (s.setGuard t { s.guards t with point := .body true, heldRemote := true })
    | .setting left, .refused =>
      some (s.setGuard t { s.guards t with
        point := if (s.guards t).wait then .sleeping left else .body false })
    | .setting _, .raised => some (s.setGuard t { s.guards t with point := .body true })
    | _, _ => none
  | .slept t =>
    match (s.guards t).point with
    | .sleeping left =>
      some (s.setGuard t { s.guards t with
        point := match left with | 0 => .body true | left + 1 => .setting left })
    | _ => none
  | .exit t reachable =>
    match (s.guards t).point with
    | .body _ => some (s.aexit t reachable)
    | _ => none
  | .evaled t => if (s.guards t).point = .releasing then some (s.exitLocal t) else none

/-- A task is cancelled at an await at which nothing gives its lock back: the connect of
`ensure_redis`, or the release of the remote lock. -/
def strands (s : State) : Action → Bool
  | .cancel t _ => (s.guards t).point = .pinging || (s.guards t).point = .releasing
  | _ => false

/-- Some step of a run strands the lock. -/
def strandsIn (s : State) : List Action → Bool
  | [] => false
  | a :: acts => strands s a || (step s a).any fun s' => strandsIn s' acts

/-! ## The invariant -/

/-- Who has the lock of the key: nobody, a task, or a task that is gone. -/
inductive Owner where
  | nobody
  | task (t : ℕ)
  | lost
  deriving DecidableEq

/-- The owner after a task gave up the lock, if it had it. -/
def Owner.without (o : Owner) (t : ℕ) : Owner := if o = .task t then .nobody else o

/-- What a guard holds at each await. -/
def Guard.Consistent (g : Guard) : Prop :=
  match g.point with
  | .outside | .queued => g.heldLocal = false ∧ g.heldRemote = false
  | .body false => g.wait = false ∧ g.heldRemote = false
  | .body true => g.heldLocal = true
  | .pinging | .setting _ | .sleeping _ | .releasing => g.heldLocal = true ∧ g.heldRemote = false

/-- The entry of the key counts the tasks in the guard, and one more for a lost lock. -/
structure Shares (o : Owner) (s : State) (e : ℕ) : Prop where
  issued : e < s.next
  attached : ∀ t, (s.guards t).point ≠ .outside → (s.guards t).entry = some e
  users : ∃ A : Finset ℕ, (∀ t, t ∈ A ↔ (s.guards t).point ≠ .outside) ∧
    (s.entries e).users = A.card + (if o = .lost then 1 else 0)
  used : 0 < (s.entries e).users
  sound : (s.entries e).lock.Sound
  locked : (s.entries e).lock.locked = true ↔ o ≠ .nobody

structure Inv (o : Owner) (s : State) : Prop where
  absent : s.localLock = none → o = .nobody ∧ ∀ t, (s.guards t).point = .outside
  shares : ∀ e, s.localLock = some e → Shares o s e
  dropped : ∀ e, s.localLock ≠ some e → (s.entries e).lock.locked = false
  holds : ∀ t, (s.guards t).heldLocal = true ↔ o = .task t
  guards : ∀ t, (s.guards t).Consistent

theorem inv_init : Inv .nobody {} where
  absent _ := ⟨rfl, fun _ => rfl⟩
  shares e h := by cases h
  dropped _ _ := rfl
  holds t := by simp
  guards _ := ⟨rfl, rfl⟩

/-- A task in the guard has the entry of the key. -/
theorem Inv.entry {o : Owner} {s : State} {t : ℕ} (h : Inv o s)
    (ht : (s.guards t).point ≠ .outside) :
    ∃ e, s.localLock = some e ∧ (s.guards t).entry = some e ∧ Shares o s e := by
  rcases hl : s.localLock with _ | e
  · exact absurd ((h.absent hl).2 t) ht
  · exact ⟨e, rfl, (h.shares e hl).attached t ht, h.shares e hl⟩

/-- A step of a task that stays in the guard. -/
theorem Inv.stay {o o' : Owner} {s : State} {t e : ℕ} {g : Guard} {x : Entry} (h : Inv o s)
    (ht : (s.guards t).point ≠ .outside) (hl : s.localLock = some e)
    (hg : g.point ≠ .outside) (he : g.entry = some e) (hc : g.Consistent)
    (hx : x.users = (s.entries e).users) (hsound : x.lock.Sound)
    (hlocked : x.lock.locked = true ↔ o' ≠ .nobody) (hself : g.heldLocal = true ↔ o' = .task t)
    (hothers : ∀ u, u ≠ t → (o' = .task u ↔ o = .task u)) (hlost : o' = .lost ↔ o = .lost) :
    Inv o' ((s.setEntry e x).setGuard t g) := by
  have hsame : ∀ u, (if u = t then g else s.guards u).point ≠ .outside ↔
      (s.guards u).point ≠ .outside := by
    intro u
    split
    case isTrue hu => simp [hu, hg, ht]
    case isFalse => rfl
  have hsh := h.shares e hl
  refine ⟨?_, ?_, ?_, ?_, ?_⟩
  · intro hnone
    exact absurd (hl.symm.trans hnone) (by simp)
  · intro e' he'
    obtain rfl : e = e' := Option.some.inj (hl.symm.trans he')
    obtain ⟨A, hA, husers⟩ := hsh.users
    refine ⟨hsh.issued, ?_, ⟨A, ?_, ?_⟩, ?_, ?_, ?_⟩
    · intro u hu
      rw [State.setGuard_guards] at hu ⊢
      have hu' := (hsame u).mp hu
      split
      · exact he
      · exact hsh.attached u hu'
    · intro u
      rw [State.setGuard_guards, hA, ← hsame]
      rfl
    · simp only [State.setGuard_entries, State.setEntry_entry, hx, husers, hlost]
    · simpa [hx] using hsh.used
    · simpa using hsound
    · simpa using hlocked
  · intro e' he'
    have hne : e' ≠ e := fun heq => he' (heq ▸ hl)
    rw [State.setGuard_entries, State.setEntry_of_ne hne]
    exact h.dropped e' he'
  · intro u
    rw [State.setGuard_guards]
    split
    case isTrue hu => rw [hu, hself]
    case isFalse hu =>
      rw [hothers u hu]
      exact h.holds u
  · intro u
    rw [State.setGuard_guards]
    split
    · exact hc
    · exact h.guards u

/-- A task that stays in the guard does not touch the lock. -/
theorem Inv.move {o : Owner} {s : State} {t : ℕ} {g : Guard} (h : Inv o s)
    (ht : (s.guards t).point ≠ .outside) (hg : g.point ≠ .outside)
    (he : g.entry = (s.guards t).entry) (hheld : g.heldLocal = (s.guards t).heldLocal)
    (hc : g.Consistent) : Inv o (s.setGuard t g) := by
  obtain ⟨e, hl, hentry, hsh⟩ := h.entry ht
  have hs := h.stay (x := s.entries e) ht hl hg (he.trans hentry) hc rfl hsh.sound hsh.locked
    (by rw [hheld]; exact h.holds t) (fun _ _ => Iff.rfl) Iff.rfl
  rwa [State.setEntry_self] at hs

/-! ### Leaving -/

/-- The guards without the one of a task that leaves. -/
theorem mem_erase_active {s : State} {t : ℕ} {A : Finset ℕ}
    (hA : ∀ u, u ∈ A ↔ (s.guards u).point ≠ .outside) (u : ℕ) :
    u ∈ A.erase t ↔ (if u = t then ({} : Guard) else s.guards u).point ≠ .outside := by
  rw [Finset.mem_erase, hA]
  by_cases hu : u = t <;> simp [hu]

theorem consistent_without {o : Owner} {s : State} (h : Inv o s) (t u : ℕ) :
    (if u = t then ({} : Guard) else s.guards u).Consistent := by
  split
  · exact ⟨rfl, rfl⟩
  · exact h.guards u

/-- A task that leaves has no entry any more. -/
theorem Shares.without {o : Owner} {s : State} {e : ℕ} (h : Shares o s e) (t u : ℕ)
    (hu : (if u = t then ({} : Guard) else s.guards u).point ≠ .outside) :
    (if u = t then ({} : Guard) else s.guards u).entry = some e := by
  split at hu
  · exact absurd rfl hu
  · rename_i hne
    rw [if_neg hne]
    exact h.attached u hu

theorem without_ne (o : Owner) (t : ℕ) : o.without t ≠ .task t := by
  unfold Owner.without
  split <;> simp_all

theorem without_lost {o : Owner} {t : ℕ} : o.without t = .lost ↔ o = .lost := by
  unfold Owner.without
  split <;> simp_all

theorem without_task {o : Owner} {t u : ℕ} (hu : u ≠ t) : o.without t = .task u ↔ o = .task u := by
  unfold Owner.without
  split
  case isTrue ho => simp [ho, hu.symm]
  case isFalse => rfl

/-- `without` of a task that does not have the lock. -/
theorem without_eq {o : Owner} {t : ℕ} (h : o ≠ .task t) : o.without t = o := if_neg h

theorem Inv.holds_without {o : Owner} {s : State} (h : Inv o s) (t u : ℕ) :
    (if u = t then ({} : Guard) else s.guards u).heldLocal = true ↔ o.without t = .task u := by
  by_cases hu : u = t
  · simp [hu, without_ne o t]
  · simp [hu, h.holds, without_task hu]

/-- When the last task leaves nobody has the lock. -/
theorem Inv.last {o : Owner} {s : State} {t e : ℕ} (h : Inv o s)
    (ht : (s.guards t).point ≠ .outside) (hl : s.localLock = some e)
    (hzero : (s.entries e).users - 1 ≤ 0) :
    o.without t = .nobody ∧ ∀ u, (if u = t then ({} : Guard) else s.guards u).point = .outside := by
  obtain ⟨A, hA, husers⟩ := (h.shares e hl).users
  have hmem : t ∈ A := (hA t).mpr ht
  have hcard := Finset.card_erase_of_mem hmem
  have hempty : A.erase t = ∅ := by
    rw [← Finset.card_eq_zero]
    split at husers <;> omega
  have hout : ∀ u, (if u = t then ({} : Guard) else s.guards u).point = .outside := by
    intro u
    by_contra hu
    exact absurd ((mem_erase_active hA u).mpr hu) (by simp [hempty])
  refine ⟨?_, hout⟩
  rcases hown : o.without t with _ | u | _
  · rfl
  · have hc := consistent_without h t u
    simp only [Guard.Consistent, hout u] at hc
    exact absurd ((h.holds_without t u).mpr hown) (by simp [hc.1])
  · have hpos := Finset.card_pos.mpr ⟨t, hmem⟩
    rw [if_pos (without_lost.mp hown)] at husers
    omega

/-- A task leaves the guard, after it gave back the lock if it had it. -/
theorem Inv.leave {o : Owner} {s : State} {t e : ℕ} {l : FairLock ℕ} (h : Inv o s)
    (ht : (s.guards t).point ≠ .outside) (hl : s.localLock = some e) (hsound : l.Sound)
    (hlocked : l.locked = true ↔ o.without t ≠ .nobody) :
    Inv (o.without t) ((s.setEntry e { s.entries e with lock := l }).leaveLocal t) := by
  have hsh := h.shares e hl
  obtain ⟨A, hA, husers⟩ := hsh.users
  rw [State.leaveLocal_eq hl (hsh.attached t ht)]
  refine ⟨?_, ?_, ?_, ?_, ?_⟩
  · intro hnone
    have hzero : (s.entries e).users - 1 ≤ 0 := by
      by_contra hpos
      simp [hpos] at hnone
    refine ⟨(h.last ht hl hzero).1, fun u => ?_⟩
    simp only [State.setGuard_guards]
    exact (h.last ht hl hzero).2 u
  · intro e' he'
    dsimp only at he'
    split at he'
    · cases he'
    rename_i hused
    obtain rfl : e = e' := Option.some.inj he'
    refine ⟨hsh.issued, ?_, ⟨A.erase t, ?_, ?_⟩, ?_, ?_, ?_⟩
    · intro u hu
      simp only [State.setGuard_guards] at hu ⊢
      exact hsh.without t u hu
    · intro u
      simp only [State.setGuard_guards]
      exact mem_erase_active hA u
    · have hmem : t ∈ A := (hA t).mpr ht
      have hcard := Finset.card_erase_of_mem hmem
      have hpos := Finset.card_pos.mpr ⟨t, hmem⟩
      simp only [State.setGuard_entries, State.setEntry_entry, husers, without_lost]
      omega
    · simpa using hused
    · simpa using hsound
    · simpa using hlocked
  · intro e' he'
    by_cases hne : e' = e
    · subst hne
      have hzero : (s.entries e').users - 1 ≤ 0 := by
        by_contra hpos
        simp [hpos] at he'
      simpa [(h.last ht hl hzero).1] using hlocked
    · simp only [State.setGuard_entries, State.setEntry_of_ne hne]
      exact h.dropped e' (by simpa [hl] using Ne.symm hne)
  · intro u
    simp only [State.setGuard_guards]
    exact h.holds_without t u
  · intro u
    simp only [State.setGuard_guards]
    exact consistent_without h t u

/-- A task is gone with the lock. -/
theorem Inv.strand {s : State} {t : ℕ} (h : Inv (.task t) s) (ht : (s.guards t).point ≠ .outside) :
    Inv .lost (s.setGuard t {}) := by
  refine ⟨?_, ?_, h.dropped, ?_, ?_⟩
  · intro hnone
    exact absurd ((h.absent hnone).2 t) ht
  · intro e he
    have hsh := h.shares e he
    obtain ⟨A, hA, husers⟩ := hsh.users
    have hmem : t ∈ A := (hA t).mpr ht
    refine ⟨hsh.issued, ?_, ⟨A.erase t, ?_, ?_⟩, hsh.used, hsh.sound, ?_⟩
    · intro u hu
      rw [State.setGuard_guards] at hu ⊢
      exact hsh.without t u hu
    · intro u
      rw [State.setGuard_guards]
      exact mem_erase_active hA u
    · have hcard := Finset.card_erase_of_mem hmem
      have hpos := Finset.card_pos.mpr ⟨t, hmem⟩
      simp only [reduceCtorEq, if_false, if_true] at husers ⊢
      exact husers.trans (by omega)
    · exact ⟨fun _ => by simp, fun _ => hsh.locked.mpr (by simp)⟩
  · intro u
    rw [State.setGuard_guards]
    by_cases hu : u = t
    · simp [hu]
    · simp [hu, h.holds, Ne.symm hu]
  · intro u
    rw [State.setGuard_guards]
    exact consistent_without h t u

/-! ### Entering -/

/-- The tasks in the guard after one entered. -/
theorem mem_insert_active {s : State} {t : ℕ} {g : Guard} {A : Finset ℕ}
    (hA : ∀ u, u ∈ A ↔ (s.guards u).point ≠ .outside) (hg : g.point ≠ .outside) (u : ℕ) :
    u ∈ insert t A ↔ (if u = t then g else s.guards u).point ≠ .outside := by
  rw [Finset.mem_insert, hA]
  by_cases hu : u = t <;> simp [hu, hg]

/-- A task outside does not have the lock. -/
theorem Inv.outside {o : Owner} {s : State} {t : ℕ} (h : Inv o s)
    (ht : (s.guards t).point = .outside) : o ≠ .task t := by
  intro ho
  have hc := h.guards t
  simp only [Guard.Consistent, ht] at hc
  exact absurd ((h.holds t).mpr ho) (by simp [hc.1])

/-- The guard of a task that entered. -/
theorem Inv.entered {o : Owner} {s : State} {t : ℕ} (h : Inv o s)
    (ht : (s.guards t).point = .outside) (wait : Bool) (ttl : Int) (e : Option ℕ) (u : ℕ) :
    let g : Guard := if u = t then { point := .queued, wait := wait, ttl := ttl, entry := e }
      else s.guards u
    (g.heldLocal = true ↔ o = .task u) ∧ g.Consistent := by
  dsimp only
  split
  case isTrue hu =>
    subst hu
    exact ⟨by simp [h.outside ht], rfl, rfl⟩
  case isFalse => exact ⟨h.holds u, h.guards u⟩

theorem Inv.enter {o : Owner} {s : State} {t : ℕ} (h : Inv o s)
    (ht : (s.guards t).point = .outside) (wait : Bool) (ttl : Int) :
    Inv o (s.enterLocal t wait ttl) := by
  rcases hl : s.localLock with _ | e
  · obtain ⟨ho, hout⟩ := h.absent hl
    simp only [State.enterLocal, hl]
    refine ⟨by simp, ?_, ?_, ?_, ?_⟩
    · intro e he
      obtain rfl : s.next = e := Option.some.inj he
      refine ⟨by simp, ?_, ⟨{t}, ?_, ?_⟩, by simp, ?_, ?_⟩
      · intro u hu
        simp only [State.setGuard_guards] at hu ⊢
        split at hu
        · simp_all
        · exact absurd (hout u) hu
      · intro u
        simp only [State.setGuard_guards, State.setEntry_guards, Finset.mem_singleton]
        by_cases hu : u = t <;> simp [hu, hout]
      · simp [ho]
      · simpa using FairLock.sound_new
      · simp [ho]
    · intro e he
      have hne : e ≠ s.next := fun heq => he (by simp [heq])
      rw [State.setGuard_entries, State.setEntry_of_ne hne]
      exact h.dropped e (by simp [hl])
    · intro u
      simp only [State.setGuard_guards]
      exact (h.entered ht wait ttl _ u).1
    · intro u
      simp only [State.setGuard_guards]
      exact (h.entered ht wait ttl _ u).2
  · have hsh := h.shares e hl
    obtain ⟨A, hA, husers⟩ := hsh.users
    simp only [State.enterLocal, hl]
    refine ⟨by simp [hl], ?_, ?_, ?_, ?_⟩
    · intro e' he'
      obtain rfl : e = e' := Option.some.inj (hl.symm.trans he')
      refine ⟨hsh.issued, ?_, ⟨insert t A, ?_, ?_⟩, ?_, ?_, ?_⟩
      · intro u hu
        simp only [State.setGuard_guards] at hu ⊢
        split
        · rfl
        · rename_i hne
          rw [if_neg hne] at hu
          exact hsh.attached u hu
      · intro u
        simp only [State.setGuard_guards]
        exact mem_insert_active hA (by simp) u
      · have hnot : t ∉ A := fun hmem => (hA t).mp hmem ht
        simp only [State.setGuard_entries, State.setEntry_entry, Finset.card_insert_of_notMem hnot,
          husers]
        push_cast
        omega
      · have hused := hsh.used
        simp only [State.setGuard_entries, State.setEntry_entry]
        omega
      · simpa using hsh.sound
      · simpa using hsh.locked
    · intro e' he'
      have hne : e' ≠ e := fun heq => he' (heq ▸ hl)
      rw [State.setGuard_entries, State.setEntry_of_ne hne]
      exact h.dropped e' he'
    · intro u
      simp only [State.setGuard_guards]
      exact (h.entered ht wait ttl _ u).1
    · intro u
      simp only [State.setGuard_guards]
      exact (h.entered ht wait ttl _ u).2

/-! ## The steps keep the invariant -/

/-- A guard that has the lock of the process is at the next await. -/
theorem ensured_consistent {g : Guard} (hheld : g.heldLocal = true) (hremote : g.heldRemote = false)
    (client : Client) :
    (g.ensured client).Consistent ∧ (g.ensured client).point ≠ .outside ∧
      (g.ensured client).entry = g.entry ∧ (g.ensured client).heldLocal = true := by
  cases client <;> simp [Guard.ensured, Guard.Consistent, hheld, hremote]

/-- A free lock is taken. -/
theorem Inv.take {o : Owner} {s : State} {t e : ℕ} {l : FairLock ℕ} (h : Inv o s)
    (ht : (s.guards t).point = .queued) (hl : s.localLock = some e)
    (hfree : (s.entries e).lock.locked = false) (hsound : l.Sound) (hlocked : l.locked = true)
    (client : Client) :
    o = .nobody ∧ Inv (.task t) ((s.setEntry e { s.entries e with lock := l }).setGuard t
      ({ s.guards t with heldLocal := true }.ensured client)) := by
  have hact : (s.guards t).point ≠ .outside := by simp [ht]
  have hsh := h.shares e hl
  have ho : o = .nobody := by
    by_contra ho
    exact absurd (hsh.locked.mpr ho) (by simp [hfree])
  subst ho
  have hc := h.guards t
  simp only [Guard.Consistent, ht] at hc
  obtain ⟨hcons, hpoint, hentry, hheld⟩ :=
    ensured_consistent (g := { s.guards t with heldLocal := true }) rfl hc.2 client
  refine ⟨rfl, h.stay hact hl hpoint (hentry.trans (hsh.attached t hact)) hcons rfl hsound ?_ ?_ ?_ ?_⟩
  · simp [hlocked]
  · simp [hheld]
  · intro u hu
    simp [Ne.symm hu]
  · simp

/-- The owner after a step, with whether the lock got lost. -/
def After (o : Owner) (s' : State) (lost : Prop) : Prop :=
  ∃ o', Inv o' s' ∧ (o' = .lost ↔ o = .lost ∨ lost)

theorem Inv.after {o o' : Owner} {s' : State} (h : Inv o' s') (hlost : o' = .lost ↔ o = .lost)
    {p : Prop} (hp : ¬ p) : After o s' p :=
  ⟨o', h, by simp [hlost, hp]⟩

theorem Inv.moved {o : Owner} {s : State} {t : ℕ} {g : Guard} {p : Prop} (h : Inv o s)
    (ht : (s.guards t).point ≠ .outside) (hg : g.point ≠ .outside)
    (he : g.entry = (s.guards t).entry) (hheld : g.heldLocal = (s.guards t).heldLocal)
    (hc : g.Consistent) (hp : ¬ p) : After o (s.setGuard t g) p :=
  (h.move ht hg he hheld hc).after Iff.rfl hp

theorem Inv.acquire {o : Owner} {s : State} {t : ℕ} (h : Inv o s)
    (ht : (s.guards t).point = .queued) (client : Client) :
    ∃ o', Inv o' (s.acquire t client) ∧ (o' = .lost ↔ o = .lost) := by
  have hact : (s.guards t).point ≠ .outside := by simp [ht]
  obtain ⟨e, hl, he, hsh⟩ := h.entry hact
  have hc := h.guards t
  simp only [Guard.Consistent, ht] at hc
  rw [State.acquire, State.onEntry_eq he]
  split
  case isTrue hbusy =>
    simp only [Bool.and_eq_true, Bool.not_eq_true'] at hbusy
    refine ⟨o, ?_, Iff.rfl⟩
    exact h.stay hact hl (by simp) he ⟨hbusy.1, hc.2⟩ rfl hsh.sound hsh.locked (h.holds t)
      (fun _ _ => Iff.rfl) Iff.rfl
  case isFalse =>
    split
    case isTrue hfree =>
      obtain ⟨ho, htake⟩ := h.take ht hl (FairLock.free_unlocked hfree) (hsh.sound.take hfree)
        FairLock.take_locked client
      exact ⟨.task t, htake, by simp [ho]⟩
    case isFalse hfree =>
      refine ⟨o, ?_, Iff.rfl⟩
      exact h.stay hact hl (by simp) he hc rfl (hsh.sound.queue (by simpa using hfree)) hsh.locked
        (h.holds t) (fun _ _ => Iff.rfl) Iff.rfl

/-- A task leaves through `__aexit__`. -/
theorem Inv.exitLocal {o : Owner} {s : State} {t : ℕ} (h : Inv o s)
    (ht : (s.guards t).point ≠ .outside) : Inv (o.without t) (s.exitLocal t) := by
  obtain ⟨e, hl, he, hsh⟩ := h.entry ht
  simp only [State.exitLocal, he]
  split
  case isTrue hheld =>
    have ho : o ≠ .task t := by
      rw [Ne, ← h.holds]
      simpa using hheld
    have hleave := h.leave ht hl hsh.sound (by rw [without_eq ho]; exact hsh.locked)
    rwa [State.setEntry_self] at hleave
  case isFalse hheld =>
    have ho : o = .task t := (h.holds t).mp (by simpa using hheld)
    have hlocked : (s.entries e).lock.locked = true := hsh.locked.mpr (by simp [ho])
    rw [if_neg (by simp [hlocked])]
    exact h.leave ht hl hsh.sound.release (by simp [ho, Owner.without])

theorem Inv.aexit {o : Owner} {s : State} {t : ℕ} (h : Inv o s)
    (ht : (s.guards t).point ≠ .outside) (reachable : Bool) :
    ∃ o', Inv o' (s.aexit t reachable) ∧ (o' = .lost ↔ o = .lost) := by
  unfold State.aexit
  dsimp only
  split
  case isTrue hremote =>
    simp only [Bool.and_eq_true] at hremote
    have hheld : (s.guards t).heldLocal = true := by
      have hc := h.guards t
      unfold Guard.Consistent at hc
      split at hc <;> simp_all
    exact ⟨o, h.move ht (by simp) rfl rfl ⟨hheld, rfl⟩, Iff.rfl⟩
  case isFalse => exact ⟨o.without t, h.exitLocal ht, without_lost⟩

/-- A cancellation loses the lock exactly where it strands it. -/
theorem Inv.cancelAt {o : Owner} {s s' : State} {t : ℕ} {reachable : Bool} (h : Inv o s)
    (hstep : cancelAt s t reachable = some s') : After o s' (strands s (.cancel t reachable) = true) := by
  have hstrands : strands s (.cancel t reachable) = true ↔
      (s.guards t).point = .pinging ∨ (s.guards t).point = .releasing := by
    simp [strands]
  have hlose : (s.guards t).point = .pinging ∨ (s.guards t).point = .releasing →
      After o (s.setGuard t {}) (strands s (.cancel t reachable) = true) := by
    intro ht
    have hact : (s.guards t).point ≠ .outside := by rcases ht with ht | ht <;> simp [ht]
    have ho : o = .task t := by
      have hc := h.guards t
      rw [← h.holds]
      rcases ht with ht | ht <;> simp only [Guard.Consistent, ht] at hc <;> exact hc.1
    subst ho
    exact ⟨.lost, h.strand hact, by simp [hstrands, ht]⟩
  unfold Herd.cancelAt at hstep
  split at hstep
  case h_1 => cases hstep
  case h_2 => cases hstep
  case h_3 ht =>
    obtain rfl := Option.some.inj hstep
    have hact : (s.guards t).point ≠ .outside := by simp [ht]
    obtain ⟨e, hl, he, hsh⟩ := h.entry hact
    have hc := h.guards t
    simp only [Guard.Consistent, ht] at hc
    rw [State.cancelQueued, State.onEntry_eq he]
    refine ⟨o, h.stay hact hl hact he ?_ rfl hsh.sound.cancel hsh.locked (h.holds t)
      (fun _ _ => Iff.rfl) Iff.rfl, by simp [hstrands, ht]⟩
    simpa [Guard.Consistent, ht] using hc
  case h_4 ht =>
    obtain rfl := Option.some.inj hstep
    exact hlose (.inl ht)
  case h_5 left ht | h_6 left ht =>
    obtain rfl := Option.some.inj hstep
    obtain ⟨o', h', hlost⟩ := h.aexit (t := t) (by simp [ht]) reachable
    exact h'.after hlost (by simp [hstrands, ht])
  case h_7 ht =>
    obtain rfl := Option.some.inj hstep
    exact hlose (.inr ht)

theorem Inv.step {o : Owner} {s s' : State} {a : Action} (h : Inv o s)
    (hstep : step s a = some s') : After o s' (strands s a = true) := by
  cases a with
  | enter t wait ttl client =>
    simp only [Herd.step, Option.ite_none_right_eq_some, Option.some.injEq] at hstep
    obtain ⟨ht, rfl⟩ := hstep
    have hpoint : ((s.enterLocal t wait ttl).guards t).point = .queued := by
      unfold State.enterLocal
      split <;> simp [State.setGuard_guards]
    obtain ⟨o', h', hlost⟩ := (h.enter ht wait ttl).acquire hpoint client
    exact h'.after hlost (by simp [strands])
  | wake t client =>
    simp only [Herd.step, Option.ite_none_right_eq_some, Option.some.injEq] at hstep
    obtain ⟨⟨ht, hfut, -⟩, rfl⟩ := hstep
    obtain ⟨e, hl, he, hsh⟩ := h.entry (t := t) (by simp [ht])
    rw [State.fut, he, Option.bind_some] at hfut
    rw [State.onEntry_eq he]
    obtain ⟨ho, htake⟩ := h.take ht hl (hsh.sound.woken hfut).1 (hsh.sound.resume hfut)
      FairLock.resume_locked client
    exact htake.after (by simp [ho]) (by simp [strands])
  | unwind t =>
    simp only [Herd.step, Option.ite_none_right_eq_some, Option.some.injEq] at hstep
    obtain ⟨⟨ht, -⟩, rfl⟩ := hstep
    have hact : (s.guards t).point ≠ .outside := by simp [ht]
    obtain ⟨e, hl, he, hsh⟩ := h.entry hact
    have hc := h.guards t
    simp only [Guard.Consistent, ht] at hc
    have ho : o ≠ .task t := by
      rw [Ne, ← h.holds]
      simp [hc.1]
    have hleave := h.leave hact hl (hsh.sound.unwind (t := t))
      (by rw [without_eq ho, FairLock.unwind_locked]; exact hsh.locked)
    rw [State.onEntry_eq he]
    rw [← State.setEntry_guards, State.setGuard_self]
    exact hleave.after without_lost (by simp [strands])
  | cancel t reachable => exact h.cancelAt hstep
  | pinged t answers =>
    simp only [Herd.step, Option.ite_none_right_eq_some, Option.some.injEq] at hstep
    obtain ⟨ht, rfl⟩ := hstep
    have hc := h.guards t
    simp only [Guard.Consistent, ht] at hc
    obtain ⟨hcons, hpoint, hentry, hheld⟩ :=
      ensured_consistent hc.1 hc.2 (if answers then .up else .down)
    exact h.moved (by simp [ht]) hpoint hentry (hheld.trans hc.1.symm) hcons (by simp [strands])
  | answered t reply =>
    simp only [Herd.step] at hstep
    split at hstep
    case h_1 ht | h_3 ht =>
      obtain rfl := Option.some.inj hstep
      have hc := h.guards t
      simp only [Guard.Consistent, ht] at hc
      exact h.moved (by simp [ht]) (by simp) rfl rfl hc.1 (by simp [strands])
    case h_2 ht =>
      obtain rfl := Option.some.inj hstep
      have hc := h.guards t
      simp only [Guard.Consistent, ht] at hc
      refine h.moved (by simp [ht]) ?_ rfl rfl ?_ (by simp [strands])
      · dsimp only
        split <;> simp
      · by_cases hw : (s.guards t).wait = true
        · simpa [Guard.Consistent, hw] using hc
        · simpa [Guard.Consistent, hw] using hc.2
    case h_4 => cases hstep
  | slept t =>
    simp only [Herd.step] at hstep
    split at hstep
    case h_1 left ht =>
      obtain rfl := Option.some.inj hstep
      have hc := h.guards t
      simp only [Guard.Consistent, ht] at hc
      rcases left with _ | left
      · exact h.moved (by simp [ht]) (by simp) rfl rfl hc.1 (by simp [strands])
      · exact h.moved (by simp [ht]) (by simp) rfl rfl hc (by simp [strands])
    case h_2 => cases hstep
  | exit t reachable =>
    simp only [Herd.step] at hstep
    split at hstep
    case h_1 ht =>
      obtain rfl := Option.some.inj hstep
      obtain ⟨o', h', hlost⟩ := h.aexit (t := t) (by simp [ht]) reachable
      exact h'.after hlost (by simp [strands])
    case h_2 => cases hstep
  | evaled t =>
    simp only [Herd.step, Option.ite_none_right_eq_some, Option.some.injEq] at hstep
    obtain ⟨ht, rfl⟩ := hstep
    exact (h.exitLocal (by simp [ht])).after without_lost (by simp [strands])

/-! ## Runs -/

def Guard.inBody (g : Guard) : Bool := match g.point with | .body _ => true | _ => false

/-- At most one task that asked to wait is in the body. -/
def Exclusive (s : State) : Prop :=
  ∀ t u, (s.guards t).inBody → (s.guards t).wait → (s.guards u).inBody → (s.guards u).wait → t = u

/-- No task is between the start of `__aenter__` and the end of `__aexit__`. -/
def Idle (s : State) : Prop := ∀ t, (s.guards t).point = .outside

/-- The entry of the key is gone, and no lock ever made for it is held. -/
def Freed (s : State) : Prop := s.localLock = none ∧ ∀ e, (s.entries e).lock.locked = false

theorem Inv.exclusive {o : Owner} {s : State} (h : Inv o s) : Exclusive s := by
  have howner : ∀ t, (s.guards t).inBody → (s.guards t).wait → o = .task t := by
    intro t hbody hwait
    have hc := h.guards t
    rw [← h.holds]
    unfold Guard.inBody at hbody
    unfold Guard.Consistent at hc
    split at hbody
    case h_1 taken ht =>
      rw [ht] at hc
      cases taken with
      | false => exact absurd hwait (by simp [hc.1])
      | true => exact hc
    case h_2 => cases hbody
  intro t u ht htw hu huw
  exact Owner.task.inj ((howner t ht htw).symm.trans (howner u hu huw))

/-- Without tasks in the guard, the key is free unless its lock got lost. -/
theorem Inv.freed_iff {o : Owner} {s : State} (h : Inv o s) (hidle : Idle s) :
    Freed s ↔ o ≠ .lost := by
  constructor
  · rintro ⟨hnone, -⟩ rfl
    exact absurd (h.absent hnone).1 (by simp)
  · intro ho
    have hnone : s.localLock = none := by
      by_contra hl
      obtain ⟨e, he⟩ := Option.ne_none_iff_exists'.mp hl
      have hsh := h.shares e he
      obtain ⟨A, hA, husers⟩ := hsh.users
      have hempty : A = ∅ := Finset.eq_empty_of_forall_notMem fun t ht => (hA t).mp ht (hidle t)
      have hused := hsh.used
      rw [husers, if_neg ho, hempty] at hused
      simp at hused
    exact ⟨hnone, fun e => h.dropped e (by simp [hnone])⟩

/-- In every run the invariant holds, and the lock is lost once a step strands it. -/
theorem inv_exec {o : Owner} {acts : List Action} {s s' : State} (h : Inv o s)
    (hrun : acts.foldlM step s = some s') :
    ∃ o', Inv o' s' ∧ (o' = .lost ↔ o = .lost ∨ strandsIn s acts = true) := by
  induction acts generalizing o s with
  | nil =>
    obtain rfl := Option.some.inj hrun
    exact ⟨o, h, by simp [strandsIn]⟩
  | cons a acts ih =>
    rw [List.foldlM_cons] at hrun
    obtain ⟨next, hnext, hrest⟩ := Option.bind_eq_some_iff.mp hrun
    obtain ⟨o₁, hinv₁, hlost₁⟩ := h.step hnext
    obtain ⟨o₂, hinv₂, hlost₂⟩ := ih hinv₁ hrest
    refine ⟨o₂, hinv₂, hlost₂.trans ?_⟩
    rw [hlost₁, strandsIn, hnext, Option.any_some, Bool.or_eq_true, or_assoc]

/-- **The herd guard**: after every run at most one waiting task is in the body, and when no task
is in the guard the key is free exactly if no step of the run stranded its lock. -/
theorem herd_guard_freed_iff (acts : List Action) (s : State)
    (hrun : acts.foldlM step {} = some s) :
    Exclusive s ∧ (Idle s → (Freed s ↔ strandsIn {} acts = false)) := by
  obtain ⟨o, hinv, hlost⟩ := inv_exec inv_init hrun
  refine ⟨hinv.exclusive, fun hidle => (hinv.freed_iff hidle).trans ?_⟩
  rw [ne_eq, hlost]
  simp

/-! ## A client that hangs up -/

/-- The task is cancelled while `ensure_redis` connects. -/
def hangUp : List Action := [.enter 0 true 30 .connecting, .cancel 0 true]

/-- Nobody is in the guard, and its lock is held. -/
theorem herd_guard_strands : ∃ s, hangUp.foldlM step {} = some s ∧ Idle s ∧ ¬ Freed s := by
  refine ⟨_, rfl, fun t => ?_, fun h => absurd h.1 (by decide)⟩
  match t with
  | 0 => rfl
  | _ + 1 => rfl

/-- A waiter is cancelled in the queue, another one gets the lock and fails. -/
def queued : List Action :=
  [.enter 0 true 30 .up, .enter 1 true 30 .up, .enter 2 true 30 .up, .answered 0 .taken,
   .cancel 1 true, .exit 0 true, .evaled 0, .unwind 1, .wake 2 .down, .exit 2 true]

theorem herd_guard_freed_queued : ∃ s, queued.foldlM step {} = some s ∧ Idle s ∧ Exclusive s ∧
    Freed s := by
  obtain ⟨s, hs, hidle⟩ : ∃ s, queued.foldlM step {} = some s ∧ Idle s := by
    refine ⟨_, rfl, fun t => ?_⟩
    match t with
    | 0 => rfl
    | 1 => rfl
    | 2 => rfl
    | _ + 3 => rfl
  obtain ⟨hexclusive, hfreed⟩ := herd_guard_freed_iff queued s hs
  exact ⟨s, hs, hidle, hexclusive, (hfreed hidle).mpr rfl⟩

end Minireg.Herd
