import Minireg.Lib.Run
import Minireg.Lib.Table
import Minireg.Py.Dict
import Minireg.Py.Text

/-!
# The login throttle

Fixed-window counters in the shared cache, with counters of each process for the calls
that do not reach it. An attempt takes one hit in each of its buckets before it is judged
and gives them back when it is refused or forgiven. Every call of the cache is one step,
which the cache may answer, lose the answer of, or not get.
-/

namespace Minireg.Throttle

open Py Lib

/-! ## Counters -/

/-- The key of a counter and the number of its window. -/
abbrev Cell := String × Int

/-- A counter of the shared cache; `epoch` counts how often the cache has lost it. -/
structure Counter where
  value : Int := 0
  epoch : Nat := 0
  deriving DecidableEq

/-- `_local_counters` of a process; `epoch` counts how often they were cleared. -/
structure LocalCounters where
  counters : Dict Cell Int := []
  window : Int := 0
  epoch : Nat := 0
  deriving DecidableEq

/-- Where a hit was counted: a counter, between two losses of what it holds. -/
inductive Instance where
  | shared (epoch : Nat)
  | local (process epoch : Nat)
  deriving DecidableEq

/-- What the shared cache does in one call. -/
inductive Reply where
  | answers
  /-- The command runs and its answer does not arrive. -/
  | lost
  /-- There is no client, or the command does not run. -/
  | down
  deriving DecidableEq

structure Counters where
  shared : Cell → Counter := fun _ => {}
  locals : Nat → LocalCounters := fun _ => {}

namespace LocalCounters

variable (c : LocalCounters)

def clear : LocalCounters := { c with counters := [], epoch := c.epoch + 1 }

def count (cell : Cell) : Int := (Dict.get? c.counters cell).getD 0

/-- The counters `_local_rate_limit` counts in. -/
def rolled (cell : Cell) : LocalCounters :=
  let c := if cell.2 ≠ c.window then { c.clear with window := cell.2 } else c
  if c.counters.length > 100000 then c.clear else c

/-- `_local_rate_limit`. -/
def hit (cell : Cell) : LocalCounters :=
  let c := c.rolled cell
  { c with counters := Dict.set c.counters cell (c.count cell + 1) }

/-- Whether `rate_limit_refund` finds the hit in the process. -/
def refunds (cell : Cell) : Bool := c.count cell ≠ 0 && cell.2 = c.window

/-- The fallback of `rate_limit_refund`. -/
def refund (cell : Cell) : LocalCounters :=
  if c.refunds cell then { c with counters := Dict.set c.counters cell (c.count cell - 1) } else c

end LocalCounters

namespace Counters

variable (c : Counters) (process : Nat) (cell : Cell)

/-- `INCR` and `DECR`. -/
def addShared (n : Int) : Counters :=
  { c with
    shared := Function.update c.shared cell
      { c.shared cell with value := (c.shared cell).value + n } }

def setLocal (l : LocalCounters) : Counters :=
  { c with locals := Function.update c.locals process l }

/-- The shared cache loses a counter: it expires, is evicted, or the cache restarts. -/
def lose : Counters :=
  { c with shared := Function.update c.shared cell { value := 0, epoch := (c.shared cell).epoch + 1 } }

/-- What a counter holds, if it is still there. -/
def valueAt : Instance → Option Int
  | .shared epoch => if (c.shared cell).epoch = epoch then some (c.shared cell).value else none
  | .local process epoch =>
    if (c.locals process).epoch = epoch then some ((c.locals process).count cell) else none

/-- The counter a hit is counted in, with what it holds then. -/
def hitAt (reply : Reply) : Counters × Instance × Int :=
  match reply with
  | .answers =>
    let c := c.addShared cell 1
    (c, .shared (c.shared cell).epoch, (c.shared cell).value)
  | .lost =>
    let l := (c.locals process).hit cell
    ((c.addShared cell 1).setLocal process l, .local process l.epoch, l.count cell)
  | .down =>
    let l := (c.locals process).hit cell
    (c.setLocal process l, .local process l.epoch, l.count cell)

/-- `rate_limit_refund`. -/
def refundAt (reply : Reply) : Counters :=
  match reply with
  | .answers => c.addShared cell (-1)
  | .lost => (c.addShared cell (-1)).setLocal process ((c.locals process).refund cell)
  | .down => c.setLocal process ((c.locals process).refund cell)

/-- The counters a refund lowers. -/
def lowered (reply : Reply) : List Instance :=
  let inShared := if reply = .down then [] else [.shared (c.shared cell).epoch]
  let inLocal := if reply ≠ .answers && (c.locals process).refunds cell then
      [.local process (c.locals process).epoch] else []
  inShared ++ inLocal

end Counters

/-! ## Attempts -/

structure Settings where
  rateLimitEnabled : Bool := true
  rateLimitLoginPerMinute : Int := 10

/-- `LOGIN_ACCOUNT_CEILING_FACTOR`. -/
def accountCeilingFactor : Int := 10

/-- `_login_buckets`: keys and limits. -/
def loginBuckets (settings : Settings) (ip username : String) : List (String × Int) :=
  let perMinute := settings.rateLimitLoginPerMinute
  let name := takeChars 150 username
  [("login:ip:" ++ ip, perMinute),
   ("login:user:" ++ name ++ ":ip:" ++ ip, perMinute),
   ("login:user:" ++ name, perMinute * accountCeilingFactor)]

inductive Phase where
  /-- In `begin_login_attempt`. -/
  | taking
  /-- Refused: its hits are given back. -/
  | refused
  | admitted
  /-- In `forgive_login_attempt`. -/
  | forgiving
  | over
  deriving DecidableEq

structure Attempt where
  id : Nat
  process : Nat
  ip : String
  username : String
  started : Int
  phase : Phase := .taking
  deriving DecidableEq

/-- One hit an attempt took; `counted` is `none` where the limit is switched off. -/
structure Hit where
  attempt : Nat
  process : Nat
  cell : Cell
  limit : Int
  counted : Option Instance
  allowed : Bool
  returned : Bool := false
  deriving DecidableEq

structure State where
  counters : Counters := {}
  attempts : Table Attempt.id := .empty _
  hits : List Hit := []

/-- The window is 60 seconds. -/
def window : Int := 60

namespace State

variable (settings : Settings) (s : State)

/-- `rate_limit(key, limit, fail_closed=True, now=started)`. -/
def rateLimit (a : Attempt) (key : String) (limit : Int) (reply : Reply) : Counters × Hit :=
  let cell : Cell := (key, a.started / window)
  if !settings.rateLimitEnabled || limit ≤ 0 then
    (s.counters, { attempt := a.id, process := a.process, cell := cell, limit := limit
                   counted := none, allowed := true })
  else
    let (counters, counted, count) := s.counters.hitAt a.process cell reply
    (counters, { attempt := a.id, process := a.process, cell := cell, limit := limit
                 counted := some counted, allowed := count ≤ limit })

def hitsOf (id : Nat) : List Hit := s.hits.filter fun h => h.attempt = id

/-- The hit of an attempt that is given back next. -/
def nextReturn (id : Nat) : Option Hit := s.hits.find? fun h => h.attempt = id && !h.returned

/-- Mark the first hit of a kind as given back. -/
def giveFirst (p : Hit → Bool) : List Hit → List Hit
  | [] => []
  | h :: hs => if p h then { h with returned := true } :: hs else h :: giveFirst p hs

def setPhase (a : Attempt) (phase : Phase) : State :=
  { s with attempts := s.attempts.put { a with phase := phase } }

inductive Action where
  | start (id process : Nat) (ip username : String) (now : Int)
  /-- The attempt's next `rate_limit`. -/
  | take (id : Nat) (reply : Reply)
  /-- The attempt's next `rate_limit_refund`. -/
  | giveBack (id : Nat) (reply : Reply)
  /-- The password is right: `forgive_login_attempt`. -/
  | forgive (id : Nat)
  /-- The request of the attempt is cancelled in its next `rate_limit`, after the command ran. -/
  | cancel (id : Nat)
  /-- The shared cache loses a counter. -/
  | lose (cell : Cell)

def step (s : State) : Action → Option State
  | .start id process ip username now =>
    if (s.attempts.find? id).isSome then none
    else some { s with
      attempts := s.attempts.put
        { id := id, process := process, ip := ip, username := username, started := now } }
  | .take id reply => do
    let a ← s.attempts.find? id
    if a.phase ≠ .taking then none
    else
      let buckets := loginBuckets settings a.ip a.username
      let (key, limit) ← buckets[(s.hitsOf id).length]?
      let (counters, hit) := s.rateLimit settings a key limit reply
      let phase := if !hit.allowed then .refused
        else if (s.hitsOf id).length + 1 = buckets.length then .admitted else .taking
      some { (s.setPhase a phase) with counters := counters, hits := s.hits ++ [hit] }
  | .giveBack id reply => do
    let a ← s.attempts.find? id
    if a.phase ≠ .refused && a.phase ≠ .forgiving then none
    else match s.nextReturn id with
      | none => some (s.setPhase a .over)
      | some h =>
        some { s with
          counters := if h.counted = none then s.counters
            else s.counters.refundAt h.process h.cell reply
          hits := giveFirst (fun h => h.attempt = id && !h.returned) s.hits }
  | .forgive id => do
    let a ← s.attempts.find? id
    if a.phase ≠ .admitted then none else some (s.setPhase a .forgiving)
  | .cancel id => do
    let a ← s.attempts.find? id
    let (key, _) ← (loginBuckets settings a.ip a.username)[(s.hitsOf id).length]?
    if a.phase ≠ .taking then none
    else some { (s.setPhase a .over) with
      counters := s.counters.addShared (key, a.started / window) 1 }
  | .lose cell => some { s with counters := s.counters.lose cell }

end State

/-! ## What the counters hold -/

namespace LocalCounters

variable (c : LocalCounters) (cell : Cell)

/-- A window that has passed, or too many counters, clear them all. -/
theorem rolled_cases : c.rolled cell = c ∨
    (c.epoch < (c.rolled cell).epoch ∧ (c.rolled cell).counters = []) := by
  unfold rolled clear
  dsimp only
  split <;> split
  · next h => simp at h
  · exact .inr ⟨Nat.lt_succ_self _, rfl⟩
  · exact .inr ⟨Nat.lt_succ_self _, rfl⟩
  · exact .inl rfl

theorem count_hit (e : Cell) :
    (c.hit cell).count e = (c.rolled cell).count e + if e = cell then 1 else 0 := by
  unfold hit count
  dsimp only
  rw [Dict.get?_set]
  split
  · next h => rw [h]; rfl
  · simp

theorem epoch_hit : (c.hit cell).epoch = (c.rolled cell).epoch := rfl

theorem count_refund (e : Cell) :
    (c.refund cell).count e = c.count e - if c.refunds cell ∧ e = cell then 1 else 0 := by
  unfold refund
  by_cases h : c.refunds cell = true
  · rw [if_pos h]
    unfold count
    dsimp only
    rw [Dict.get?_set]
    by_cases he : e = cell
    · simp [h, he]
    · simp [he]
  · simp [h]

theorem epoch_refund : (c.refund cell).epoch = c.epoch := by
  unfold refund
  split <;> rfl

end LocalCounters

namespace Counters

variable {c c' : Counters} {process : Nat} {cell e : Cell} {i : Instance}

/-- The counter has not been there yet. -/
def Fresh (c : Counters) (e : Cell) : Instance → Prop
  | .shared epoch => (c.shared e).epoch < epoch
  | .local process epoch => (c.locals process).epoch < epoch

/-- Every counter that is still there holds at least `d` more than before; no epoch goes back. -/
structure Moves (c c' : Counters) (d : Instance → Cell → Int) : Prop where
  value : ∀ i e v', c'.valueAt e i = some v' →
    (∃ v, c.valueAt e i = some v ∧ v + d i e ≤ v') ∨ (c.Fresh e i ∧ d i e ≤ v')
  fresh : ∀ i e, c'.Fresh e i → c.Fresh e i

theorem valueAt_shared {epoch : Nat} {v : Int} : c.valueAt e (.shared epoch) = some v ↔
    (c.shared e).epoch = epoch ∧ (c.shared e).value = v := by
  simp [valueAt]

theorem valueAt_local {epoch : Nat} {v : Int} : c.valueAt e (.local process epoch) = some v ↔
    (c.locals process).epoch = epoch ∧ (c.locals process).count e = v := by
  simp [valueAt]

theorem shared_addShared (n : Int) : (c.addShared cell n).shared e =
    if e = cell then { c.shared e with value := (c.shared e).value + n } else c.shared e := by
  unfold addShared
  dsimp only
  by_cases h : e = cell
  · rw [if_pos h, h, Function.update_self]
  · rw [if_neg h, Function.update_of_ne h]

theorem locals_addShared (n : Int) : (c.addShared cell n).locals = c.locals := rfl

theorem shared_lose : (c.lose cell).shared e =
    if e = cell then { value := 0, epoch := (c.shared e).epoch + 1 } else c.shared e := by
  unfold lose
  dsimp only
  by_cases h : e = cell
  · rw [if_pos h, h, Function.update_self]
  · rw [if_neg h, Function.update_of_ne h]

theorem locals_setLocal {p : Nat} {l : LocalCounters} : (c.setLocal process l).locals p =
    if p = process then l else c.locals p := by
  unfold setLocal
  dsimp only
  by_cases h : p = process
  · rw [if_pos h, h, Function.update_self]
  · rw [if_neg h, Function.update_of_ne h]

theorem moves_addShared (n : Int) :
    Moves c (c.addShared cell n) fun i e =>
      if i = .shared (c.shared cell).epoch ∧ e = cell then n else 0 := by
  constructor
  · intro i e v' h
    left
    rcases i with epoch | ⟨process, epoch⟩
    · rw [valueAt_shared, shared_addShared] at h
      by_cases he : e = cell
      · subst he
        rw [if_pos rfl] at h
        obtain ⟨hepoch, rfl⟩ := h
        exact ⟨_, valueAt_shared.mpr ⟨hepoch, rfl⟩, by simp [← hepoch]⟩
      · rw [if_neg he] at h
        exact ⟨v', valueAt_shared.mpr h, by simp [he]⟩
    · exact ⟨v', h, by simp⟩
  · intro i e h
    rcases i with epoch | ⟨process, epoch⟩
    · unfold Fresh at h ⊢
      dsimp only at h ⊢
      rw [shared_addShared] at h
      split at h <;> exact h
    · exact h

theorem moves_lose : Moves c (c.lose cell) fun _ _ => 0 := by
  constructor
  · intro i e v' h
    rcases i with epoch | ⟨process, epoch⟩
    · rw [valueAt_shared, shared_lose] at h
      by_cases he : e = cell
      · rw [if_pos he] at h
        obtain ⟨rfl, rfl⟩ := h
        exact .inr ⟨Nat.lt_succ_self _, Int.le_refl _⟩
      · rw [if_neg he] at h
        exact .inl ⟨v', valueAt_shared.mpr h, by simp⟩
    · exact .inl ⟨v', h, by simp⟩
  · intro i e h
    rcases i with epoch | ⟨process, epoch⟩
    · unfold Fresh at h ⊢
      dsimp only at h ⊢
      rw [shared_lose] at h
      split at h
      · exact Nat.lt_of_succ_lt h
      · exact h
    · exact h

theorem moves_hitLocal :
    Moves c (c.setLocal process ((c.locals process).hit cell)) fun i e =>
      if i = .local process ((c.locals process).hit cell).epoch ∧ e = cell then 1 else 0 := by
  have hrolled := (c.locals process).rolled_cases cell
  constructor
  · intro i e v' h
    rcases i with epoch | ⟨p, epoch⟩
    · exact .inl ⟨v', h, by simp⟩
    · rw [valueAt_local, locals_setLocal] at h
      by_cases hp : p = process
      · subst hp
        rw [if_pos rfl, LocalCounters.count_hit] at h
        obtain ⟨rfl, rfl⟩ := h
        rw [LocalCounters.epoch_hit]
        obtain hsame | ⟨hlater, hempty⟩ := hrolled
        · rw [hsame]
          exact .inl ⟨_, valueAt_local.mpr ⟨rfl, rfl⟩, by simp⟩
        · refine .inr ⟨hlater, ?_⟩
          simp [LocalCounters.count, hempty]
      · rw [if_neg hp] at h
        exact .inl ⟨v', valueAt_local.mpr h, by simp [hp]⟩
  · intro i e h
    rcases i with epoch | ⟨p, epoch⟩
    · exact h
    · unfold Fresh at h ⊢
      dsimp only at h ⊢
      rw [locals_setLocal] at h
      split at h
      · next hp =>
        rw [LocalCounters.epoch_hit] at h
        rw [hp]
        obtain hsame | ⟨hlater, -⟩ := hrolled
        · rwa [hsame] at h
        · omega
      · exact h

theorem moves_refundLocal :
    Moves c (c.setLocal process ((c.locals process).refund cell)) fun i e =>
      if (c.locals process).refunds cell ∧ i = .local process (c.locals process).epoch ∧ e = cell
        then -1 else 0 := by
  constructor
  · intro i e v' h
    left
    rcases i with epoch | ⟨p, epoch⟩
    · exact ⟨v', h, by simp⟩
    · rw [valueAt_local, locals_setLocal] at h
      by_cases hp : p = process
      · subst hp
        rw [if_pos rfl, LocalCounters.epoch_refund, LocalCounters.count_refund] at h
        obtain ⟨rfl, rfl⟩ := h
        refine ⟨_, valueAt_local.mpr ⟨rfl, rfl⟩, ?_⟩
        by_cases hr : (c.locals p).refunds cell = true <;> by_cases he : e = cell <;>
          simp [hr, he, Int.sub_eq_add_neg]
      · rw [if_neg hp] at h
        exact ⟨v', valueAt_local.mpr h, by simp [hp]⟩
  · intro i e h
    rcases i with epoch | ⟨p, epoch⟩
    · exact h
    · unfold Fresh at h ⊢
      dsimp only at h ⊢
      rw [locals_setLocal] at h
      split at h
      · next hp =>
        rw [LocalCounters.epoch_refund] at h
        rwa [hp]
      · exact h

variable {d d' : Instance → Cell → Int} {c'' : Counters}

theorem Moves.mono (h : Moves c c' d) (hle : ∀ i e, d' i e ≤ d i e) : Moves c c' d' where
  value i e v' hv' := by
    have hd := hle i e
    obtain ⟨v, hv, hvd⟩ | ⟨hfresh, hvd⟩ := h.value i e v' hv'
    · exact .inl ⟨v, hv, by omega⟩
    · exact .inr ⟨hfresh, by omega⟩
  fresh := h.fresh

/-- Two steps, the first of which promises no counter more than it had. -/
theorem Moves.trans (h : Moves c c' d) (h' : Moves c' c'' d') (hle : ∀ i e, d i e ≤ 0) :
    Moves c c'' fun i e => d i e + d' i e where
  value i e v'' hv'' := by
    have hd := hle i e
    obtain ⟨v', hv', hvd'⟩ | ⟨hfresh, hvd'⟩ := h'.value i e v'' hv''
    · obtain ⟨v, hv, hvd⟩ | ⟨hfresh, hvd⟩ := h.value i e v' hv'
      · exact .inl ⟨v, hv, by omega⟩
      · exact .inr ⟨hfresh, by omega⟩
    · exact .inr ⟨h.fresh i e hfresh, by omega⟩
  fresh i e hfresh := h.fresh i e (h'.fresh i e hfresh)

/-- **A hit** is counted at one counter, which holds the value it is judged by. -/
theorem hitAt_moves {reply : Reply} {counted : Instance} {count : Int}
    (h : c.hitAt process cell reply = (c', counted, count)) :
    Moves c c' (fun i e => if i = counted ∧ e = cell then 1 else 0) ∧
      c'.valueAt cell counted = some count := by
  cases reply with
  | answers =>
    obtain ⟨rfl, rfl, rfl⟩ := h
    refine ⟨?_, valueAt_shared.mpr ⟨rfl, rfl⟩⟩
    have hepoch : ((c.addShared cell 1).shared cell).epoch = (c.shared cell).epoch := by
      rw [shared_addShared, if_pos rfl]
    rw [hepoch]
    exact moves_addShared 1
  | lost =>
    obtain ⟨rfl, rfl, rfl⟩ := h
    constructor
    · have hadd : Moves c (c.addShared cell 1) fun _ _ => 0 :=
        (moves_addShared 1).mono fun i e => by split <;> omega
      exact (hadd.trans moves_hitLocal fun _ _ => Int.le_refl _).mono
        fun i e => by rw [Int.zero_add]; exact Int.le_refl _
    · refine valueAt_local.mpr ⟨?_, ?_⟩ <;> rw [locals_setLocal, if_pos rfl]
  | down =>
    obtain ⟨rfl, rfl, rfl⟩ := h
    refine ⟨moves_hitLocal, valueAt_local.mpr ⟨?_, ?_⟩⟩ <;> rw [locals_setLocal, if_pos rfl]

/-- **A refund** lowers the counters it reaches by one. -/
theorem refundAt_moves (reply : Reply) : Moves c (c.refundAt process cell reply) fun i e =>
    if i ∈ c.lowered process cell reply ∧ e = cell then -1 else 0 := by
  cases reply with
  | answers =>
    refine (moves_addShared (-1)).mono fun i e => ?_
    simp [lowered]
  | lost =>
    refine ((moves_addShared (-1)).trans moves_refundLocal fun i e => by split <;> omega).mono
      fun i e => ?_
    unfold lowered
    rcases i with epoch | ⟨p, epoch⟩
    · by_cases hr : (c.locals process).refunds cell = true <;> simp [hr]
    · by_cases hr : (c.locals process).refunds cell = true <;> simp [hr, locals_addShared]
  | down =>
    refine moves_refundLocal.mono fun i e => ?_
    unfold lowered
    by_cases hr : (c.locals process).refunds cell = true <;> simp [hr]

end Counters

/-! ## What a run keeps -/

/-- A hit that was counted at a counter and not given back. -/
def holds (i : Instance) (cell : Cell) (h : Hit) : Bool :=
  h.counted = some i && h.cell = cell && !h.returned

/-- One that was allowed, under a limit of at most `limit`. -/
def holdsWithin (i : Instance) (cell : Cell) (limit : Nat) (h : Hit) : Bool :=
  holds i cell h && h.allowed && h.limit ≤ limit

/-- The phases of an attempt that was not refused. -/
def Phase.allowed : Phase → Bool
  | .taking | .admitted | .forgiving => true
  | .refused | .over => false

structure Sound (s : State) : Prop where
  /-- A counter holds at least the hits it counted that were not given back. -/
  counted : ∀ i cell v, s.counters.valueAt cell i = some v →
    (s.hits.countP (holds i cell) : Int) ≤ v
  /-- No more of them than a limit were allowed under it. -/
  bounded : ∀ i cell limit, s.hits.countP (holdsWithin i cell limit) ≤ limit
  /-- A counter that has not been there yet counted nothing. -/
  fresh : ∀ i cell, s.counters.Fresh cell i → s.hits.countP (holds i cell) = 0
  allowed : ∀ a ∈ s.attempts, a.phase.allowed = true → ∀ h ∈ s.hits, h.attempt = a.id →
    h.allowed = true
  known : ∀ h ∈ s.hits, ∃ a ∈ s.attempts, a.id = h.attempt

/-- A refund lowers no other counter than the one that counted the hit. -/
def Returns (s : State) : State.Action → Prop
  | .giveBack id reply => ∀ h ∈ s.nextReturn id, h.counted ≠ none →
      ∀ i ∈ s.counters.lowered h.process h.cell reply, h.counted = some i
  | _ => True

instance (s : State) (action : State.Action) : Decidable (Returns s action) := by
  cases action <;> unfold Returns <;> infer_instance

def system (settings : Settings) : System State State.Action where
  init s := s = {}
  Step s a s' := s.step settings a = some s'

section Hits

variable {p q : Hit → Bool} {hits : List Hit} {h : Hit}

theorem countP_giveFirst (hfind : hits.find? p = some h) (q : Hit → Bool) :
    (State.giveFirst p hits).countP q + (if q h then 1 else 0) =
      hits.countP q + if q { h with returned := true } then 1 else 0 := by
  induction hits with
  | nil => cases hfind
  | cons x xs ih =>
    rw [List.find?_cons] at hfind
    unfold State.giveFirst
    split at hfind
    · next hx =>
      obtain rfl := Option.some.inj hfind
      rw [if_pos hx, List.countP_cons, List.countP_cons]
      omega
    · next hx =>
      have := ih hfind
      rw [if_neg (by simp [hx]), List.countP_cons, List.countP_cons]
      omega

/-- Giving back a hit takes it out of what its counter holds, and adds to no count. -/
theorem countP_giveFirst_le (q : Hit → Bool) (hq : ∀ h : Hit, q { h with returned := true } = false) :
    (State.giveFirst p hits).countP q ≤ hits.countP q := by
  induction hits with
  | nil => exact Nat.le_refl _
  | cons x xs ih =>
    unfold State.giveFirst
    split
    · rw [List.countP_cons, List.countP_cons, hq]
      simp
    · rw [List.countP_cons, List.countP_cons]
      omega

theorem mem_giveFirst (hh : h ∈ State.giveFirst p hits) :
    ∃ x ∈ hits, x.attempt = h.attempt ∧ x.allowed = h.allowed := by
  induction hits with
  | nil => cases hh
  | cons x xs ih =>
    unfold State.giveFirst at hh
    split at hh
    · rcases List.mem_cons.mp hh with rfl | hh
      · exact ⟨x, List.mem_cons_self, rfl, rfl⟩
      · exact ⟨h, List.mem_cons_of_mem _ hh, rfl, rfl⟩
    · rcases List.mem_cons.mp hh with rfl | hh
      · exact ⟨h, List.mem_cons_self, rfl, rfl⟩
      · obtain ⟨y, hy, hyh⟩ := ih hh
        exact ⟨y, List.mem_cons_of_mem _ hy, hyh⟩

end Hits

section Keep

variable {settings : Settings} {s s' : State} {a : Attempt} {id : Nat}

/-- What the counters hold after a move of `d`, for hits that changed by at most `d`. -/
theorem Sound.move (hs : Sound s) {counters : Counters} (hits : List Hit)
    {d : Instance → Cell → Int} (hmoves : s.counters.Moves counters d)
    (hhits : ∀ i e, (hits.countP (holds i e) : Int) ≤ s.hits.countP (holds i e) + d i e)
    (hfresh : ∀ i e, counters.Fresh e i → d i e ≤ 0) :
    (∀ i e v, counters.valueAt e i = some v → (hits.countP (holds i e) : Int) ≤ v) ∧
      ∀ i e, counters.Fresh e i → hits.countP (holds i e) = 0 := by
  constructor
  · intro i e v' hv'
    have hle := hhits i e
    obtain ⟨v, hv, hvd⟩ | ⟨hnew, hvd⟩ := hmoves.value i e v' hv'
    · have := hs.counted i e v hv
      omega
    · have := hs.fresh i e hnew
      omega
  · intro i e hnew
    have hle := hhits i e
    have hold := hs.fresh i e (hmoves.fresh i e hnew)
    have hd := hfresh i e hnew
    omega

theorem Sound.move_counters (hs : Sound s) {counters : Counters} {d : Instance → Cell → Int}
    (hmoves : s.counters.Moves counters d) (hd : ∀ i e, 0 ≤ d i e) :
    (∀ i e v, counters.valueAt e i = some v → (s.hits.countP (holds i e) : Int) ≤ v) ∧
      ∀ i e, counters.Fresh e i → s.hits.countP (holds i e) = 0 := by
  have hzero : s.counters.Moves counters fun _ _ => 0 := hmoves.mono hd
  exact hs.move s.hits hzero (fun _ _ => by omega) fun _ _ _ => Int.le_refl _

/-- A phase that is not allowed, or that follows one that is. -/
theorem Sound.setPhase (hs : Sound s) (ha : a ∈ s.attempts) (phase : Phase)
    (hphase : phase.allowed = true → a.phase.allowed = true) : Sound (s.setPhase a phase) where
  counted := hs.counted
  bounded := hs.bounded
  fresh := hs.fresh
  allowed b hb hallowed h hh hid := by
    rcases Table.mem_put.mp hb with rfl | ⟨hb, -⟩
    · exact hs.allowed a ha (hphase hallowed) h hh hid
    · exact hs.allowed b hb hallowed h hh hid
  known h hh := by
    obtain ⟨b, hb, hbh⟩ := hs.known h hh
    by_cases hba : b.id = a.id
    · exact ⟨{ a with phase := phase }, Table.mem_put.mpr (.inl rfl), hba.symm.trans hbh⟩
    · exact ⟨b, Table.mem_put.mpr (.inr ⟨hb, hba⟩), hbh⟩

theorem Sound.withCounters (hs : Sound s) {counters : Counters} {d : Instance → Cell → Int}
    (hmoves : s.counters.Moves counters d) (hd : ∀ i e, 0 ≤ d i e) :
    Sound { s with counters := counters } :=
  { hs with
    counted := (hs.move_counters hmoves hd).1
    fresh := (hs.move_counters hmoves hd).2 }

/-- What `rate_limit` counts. -/
theorem rateLimit_cases {key : String} {limit : Int} {reply : Reply} {counters : Counters}
    {hit : Hit} (h : s.rateLimit settings a key limit reply = (counters, hit)) :
    hit.attempt = a.id ∧ hit.returned = false ∧
    ((counters = s.counters ∧ hit.counted = none) ∨
      ∃ i count, hit.counted = some i ∧ hit.limit = limit ∧ hit.allowed = decide (count ≤ limit) ∧
        counters.valueAt hit.cell i = some count ∧
        s.counters.Moves counters fun j e => if j = i ∧ e = hit.cell then 1 else 0) := by
  unfold State.rateLimit at h
  dsimp only at h
  split at h
  · obtain ⟨rfl, rfl⟩ := Prod.mk.inj h
    exact ⟨rfl, rfl, .inl ⟨rfl, rfl⟩⟩
  · rcases hat : s.counters.hitAt a.process (key, a.started / window) reply with ⟨c, i, count⟩
    rw [hat] at h
    obtain ⟨rfl, rfl⟩ := Prod.mk.inj h
    obtain ⟨hmoves, hvalue⟩ := Counters.hitAt_moves hat
    exact ⟨rfl, rfl, .inr ⟨i, count, rfl, rfl, rfl, hvalue, hmoves⟩⟩

theorem countP_snoc (p : Hit → Bool) (h : Hit) :
    (s.hits ++ [h]).countP p = s.hits.countP p + if p h then 1 else 0 := by
  rw [List.countP_append, List.countP_singleton]

theorem holdsWithin_holds (i : Instance) (e : Cell) (limit : Nat) (hits : List Hit) :
    hits.countP (holdsWithin i e limit) ≤ hits.countP (holds i e) :=
  List.countP_mono_left fun h _ hh => by
    simp only [holdsWithin, Bool.and_eq_true] at hh
    exact hh.1.1

/-- A hit that is taken. -/
theorem Sound.take (hs : Sound s) (ha : a ∈ s.attempts) (hphase : a.phase = .taking)
    {key : String} {limit : Int} {reply : Reply} {counters : Counters} {hit : Hit}
    (h : s.rateLimit settings a key limit reply = (counters, hit)) {phase : Phase}
    (hallowed : phase.allowed = true → hit.allowed = true) :
    Sound { (s.setPhase a phase) with counters := counters, hits := s.hits ++ [hit] } := by
  obtain ⟨hattempt, hreturned, hcount⟩ := rateLimit_cases h
  have hcounters : (∀ i e v, counters.valueAt e i = some v →
        ((s.hits ++ [hit]).countP (holds i e) : Int) ≤ v) ∧
      ∀ i e, counters.Fresh e i → (s.hits ++ [hit]).countP (holds i e) = 0 := by
    obtain ⟨rfl, hnone⟩ | ⟨i, count, hi, -, -, hvalue, hmoves⟩ := hcount
    · have hsame : ∀ i e, (s.hits ++ [hit]).countP (holds i e) = s.hits.countP (holds i e) := by
        intro i e
        rw [countP_snoc, if_neg (by simp [holds, hnone])]
        omega
      simp only [hsame]
      exact ⟨hs.counted, hs.fresh⟩
    · refine hs.move (s.hits ++ [hit]) hmoves (fun j e => ?_) fun j e hnew => ?_
      · rw [countP_snoc]
        by_cases hj : j = i ∧ e = hit.cell
        · rw [if_pos hj]
          split <;> omega
        · have hnot : holds j e hit = false := by
            rw [← Bool.not_eq_true]
            simp only [holds, hi, hreturned, Bool.and_eq_true, decide_eq_true_eq,
              Option.some.injEq, Bool.not_false, and_true]
            exact fun hh => hj ⟨hh.1.symm, hh.2.symm⟩
          rw [if_neg hj, if_neg (by simp [hnot])]
          omega
      · -- a counter that holds the hit is there
        have hother : ¬(j = i ∧ e = hit.cell) := by
          rintro ⟨rfl, rfl⟩
          rcases j with epoch | ⟨process, epoch⟩
          · obtain ⟨hepoch, -⟩ := Counters.valueAt_shared.mp hvalue
            unfold Counters.Fresh at hnew
            dsimp only at hnew
            omega
          · obtain ⟨hepoch, -⟩ := Counters.valueAt_local.mp hvalue
            unfold Counters.Fresh at hnew
            dsimp only at hnew
            omega
        exact (if_neg hother).le
  have hset := hs.setPhase ha phase fun _ => by rw [hphase]; rfl
  exact
    { counted := hcounters.1
      fresh := hcounters.2
      bounded := by
        intro i e bound
        change (s.hits ++ [hit]).countP (holdsWithin i e bound) ≤ bound
        by_cases hnew : holdsWithin i e bound hit = true
        · -- the hit was allowed, so its counter held no more than its limit
          simp only [holdsWithin, holds, Bool.and_eq_true, decide_eq_true_eq] at hnew
          obtain ⟨⟨⟨⟨hi, he⟩, -⟩, hok⟩, hlimit⟩ := hnew
          obtain ⟨-, hnone⟩ | ⟨j, count, hj, hl, hdecide, hvalue, -⟩ := hcount
          · rw [hnone] at hi
            cases hi
          · rw [hj] at hi
            obtain rfl := Option.some.inj hi
            subst he
            have hle := hcounters.1 j hit.cell count hvalue
            have hwithin := holdsWithin_holds j hit.cell bound (s.hits ++ [hit])
            rw [hok] at hdecide
            have hcountle := of_decide_eq_true hdecide.symm
            omega
        · rw [countP_snoc, if_neg hnew]
          exact hs.bounded i e bound
      allowed := by
        intro b hb hbphase x hx hid
        rcases List.mem_append.mp hx with hx | hx
        · exact hset.allowed b hb hbphase x hx hid
        · obtain rfl := List.mem_singleton.mp hx
          rcases Table.mem_put.mp hb with rfl | ⟨-, hne⟩
          · exact hallowed hbphase
          · exact absurd (hid.symm.trans hattempt) hne
      known := by
        intro x hx
        rcases List.mem_append.mp hx with hx | hx
        · exact hset.known x hx
        · obtain rfl := List.mem_singleton.mp hx
          exact ⟨{ a with phase := phase }, Table.mem_put.mpr (.inl rfl), hattempt.symm⟩ }

/-- A hit that is given back to the counter that counted it. -/
theorem Sound.giveBack (hs : Sound s) {h : Hit} (hnext : s.nextReturn id = some h)
    {counters : Counters} {d : Instance → Cell → Int} (hmoves : s.counters.Moves counters d)
    (hd : ∀ i e, d i e ≤ 0) (hreach : ∀ i e, d i e < 0 → holds i e h = true ∧ -1 ≤ d i e) :
    Sound { s with
      counters := counters
      hits := State.giveFirst (fun h => h.attempt = id && !h.returned) s.hits } := by
  have hgone : ∀ i e, holds i e { h with returned := true } = false := by simp [holds]
  have hcounters := hs.move (State.giveFirst (fun h => h.attempt = id && !h.returned) s.hits) hmoves
    (fun i e => by
      have hcount := countP_giveFirst hnext (holds i e)
      rw [hgone, if_neg Bool.false_ne_true] at hcount
      have hde := hd i e
      have hre := hreach i e
      by_cases hheld : holds i e h = true
      · rw [if_pos hheld] at hcount
        by_cases hlt : d i e < 0
        · have := (hre hlt).2
          omega
        · omega
      · have hnot : ¬ d i e < 0 := fun hlt => hheld (hre hlt).1
        omega)
    fun i e _ => hd i e
  exact
    { counted := hcounters.1
      fresh := hcounters.2
      bounded := fun i e bound => Nat.le_trans
        (countP_giveFirst_le _ fun h => by simp [holdsWithin, holds]) (hs.bounded i e bound)
      allowed := by
        intro a ha hphase x hx hid
        obtain ⟨y, hy, hattempt, hallowed⟩ := mem_giveFirst hx
        rw [← hallowed]
        exact hs.allowed a ha hphase y hy (hattempt.trans hid)
      known := by
        intro x hx
        obtain ⟨y, hy, hattempt, -⟩ := mem_giveFirst hx
        rw [← hattempt]
        exact hs.known y hy }

theorem Sound.init : Sound {} where
  counted i cell v h := by
    rcases i with epoch | ⟨process, epoch⟩
    · obtain ⟨-, rfl⟩ := Counters.valueAt_shared.mp h
      exact Int.le_refl _
    · obtain ⟨-, rfl⟩ := Counters.valueAt_local.mp h
      exact Int.le_refl _
  bounded i cell limit := Nat.zero_le _
  fresh i cell h := rfl
  allowed a ha := absurd ha Table.not_mem_empty
  known h hh := absurd hh List.not_mem_nil

/-- **Every step keeps the invariant**, if its refund returns to the counter of the hit. -/
theorem Sound.step (hs : Sound s) {action : State.Action} (hreturns : Returns s action)
    (h : s.step settings action = some s') : Sound s' := by
  cases action with
  | start id process ip username now =>
    unfold State.step at h
    dsimp only at h
    split at h
    · cases h
    · next hnone =>
      obtain rfl := Option.some.inj h
      have hfresh : ∀ b ∈ s.attempts, b.id ≠ id := Table.find?_eq_none_iff.mp (by simpa using hnone)
      exact
        { hs with
          allowed := by
            intro b hb hphase x hx hid
            rcases Table.mem_put.mp hb with rfl | ⟨hb, -⟩
            · obtain ⟨c, hc, hcx⟩ := hs.known x hx
              exact absurd (hcx.trans hid) (hfresh c hc)
            · exact hs.allowed b hb hphase x hx hid
          known := by
            intro x hx
            obtain ⟨c, hc, hcx⟩ := hs.known x hx
            exact ⟨c, Table.mem_put.mpr (.inr ⟨hc, hfresh c hc⟩), hcx⟩ }
  | take id reply =>
    obtain ⟨a, ha, h⟩ := Option.bind_eq_some_iff.mp h
    split at h
    · cases h
    · next hphase =>
      obtain ⟨⟨key, limit⟩, -, h⟩ := Option.bind_eq_some_iff.mp h
      rcases hlimit : s.rateLimit settings a key limit reply with ⟨counters, hit⟩
      dsimp only at h
      rw [hlimit] at h
      obtain rfl := Option.some.inj h
      refine hs.take (Table.find?_mem ha) (not_not.mp hphase) hlimit fun hallowed => ?_
      by_contra hrefused
      rw [if_pos (by simpa using hrefused)] at hallowed
      cases hallowed
  | giveBack id reply =>
    obtain ⟨a, ha, h⟩ := Option.bind_eq_some_iff.mp h
    split at h
    · cases h
    · split at h
      · obtain rfl := Option.some.inj h
        exact hs.setPhase (Table.find?_mem ha) .over fun hover => by cases hover
      · next hit hnext =>
        obtain rfl := Option.some.inj h
        by_cases hnone : hit.counted = none
        · rw [if_pos hnone]
          refine hs.giveBack hnext (d := fun _ _ => 0) ⟨fun i e v hv => .inl ⟨v, hv, by simp⟩,
            fun _ _ hf => hf⟩ (fun _ _ => Int.le_refl _) fun _ _ hlt => by omega
        · rw [if_neg hnone]
          refine hs.giveBack hnext (Counters.refundAt_moves reply) (fun i e => ?_) fun i e hlt => ?_
          · split <;> omega
          · split at hlt
            · next hreach =>
              have hcounted := hreturns hit hnext hnone i hreach.1
              have hopen := List.find?_some hnext
              simp only [Bool.and_eq_true, Bool.not_eq_eq_eq_not, Bool.not_true] at hopen
              rw [if_pos hreach]
              simp [holds, hcounted, hreach.2, hopen.2]
            · omega
  | forgive id =>
    obtain ⟨a, ha, h⟩ := Option.bind_eq_some_iff.mp h
    split at h
    · cases h
    · next hphase =>
      obtain rfl := Option.some.inj h
      exact hs.setPhase (Table.find?_mem ha) .forgiving fun _ => by
        rw [not_not.mp hphase]
        rfl
  | cancel id =>
    obtain ⟨a, ha, h⟩ := Option.bind_eq_some_iff.mp h
    obtain ⟨⟨key, limit⟩, -, h⟩ := Option.bind_eq_some_iff.mp h
    dsimp only at h
    split at h
    · cases h
    · obtain rfl := Option.some.inj h
      have hover := hs.setPhase (Table.find?_mem ha) .over fun hover => by cases hover
      exact hover.withCounters (Counters.moves_addShared 1) fun i e => by split <;> omega
  | lose cell =>
    obtain rfl := Option.some.inj h
    exact hs.withCounters Counters.moves_lose fun _ _ => Int.le_refl _

end Keep

/-! ## The throttle -/

/-- The attempt was admitted, and a hit it took is still counted at a counter, under a limit of
at most `limit`. -/
def Admitted (s : State) (i : Instance) (cell : Cell) (limit : Nat) (a : Attempt) : Bool :=
  (a.phase = .admitted || a.phase = .forgiving) &&
    s.hits.any fun h => h.attempt = a.id && holds i cell h && h.limit ≤ limit

/-- Of each counter: no more attempts it counted under a limit are admitted and not forgiven
than the limit, and it holds at least the hits it counted that were not given back. -/
structure Throttled (s : State) : Prop where
  bounded : ∀ i cell limit, s.attempts.rows.countP (Admitted s i cell limit) ≤ limit
  counted : ∀ i cell v, s.counters.valueAt cell i = some v →
    (s.hits.countP (holds i cell) : Int) ≤ v

/-- Each admitted attempt has a hit of its own. -/
theorem Sound.throttled {s : State} (hs : Sound s) : Throttled s where
  counted := hs.counted
  bounded i cell limit := by
    refine Nat.le_trans ?_ (hs.bounded i cell limit)
    have hhits : (s.hits.filter (holdsWithin i cell limit)).length =
        ((s.hits.filter (holdsWithin i cell limit)).map Hit.attempt).length :=
      (List.length_map _).symm
    rw [List.countP_eq_length_filter, List.countP_eq_length_filter, hhits,
      ← List.length_map Attempt.id]
    have hnodup : ((s.attempts.rows.filter (Admitted s i cell limit)).map Attempt.id).Nodup :=
      s.attempts.nodup.sublist (List.filter_sublist.map _)
    refine (hnodup.subperm fun id hid => ?_).length_le
    obtain ⟨a, ha, rfl⟩ := List.mem_map.mp hid
    obtain ⟨ha, hadmitted⟩ := List.mem_filter.mp ha
    simp only [Admitted, Bool.and_eq_true, List.any_eq_true, decide_eq_true_eq,
      Bool.or_eq_true] at hadmitted
    obtain ⟨hphase, h, hh, ⟨hattempt, hheld⟩, hlimit⟩ := hadmitted
    refine List.mem_map.mpr ⟨h, List.mem_filter.mpr ⟨hh, ?_⟩, hattempt⟩
    have hallowed := hs.allowed a ha (by rcases hphase with h | h <;> rw [h] <;> rfl) h hh hattempt
    simp [holdsWithin, hheld, hallowed, hlimit]

/-- **The login throttle**: in every run whose refunds lower no other counter than the one that
counted the hit, every counter throttles the attempts it counts. -/
theorem login_throttled (settings : Settings) {s : State}
    (h : (system settings).Reach Returns s) : Throttled s := by
  have hsound : Sound s := by
    refine h.invariant (I := Sound) (fun s hs => ?_) fun s action s' hs hok hstep =>
      hs.step hok hstep
    rw [show s = {} from hs]
    exact Sound.init
  exact hsound.throttled

/-! ## A cache that goes away -/

def onePerMinute : Settings where
  rateLimitLoginPerMinute := 1

def takeAll (id : Nat) (reply : Reply) : List State.Action :=
  [.start id 0 "1.2.3.4" "bob" 0, .take id reply, .take id reply, .take id reply]

/-- The second attempt does not reach the shared cache. -/
def twoAttempts : List State.Action := takeAll 1 .answers ++ takeAll 2 .down

/-- Two attempts are admitted in one window under a limit of one, and none is forgiven. -/
theorem login_admits_two : ∃ s, twoAttempts.foldlM (State.step onePerMinute) {} = some s ∧
    ("login:ip:1.2.3.4", 1) ∈ loginBuckets onePerMinute "1.2.3.4" "bob" ∧
    (s.attempts.rows.map fun a => (a.phase, a.started / window)) =
      [(Phase.admitted, 0), (Phase.admitted, 0)] := by
  refine ⟨_, rfl, by decide, by decide⟩

/-- One attempt, admitted and forgiven. -/
def forgivenAttempt : List State.Action :=
  takeAll 1 .answers ++ [.forgive 1, .giveBack 1 .answers, .giveBack 1 .answers,
    .giveBack 1 .answers]

/-- A step whose refund returns to the counter of the hit. -/
def returningStep (settings : Settings) (s : State) (action : State.Action) : Option State :=
  if Returns s action then s.step settings action else none

theorem login_throttled_forgiven : ∃ s, forgivenAttempt.foldlM (returningStep onePerMinute) {} =
    some s ∧ Throttled s := by
  obtain ⟨s, hs⟩ : ∃ s, forgivenAttempt.foldlM (returningStep onePerMinute) {} = some s :=
    ⟨_, rfl⟩
  have hstep : ∀ s action s', returningStep onePerMinute s action = some s' →
      Returns s action ∧ (system onePerMinute).Step s action s' := by
    intro s action s' h
    unfold returningStep at h
    split at h
    · next hok => exact ⟨hok, h⟩
    · cases h
  exact ⟨s, hs, login_throttled onePerMinute (.exec hstep (.init rfl) hs)⟩

end Minireg.Throttle
