import Mathlib.Logic.Function.Basic
import Minireg.Lib.Run
import Minireg.Lib.TimedLock

/-!
# The cross-replica lease

`Lease` on one key: the processes that take it, the renewer of each, and the commands on their way
to the shared cache, which may execute them late, in any order, or never. Times are milliseconds of
one clock. `leases_exclusive` needs no more than that; `leases_alone` is for runs in which the cache
answers in time, and `lease_lapses` for a holder that is gone.
-/

namespace Minireg.Leases

open Lib

/-! ## A lease -/

/-- A command that was sent; the ticket tells it from others like it. -/
structure Request where
  ticket : Nat
  command : LockCommand Nat
  sentAt : Nat
  deriving DecidableEq

/-- Where the owner of a lease is. -/
inductive Point where
  | outside
  /-- `await client.set(…)` -/
  | setting (q : Request)
  /-- `acquire` returned `False`. -/
  | refused
  /-- `acquire` returned `True`. -/
  | holding
  /-- `await client.eval(…)` in `release` -/
  | releasing (q : Request)
  | gone
  deriving DecidableEq

/-- `_renew_loop`. -/
inductive Renewer where
  | off
  | sleeping (wake : Nat)
  /-- `await client.eval(…)` in `renew` -/
  | renewing (q : Request)
  /-- The lease was lost while held. -/
  | lost
  deriving DecidableEq

structure Lease where
  ttl : Nat
  point : Point := .outside
  held : Bool := false
  /-- `_remote` -/
  remote : Bool := false
  renewer : Renewer := .off
  /-- When the last command was sent that is known to be granted. -/
  confirmed : Option Nat := none
  deriving DecidableEq

/-- What a lease does next. `client` is whether there is one. -/
inductive Move where
  | acquire (client : Bool)
  /-- The reply to `set`, or to `eval` in `release`. -/
  | answered (granted : Bool)
  | raised
  | wake (client : Bool)
  /-- The reply to `eval` in `renew`. -/
  | renewed (granted : Bool)
  | renewRaised
  | release (client : Bool)
  /-- The process dies. -/
  | crash
  deriving DecidableEq

/-- `max(0.05, self.ttl / 3)`. -/
def interval (ttl : Nat) : Nat := max 50 (ttl / 3)

namespace Lease

variable (l : Lease)

/-- The process of the lease is past `release`, or dead. -/
def released : Bool :=
  match l.point with
  | .releasing _ | .gone => true
  | _ => false

/-- `self.held = self._remote = False`, the renewer being cancelled. -/
def leave : Lease := { l with point := .gone, held := false, remote := false, renewer := .off }

/-- `_renew_loop` goes back to sleep. -/
def sleep (now : Nat) : Lease := { l with renewer := .sleeping (now + interval l.ttl) }

/-- One step of lease `i`, and what it sends. -/
def step (i now ticket : Nat) (replies : List (Request × Bool)) :
    Move → Option (Lease × Option Request)
  | .acquire client =>
    match l.point with
    | .outside =>
      if client then
        let q : Request := ⟨ticket, .take i l.ttl, now⟩
        some ({ l with point := .setting q }, some q)
      else some ({ l with point := .holding, held := true }, none)
    | _ => none
  | .answered granted =>
    match l.point with
    | .setting q =>
      if (q, granted) ∈ replies then
        if granted then
          some ({ l with
            point := .holding, held := true, remote := true, confirmed := some q.sentAt }.sleep now,
            none)
        else some ({ l with point := .refused }, none)
      else none
    | .releasing q => if (q, granted) ∈ replies then some (l.leave, none) else none
    | _ => none
  | .raised =>
    match l.point with
    | .setting _ => some ({ l with point := .holding, held := true }, none)
    | .releasing _ => some (l.leave, none)
    | _ => none
  | .wake client =>
    match l.point, l.renewer with
    | .holding, .sleeping wake =>
      if wake ≤ now then
        if client then
          let q : Request := ⟨ticket, .extend i l.ttl, now⟩
          some ({ l with renewer := .renewing q }, some q)
        else some (l.sleep now, none)
      else none
    | _, _ => none
  | .renewed granted =>
    match l.point, l.renewer with
    | .holding, .renewing q =>
      if (q, granted) ∈ replies then
        if granted then some ({ l with confirmed := some q.sentAt }.sleep now, none)
        else some ({ l with renewer := .lost }, none)
      else none
    | _, _ => none
  | .renewRaised =>
    match l.point, l.renewer with
    | .holding, .renewing _ => some (l.sleep now, none)
    | _, _ => none
  | .release client =>
    match l.point with
    | .holding =>
      if l.remote && client then
        let q : Request := ⟨ticket, .drop i, now⟩
        some ({ l with point := .releasing q, renewer := .off }, some q)
      else some (l.leave, none)
    | _ => none
  | .crash => some (l.leave, none)

end Lease

/-! ## The system -/

/-- The key in the shared cache, the commands that are on their way, those that were executed and
how, and the leases. -/
structure State where
  now : Nat := 0
  next : Nat := 0
  slot : Option (Slot Nat) := none
  requests : List Request := []
  replies : List (Request × Bool) := []
  leases : Nat → Lease

inductive Action where
  | tick (n : Nat)
  /-- The cache executes one of the commands on their way. -/
  | execute (q : Request)
  | move (i : Nat) (m : Move)
  deriving DecidableEq

namespace State

variable (s : State)

def execute (q : Request) : State :=
  let done := LockCommand.exec s.now q.command s.slot
  { s with
    slot := done.1
    requests := s.requests.erase q
    replies := (q, done.2) :: s.replies }

def move (i : Nat) (l : Lease) (sent : Option Request) : State :=
  { s with
    next := s.next + 1
    requests := s.requests ++ sent.toList
    leases := Function.update s.leases i l }

@[simp] theorem leases_move_self (s : State) (i : Nat) (l : Lease) (sent : Option Request) :
    (s.move i l sent).leases i = l := Function.update_self _ _ _

theorem leases_move_ne {s : State} {i j : Nat} {l : Lease} {sent : Option Request} (h : j ≠ i) :
    (s.move i l sent).leases j = s.leases j := Function.update_of_ne h _ _

def step : Action → Option State
  | .tick n => some { s with now := s.now + n }
  | .execute q => if q ∈ s.requests then some (s.execute q) else none
  | .move i m =>
    ((s.leases i).step i s.now s.next s.replies m).map fun e => s.move i e.1 e.2

end State

/-- Any number of leases on the key, none of which was acquired yet. -/
def system (ttl : Nat → Nat) : System State Action where
  init s := s = { leases := fun i => { ttl := ttl i } }
  Step s a s' := s.step a = some s'

/-- `lease_is_free`, where the cache answers. -/
def State.isFree (s : State) : Bool := (LockCommand.live s.now s.slot).isNone

/-! ## A run to look at -/

/-- The time to live of the housekeeping lease. -/
def demoTtl (_ : Nat) : Nat := 120000

def demoStart : State := { leases := fun i => { ttl := demoTtl i } }

def demoActions : List Action :=
  [.move 0 (.acquire true), .execute ⟨0, .take 0 120000, 0⟩, .move 0 (.answered true)]

/-- One process has taken it. -/
def demoHeld : State := (demoActions.foldlM State.step demoStart).getD demoStart

theorem demoHeld_reached {ok : State → Action → Prop} (hok : ∀ s, ∀ a ∈ demoActions, ok s a) :
    (system demoTtl).Reach ok demoHeld := by
  have hstart : (system demoTtl).Reach ok demoStart := .init rfl
  have hexec : demoActions.foldlM State.step demoStart = some demoHeld := by rfl
  exact hstart.exec_mem (fun a ha s s' hstep => ⟨hok s a ha, hstep⟩) hexec

/-! ## What a lease does -/

namespace Lease

/-- A reply to the command would confirm the lease. -/
def Awaits (l : Lease) (q : Request) : Prop :=
  l.released = false ∧ (l.point = .setting q ∨ l.renewer = .renewing q)

/-- What a step of a lease comes to, as far as the lock goes. -/
structure Moved (i now ticket : Nat) (replies : List (Request × Bool)) (l l' : Lease)
    (sent : Option Request) : Prop where
  ttl : l'.ttl = l.ttl
  released : l.released = true → l'.released = true
  sends : ∀ q, sent = some q → q.ticket = ticket ∧ q.sentAt = now ∧ q.command.owner = i ∧
    (∀ o, q.command = .drop o → l'.released = true) ∧
    ((∀ o, q.command ≠ .drop o) → q.command.ttl = l.ttl)
  awaits : ∀ q, l'.Awaits q → l.Awaits q ∨ sent = some q
  confirmed : l'.confirmed = l.confirmed ∨
    ∃ q, l.Awaits q ∧ (q, true) ∈ replies ∧ l'.confirmed = some q.sentAt

variable {l l' : Lease} {i now ticket : Nat} {replies : List (Request × Bool)}
  {sent : Option Request}

theorem released_leave : l.leave.released = true := rfl

/-- A lease that is left. -/
theorem moved_leave : Moved i now ticket replies l l.leave none where
  ttl := rfl
  released _ := rfl
  sends q hq := by cases hq
  awaits q hq := by
    have hreleased := hq.1
    rw [released_leave] at hreleased
    cases hreleased
  confirmed := .inl rfl

/-- A lease that sends nothing and learns nothing. -/
theorem moved_quiet (httl : l'.ttl = l.ttl) (hopen : l.released = false)
    (hpoint : ∀ q, l'.point = .setting q → l.point = .setting q)
    (hrenewer : ∀ q, l'.renewer = .renewing q → l.renewer = .renewing q)
    (hconfirmed : l'.confirmed = l.confirmed) : Moved i now ticket replies l l' none where
  ttl := httl
  released h := by
    rw [hopen] at h
    cases h
  sends q hq := by cases hq
  awaits q hq := .inl ⟨hopen, hq.2.imp (hpoint q) (hrenewer q)⟩
  confirmed := .inl hconfirmed

/-- A lease that sends a command and waits for the reply. -/
theorem moved_sends {c : LockCommand Nat} (httl : l'.ttl = l.ttl) (hopen : l.released = false)
    (howner : c.owner = i) (hdrop : ∀ o, c = .drop o → l'.released = true)
    (hc : (∀ o, c ≠ .drop o) → c.ttl = l.ttl)
    (hawaits : ∀ q, l'.Awaits q → l.Awaits q ∨ (⟨ticket, c, now⟩ : Request) = q)
    (hconfirmed : l'.confirmed = l.confirmed) :
    Moved i now ticket replies l l' (some ⟨ticket, c, now⟩) where
  ttl := httl
  released h := by
    rw [hopen] at h
    cases h
  sends q hq := by
    obtain rfl := Option.some.inj hq
    exact ⟨rfl, rfl, howner, hdrop, hc⟩
  awaits q hq := (hawaits q hq).imp_right (congrArg some)
  confirmed := .inl hconfirmed

/-- A lease whose command was granted. -/
theorem moved_granted {q : Request} (hq : l.Awaits q) (hreply : (q, true) ∈ replies) :
    Moved i now ticket replies l
      ({ l with point := .holding, held := true, remote := true,
                confirmed := some q.sentAt }.sleep now) none where
  ttl := rfl
  released h := by
    rw [hq.1] at h
    cases h
  sends q hq := by cases hq
  awaits q hq := by
    obtain ⟨-, hpoint | hrenewer⟩ := hq
    · cases hpoint
    · cases hrenewer
  confirmed := .inr ⟨q, hq, hreply, rfl⟩

theorem released_of_point {p : Point} (h : l.point = p)
    (hp : (∃ q, p = .setting q) ∨ p = .outside ∨ p = .holding) : l.released = false := by
  unfold released
  rw [h]
  obtain ⟨q, rfl⟩ | rfl | rfl := hp <;> rfl

theorem step_moved {m : Move} (h : l.step i now ticket replies m = some (l', sent)) :
    Moved i now ticket replies l l' sent := by
  unfold step at h
  cases m with
  | acquire client =>
    dsimp only at h
    split at h
    · next hpoint =>
      have hopen := l.released_of_point hpoint (.inr (.inl rfl))
      split at h
      · obtain ⟨rfl, rfl⟩ := Prod.mk.inj (Option.some.inj h)
        refine moved_sends rfl hopen rfl (fun _ h => by cases h) (fun _ => rfl) (fun q hq => ?_) rfl
        obtain ⟨-, hq | hq⟩ := hq
        · exact .inr (Point.setting.inj hq)
        · exact .inl ⟨hopen, .inr hq⟩
      · obtain ⟨rfl, rfl⟩ := Prod.mk.inj (Option.some.inj h)
        exact moved_quiet rfl hopen nofun (fun _ hq => hq) rfl
    · cases h
  | answered granted =>
    dsimp only at h
    split at h
    · next q hpoint =>
      have hopen := l.released_of_point hpoint (.inl ⟨q, rfl⟩)
      split at h
      · next hreply =>
        split at h
        · next hgranted =>
          obtain ⟨rfl, rfl⟩ := Prod.mk.inj (Option.some.inj h)
          exact moved_granted ⟨hopen, .inl hpoint⟩ (hgranted ▸ hreply)
        · obtain ⟨rfl, rfl⟩ := Prod.mk.inj (Option.some.inj h)
          exact moved_quiet rfl hopen nofun (fun _ hq => hq) rfl
      · cases h
    · split at h
      · obtain ⟨rfl, rfl⟩ := Prod.mk.inj (Option.some.inj h)
        exact l.moved_leave
      · cases h
    · cases h
  | raised =>
    dsimp only at h
    split at h
    · next q hpoint =>
      have hopen := l.released_of_point hpoint (.inl ⟨q, rfl⟩)
      obtain ⟨rfl, rfl⟩ := Prod.mk.inj (Option.some.inj h)
      exact moved_quiet rfl hopen nofun (fun _ hq => hq) rfl
    · obtain ⟨rfl, rfl⟩ := Prod.mk.inj (Option.some.inj h)
      exact l.moved_leave
    · cases h
  | wake client =>
    dsimp only at h
    split at h
    · next hpoint _ =>
      have hopen := l.released_of_point hpoint (.inr (.inr rfl))
      split at h
      · split at h
        · obtain ⟨rfl, rfl⟩ := Prod.mk.inj (Option.some.inj h)
          refine moved_sends rfl hopen rfl (fun _ h => by cases h) (fun _ => rfl) (fun q hq => ?_)
            rfl
          obtain ⟨-, hq | hq⟩ := hq
          · exact .inl ⟨hopen, .inl hq⟩
          · exact .inr (Renewer.renewing.inj hq)
        · obtain ⟨rfl, rfl⟩ := Prod.mk.inj (Option.some.inj h)
          exact moved_quiet rfl hopen (fun _ hq => hq) nofun rfl
      · cases h
    · cases h
  | renewed granted =>
    dsimp only at h
    split at h
    · next q hpoint hrenewer =>
      have hopen := l.released_of_point hpoint (.inr (.inr rfl))
      split at h
      · next hreply =>
        split at h
        · next hgranted =>
          obtain ⟨rfl, rfl⟩ := Prod.mk.inj (Option.some.inj h)
          refine ⟨rfl, fun h => ?_, (fun q hq => by cases hq), fun q hq => ?_,
            .inr ⟨q, ⟨hopen, .inr hrenewer⟩, hgranted ▸ hreply, rfl⟩⟩
          · rw [hopen] at h
            cases h
          · obtain ⟨-, hq | hq⟩ := hq
            · exact .inl ⟨hopen, .inl hq⟩
            · cases hq
        · obtain ⟨rfl, rfl⟩ := Prod.mk.inj (Option.some.inj h)
          exact moved_quiet rfl hopen (fun _ hq => hq) nofun rfl
      · cases h
    · cases h
  | renewRaised =>
    dsimp only at h
    split at h
    · next q hpoint hrenewer =>
      have hopen := l.released_of_point hpoint (.inr (.inr rfl))
      obtain ⟨rfl, rfl⟩ := Prod.mk.inj (Option.some.inj h)
      exact moved_quiet rfl hopen (fun _ hq => hq) nofun rfl
    · cases h
  | release client =>
    dsimp only at h
    split at h
    · next hpoint =>
      have hopen := l.released_of_point hpoint (.inr (.inr rfl))
      split at h
      · obtain ⟨rfl, rfl⟩ := Prod.mk.inj (Option.some.inj h)
        exact moved_sends rfl hopen rfl (fun _ _ => rfl) (fun h => absurd rfl (h i))
          (fun q hq => by cases hq.1) rfl
      · obtain ⟨rfl, rfl⟩ := Prod.mk.inj (Option.some.inj h)
        exact l.moved_leave
    · cases h
  | crash =>
    obtain ⟨rfl, rfl⟩ := Prod.mk.inj (Option.some.inj h)
    exact l.moved_leave

end Lease

/-! ## What the leases may rely on -/

section Safety

variable {s s' : State} {ttl : Nat → Nat}

/-- A command to drop the lock is of an owner that has released; any other is for the time to live
of its owner. -/
structure Proper (s : State) (q : Request) : Prop where
  sent : q.sentAt ≤ s.now
  ticket : q.ticket < s.next
  drops : ∀ o, q.command = .drop o → (s.leases q.command.owner).released = true
  ttl : (∀ o, q.command ≠ .drop o) → q.command.ttl = (s.leases q.command.owner).ttl

/-- The key is the lease's for its time to live from a time on. -/
def State.Backs (s : State) (i t : Nat) : Prop := Backed s.now s.slot i (t + (s.leases i).ttl)

/-- What holds in every state: a lease that was not released has the key for its time to live from
when a command of its was sent that was granted. -/
structure Inv (s : State) : Prop where
  requests : ∀ q ∈ s.requests, Proper s q
  replies : ∀ e ∈ s.replies, Proper s e.1
  granted : ∀ q, (q, true) ∈ s.replies → (s.leases q.command.owner).released = false →
    s.Backs q.command.owner q.sentAt
  awaits : ∀ i q, (s.leases i).Awaits q → q.command.owner = i ∧ q.ticket < s.next
  confirmed : ∀ i t, (s.leases i).confirmed = some t → t ≤ s.now ∧
    ((s.leases i).released = false → s.Backs i t)
  slot : ∀ x, s.slot = some x → x.expires ≤ s.now + (s.leases x.owner).ttl

theorem inv_init (h : (system ttl).init s) : Inv s := by
  obtain rfl : s = _ := h
  constructor
  · exact fun q hq => absurd hq List.not_mem_nil
  · exact fun e he => absurd he List.not_mem_nil
  · exact fun q hq => absurd hq List.not_mem_nil
  · rintro i q ⟨-, hq | hq⟩ <;> cases hq
  · exact fun i t ht => by cases ht
  · exact fun x hx => by cases hx

theorem Proper.tick {q : Request} (h : Proper s q) (n : Nat) :
    Proper { s with now := s.now + n } q :=
  ⟨Nat.le_trans h.sent (Nat.le_add_right _ _), h.ticket, h.drops, h.ttl⟩

/-- Time passes. -/
theorem Inv.tick (h : Inv s) (n : Nat) : Inv { s with now := s.now + n } where
  requests q hq := (h.requests q hq).tick n
  replies e he := (h.replies e he).tick n
  granted q hq hopen := (h.granted q hq hopen).later (Nat.le_add_right _ _)
  awaits := h.awaits
  confirmed i t ht := by
    obtain ⟨hle, hbacks⟩ := h.confirmed i t ht
    exact ⟨Nat.le_trans hle (Nat.le_add_right _ _),
      fun hopen => (hbacks hopen).later (Nat.le_add_right _ _)⟩
  slot x hx := Nat.le_trans (h.slot x hx) (Nat.add_le_add_right (Nat.le_add_right _ _) _)

/-- What a lease that was not released has, it has after a command was executed. -/
theorem Inv.backs_execute (h : Inv s) {q : Request} (hq : q ∈ s.requests) {i t : Nat}
    (hopen : (s.leases i).released = false) (ht : t ≤ s.now) (hbacks : s.Backs i t) :
    (s.execute q).Backs i t := by
  have hproper := h.requests q hq
  have hkind : ∀ o, q.command = .drop o → q.command.owner ≠ i := by
    rintro o hdrop rfl
    rw [hproper.drops o hdrop] at hopen
    cases hopen
  refine hbacks.exec (c := q.command) (fun hdrop => ?_) rfl fun howner => ?_
  · exact hkind i hdrop (by rw [hdrop]; rfl)
  · rw [hproper.ttl fun o hdrop => hkind o hdrop howner, howner]
    exact Nat.add_le_add_right ht _

/-- A command is executed. -/
theorem Inv.execute (h : Inv s) {q : Request} (hq : q ∈ s.requests) : Inv (s.execute q) where
  requests q' hq' := by
    obtain ⟨hsent, hticket, hdrops, httl⟩ := h.requests q' (List.mem_of_mem_erase hq')
    exact ⟨hsent, hticket, hdrops, httl⟩
  replies e he := by
    have hproper : Proper s e.1 := by
      rcases List.mem_cons.mp he with rfl | he
      · exact h.requests q hq
      · exact h.replies e he
    exact ⟨hproper.sent, hproper.ticket, hproper.drops, hproper.ttl⟩
  granted q' hq' hopen := by
    rcases List.mem_cons.mp hq' with heq | hq'
    · obtain ⟨rfl, hgranted⟩ := Prod.mk.inj heq
      obtain ⟨hsent, -, hdrops, httl⟩ := h.requests q' hq
      have hkind : ∀ o, q'.command ≠ .drop o := fun o hdrop => by
        have hreleased := hdrops o hdrop
        change (s.leases q'.command.owner).released = false at hopen
        rw [hopen] at hreleased
        cases hreleased
      have hbacked := Backed.granted (Prod.ext rfl hgranted.symm) hsent hkind
      rw [httl hkind] at hbacked
      exact hbacked
    · exact h.backs_execute hq hopen (h.replies _ hq').sent (h.granted q' hq' hopen)
  awaits := h.awaits
  confirmed i t ht := by
    obtain ⟨hle, hbacks⟩ := h.confirmed i t ht
    exact ⟨hle, fun hopen => h.backs_execute hq hopen hle (hbacks hopen)⟩
  slot x hx := by
    rcases exec_owner (Prod.eta _).symm hx with hx | ⟨rfl, hkind⟩
    · exact h.slot x hx
    · rw [(h.requests q hq).ttl hkind]
      exact Nat.le_refl _

/-- A lease takes a step. -/
theorem Inv.move (h : Inv s) {i : Nat} {l : Lease} {sent : Option Request}
    (hmoved : Lease.Moved i s.now s.next s.replies (s.leases i) l sent) :
    Inv (s.move i l sent) := by
  have hleases : ∀ j, ((s.move i l sent).leases j).ttl = (s.leases j).ttl ∧
      ((s.leases j).released = true → ((s.move i l sent).leases j).released = true) := by
    intro j
    by_cases hj : j = i
    · subst hj
      rw [State.leases_move_self]
      exact ⟨hmoved.ttl, hmoved.released⟩
    · rw [State.leases_move_ne hj]
      exact ⟨rfl, id⟩
  have hproper : ∀ q, Proper s q → Proper (s.move i l sent) q := fun q hq =>
    ⟨hq.sent, Nat.lt_succ_of_lt hq.ticket, fun o hdrop => (hleases _).2 (hq.drops o hdrop),
      fun hkind => (hq.ttl hkind).trans (hleases _).1.symm⟩
  have hopen : ∀ j, ((s.move i l sent).leases j).released = false →
      (s.leases j).released = false := fun j hj => by
    by_contra hcontra
    rw [(hleases j).2 (by simpa using hcontra)] at hj
    cases hj
  have hbacks : ∀ j t, s.Backs j t → (s.move i l sent).Backs j t := fun j t hj => by
    unfold State.Backs at hj ⊢
    rw [(hleases j).1]
    exact hj
  constructor
  · intro q hq
    rcases List.mem_append.mp hq with hq | hq
    · exact hproper q (h.requests q hq)
    · obtain ⟨hticket, hsent, howner, hdrops, httl⟩ := hmoved.sends q (Option.mem_toList.mp hq)
      have hself : (s.move i l sent).leases q.command.owner = l := by
        rw [howner, State.leases_move_self]
      refine ⟨Nat.le_of_eq hsent, hticket ▸ Nat.lt_succ_self _, ?_, ?_⟩
      · rw [hself]
        exact hdrops
      · rw [hself, hmoved.ttl]
        exact httl
  · exact fun e he => hproper e.1 (h.replies e he)
  · exact fun q hq hq' => hbacks _ _ (h.granted q hq (hopen _ hq'))
  · intro j q hq
    by_cases hj : j = i
    · subst hj
      rw [State.leases_move_self] at hq
      rcases hmoved.awaits q hq with hq | hq
      · exact ⟨(h.awaits j q hq).1, Nat.lt_succ_of_lt (h.awaits j q hq).2⟩
      · obtain ⟨hticket, -, howner, -⟩ := hmoved.sends q hq
        exact ⟨howner, hticket ▸ Nat.lt_succ_self _⟩
    · rw [State.leases_move_ne hj] at hq
      exact ⟨(h.awaits j q hq).1, Nat.lt_succ_of_lt (h.awaits j q hq).2⟩
  · intro j t ht
    by_cases hj : j = i
    · subst hj
      rw [State.leases_move_self] at ht
      rcases hmoved.confirmed with hsame | ⟨q, hawaits, hreply, hsome⟩
      · obtain ⟨hle, hbacked⟩ := h.confirmed j t (hsame ▸ ht)
        exact ⟨hle, fun hj => hbacks j t (hbacked (hopen j hj))⟩
      · obtain rfl := Option.some.inj (hsome.symm.trans ht)
        refine ⟨(h.replies _ hreply).sent, fun hj => hbacks j _ ?_⟩
        obtain ⟨rfl, -⟩ := h.awaits j q hawaits
        exact h.granted q hreply hawaits.1
    · rw [State.leases_move_ne hj] at ht
      obtain ⟨hle, hbacked⟩ := h.confirmed j t ht
      exact ⟨hle, fun hj => hbacks j t (hbacked (hopen j hj))⟩
  · intro x hx
    rw [(hleases _).1]
    exact h.slot x hx

/-- What a step of the system is. -/
theorem step_cases {a : Action} (h : s.step a = some s') :
    (∃ n, a = .tick n ∧ s' = { s with now := s.now + n }) ∨
    (∃ q, a = .execute q ∧ q ∈ s.requests ∧ s' = s.execute q) ∨
    ∃ i m l sent, a = .move i m ∧
      (s.leases i).step i s.now s.next s.replies m = some (l, sent) ∧ s' = s.move i l sent := by
  cases a with
  | tick n => exact .inl ⟨n, rfl, (Option.some.inj h).symm⟩
  | execute q =>
    unfold State.step at h
    dsimp only at h
    split at h
    · next hq => exact .inr (.inl ⟨q, rfl, hq, (Option.some.inj h).symm⟩)
    · cases h
  | move i m =>
    obtain ⟨⟨l, sent⟩, hstep, rfl⟩ := Option.map_eq_some_iff.mp h
    exact .inr (.inr ⟨i, m, l, sent, rfl, hstep, rfl⟩)

theorem inv_step {a : Action} (h : Inv s) (hstep : (system ttl).Step s a s') : Inv s' := by
  obtain ⟨n, -, rfl⟩ | ⟨q, -, hq, rfl⟩ | ⟨i, m, l, sent, -, hlease, rfl⟩ := step_cases hstep
  · exact h.tick n
  · exact h.execute hq
  · exact h.move (Lease.step_moved hlease)

theorem inv_reach {ok : State → Action → Prop} (h : (system ttl).Reach ok s) : Inv s :=
  h.invariant (fun _ => inv_init) fun _ _ _ hinv _ hstep => inv_step hinv hstep

/-- A lease that is held knows of a command that was granted and whose time to live is not over. -/
def State.Fresh (s : State) (i : Nat) : Prop :=
  (s.leases i).point = .holding ∧
    ∃ t, (s.leases i).confirmed = some t ∧ s.now < t + (s.leases i).ttl

theorem Inv.fresh (h : Inv s) {i : Nat} (hfresh : s.Fresh i) :
    ∃ t, s.Backs i t ∧ s.now < t + (s.leases i).ttl := by
  obtain ⟨hpoint, t, ht, hlt⟩ := hfresh
  exact ⟨t, (h.confirmed i t ht).2 (Lease.released_of_point hpoint (.inr (.inr rfl))), hlt⟩

/-- **No two leases of a key at once**, whatever becomes of the commands: of those that are held
and were confirmed within their time to live there is one at most, and the key has its name. -/
theorem leases_exclusive {ok : State → Action → Prop} (h : (system ttl).Reach ok s) {i j : Nat}
    (hi : s.Fresh i) (hj : s.Fresh j) :
    i = j ∧ s.isFree = false ∧ ∀ x, s.slot = some x → x.owner = i := by
  obtain ⟨t, hbacks, hlt⟩ := (inv_reach h).fresh hi
  obtain ⟨t', hbacks', hlt'⟩ := (inv_reach h).fresh hj
  refine ⟨hbacks.unique hbacks' hlt hlt', ?_, fun x hx => ?_⟩
  · obtain ⟨x, hx, -⟩ := hbacks.live hlt
    unfold State.isFree
    rw [hx]
    rfl
  · obtain ⟨e, he, -⟩ := hbacks hlt
    rw [he] at hx
    exact Option.some.inj hx ▸ rfl

theorem demoHeld_exclusive : 0 = 0 ∧ demoHeld.isFree = false ∧
    ∀ x, demoHeld.slot = some x → x.owner = 0 :=
  leases_exclusive
    (demoHeld_reached fun _ _ _ => trivial : (system demoTtl).Reach (fun _ _ => True) demoHeld)
    ⟨rfl, 0, rfl, by decide⟩ ⟨rfl, 0, rfl, by decide⟩

end Safety

/-! ## When the cache answers in time -/

/-- No command waits for its reply, and no renewer oversleeps, for more than `d`. -/
def Lease.OnTime (l : Lease) (d now : Nat) : Prop :=
  (∀ q, l.point = .setting q → now ≤ q.sentAt + d) ∧
  (l.point = .holding →
    (∀ wake, l.renewer = .sleeping wake → now ≤ wake + d) ∧
    ∀ q, l.renewer = .renewing q → now ≤ q.sentAt + d)

/-- A run in which there is a client and no command fails, and the cache answers in time. -/
def prompt (d : Nat) (s : State) : Action → Prop
  | .tick n => ∀ i, (s.leases i).OnTime d (s.now + n)
  | .execute _ => True
  | .move i m =>
    m ≠ .acquire false ∧ m ≠ .wake false ∧ m ≠ .renewRaised ∧
      (m = .raised → ∃ q, (s.leases i).point = .releasing q)

/-- A lease that is held in such a run was confirmed a while ago, and its renewer is at work. -/
structure Lease.Renewed (l : Lease) (i d : Nat) (replies : List (Request × Bool)) (t : Nat) :
    Prop where
  confirmed : l.confirmed = some t
  renewer : (∃ wake, l.renewer = .sleeping wake ∧ wake ≤ t + d + interval l.ttl) ∨
    ∃ q, l.renewer = .renewing q ∧ q.command = .extend i l.ttl ∧
      q.sentAt ≤ t + 2 * d + interval l.ttl ∧ ∀ answer, (q, answer) ∈ replies → answer = true

structure Timely (d : Nat) (s : State) : Prop where
  inv : Inv s
  onTime : ∀ i, (s.leases i).OnTime d s.now
  margin : ∀ i, 3 * d + interval (s.leases i).ttl < (s.leases i).ttl
  renewed : ∀ i, (s.leases i).point = .holding → ∃ t, (s.leases i).Renewed i d s.replies t

namespace Lease

variable {l l' : Lease} {i d now ticket : Nat} {replies : List (Request × Bool)}
  {sent : Option Request}

theorem OnTime.of_point (h : l.point ≠ .holding) (h' : ∀ q, l.point ≠ .setting q) :
    l.OnTime d now := ⟨fun q hq => absurd hq (h' q), fun hpoint => absurd hpoint h⟩

theorem prompt_idle (h : l.point ≠ .holding) (h' : ∀ q, l.point ≠ .setting q) :
    l.OnTime d now ∧ (l.point = .holding → ∃ t, l.Renewed i d replies t) :=
  ⟨.of_point h h', fun hpoint => absurd hpoint h⟩

/-- The renewer goes back to sleep after a command that was granted in time. -/
theorem prompt_sleep {t : Nat} (hpoint : l.point = .holding) (hconfirmed : l.confirmed = some t)
    (hlate : now ≤ t + d) :
    (l.sleep now).OnTime d now ∧
      ((l.sleep now).point = .holding → ∃ t, (l.sleep now).Renewed i d replies t) := by
  constructor
  · constructor
    · intro q hq
      exact absurd (hpoint.symm.trans hq) (fun h => by cases h)
    · refine fun _ => ⟨fun wake hwake => ?_, fun q hq => by cases hq⟩
      obtain rfl := Renewer.sleeping.inj hwake
      omega
  · exact fun _ => ⟨t, hconfirmed, .inl ⟨_, rfl, Nat.add_le_add_right hlate _⟩⟩

/-- **A step in time** leaves the lease in time and renewed. -/
theorem step_prompt {m : Move} (hstep : l.step i now ticket replies m = some (l', sent))
    (hacquire : m ≠ .acquire false) (hwake : m ≠ .wake false) (hrenew : m ≠ .renewRaised)
    (hraised : m = .raised → ∃ q, l.point = .releasing q) (htime : l.OnTime d now)
    (hreplies : ∀ e ∈ replies, e.1.ticket < ticket)
    (h : l.point = .holding → ∃ t, l.Renewed i d replies t) :
    l'.OnTime d now ∧ (l'.point = .holding → ∃ t, l'.Renewed i d replies t) := by
  unfold step at hstep
  cases m with
  | acquire client =>
    dsimp only at hstep
    split at hstep
    · split at hstep
      · obtain ⟨rfl, rfl⟩ := Prod.mk.inj (Option.some.inj hstep)
        refine ⟨⟨fun q hq => ?_, fun h => by cases h⟩, fun h => by cases h⟩
        exact Point.setting.inj hq ▸ Nat.le_add_right _ _
      · next hclient => exact absurd (congrArg Move.acquire (by simpa using hclient)) hacquire
    · cases hstep
  | answered granted =>
    dsimp only at hstep
    split at hstep
    · next q hpoint =>
      split at hstep
      · split at hstep
        · obtain ⟨rfl, rfl⟩ := Prod.mk.inj (Option.some.inj hstep)
          exact prompt_sleep rfl rfl (htime.1 q hpoint)
        · obtain ⟨rfl, rfl⟩ := Prod.mk.inj (Option.some.inj hstep)
          exact prompt_idle nofun nofun
      · cases hstep
    · split at hstep
      · obtain ⟨rfl, rfl⟩ := Prod.mk.inj (Option.some.inj hstep)
        exact prompt_idle nofun nofun
      · cases hstep
    · cases hstep
  | raised =>
    obtain ⟨q, hpoint⟩ := hraised rfl
    dsimp only at hstep
    rw [hpoint] at hstep
    obtain ⟨rfl, rfl⟩ := Prod.mk.inj (Option.some.inj hstep)
    exact prompt_idle nofun nofun
  | wake client =>
    dsimp only at hstep
    split at hstep
    · next wake hpoint hsleeping =>
      obtain ⟨t, hconfirmed, hrenewer⟩ := h hpoint
      have hlate := (htime.2 hpoint).1 wake hsleeping
      split at hstep
      · split at hstep
        · obtain ⟨rfl, rfl⟩ := Prod.mk.inj (Option.some.inj hstep)
          refine ⟨⟨fun q hq => ?_, fun _ => ⟨(fun wake hwake => by cases hwake), fun q hq => ?_⟩⟩,
            fun _ => ⟨t, hconfirmed, .inr ⟨_, rfl, rfl, ?_, fun answer hanswer => ?_⟩⟩⟩
          · exact absurd (hpoint.symm.trans hq) (fun h => by cases h)
          · exact Renewer.renewing.inj hq ▸ Nat.le_add_right _ _
          · obtain ⟨wake', hwake', hle⟩ | ⟨q, hq, -⟩ := hrenewer
            · obtain rfl := Renewer.sleeping.inj (hsleeping.symm.trans hwake')
              change now ≤ t + 2 * d + interval l.ttl
              omega
            · rw [hsleeping] at hq
              cases hq
          · exact absurd (hreplies _ hanswer) (Nat.lt_irrefl _)
        · next hclient => exact absurd (congrArg Move.wake (by simpa using hclient)) hwake
      · cases hstep
    · cases hstep
  | renewed granted =>
    dsimp only at hstep
    split at hstep
    · next q hpoint hrenewing =>
      split at hstep
      · next hreply =>
        split at hstep
        · obtain ⟨rfl, rfl⟩ := Prod.mk.inj (Option.some.inj hstep)
          exact prompt_sleep hpoint rfl ((htime.2 hpoint).2 q hrenewing)
        · next hrefused =>
          -- a reply that a renewed lease waits for grants
          obtain ⟨t, -, ⟨wake, hsleeping, -⟩ | ⟨q', hq', -, -, hgranted⟩⟩ := h hpoint
          · rw [hrenewing] at hsleeping
            cases hsleeping
          · obtain rfl := Renewer.renewing.inj (hrenewing.symm.trans hq')
            exact absurd (hgranted granted hreply) hrefused
      · cases hstep
    · cases hstep
  | renewRaised => exact absurd rfl hrenew
  | release client =>
    dsimp only at hstep
    split at hstep
    · split at hstep
      · obtain ⟨rfl, rfl⟩ := Prod.mk.inj (Option.some.inj hstep)
        exact prompt_idle nofun nofun
      · obtain ⟨rfl, rfl⟩ := Prod.mk.inj (Option.some.inj hstep)
        exact prompt_idle nofun nofun
    · cases hstep
  | crash =>
    obtain ⟨rfl, rfl⟩ := Prod.mk.inj (Option.some.inj hstep)
    exact prompt_idle nofun nofun

end Lease

section Prompt

variable {s s' : State} {ttl : Nat → Nat} {d : Nat}

/-- In time, a renewed lease is still fresh. -/
theorem Timely.fresh (h : Timely d s) {i : Nat} (hpoint : (s.leases i).point = .holding) :
    s.Fresh i := by
  obtain ⟨t, hconfirmed, hrenewer⟩ := h.renewed i hpoint
  have hmargin := h.margin i
  refine ⟨hpoint, t, hconfirmed, ?_⟩
  obtain ⟨wake, hsleeping, hwake⟩ | ⟨q, hrenewing, -, hsent, -⟩ := hrenewer
  · have hnow := ((h.onTime i).2 hpoint).1 wake hsleeping
    omega
  · have hnow := ((h.onTime i).2 hpoint).2 q hrenewing
    omega

theorem timely_init (hmargin : ∀ i, 3 * d + interval (ttl i) < ttl i) (h : (system ttl).init s) :
    Timely d s := by
  have hinv := inv_init h
  obtain rfl : s = _ := h
  refine ⟨hinv, fun i => .of_point (fun h => by cases h) (fun q h => by cases h), hmargin,
    fun i hpoint => ?_⟩
  cases hpoint

/-- A command to extend that is executed while its owner is fresh is granted. -/
theorem Timely.execute (h : Timely d s) {q : Request} (hq : q ∈ s.requests) :
    Timely d (s.execute q) := by
  refine ⟨h.inv.execute hq, h.onTime, h.margin, fun i hpoint => ?_⟩
  obtain ⟨t, hconfirmed, hrenewer⟩ := h.renewed i hpoint
  refine ⟨t, hconfirmed, hrenewer.imp_right ?_⟩
  rintro ⟨q', hrenewing, hcommand, hsent, hgranted⟩
  refine ⟨q', hrenewing, hcommand, hsent, fun answer hanswer => ?_⟩
  rcases List.mem_cons.mp hanswer with heq | hanswer
  · obtain ⟨rfl, rfl⟩ := Prod.mk.inj heq
    obtain ⟨t, hbacks, hlt⟩ := h.inv.fresh (h.fresh hpoint)
    have hexec : LockCommand.exec s.now (.extend i (s.leases i).ttl) s.slot =
        ((s.execute q').slot, (LockCommand.exec s.now q'.command s.slot).2) := by
      rw [← hcommand]
      rfl
    exact hbacks.extends hlt hexec
  · exact hgranted answer hanswer

theorem timely_step {a : Action} (h : Timely d s) (hok : prompt d s a)
    (hstep : (system ttl).Step s a s') : Timely d s' := by
  obtain ⟨n, rfl, rfl⟩ | ⟨q, rfl, hq, rfl⟩ | ⟨i, m, l, sent, rfl, hlease, rfl⟩ := step_cases hstep
  · exact ⟨h.inv.tick n, hok, h.margin, h.renewed⟩
  · exact h.execute hq
  · have hmoved := Lease.step_moved hlease
    obtain ⟨hacquire, hwake, hrenew, hraised⟩ := hok
    obtain ⟨htime, hrenewed⟩ := Lease.step_prompt hlease hacquire hwake hrenew hraised (h.onTime i)
      (fun e he => (h.inv.replies e he).ticket) (h.renewed i)
    refine ⟨h.inv.move hmoved, fun j => ?_, fun j => ?_, fun j => ?_⟩
    · by_cases hj : j = i
      · subst hj
        rw [State.leases_move_self]
        exact htime
      · rw [State.leases_move_ne hj]
        exact h.onTime j
    · by_cases hj : j = i
      · subst hj
        rw [State.leases_move_self, hmoved.ttl]
        exact h.margin j
      · rw [State.leases_move_ne hj]
        exact h.margin j
    · by_cases hj : j = i
      · subst hj
        rw [State.leases_move_self]
        exact hrenewed
      · rw [State.leases_move_ne hj]
        exact h.renewed j

/-- **A lease that is held is held alone**, and its renewer never finds it lost, in every run in
which the cache executes the commands and answers within `d`, and the renewers wake within `d`;
processes may die at any time. -/
theorem leases_alone (hmargin : ∀ i, 3 * d + interval (ttl i) < ttl i)
    (h : (system ttl).Reach (prompt d) s) {i : Nat} (hi : (s.leases i).point = .holding) :
    (∀ j, (s.leases j).point = .holding → j = i) ∧ (s.leases i).renewer ≠ .lost ∧
      s.isFree = false := by
  have htimely : Timely d s := h.invariant (fun _ => timely_init hmargin)
    fun _ _ _ hs hok hstep => timely_step hs hok hstep
  obtain ⟨t, hbacks, hlt⟩ := htimely.inv.fresh (htimely.fresh hi)
  refine ⟨fun j hj => ?_, fun hlost => ?_, ?_⟩
  · obtain ⟨t', hbacks', hlt'⟩ := htimely.inv.fresh (htimely.fresh hj)
    exact hbacks'.unique hbacks hlt' hlt
  · obtain ⟨t, -, ⟨wake, hsleeping, -⟩ | ⟨q, hrenewing, -⟩⟩ := htimely.renewed i hi
    · rw [hlost] at hsleeping
      cases hsleeping
    · rw [hlost] at hrenewing
      cases hrenewing
  · obtain ⟨x, hx, -⟩ := hbacks.live hlt
    unfold State.isFree
    rw [hx]
    rfl

theorem demoHeld_prompt (s : State) : ∀ a ∈ demoActions, prompt 1000 s a := by
  intro a ha
  simp only [demoActions, List.mem_cons, List.not_mem_nil, or_false] at ha
  obtain rfl | rfl | rfl := ha
  · exact ⟨by decide, by decide, by decide, fun h => by cases h⟩
  · trivial
  · exact ⟨by decide, by decide, by decide, fun h => by cases h⟩

theorem demoHeld_alone : (∀ j, (demoHeld.leases j).point = .holding → j = 0) ∧
    (demoHeld.leases 0).renewer ≠ .lost ∧ demoHeld.isFree = false := by
  have hmargin : ∀ i, 3 * 1000 + interval (demoTtl i) < demoTtl i := fun i => by
    unfold interval demoTtl
    omega
  exact leases_alone hmargin (demoHeld_reached demoHeld_prompt) rfl

end Prompt

/-! ## A holder that is gone -/

/-- No command of the lease is executed. -/
def silent (i : Nat) (_ : State) : Action → Prop
  | .execute q => q.command.owner ≠ i
  | _ => True

section Lapse

variable {s s' : State} {ttl : Nat → Nat}

theorem ttl_step {a : Action} (h : (system ttl).Step s a s') (i : Nat) :
    (s'.leases i).ttl = (s.leases i).ttl := by
  obtain ⟨n, -, rfl⟩ | ⟨q, -, -, rfl⟩ | ⟨j, m, l, sent, -, hlease, rfl⟩ := step_cases h
  · rfl
  · rfl
  · by_cases hi : i = j
    · subst hi
      rw [State.leases_move_self, (Lease.step_moved hlease).ttl]
    · rw [State.leases_move_ne hi]

theorem ttl_reach {ok : State → Action → Prop} (h : (system ttl).Reach ok s) (i : Nat) :
    (s.leases i).ttl = ttl i := by
  refine h.invariant (I := fun s => (s.leases i).ttl = ttl i) ?_ ?_
  · rintro s rfl
    rfl
  · intro s a s' hs _ hstep
    exact (ttl_step hstep i).trans hs

/-- **A lease lapses within its time to live**: where none of its commands is executed any more,
the key is free then, and is given to the next that asks for it, or somebody else has it. -/
theorem lease_lapses {ok : State → Action → Prop} (h : (system ttl).Reach ok s) {i : Nat}
    (hp : (system ttl).Path (silent i) s s') (hlate : s.now + ttl i ≤ s'.now) :
    (s'.isFree = true ∧ ∀ j, (LockCommand.exec s'.now (.take j (ttl j)) s'.slot).2 = true) ∨
      ∃ x, LockCommand.live s'.now s'.slot = some x ∧ x.owner ≠ i := by
  have hkept : ∀ x, s'.slot = some x → x.owner = i → x.expires ≤ s.now + ttl i := by
    refine hp.invariant (I := fun s' => ∀ x, s'.slot = some x → x.owner = i →
      x.expires ≤ s.now + ttl i) (fun s₁ a s₂ hs hok hstep x hx howner => ?_) ?_
    · obtain ⟨n, rfl, rfl⟩ | ⟨q, rfl, hq, rfl⟩ | ⟨j, m, l, sent, rfl, -, rfl⟩ := step_cases hstep
      · exact hs x hx howner
      · rcases exec_owner (Prod.eta _).symm hx with hx | ⟨rfl, -⟩
        · exact hs x hx howner
        · exact absurd howner hok
      · exact hs x hx howner
    · intro x hx howner
      have hslot := (inv_reach h).slot x hx
      rwa [howner, ttl_reach h i] at hslot
  rcases hlive : LockCommand.live s'.now s'.slot with _ | x
  · refine .inl ⟨by unfold State.isFree; rw [hlive]; rfl, fun j => ?_⟩
    rw [exec_take_free hlive]
  · obtain ⟨hslot, hlt⟩ := live_eq_some.mp hlive
    refine .inr ⟨x, rfl, fun howner => ?_⟩
    have hexpires := hkept x hslot howner
    omega

theorem demoHeld_lapses :
    (State.isFree { demoHeld with now := demoHeld.now + 120000 } = true ∧
      ∀ j, (LockCommand.exec (demoHeld.now + 120000) (.take j (demoTtl j)) demoHeld.slot).2 =
        true) ∨
    ∃ x, LockCommand.live (demoHeld.now + 120000) demoHeld.slot = some x ∧ x.owner ≠ 0 :=
  lease_lapses
    (demoHeld_reached fun _ _ _ => trivial : (system demoTtl).Reach (fun _ _ => True) demoHeld)
    (.step (a := .tick 120000) (.refl _) trivial rfl) (Nat.le_refl _)

end Lapse

end Minireg.Leases
