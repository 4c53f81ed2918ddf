import Mathlib.Logic.Basic

/-!
# A lock that lapses

A server that keeps one owner with a time to live, and executes the commands of many clients in the
order they reach it: to take the lock where nobody has it, and to extend it or drop it where the
client's own name is on it. `Backed` is what a client may rely on after a command that was granted,
as long as it has not asked for the lock to be dropped: nobody else has the lock before the time to
live is over (`Backed.exec`, `Backed.unique`).
-/

namespace Minireg.Lib

/-- An owner until a time. -/
structure Slot (τ : Type) where
  owner : τ
  expires : Nat
  deriving DecidableEq

/-- What a client sends. -/
inductive LockCommand (τ : Type) where
  | take (owner : τ) (ttl : Nat)
  | extend (owner : τ) (ttl : Nat)
  | drop (owner : τ)
  deriving DecidableEq

namespace LockCommand

variable {τ : Type}

def owner : LockCommand τ → τ
  | take o _ => o
  | extend o _ => o
  | drop o => o

/-- How long the lock lasts once the command is granted. -/
def ttl : LockCommand τ → Nat
  | take _ ttl => ttl
  | extend _ ttl => ttl
  | drop _ => 0

variable [DecidableEq τ]

/-- The slot as it stands at a time. -/
def live (now : Nat) (slot : Option (Slot τ)) : Option (Slot τ) :=
  slot.filter fun s => now < s.expires

/-- The server executes a command. -/
def exec (now : Nat) (c : LockCommand τ) (slot : Option (Slot τ)) : Option (Slot τ) × Bool :=
  match c with
  | take o ttl =>
    match live now slot with
    | none => (some ⟨o, now + ttl⟩, true)
    | some s => (some s, false)
  | extend o ttl =>
    match live now slot with
    | none => (none, false)
    | some s => if s.owner = o then (some ⟨o, now + ttl⟩, true) else (some s, false)
  | drop o =>
    match live now slot with
    | none => (none, false)
    | some s => if s.owner = o then (none, true) else (some s, false)

end LockCommand

open LockCommand

section Commands

variable {τ : Type} [DecidableEq τ] {now t : Nat} {o : τ} {c : LockCommand τ}
  {slot slot' : Option (Slot τ)} {answer : Bool}

omit [DecidableEq τ] in
theorem live_eq_some {s : Slot τ} : live now slot = some s ↔ slot = some s ∧ now < s.expires := by
  unfold live
  rw [Option.filter_eq_some_iff, decide_eq_true_eq]

/-- What a command does: it is granted, and puts its owner's name on the slot or takes it off, or
the slot stays as it stands. -/
theorem exec_cases (h : exec now c slot = (slot', answer)) :
    (answer = true ∧ slot' = some ⟨c.owner, now + c.ttl⟩ ∧ (∀ o, c ≠ drop o) ∧
      ∀ s, live now slot = some s → s.owner = c.owner) ∨
    (answer = true ∧ slot' = none ∧ c = drop c.owner ∧
      ∃ s, live now slot = some s ∧ s.owner = c.owner) ∨
    (answer = false ∧ slot' = live now slot ∧
      ((∀ o ttl, c ≠ take o ttl) → ∀ s, live now slot = some s → s.owner ≠ c.owner)) := by
  unfold exec at h
  cases c with
  | take o ttl =>
    rcases hlive : live now slot with _ | s <;> rw [hlive] at h
    · obtain ⟨rfl, rfl⟩ := Prod.mk.inj h
      exact .inl ⟨rfl, rfl, (fun _ h => by cases h), fun s hs => by cases hs⟩
    · obtain ⟨rfl, rfl⟩ := Prod.mk.inj h
      exact .inr (.inr ⟨rfl, rfl, fun hne => absurd rfl (hne o ttl)⟩)
  | extend o ttl =>
    rcases hlive : live now slot with _ | s <;> rw [hlive] at h
    · obtain ⟨rfl, rfl⟩ := Prod.mk.inj h
      exact .inr (.inr ⟨rfl, rfl, fun _ s hs => by cases hs⟩)
    dsimp only at h
    split at h
    · next howner =>
      obtain ⟨rfl, rfl⟩ := Prod.mk.inj h
      refine .inl ⟨rfl, rfl, (fun _ h => by cases h), fun s' hs => ?_⟩
      exact Option.some.inj hs ▸ howner
    · next howner =>
      obtain ⟨rfl, rfl⟩ := Prod.mk.inj h
      exact .inr (.inr ⟨rfl, rfl, fun _ s' hs => Option.some.inj hs ▸ howner⟩)
  | drop o =>
    rcases hlive : live now slot with _ | s <;> rw [hlive] at h
    · obtain ⟨rfl, rfl⟩ := Prod.mk.inj h
      exact .inr (.inr ⟨rfl, rfl, fun _ s hs => by cases hs⟩)
    dsimp only at h
    split at h
    · next howner =>
      obtain ⟨rfl, rfl⟩ := Prod.mk.inj h
      exact .inr (.inl ⟨rfl, rfl, rfl, s, rfl, howner⟩)
    · next howner =>
      obtain ⟨rfl, rfl⟩ := Prod.mk.inj h
      exact .inr (.inr ⟨rfl, rfl, fun _ s' hs => Option.some.inj hs ▸ howner⟩)

/-! ## What a grant is worth -/

/-- The slot is the owner's until a time, if that is still to come. -/
def Backed (now : Nat) (slot : Option (Slot τ)) (o : τ) (t : Nat) : Prop :=
  now < t → ∃ e, slot = some ⟨o, e⟩ ∧ t ≤ e

omit [DecidableEq τ] in
theorem Backed.later {now' : Nat} (h : Backed now slot o t) (hle : now ≤ now') :
    Backed now' slot o t := fun hlt => h (Nat.lt_of_le_of_lt hle hlt)

omit [DecidableEq τ] in
theorem Backed.live (h : Backed now slot o t) (hlt : now < t) :
    ∃ s, LockCommand.live now slot = some s ∧ s.owner = o := by
  obtain ⟨e, rfl, hle⟩ := h hlt
  exact ⟨⟨o, e⟩, live_eq_some.mpr ⟨rfl, Nat.lt_of_lt_of_le hlt hle⟩, rfl⟩

omit [DecidableEq τ] in
/-- **One at a time**: two that are backed at once are one. -/
theorem Backed.unique {o' : τ} {t' : Nat} (h : Backed now slot o t) (h' : Backed now slot o' t')
    (hlt : now < t) (hlt' : now < t') : o = o' := by
  obtain ⟨e, hslot, -⟩ := h hlt
  obtain ⟨e', hslot', -⟩ := h' hlt'
  rw [hslot] at hslot'
  exact congrArg Slot.owner (Option.some.inj hslot')

/-- A grant backs its owner for the time to live, from any time before the command was executed. -/
theorem Backed.granted {sent : Nat} (h : exec now c slot = (slot', true)) (hsent : sent ≤ now)
    (hc : ∀ o, c ≠ drop o) : Backed now slot' c.owner (sent + c.ttl) := by
  obtain ⟨-, rfl, -, -⟩ | ⟨-, -, hdrop, -⟩ | ⟨hfalse, -⟩ := exec_cases h
  · exact fun _ => ⟨_, rfl, Nat.add_le_add_right hsent _⟩
  · exact absurd hdrop (hc _)
  · cases hfalse

/-- **No command takes the lock from an owner** but its own, to drop it: those of others change
nothing, and its own put off the end. -/
theorem Backed.exec (h : Backed now slot o t) (hc : c ≠ drop o)
    (hexec : LockCommand.exec now c slot = (slot', answer))
    (httl : c.owner = o → t ≤ now + c.ttl) : Backed now slot' o t := by
  intro hlt
  obtain ⟨s, hs, howner⟩ := h.live hlt
  obtain ⟨-, rfl, -, hsame⟩ | ⟨-, -, hdrop, s', hs', howner'⟩ | ⟨-, rfl, -⟩ := exec_cases hexec
  · have heq : c.owner = o := (hsame s hs).symm.trans howner
    exact ⟨_, by rw [heq], httl heq⟩
  · rw [hs] at hs'
    obtain rfl := Option.some.inj hs'
    exact absurd (hdrop.trans (by rw [← howner', howner])) hc
  · rw [hs]
    obtain ⟨e, rfl, hle⟩ := h hlt
    exact ⟨e, (live_eq_some.mp hs).1 ▸ rfl, hle⟩

/-- The owner's own command to extend is granted. -/
theorem Backed.extends {ttl : Nat} (h : Backed now slot o t) (hlt : now < t)
    (hexec : LockCommand.exec now (extend o ttl) slot = (slot', answer)) : answer = true := by
  obtain ⟨s, hs, howner⟩ := h.live hlt
  obtain ⟨htrue, -⟩ | ⟨htrue, -⟩ | ⟨-, -, hother⟩ := exec_cases hexec
  · exact htrue
  · exact htrue
  · exact absurd howner (hother (fun _ _ h => by cases h) s hs)

/-- The name on the slot is one that was there, or that of a command that was granted. -/
theorem exec_owner (h : exec now c slot = (slot', answer)) {s : Slot τ} (hs : slot' = some s) :
    slot = some s ∨ s = ⟨c.owner, now + c.ttl⟩ ∧ ∀ o, c ≠ drop o := by
  obtain ⟨-, rfl, hc, -⟩ | ⟨-, rfl, -⟩ | ⟨-, rfl, -⟩ := exec_cases h
  · exact .inr ⟨(Option.some.inj hs).symm, hc⟩
  · cases hs
  · exact .inl (live_eq_some.mp hs).1

/-- A lock that nobody has is given to who asks for it. -/
theorem exec_take_free {ttl : Nat} (h : live now slot = none) :
    exec now (take o ttl) slot = (some ⟨o, now + ttl⟩, true) := by
  unfold exec
  rw [h]

end Commands

end Minireg.Lib
