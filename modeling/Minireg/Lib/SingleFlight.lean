import Mathlib.Logic.Function.Basic
import Minireg.Lib.Run

/-!
# Single flight

Calls for a key in one process. A call joins the flight that is registered for its key, or waits
for the call that is opening one, or opens one itself. What it opens goes on as a task of its own,
which leaves the registry when it is over. A `Program` is what the two coroutines do from one await
to the next; where none of its tasks is over before it has left, and none of its openers leaks what
it has opened, no key has two flights at a time.
-/

namespace Minireg.Lib.SingleFlight

/-! ## Programs -/

/-- How far an opener gets: to its next await, or to its end. -/
inductive Opening (O T V : Type*) where
  | awaits (o : O)
  /-- A flight is registered, and its task is created. -/
  | registers (t : T)
  | returns (v : V)
  /-- `leaks`: what it has opened stays open. -/
  | raises (leaks : Bool)

inductive Running (T : Type*) where
  | awaits (t : T)
  /-- The flight is taken out of the registry. -/
  | leaves
  /-- The task is over, and its flight still registered. -/
  | ends (leaks : Bool)

/-- The awaits of an opener are `O`, those of a task `T`; `R` and `S` are what becomes of them. -/
structure Program (O T R S V : Type*) where
  /-- The first await of an opener; none if it raises before. -/
  first : R → Option O
  opens : O → R → Option (Opening O T V)
  runs : T → S → Option (Running T)
  /-- What stays registered when the flight of a call leaves. -/
  deregister : Nat → Option Nat → Option Nat

/-- What a call returns: the flight of a call, or that none is needed. -/
inductive Landing (V : Type*) where
  | flight (i : Nat)
  | value (v : V)

inductive Phase (O V : Type*) where
  | waits (i : Nat)
  | opens (o : O)
  | returned (landing : Landing V)
  | raised

/-- What the calls that wait for an opener get. -/
inductive Future (V : Type*) where
  | pending
  | raised
  | result (landing : Landing V)

inductive Task (T : Type*) where
  | absent
  | flying (t : T)
  | left
  | over

structure Call (κ O T V : Type*) where
  key : κ
  phase : Phase O V
  future : Future V := .pending
  task : Task T := .absent
  leaks : Bool := false

/-- A flight is known by the call that opened it. -/
structure Flights (κ O T V : Type*) where
  opening : κ → Option Nat := fun _ => none
  registered : κ → Option Nat := fun _ => none
  calls : Nat → Option (Call κ O T V) := fun _ => none

namespace Flights

variable {κ O T R S V : Type*} [DecidableEq κ] (P : Program O T R S V)
variable (f : Flights κ O T V) (i : Nat) (c : Call κ O T V)

def setCall : Flights κ O T V := { f with calls := Function.update f.calls i (some c) }

def setOpening (opener : Option Nat) : Flights κ O T V :=
  { f with opening := Function.update f.opening c.key opener }

def setRegistered (flight : Option Nat) : Flights κ O T V :=
  { f with registered := Function.update f.registered c.key flight }

/-- A call joins, waits or opens. -/
def look (r : R) : Flights κ O T V :=
  match f.registered c.key with
  | some n => f.setCall i { c with phase := .returned (.flight n) }
  | none =>
    match f.opening c.key with
    | some j => f.setCall i { c with phase := .waits j }
    | none =>
      match P.first r with
      | none => f.setCall i { c with phase := .raised }
      | some o => (f.setCall i { c with phase := .opens o }).setOpening c (some i)

/-- An opener got this far. -/
def opened : Opening O T V → Flights κ O T V
  | .awaits o => f.setCall i { c with phase := .opens o }
  | .registers t =>
    let c' := { c with phase := .returned (.flight i), future := .result (.flight i), task := .flying t }
    ((f.setCall i c').setOpening c none).setRegistered c (some i)
  | .returns v =>
    let c' := { c with phase := .returned (.value v), future := .result (.value v) }
    (f.setCall i c').setOpening c none
  | .raises leaks =>
    (f.setCall i { c with phase := .raised, future := .raised, leaks := leaks }).setOpening c none

/-- The task of a call got this far. -/
def ran : Running T → Flights κ O T V
  | .awaits t => f.setCall i { c with task := .flying t }
  | .leaves =>
    (f.setCall i { c with task := .left }).setRegistered c (P.deregister i (f.registered c.key))
  | .ends leaks => f.setCall i { c with task := .over, leaks := leaks }

/-- A call that waits goes on when its opener is done. -/
def awaken (j : Nat) (r : R) : Option (Flights κ O T V) :=
  (f.calls j).bind fun leader =>
    match leader.future with
    | .pending => none
    | .raised => some (f.look P i c r)
    | .result landing => some (f.setCall i { c with phase := .returned landing })

end Flights

inductive Act (κ R S : Type*) where
  | call (i : Nat) (key : κ) (r : R)
  | turn (i : Nat) (r : R)
  /-- A call is cancelled while it waits. -/
  | cancel (i : Nat)
  | run (i : Nat) (s : S)

namespace Program

variable {κ O T R S V : Type*} [DecidableEq κ] (P : Program O T R S V)

def step (f : Flights κ O T V) : Act κ R S → Option (Flights κ O T V)
  | .call i key r =>
    match f.calls i with
    | some _ => none
    | none => some (f.look P i { key := key, phase := .raised } r)
  | .turn i r =>
    (f.calls i).bind fun c =>
      match c.phase with
      | .waits j => f.awaken P i c j r
      | .opens o => (P.opens o r).map (f.opened i c)
      | _ => none
  | .cancel i =>
    (f.calls i).bind fun c =>
      match c.phase with
      | .waits _ => some (f.setCall i { c with phase := .raised })
      | _ => none
  | .run i s =>
    (f.calls i).bind fun c =>
      match c.task with
      | .flying t => (P.runs t s).map (f.ran P i c)
      | _ => none

/-- The calls of a process in any order. -/
def flights (κ : Type*) [DecidableEq κ] : System (Flights κ O T V) (Act κ R S) where
  init f := f = {}
  Step f a f' := P.step f a = some f'

/-- No opener leaks, and no task is over before it has left. -/
def Tidy (f : Flights κ O T V) (a : Act κ R S) : Prop :=
  ∀ i c, f.calls i = some c →
    (∀ r o, a = .turn i r → c.phase = .opens o → P.opens o r ≠ some (.raises true)) ∧
      ∀ s t, a = .run i s → c.task = .flying t → ∀ leaks, P.runs t s ≠ some (.ends leaks)

end Program

/-! ## Maps and their inverses -/

/-- `m` finds the one index that `g` gives a key. -/
def Finds {κ : Type*} (m : κ → Option Nat) (g : Nat → Option κ) : Prop :=
  ∀ k j, m k = some j ↔ g j = some k

section Finds

variable {κ : Type*} {m : κ → Option Nat} {g : Nat → Option κ} {k : κ} {i : Nat}

theorem Finds.same (h : Finds m g) {x : Option κ} (hx : g i = x) : Finds m (Function.update g i x) := by
  rw [← hx, Function.update_eq_self]
  exact h

variable [DecidableEq κ]

theorem Finds.add (h : Finds m g) (hk : m k = none) (hi : g i = none) :
    Finds (Function.update m k (some i)) (Function.update g i (some k)) := by
  intro k' j
  have hother := h k' j
  rcases eq_or_ne k' k with rfl | hkey
  · rcases eq_or_ne j i with rfl | hj
    · simp
    · rw [hk] at hother
      simpa [hj, Ne.symm hj] using hother
  · rcases eq_or_ne j i with rfl | hj
    · rw [hi] at hother
      simpa [hkey, Ne.symm hkey] using hother
    · simpa [hkey, hj] using hother

theorem Finds.drop (h : Finds m g) (hi : g i = some k) :
    Finds (Function.update m k none) (Function.update g i none) := by
  intro k' j
  have hfound := (h k i).mpr hi
  have hother := h k' j
  rcases eq_or_ne k' k with rfl | hkey
  · rcases eq_or_ne j i with rfl | hj
    · simp
    · rw [hfound] at hother
      simpa [hj, Ne.symm hj] using hother
  · rcases eq_or_ne j i with rfl | hj
    · rw [hi] at hother
      simpa [hkey, Ne.symm hkey] using hother
    · simpa [hkey, hj] using hother

end Finds

/-! ## What every run keeps -/

section Sound

variable {κ O T R S V : Type*}

/-- The key that a call is opening a flight of. -/
def Call.opener (c : Call κ O T V) : Option κ :=
  match c.phase with
  | .opens _ => some c.key
  | _ => none

/-- The key that a call has a flight of. -/
def Call.flyer (c : Call κ O T V) : Option κ :=
  match c.task with
  | .flying _ => some c.key
  | _ => none

/-- What the others see of a call: it opens or is settled, and has a task once it had one. -/
structure Call.Settles (c c' : Call κ O T V) : Prop where
  key : c'.key = c.key
  settled : c.future ≠ .pending ∨ c.opener.isSome = true →
    c'.future ≠ .pending ∨ c'.opener.isSome = true
  tasked : c.task ≠ .absent → c'.task ≠ .absent

/-- A call waits for an opener of its key, and joins a flight of its key. -/
structure Call.Sound (calls : Nat → Option (Call κ O T V)) (i : Nat) (c : Call κ O T V) : Prop where
  waits : ∀ j, c.phase = .waits j → ∃ l, calls j = some l ∧ l.key = c.key ∧
    (l.future ≠ .pending ∨ l.opener.isSome = true)
  joins : ∀ n, c.phase = .returned (.flight n) → ∃ l, calls n = some l ∧ l.key = c.key ∧
    l.task ≠ .absent
  lands : ∀ n, c.future = .result (.flight n) → n = i ∧ c.task ≠ .absent
  early : (∃ j, c.phase = .waits j) ∨ c.opener.isSome = true → c.future = .pending ∧ c.task = .absent
  tight : c.leaks = false

namespace Flights

variable (f : Flights κ O T V)

def openers (j : Nat) : Option κ := (f.calls j).bind Call.opener

def flyers (j : Nat) : Option κ := (f.calls j).bind Call.flyer

structure Sound : Prop where
  opening : Finds f.opening f.openers
  registered : Finds f.registered f.flyers
  apart : ∀ k, f.opening k = none ∨ f.registered k = none
  calls : ∀ i c, f.calls i = some c → c.Sound f.calls i

end Flights

variable {f f' : Flights κ O T V} {i : Nat} {c c' d : Call κ O T V}

theorem Flights.openers_setCall (f : Flights κ O T V) (i : Nat) (c : Call κ O T V) :
    (f.setCall i c).openers = Function.update f.openers i c.opener := by
  funext j
  unfold Flights.openers Flights.setCall
  rcases eq_or_ne j i with rfl | hj
  · simp
  · simp [hj]

theorem Flights.flyers_setCall (f : Flights κ O T V) (i : Nat) (c : Call κ O T V) :
    (f.setCall i c).flyers = Function.update f.flyers i c.flyer := by
  funext j
  unfold Flights.flyers Flights.setCall
  rcases eq_or_ne j i with rfl | hj
  · simp
  · simp [hj]

theorem Call.Sound.update {calls : Nat → Option (Call κ O T V)} {j : Nat} (h : d.Sound calls j)
    (hsettles : ∀ c, calls i = some c → c.Settles c') :
    d.Sound (Function.update calls i (some c')) j := by
  -- another call is seen as it was, or settled
  have hseen : ∀ n l, calls n = some l → ∃ l', Function.update calls i (some c') n = some l' ∧
      l.Settles l' := by
    intro n l hl
    rcases eq_or_ne n i with rfl | hn
    · exact ⟨c', Function.update_self .., hsettles l hl⟩
    · exact ⟨l, (Function.update_of_ne hn ..).trans hl, rfl, id, id⟩
  refine ⟨fun n hn => ?_, fun n hn => ?_, h.lands, h.early, h.tight⟩
  · obtain ⟨l, hl, hkey, hsettled⟩ := h.waits n hn
    obtain ⟨l', hl', hseen⟩ := hseen n l hl
    exact ⟨l', hl', hseen.key.trans hkey, hseen.settled hsettled⟩
  · obtain ⟨l, hl, hkey, htask⟩ := h.joins n hn
    obtain ⟨l', hl', hseen⟩ := hseen n l hl
    exact ⟨l', hl', hseen.key.trans hkey, hseen.tasked htask⟩

/-- A call moves, and with it what is opening and what is registered. -/
theorem Flights.Sound.move (h : f.Sound) (hcalls : f'.calls = Function.update f.calls i (some c'))
    (hsettles : ∀ c, f.calls i = some c → c.Settles c')
    (hown : c'.Sound (Function.update f.calls i (some c')) i)
    (hopening : Finds f'.opening (Function.update f.openers i c'.opener))
    (hregistered : Finds f'.registered (Function.update f.flyers i c'.flyer))
    (hapart : ∀ k, f'.opening k = none ∨ f'.registered k = none) : f'.Sound where
  opening := by
    have hopeners : f'.openers = (f.setCall i c').openers := by
      unfold Flights.openers
      rw [hcalls]
      rfl
    rw [hopeners, Flights.openers_setCall]
    exact hopening
  registered := by
    have hflyers : f'.flyers = (f.setCall i c').flyers := by
      unfold Flights.flyers
      rw [hcalls]
      rfl
    rw [hflyers, Flights.flyers_setCall]
    exact hregistered
  apart := hapart
  calls j d hd := by
    rw [hcalls] at hd ⊢
    rcases eq_or_ne j i with rfl | hj
    · rw [Function.update_self] at hd
      obtain rfl := Option.some.inj hd
      exact hown
    · rw [Function.update_of_ne hj] at hd
      exact (h.calls j d hd).update hsettles

/-! ### Flights in the air -/

/-- A call has a flight of the key: it is opening one, its task has one, or one is leaked. -/
def Flights.Airborne (f : Flights κ O T V) (key : κ) (i : Nat) : Prop :=
  f.openers i = some key ∨ f.flyers i = some key ∨
    ∃ c, f.calls i = some c ∧ c.key = key ∧ c.leaks = true

/-- The call that a call waits for. -/
def Phase.leader : Phase O V → Option Nat
  | .waits j => some j
  | _ => none

/-- How a call goes on that is new or has waited: it joins the flight it has waited for, or the
one that is registered, is told that none is needed, waits for who is opening one, or opens the
next one. -/
inductive Flights.GoesOn (f : Flights κ O T V) (key : κ) (waited : Option Nat) : Phase O V → Prop
  | joins {n : Nat} {l : Call κ O T V} (that : waited = some n ∨ f.registered key = some n)
      (here : f.calls n = some l) (same : l.key = key) (flown : l.task ≠ .absent) :
      GoesOn f key waited (.returned (.flight n))
  | told {j : Nat} {l : Call κ O T V} {v : V} (that : waited = some j) (here : f.calls j = some l)
      (same : l.key = key) (result : l.future = .result (.value v)) :
      GoesOn f key waited (.returned (.value v))
  | waits {j : Nat} (opening : f.opening key = some j) : GoesOn f key waited (.waits j)
  | opens {o : O} (clear : ∀ i, ¬ f.Airborne key i) : GoesOn f key waited (.opens o)
  | raises : GoesOn f key waited .raised

theorem Call.flyer_eq_some {key : κ} :
    c.flyer = some key ↔ c.key = key ∧ ∃ t, c.task = .flying t := by
  unfold Call.flyer
  split
  · next t ht => simp [ht]
  · next hnot =>
    refine iff_of_false (by simp) ?_
    rintro ⟨-, t, ht⟩
    exact hnot t ht

theorem Call.opener_key {key : κ} (h : c.opener = some key) : c.key = key := by
  unfold Call.opener at h
  split at h
  · exact Option.some.inj h
  · cases h

theorem Flights.Sound.airborne (h : f.Sound) {key : κ} {i : Nat} :
    f.Airborne key i ↔ f.opening key = some i ∨ f.registered key = some i := by
  unfold Flights.Airborne
  rw [h.opening key i, h.registered key i]
  refine ⟨fun hair => ?_, fun hair => ?_⟩
  · rcases hair with hopen | hfly | ⟨c, hc, -, hleaks⟩
    · exact .inl hopen
    · exact .inr hfly
    · rw [(h.calls i c hc).tight] at hleaks
      cases hleaks
  · rcases hair with hopen | hfly
    · exact .inl hopen
    · exact .inr (.inl hfly)

/-! ### Calls that look -/

/-- A call that is new, or has only waited. -/
structure Flights.Fresh (f : Flights κ O T V) (i : Nat) (c : Call κ O T V) : Prop where
  here : f.calls i = none ∨ f.calls i = some c
  closed : c.opener = none
  pending : c.future = .pending
  absent : c.task = .absent
  tight : c.leaks = false

theorem Flights.Fresh.opener (h : f.Fresh i c) : f.openers i = none := by
  unfold Flights.openers
  rcases h.here with hnone | hsome
  · rw [hnone]
    rfl
  · rw [hsome]
    exact h.closed

theorem Flights.Fresh.flyer (h : f.Fresh i c) : f.flyers i = none := by
  unfold Flights.flyers
  rcases h.here with hnone | hsome
  · rw [hnone]
    rfl
  · rw [hsome, Option.bind_some]
    unfold Call.flyer
    rw [h.absent]

theorem Flights.Fresh.settles (h : f.Fresh i c) (p : Phase O V) :
    ∀ c₀, f.calls i = some c₀ → c₀.Settles { c with phase := p } := by
  intro c₀ hc₀
  rcases h.here with hnone | hsome
  · rw [hnone] at hc₀
    cases hc₀
  · obtain rfl := Option.some.inj (hsome.symm.trans hc₀)
    refine ⟨rfl, fun hseen => ?_, id⟩
    rw [h.pending, h.closed] at hseen
    simp at hseen

theorem Call.flyer_absent (h : c.task = .absent) (p : Phase O V) :
    Call.flyer { c with phase := p } = none := by
  unfold Call.flyer
  rw [h]

theorem Call.Sound.opens {calls : Nat → Option (Call κ O T V)} (hpending : c.future = .pending)
    (habsent : c.task = .absent) (htight : c.leaks = false) (o : O) :
    Call.Sound calls i { c with phase := .opens o } where
  waits j hj := by cases hj
  joins n hn := by cases hn
  lands n hn := by cases hpending.symm.trans hn
  early _ := ⟨hpending, habsent⟩
  tight := htight

/-- What a call that does not open leaves as it is. -/
theorem Flights.Sound.rest (h : f.Sound) (hc : f.Fresh i c) {p : Phase O V}
    (hp : Call.opener { c with phase := p } = none)
    (hwaits : ∀ j, p = .waits j → ∃ l, f.calls j = some l ∧ l.key = c.key ∧
      (l.future ≠ .pending ∨ l.opener.isSome = true))
    (hjoins : ∀ n, p = .returned (.flight n) → ∃ l, f.calls n = some l ∧ l.key = c.key ∧
      l.task ≠ .absent) : (f.setCall i { c with phase := p }).Sound := by
  have hown : Call.Sound f.calls i { c with phase := p } :=
    ⟨hwaits, hjoins, fun n hn => by (cases hc.pending.symm.trans hn),
      fun _ => ⟨hc.pending, hc.absent⟩, hc.tight⟩
  refine h.move rfl (hc.settles p) (hown.update (hc.settles p)) ?_ ?_ h.apart
  · rw [hp]
    exact h.opening.same hc.opener
  · rw [Call.flyer_absent hc.absent]
    exact h.registered.same hc.flyer

theorem Flights.Sound.fresh (h : f.Sound) (hc : f.calls i = some c) {j : Nat}
    (hj : c.phase = .waits j) : f.Fresh i c := by
  have hsound := h.calls i c hc
  obtain ⟨hpending, habsent⟩ := hsound.early (.inl ⟨j, hj⟩)
  refine ⟨.inr hc, ?_, hpending, habsent, hsound.tight⟩
  unfold Call.opener
  rw [hj]

theorem Flights.Sound.init : ({} : Flights κ O T V).Sound where
  opening k j := iff_of_false (by simp) (by simp [Flights.openers])
  registered k j := iff_of_false (by simp) (by simp [Flights.flyers])
  apart _ := .inl rfl
  calls i c hc := by cases hc

variable [DecidableEq κ] {P : Program O T R S V}

theorem Flights.Sound.look (h : f.Sound) (hc : f.Fresh i c) (r : R) : (f.look P i c r).Sound := by
  unfold Flights.look
  split
  · next n hn =>
    refine h.rest hc rfl (fun j hj => by cases hj) fun m hm => ?_
    obtain rfl : n = m := by cases hm; rfl
    obtain ⟨l, hl, hflyer⟩ := Option.bind_eq_some_iff.mp ((h.registered c.key n).mp hn)
    obtain ⟨hkey, t, ht⟩ := Call.flyer_eq_some.mp hflyer
    exact ⟨l, hl, hkey, by simp [ht]⟩
  · next hnone =>
    split
    · next j hj =>
      refine h.rest hc rfl (fun m hm => ?_) fun n hn => by cases hn
      obtain rfl : j = m := by cases hm; rfl
      obtain ⟨l, hl, hopener⟩ := Option.bind_eq_some_iff.mp ((h.opening c.key j).mp hj)
      exact ⟨l, hl, Call.opener_key hopener, .inr (by rw [hopener]; rfl)⟩
    · next hclosed =>
      split
      · exact h.rest hc rfl (fun j hj => by cases hj) fun n hn => by cases hn
      · next o ho =>
        have hown : Call.Sound f.calls i { c with phase := .opens o } :=
          .opens hc.pending hc.absent hc.tight o
        refine h.move rfl (hc.settles _) (hown.update (hc.settles _))
          (h.opening.add hclosed hc.opener) ?_ fun k => ?_
        · rw [Call.flyer_absent hc.absent]
          exact h.registered.same hc.flyer
        · rcases eq_or_ne k c.key with rfl | hk
          · exact .inr hnone
          · exact (h.apart k).imp_left (Function.update_of_ne hk ..).trans

/-! ### Openers -/

/-- An opener that is done without a flight. -/
theorem Flights.Sound.closed (h : f.Sound) (hc : f.calls i = some c)
    (hopens : f.openers i = some c.key) (habsent : c.task = .absent) {p : Phase O V} {u : Future V}
    {leaks : Bool} (hp : ∀ j, p ≠ .waits j) (hopener : ∀ o, p ≠ .opens o)
    (hflight : ∀ n, p ≠ .returned (.flight n)) (hpending : u ≠ .pending)
    (hresult : ∀ n, u ≠ .result (.flight n)) (hleaks : leaks = false) :
    ((f.setCall i { c with phase := p, future := u, leaks := leaks }).setOpening c none).Sound := by
  have hclosed : Call.opener { c with phase := p, future := u, leaks := leaks } = none := by
    unfold Call.opener
    split
    · next o ho => exact absurd ho (hopener o)
    · rfl
  have hsettles : ∀ c₀, f.calls i = some c₀ →
      c₀.Settles { c with phase := p, future := u, leaks := leaks } := by
    intro c₀ hc₀
    obtain rfl := Option.some.inj (hc.symm.trans hc₀)
    exact ⟨rfl, fun _ => .inl hpending, id⟩
  have hown : Call.Sound f.calls i { c with phase := p, future := u, leaks := leaks } := by
    refine ⟨fun j hj => absurd hj (hp j), fun n hn => absurd hn (hflight n),
      fun n hn => absurd hn (hresult n), fun hearly => ?_, hleaks⟩
    rcases hearly with ⟨j, hj⟩ | hopen
    · exact absurd hj (hp j)
    · rw [hclosed] at hopen
      cases hopen
  have hflies : f.flyers i = none := by
    unfold Flights.flyers
    rw [hc, Option.bind_some]
    exact Call.flyer_absent habsent c.phase
  refine h.move rfl hsettles (hown.update hsettles) ?_ ?_ fun k => ?_
  · rw [hclosed]
    exact h.opening.drop hopens
  · have hflyer : Call.flyer { c with phase := p, future := u, leaks := leaks } = none := by
      unfold Call.flyer
      rw [habsent]
    rw [hflyer]
    exact h.registered.same hflies
  · rcases eq_or_ne k c.key with rfl | hk
    · exact .inl (Function.update_self ..)
    · exact (h.apart k).imp_left (Function.update_of_ne hk ..).trans

theorem Flights.Sound.opened (h : f.Sound) (hc : f.calls i = some c) {o : O}
    (ho : c.phase = .opens o) {x : Opening O T V} (hx : x ≠ .raises true) :
    (f.opened i c x).Sound := by
  have hsound := h.calls i c hc
  have hopener : c.opener = some c.key := by
    unfold Call.opener
    rw [ho]
  have hopens : f.openers i = some c.key := by
    unfold Flights.openers
    rw [hc]
    exact hopener
  obtain ⟨hpending, habsent⟩ := hsound.early (.inr (by rw [hopener]; rfl))
  have hflies : f.flyers i = none := by
    unfold Flights.flyers
    rw [hc, Option.bind_some]
    unfold Call.flyer
    rw [habsent]
  have hunregistered : f.registered c.key = none :=
    (h.apart c.key).resolve_left fun hnone => by
      rw [(h.opening c.key i).mpr hopens] at hnone
      cases hnone
  cases x with
  | awaits o' =>
    have hsettles : ∀ c₀, f.calls i = some c₀ → c₀.Settles { c with phase := .opens o' } := by
      intro c₀ hc₀
      obtain rfl := Option.some.inj (hc.symm.trans hc₀)
      exact ⟨rfl, fun _ => .inr rfl, id⟩
    have hown : Call.Sound f.calls i { c with phase := .opens o' } :=
      .opens hpending habsent hsound.tight o'
    refine h.move rfl hsettles (hown.update hsettles) (h.opening.same hopens) ?_ h.apart
    rw [Call.flyer_absent habsent]
    exact h.registered.same hflies
  | registers t =>
    have hself : Function.update f.calls i (some { c with
        phase := .returned (.flight i), future := .result (.flight i), task := .flying t }) i =
        some { c with
          phase := .returned (.flight i), future := .result (.flight i), task := .flying t } :=
      Function.update_self ..
    refine h.move rfl (fun c₀ hc₀ => ?_) ?_ (h.opening.drop hopens)
      (h.registered.add hunregistered hflies) fun k => ?_
    · obtain rfl := Option.some.inj (hc.symm.trans hc₀)
      exact ⟨rfl, fun _ => .inl (by simp), fun _ => by simp⟩
    · refine ⟨fun j hj => by (cases hj), fun n hn => ?_, fun n hn => ?_, fun hearly => ?_,
        hsound.tight⟩
      · obtain rfl : i = n := by cases hn; rfl
        exact ⟨_, hself, rfl, by simp⟩
      · obtain rfl : i = n := by cases hn; rfl
        exact ⟨rfl, by simp⟩
      · rcases hearly with ⟨j, hj⟩ | hopen
        · cases hj
        · cases hopen
    · rcases eq_or_ne k c.key with rfl | hk
      · exact .inl (Function.update_self ..)
      · exact (h.apart k).imp (Function.update_of_ne hk ..).trans
          (Function.update_of_ne hk ..).trans
  | returns v =>
    exact h.closed hc hopens habsent (by simp) (by simp) (by simp) (by simp) (by simp) hsound.tight
  | raises leaks =>
    refine h.closed hc hopens habsent (by simp) (by simp) (by simp) (by simp) (by simp) ?_
    exact Bool.eq_false_iff.mpr fun hleaks => hx (hleaks ▸ rfl)

/-! ### Tasks -/

theorem Flights.Sound.ran (h : f.Sound) (hc : f.calls i = some c) {t : T} (ht : c.task = .flying t)
    (hleave : P.deregister i (some i) = none) {x : Running T} (hx : ∀ leaks, x ≠ .ends leaks) :
    (f.ran P i c x).Sound := by
  have hsound := h.calls i c hc
  have hopeners : f.openers i = c.opener := by
    unfold Flights.openers
    rw [hc]
    rfl
  have hflies : f.flyers i = some c.key := by
    unfold Flights.flyers
    rw [hc, Option.bind_some]
    unfold Call.flyer
    rw [ht]
  -- whatever becomes of the task, the call itself is done
  have hown : ∀ task : Task T, task ≠ .absent → Call.Sound f.calls i { c with task := task } := by
    intro task htask
    refine ⟨hsound.waits, hsound.joins, fun n hn => ⟨(hsound.lands n hn).1, htask⟩,
      fun hearly => ?_, hsound.tight⟩
    have habsent := (hsound.early hearly).2
    rw [ht] at habsent
    cases habsent
  have hsettles : ∀ task : Task T, task ≠ .absent → ∀ c₀, f.calls i = some c₀ →
      c₀.Settles { c with task := task } := by
    intro task htask c₀ hc₀
    obtain rfl := Option.some.inj (hc.symm.trans hc₀)
    exact ⟨rfl, id, fun _ => htask⟩
  cases x with
  | awaits t' =>
    have htask : Task.flying t' ≠ .absent := by simp
    exact h.move rfl (hsettles _ htask) ((hown _ htask).update (hsettles _ htask))
      (h.opening.same hopeners) (h.registered.same hflies) h.apart
  | leaves =>
    have htask : (Task.left : Task T) ≠ .absent := by simp
    have hregistered : f.registered c.key = some i := (h.registered c.key i).mpr hflies
    have hran : f.ran P i c .leaves = (f.setCall i { c with task := .left }).setRegistered c none := by
      unfold Flights.ran
      dsimp only
      rw [hregistered, hleave]
    rw [hran]
    refine h.move rfl (hsettles _ htask) ((hown _ htask).update (hsettles _ htask))
      (h.opening.same hopeners) (h.registered.drop hflies) fun k => ?_
    rcases eq_or_ne k c.key with rfl | hk
    · exact .inr (Function.update_self ..)
    · exact (h.apart k).imp_right (Function.update_of_ne hk ..).trans
  | ends leaks => exact absurd rfl (hx leaks)

/-! ### Steps -/

theorem Flights.Sound.awaken (h : f.Sound) (hc : f.calls i = some c) {j : Nat}
    (hj : c.phase = .waits j) {r : R} (hstep : f.awaken P i c j r = some f') : f'.Sound := by
  have hfresh := h.fresh hc hj
  obtain ⟨l, hl, hstep⟩ := Option.bind_eq_some_iff.mp hstep
  split at hstep
  · cases hstep
  · obtain rfl := Option.some.inj hstep
    exact h.look hfresh r
  · next landing hresult =>
    obtain rfl := Option.some.inj hstep
    refine h.rest hfresh rfl (fun m hm => by (cases hm)) fun n hn => ?_
    obtain rfl : landing = .flight n := by cases hn; rfl
    obtain ⟨rfl, htask⟩ := (h.calls j l hl).lands n hresult
    obtain ⟨l', hl', hkey, -⟩ := (h.calls i c hc).waits n hj
    obtain rfl := Option.some.inj (hl.symm.trans hl')
    exact ⟨l, hl, hkey, htask⟩

/-- **A tidy step keeps the flights single.** -/
theorem Flights.Sound.step (hleave : ∀ i, P.deregister i (some i) = none) (h : f.Sound)
    {a : Act κ R S} (htidy : P.Tidy f a) (hstep : P.step f a = some f') : f'.Sound := by
  cases a with
  | call i key r =>
    unfold Program.step at hstep
    dsimp only at hstep
    split at hstep
    · cases hstep
    · next hnone =>
      obtain rfl := Option.some.inj hstep
      exact h.look ⟨.inl hnone, rfl, rfl, rfl, rfl⟩ r
  | turn i r =>
    obtain ⟨c, hc, hstep⟩ := Option.bind_eq_some_iff.mp hstep
    split at hstep
    · next j hj => exact h.awaken hc hj hstep
    · next o ho =>
      obtain ⟨x, hx, rfl⟩ := Option.map_eq_some_iff.mp hstep
      exact h.opened hc ho fun hleaks => (htidy i c hc).1 r o rfl ho (hleaks ▸ hx)
    · cases hstep
  | cancel i =>
    obtain ⟨c, hc, hstep⟩ := Option.bind_eq_some_iff.mp hstep
    split at hstep
    · next j hj =>
      obtain rfl := Option.some.inj hstep
      exact h.rest (h.fresh hc hj) rfl (fun m hm => by (cases hm)) fun n hn => by cases hn
    · cases hstep
  | run i s =>
    obtain ⟨c, hc, hstep⟩ := Option.bind_eq_some_iff.mp hstep
    split at hstep
    · next t ht =>
      obtain ⟨x, hx, rfl⟩ := Option.map_eq_some_iff.mp hstep
      exact h.ran hc ht (hleave i) fun leaks hends =>
        (htidy i c hc).2 s t rfl ht leaks (hends ▸ hx)
    · cases hstep

/-! ## Single flight -/

/-- One flight of a key at a time; a registered flight is not over; a call waits for one that is
opening a flight of its key or is done; and a call that has waited joins or opens. -/
structure Flights.Single (P : Program O T R S V) (f : Flights κ O T V) : Prop where
  alone : ∀ key i j, f.Airborne key i → f.Airborne key j → i = j
  registered : ∀ key i, f.registered key = some i ↔
    ∃ c t, f.calls i = some c ∧ c.key = key ∧ c.task = .flying t
  waits : ∀ i c j, f.calls i = some c → c.phase = .waits j → ∃ l, f.calls j = some l ∧
    l.key = c.key ∧ (l.future ≠ .pending ∨ f.opening c.key = some j)
  goesOn : ∀ a f', P.step f a = some f' → ∀ i c', f'.calls i = some c' →
    (f.openers i).isSome = true ∨ (∃ c, f.calls i = some c ∧ c'.phase = c.phase) ∨
      f.GoesOn c'.key ((f.calls i).bind fun c => c.phase.leader) c'.phase

/-- How a call looks. -/
theorem Flights.Sound.look_goesOn (h : f.Sound) (r : R) (waited : Option Nat) :
    ∃ p, f.look P i c r = { f with
      opening := (f.look P i c r).opening
      calls := Function.update f.calls i (some { c with phase := p }) } ∧ f.GoesOn c.key waited p := by
  unfold Flights.look
  split
  · next n hn =>
    refine ⟨_, rfl, ?_⟩
    obtain ⟨l, hl, hflyer⟩ := Option.bind_eq_some_iff.mp ((h.registered c.key n).mp hn)
    obtain ⟨hkey, t, ht⟩ := Call.flyer_eq_some.mp hflyer
    exact .joins (.inr hn) hl hkey (by simp [ht])
  · next hnone =>
    split
    · next j hj => exact ⟨_, rfl, .waits hj⟩
    · next hclosed =>
      split
      · exact ⟨_, rfl, .raises⟩
      · refine ⟨_, rfl, .opens fun j hair => ?_⟩
        rcases h.airborne.mp hair with hopen | hfly
        · rw [hclosed] at hopen
          cases hopen
        · rw [hnone] at hfly
          cases hfly

/-- **A sound state is single.** -/
theorem Flights.Sound.single (h : f.Sound) : f.Single P where
  alone key i j hi hj := by
    rcases h.airborne.mp hi with hi | hi <;> rcases h.airborne.mp hj with hj | hj
    · exact Option.some.inj (hi.symm.trans hj)
    · rcases h.apart key with hnone | hnone
      · cases hnone.symm.trans hi
      · cases hnone.symm.trans hj
    · rcases h.apart key with hnone | hnone
      · cases hnone.symm.trans hj
      · cases hnone.symm.trans hi
    · exact Option.some.inj (hi.symm.trans hj)
  registered key i := by
    rw [h.registered key i]
    unfold Flights.flyers
    rw [Option.bind_eq_some_iff]
    refine exists_congr fun c => ⟨fun hfly => ?_, fun hfly => ?_⟩
    · obtain ⟨hkey, t, ht⟩ := Call.flyer_eq_some.mp hfly.2
      exact ⟨t, hfly.1, hkey, ht⟩
    · obtain ⟨t, hc, hkey, ht⟩ := hfly
      exact ⟨hc, Call.flyer_eq_some.mpr ⟨hkey, t, ht⟩⟩
  waits i c j hc hj := by
    obtain ⟨l, hl, hkey, hsettled⟩ := (h.calls i c hc).waits j hj
    refine ⟨l, hl, hkey, hsettled.imp_right fun hopens => ?_⟩
    obtain ⟨key, hopener⟩ := Option.isSome_iff_exists.mp hopens
    rw [h.opening c.key j]
    unfold Flights.openers
    rw [hl, ← hkey, Call.opener_key hopener]
    exact hopener
  goesOn a f' hstep j c' hc' := by
    have hset : ∀ {i : Nat} {d : Call κ O T V} {g : Flights κ O T V},
        g.calls = Function.update f.calls i (some d) → g.calls j = some c' →
          (∃ c, f.calls j = some c ∧ c'.phase = c.phase) ∨ j = i ∧ c' = d := by
      intro i d g hg hc'
      rw [hg] at hc'
      rcases eq_or_ne j i with rfl | hj
      · rw [Function.update_self] at hc'
        exact .inr ⟨rfl, (Option.some.inj hc').symm⟩
      · rw [Function.update_of_ne hj] at hc'
        exact .inl ⟨c', hc', rfl⟩
    cases a with
    | call i key r =>
      unfold Program.step at hstep
      dsimp only at hstep
      split at hstep
      · cases hstep
      · next hnone =>
        obtain rfl := Option.some.inj hstep
        obtain ⟨p, hlook, hgoes⟩ := h.look_goesOn (P := P) (i := i) (c := ⟨key, .raised, .pending,
          .absent, false⟩) r none
        rw [hlook] at hc'
        rcases hset rfl hc' with hsame | ⟨rfl, rfl⟩
        · exact .inr (.inl hsame)
        · rw [hnone]
          exact .inr (.inr hgoes)
    | turn i r =>
      obtain ⟨c, hc, hstep⟩ := Option.bind_eq_some_iff.mp hstep
      split at hstep
      · next n hn =>
        obtain ⟨l, hl, hstep⟩ := Option.bind_eq_some_iff.mp hstep
        obtain ⟨l', hl', hkey, -⟩ := (h.calls i c hc).waits n hn
        obtain rfl := Option.some.inj (hl.symm.trans hl')
        have hleader : ((f.calls i).bind fun c => c.phase.leader) = some n := by
          rw [hc, Option.bind_some, hn]
          rfl
        split at hstep
        · cases hstep
        · obtain rfl := Option.some.inj hstep
          obtain ⟨p, hlook, hgoes⟩ := h.look_goesOn (P := P) (i := i) (c := c) r (some n)
          rw [hlook] at hc'
          rcases hset rfl hc' with hsame | ⟨rfl, rfl⟩
          · exact .inr (.inl hsame)
          · rw [hleader]
            exact .inr (.inr hgoes)
        · next landing hresult =>
          obtain rfl := Option.some.inj hstep
          rcases hset rfl hc' with hsame | ⟨rfl, rfl⟩
          · exact .inr (.inl hsame)
          · rw [hleader]
            refine .inr (.inr ?_)
            cases landing with
            | flight m =>
              obtain ⟨rfl, htask⟩ := (h.calls n l hl).lands m hresult
              exact .joins (.inl rfl) hl hkey htask
            | value v => exact .told rfl hl hkey hresult
      · next o ho =>
        obtain ⟨x, -, rfl⟩ := Option.map_eq_some_iff.mp hstep
        have hcalls : ∃ d, (f.opened i c x).calls = Function.update f.calls i (some d) := by
          cases x <;> exact ⟨_, rfl⟩
        obtain ⟨d, hd⟩ := hcalls
        rcases hset hd hc' with hsame | ⟨rfl, -⟩
        · exact .inr (.inl hsame)
        · refine .inl ?_
          unfold Flights.openers
          rw [hc, Option.bind_some]
          unfold Call.opener
          rw [ho]
          rfl
      · cases hstep
    | cancel i =>
      obtain ⟨c, hc, hstep⟩ := Option.bind_eq_some_iff.mp hstep
      split at hstep
      · obtain rfl := Option.some.inj hstep
        rcases hset rfl hc' with hsame | ⟨rfl, rfl⟩
        · exact .inr (.inl hsame)
        · exact .inr (.inr .raises)
      · cases hstep
    | run i s =>
      obtain ⟨c, hc, hstep⟩ := Option.bind_eq_some_iff.mp hstep
      split at hstep
      · obtain ⟨x, -, rfl⟩ := Option.map_eq_some_iff.mp hstep
        have hcalls : ∃ d, (f.ran P i c x).calls = Function.update f.calls i (some d) ∧
            d.phase = c.phase := by
          cases x <;> exact ⟨_, rfl, rfl⟩
        obtain ⟨d, hd, hphase⟩ := hcalls
        rcases hset hd hc' with hsame | ⟨rfl, rfl⟩
        · exact .inr (.inl hsame)
        · exact .inr (.inl ⟨c, hc, hphase⟩)
      · cases hstep

/-- **Single flight** in every tidy run. -/
theorem Flights.single_of_reach (hleave : ∀ i, P.deregister i (some i) = none)
    (h : (P.flights κ).Reach P.Tidy f) : f.Single P := by
  have hsound : f.Sound := by
    refine h.invariant (fun f hf => ?_) fun f a f' hsound htidy hstep => ?_
    · subst hf
      exact .init
    · exact hsound.step hleave htidy hstep
  exact hsound.single

end Sound

end Minireg.Lib.SingleFlight
