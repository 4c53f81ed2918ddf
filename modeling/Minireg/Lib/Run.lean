import Mathlib.Order.SetNotation

/-!
# Runs of a labelled transition system

`System σ α` has initial states and steps `Step s a s'` labelled with actions.
`Reach S ok s`: `s` is reached by a run of `S` every step of which meets `ok`,
a condition on the state before the step and the action. `Reach.invariant` is
the induction every safety proof uses: what holds initially and is preserved
by the steps that meet `ok` holds in every state reached.
-/

namespace Minireg.Lib

/-- A labelled transition system. -/
structure System (σ α : Type*) where
  init : σ → Prop
  Step : σ → α → σ → Prop

namespace System

variable {σ α : Type*} {S : System σ α} {ok ok' : σ → α → Prop}

/-- `s` is reached by a run whose steps all meet `ok`. -/
inductive Reach (S : System σ α) (ok : σ → α → Prop) : σ → Prop where
  | init {s : σ} : S.init s → Reach S ok s
  | step {s s' : σ} {a : α} : Reach S ok s → ok s a → S.Step s a s' → Reach S ok s'

/-- `s'` is reached from `s` by steps that all meet `ok`. -/
inductive Path (S : System σ α) (ok : σ → α → Prop) : σ → σ → Prop where
  | refl (s : σ) : Path S ok s s
  | step {s s' s'' : σ} {a : α} : Path S ok s s' → ok s' a → S.Step s' a s'' → Path S ok s s''

/-- **The invariant rule.** -/
theorem Reach.invariant {I : σ → Prop} (h0 : ∀ s, S.init s → I s)
    (hstep : ∀ s a s', I s → ok s a → S.Step s a s' → I s') {s : σ} (h : Reach S ok s) : I s := by
  induction h with
  | init hi => exact h0 _ hi
  | step _ ho hs ih => exact hstep _ _ _ ih ho hs

/-- A weaker condition on the steps reaches more states. -/
theorem Reach.mono (hle : ∀ s a, ok s a → ok' s a) {s : σ} (h : Reach S ok s) : Reach S ok' s := by
  induction h with
  | init hi => exact .init hi
  | step _ ho hs ih => exact .step ih (hle _ _ ho) hs

/-- A path from a reached state reaches its end. -/
theorem Reach.path {s s' : σ} (h : Reach S ok s) (hp : Path S ok s s') : Reach S ok s' := by
  induction hp with
  | refl => exact h
  | step _ ho hs ih => exact .step ih ho hs

/-- An execution of actions that all meet `ok` reaches its end. -/
theorem Reach.exec_mem {step : σ → α → Option σ} {acts : List α}
    (hstep : ∀ a ∈ acts, ∀ s s', step s a = some s' → ok s a ∧ S.Step s a s') {s s' : σ}
    (h : Reach S ok s) (hexec : acts.foldlM step s = some s') : Reach S ok s' := by
  induction acts generalizing s with
  | nil => exact Option.some.inj hexec ▸ h
  | cons a acts ih =>
    rw [List.foldlM_cons] at hexec
    obtain ⟨next, hnext, hrest⟩ := Option.bind_eq_some_iff.mp hexec
    obtain ⟨ho, hs⟩ := hstep a List.mem_cons_self s next hnext
    exact ih (fun a ha => hstep a (List.mem_cons_of_mem _ ha)) (.step h ho hs) hrest

/-- An execution whose steps all meet `ok` reaches its end. -/
theorem Reach.exec {step : σ → α → Option σ}
    (hstep : ∀ s a s', step s a = some s' → ok s a ∧ S.Step s a s') {acts : List α} {s s' : σ}
    (h : Reach S ok s) (hexec : acts.foldlM step s = some s') : Reach S ok s' :=
  h.exec_mem (fun a _ s s' => hstep s a s') hexec

/-- Paths compose with a first step. -/
theorem Path.head {s s' s'' : σ} {a : α} (ho : ok s a) (hs : S.Step s a s')
    (hp : Path S ok s' s'') : Path S ok s s'' := by
  induction hp with
  | refl => exact .step (.refl s) ho hs
  | step _ ho' hs' ih => exact .step ih ho' hs'

/-- An execution whose steps all meet `ok` is a path. -/
theorem Path.exec {step : σ → α → Option σ}
    (hstep : ∀ s a s', step s a = some s' → ok s a ∧ S.Step s a s') {acts : List α} {s s' : σ}
    (hexec : acts.foldlM step s = some s') : Path S ok s s' := by
  induction acts generalizing s with
  | nil => exact Option.some.inj hexec ▸ .refl s
  | cons a acts ih =>
    rw [List.foldlM_cons] at hexec
    obtain ⟨next, hnext, hrest⟩ := Option.bind_eq_some_iff.mp hexec
    obtain ⟨ho, hs⟩ := hstep s a next hnext
    exact (ih hrest).head ho hs

/-- What a step preserves, a path preserves. -/
theorem Path.invariant {I : σ → Prop} (hstep : ∀ s a s', I s → ok s a → S.Step s a s' → I s')
    {s s' : σ} (hp : Path S ok s s') (h : I s) : I s' := by
  induction hp with
  | refl => exact h
  | step _ ho hs ih => exact hstep _ _ _ ih ho hs

end System

end Minireg.Lib
