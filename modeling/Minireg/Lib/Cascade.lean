import Mathlib.Data.List.Basic

/-!
# Cascades of stages

A cascade walks a list of stages with a state. Each stage either passes, and
the next one runs in the state it left, or stops with the result of the whole.
`Passes f l s s'`: every stage of `l` passes, from `s` to `s'`. `cascade_cases`
splits a run at the stage that stopped it.
-/

namespace Minireg.Lib

/-- What one stage decides. -/
inductive Verdict (β : Type*) where
  | pass
  | stop (b : β)

variable {α β σ : Type*}

/-- Run the stages in order; `b` when all of them pass. -/
def cascade (f : α → σ → Verdict β × σ) (b : β) : List α → σ → β × σ
  | [], s => (b, s)
  | x :: rest, s =>
    match f x s with
    | (.pass, s') => cascade f b rest s'
    | (.stop r, s') => (r, s')

inductive Passes (f : α → σ → Verdict β × σ) : List α → σ → σ → Prop where
  | nil (s : σ) : Passes f [] s s
  | cons {x : α} {rest : List α} {s s' s'' : σ} :
      f x s = (.pass, s') → Passes f rest s' s'' → Passes f (x :: rest) s s''

variable {f : α → σ → Verdict β × σ} {b : β}

theorem cascade_pass {x : α} {s s' : σ} (h : f x s = (.pass, s')) (rest : List α) :
    cascade f b (x :: rest) s = cascade f b rest s' := by
  rw [cascade, h]

theorem cascade_stop {x : α} {s s' : σ} {r : β} (h : f x s = (.stop r, s')) (rest : List α) :
    cascade f b (x :: rest) s = (r, s') := by
  rw [cascade, h]

/-- A cascade begins with the stages that pass. -/
theorem cascade_append {pre : List α} {s s' : σ} (h : Passes f pre s s') (post : List α) :
    cascade f b (pre ++ post) s = cascade f b post s' := by
  induction h with
  | nil => rfl
  | cons hx _ ih => rw [List.cons_append, cascade_pass hx, ih]

/-- **A cascade ends at the first stage that stops, or passes them all.** -/
theorem cascade_cases (f : α → σ → Verdict β × σ) (b : β) (l : List α) (s : σ) :
    (∃ s', Passes f l s s' ∧ cascade f b l s = (b, s')) ∨
    ∃ pre x post s' r s'', l = pre ++ x :: post ∧ Passes f pre s s' ∧ f x s' = (.stop r, s'') ∧
      cascade f b l s = (r, s'') := by
  induction l generalizing s with
  | nil => exact .inl ⟨s, .nil s, rfl⟩
  | cons x rest ih =>
    rcases hx : f x s with ⟨_ | r, s1⟩
    · rw [cascade_pass hx]
      rcases ih s1 with ⟨s', hp, hc⟩ | ⟨pre, y, post, s', r, s'', rfl, hp, hy, hc⟩
      · exact .inl ⟨s', .cons hx hp, hc⟩
      · exact .inr ⟨x :: pre, y, post, s', r, s'', rfl, .cons hx hp, hy, hc⟩
    · exact .inr ⟨[], x, rest, s, r, s1, rfl, .nil s, hx, cascade_stop hx rest⟩

/-- What every stage preserves, whatever it decides, the cascade preserves. -/
theorem cascade_invariant {I : σ → Prop} (l : List α) {s : σ}
    (hstep : ∀ x ∈ l, ∀ s v s', I s → f x s = (v, s') → I s') (h0 : I s) :
    I (cascade f b l s).2 := by
  induction l generalizing s with
  | nil => exact h0
  | cons x rest ih =>
    have hrest : ∀ y ∈ rest, ∀ s v s', I s → f y s = (v, s') → I s' :=
      fun y hy => hstep y (List.mem_cons_of_mem _ hy)
    rcases hx : f x s with ⟨_ | r, s1⟩
    · rw [cascade_pass hx]
      exact ih hrest (hstep x List.mem_cons_self _ _ _ h0 hx)
    · rw [cascade_stop hx]
      exact hstep x List.mem_cons_self _ _ _ h0 hx

/-- What every passing stage preserves holds after all of them. -/
theorem Passes.invariant {I : σ → Prop} {l : List α} {s s' : σ} (h : Passes f l s s')
    (hstep : ∀ x ∈ l, ∀ s s', I s → f x s = (.pass, s') → I s') (h0 : I s) : I s' := by
  induction h with
  | nil => exact h0
  | cons hx _ ih =>
    refine ih (fun y hy => hstep y (List.mem_cons_of_mem _ hy)) ?_
    exact hstep _ List.mem_cons_self _ _ h0 hx

/-- What one passing stage establishes and the others preserve holds at the end. -/
theorem Passes.establish {P : α → σ → Prop} {l : List α} {s s' : σ} (h : Passes f l s s')
    (hest : ∀ x ∈ l, ∀ s s', f x s = (.pass, s') → P x s')
    (hkeep : ∀ x ∈ l, ∀ y ∈ l, ∀ s s', P x s → f y s = (.pass, s') → P x s') :
    ∀ x ∈ l, P x s' := by
  induction h with
  | nil => simp
  | @cons x rest s s1 s2 hx hr ih =>
    intro y hy
    rcases List.mem_cons.mp hy with rfl | hy
    · exact hr.invariant (I := P y) (fun z hz s s' hp hf =>
        hkeep y List.mem_cons_self z (List.mem_cons_of_mem _ hz) s s' hp hf)
        (hest y List.mem_cons_self _ _ hx)
    · exact ih (fun z hz => hest z (List.mem_cons_of_mem _ hz))
        (fun a ha c hc => hkeep a (List.mem_cons_of_mem _ ha) c (List.mem_cons_of_mem _ hc)) y hy

end Minireg.Lib
