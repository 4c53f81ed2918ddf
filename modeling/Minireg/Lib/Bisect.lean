import Mathlib.Data.List.Basic
import Mathlib.Data.List.Forall2

/-!
# Halving a batch that fails

Work that is done on a batch at a time, and again on each half of it where the batch fails, until
an item is left that fails alone. `Halving.rule` is the induction over such a run; from it, an
item that fails is told from those it was batched with (`Halving.run_isolates`), at the price of
less than two attempts an item (`Halving.tried_le`).
-/

namespace Minireg.Lib

variable {σ α ρ : Type}

/-- An attempt on a batch, which has an outcome for every item or fails, and what becomes of an
item that fails alone. -/
structure Halving (σ α ρ : Type) where
  attempt : List α → σ → Except σ (List ρ × σ)
  alone : α → σ → ρ × σ

/-- What a batch comes to, with the batches that were attempted on the way. -/
structure Halved (σ α ρ : Type) where
  outcomes : List ρ
  state : σ
  tried : List (List α)

namespace Halving

variable (w : Halving σ α ρ)

def run (items : List α) (s : σ) : Halved σ α ρ :=
  match w.attempt items s with
  | .ok (outcomes, s') => ⟨outcomes, s', [items]⟩
  | .error s' =>
    match items with
    | [] => ⟨[], s', [[]]⟩
    | [a] => ⟨[(w.alone a s').1], (w.alone a s').2, [[a]]⟩
    | a :: b :: rest =>
      let mid := (a :: b :: rest).length / 2
      let left := run ((a :: b :: rest).take mid) s'
      let right := run ((a :: b :: rest).drop mid) left.state
      ⟨left.outcomes ++ right.outcomes, right.state,
        (a :: b :: rest) :: (left.tried ++ right.tried)⟩
termination_by items.length
decreasing_by
  · rw [List.length_take, List.length_cons, List.length_cons]
    omega
  · rw [List.length_drop, List.length_cons, List.length_cons]
    omega

variable {w}

theorem run_ok {items : List α} {s s' : σ} {outcomes : List ρ}
    (h : w.attempt items s = .ok (outcomes, s')) : w.run items s = ⟨outcomes, s', [items]⟩ := by
  unfold run
  rw [h]

theorem run_alone {a : α} {s s' : σ} (h : w.attempt [a] s = .error s') :
    w.run [a] s = ⟨[(w.alone a s').1], (w.alone a s').2, [[a]]⟩ := by
  unfold run
  rw [h]

/-- A batch of two items or more that fails falls into two that are not empty. -/
theorem run_split {items : List α} {s s' : σ} (hlen : 2 ≤ items.length)
    (h : w.attempt items s = .error s') :
    ∃ xs ys, items = xs ++ ys ∧ xs ≠ [] ∧ ys ≠ [] ∧
      w.run items s = ⟨(w.run xs s').outcomes ++ (w.run ys (w.run xs s').state).outcomes,
        (w.run ys (w.run xs s').state).state,
        items :: ((w.run xs s').tried ++ (w.run ys (w.run xs s').state).tried)⟩ := by
  obtain _ | ⟨a, _ | ⟨b, rest⟩⟩ := items
  · cases hlen
  · exact absurd hlen (Nat.not_succ_le_self 1)
  have hmid : 1 ≤ (a :: b :: rest).length / 2 := by
    simp only [List.length_cons]
    omega
  refine ⟨(a :: b :: rest).take ((a :: b :: rest).length / 2),
    (a :: b :: rest).drop ((a :: b :: rest).length / 2),
    (List.take_append_drop _ _).symm, ?_, ?_, ?_⟩
  · rw [← List.length_pos_iff, List.length_take, List.length_cons, List.length_cons]
    omega
  · rw [← List.length_pos_iff, List.length_drop, List.length_cons, List.length_cons]
    omega
  · conv_lhs => unfold run
    rw [h]

/-- **The rule**: what holds of an attempt that does not fail, of an item that fails alone, and of
a batch whose halves it holds of, holds of every run. -/
theorem rule {P : σ → List α → Halved σ α ρ → Prop}
    (hok : ∀ items s outcomes s', items ≠ [] → w.attempt items s = .ok (outcomes, s') →
      P s items ⟨outcomes, s', [items]⟩)
    (halone : ∀ a s s', w.attempt [a] s = .error s' →
      P s [a] ⟨[(w.alone a s').1], (w.alone a s').2, [[a]]⟩)
    (hsplit : ∀ xs ys s s' (l r : Halved σ α ρ), xs ≠ [] → ys ≠ [] →
      w.attempt (xs ++ ys) s = .error s' → P s' xs l → P l.state ys r →
      P s (xs ++ ys) ⟨l.outcomes ++ r.outcomes, r.state, (xs ++ ys) :: (l.tried ++ r.tried)⟩)
    {items : List α} (hne : items ≠ []) (s : σ) : P s items (w.run items s) := by
  induction hn : items.length using Nat.strongRecOn generalizing items s with
  | _ n ih =>
    subst hn
    rcases hattempt : w.attempt items s with s' | ⟨outcomes, s'⟩
    · obtain _ | ⟨a, _ | ⟨b, rest⟩⟩ := items
      · exact absurd rfl hne
      · rw [run_alone hattempt]
        exact halone a s s' hattempt
      · obtain ⟨xs, ys, hitems, hxs, hys, hrun⟩ := run_split (by simp) hattempt
        have hlen := congrArg List.length hitems
        rw [List.length_append] at hlen
        have hxlen := List.length_pos_iff.mpr hxs
        have hylen := List.length_pos_iff.mpr hys
        rw [hrun, hitems]
        exact hsplit xs ys s s' _ _ hxs hys (hitems ▸ hattempt)
          (ih xs.length (by omega) hxs s' rfl) (ih ys.length (by omega) hys _ rfl)
    · rw [run_ok hattempt]
      exact hok items s outcomes s' hne hattempt

/-- **Less than two attempts an item.** -/
theorem tried_le {items : List α} (hne : items ≠ []) (s : σ) :
    (w.run items s).tried.length < 2 * items.length := by
  refine rule (P := fun _ items h => h.tried.length < 2 * items.length) ?_ ?_ ?_ hne s
  · intro items s outcomes s' hne _
    have := List.length_pos_iff.mpr hne
    change 1 < 2 * items.length
    omega
  · intro a s s' _
    exact Nat.lt_succ_self 1
  · intro xs ys s s' l r _ _ _ hl hr
    simp only [List.length_cons, List.length_append]
    omega

/-- **An item has one outcome**: that of a batch it was attempted in, or, where it failed alone,
its own. -/
theorem outcomes_of {Q : α → ρ → Prop}
    (hok : ∀ items s outcomes s', w.attempt items s = .ok (outcomes, s') →
      List.Forall₂ Q items outcomes)
    (halone : ∀ a s s', w.attempt [a] s = .error s' → Q a (w.alone a s').1)
    {items : List α} (hne : items ≠ []) (s : σ) :
    List.Forall₂ Q items (w.run items s).outcomes :=
  rule (P := fun _ items h => List.Forall₂ Q items h.outcomes)
    (fun items s outcomes s' _ h => hok items s outcomes s' h)
    (fun a s s' h => .cons (halone a s s' h) .nil)
    (fun _ _ _ _ _ _ _ _ _ hl hr => List.rel_append hl hr) hne s

/-- **What fails is told from what it was batched with**: where a batch fails exactly if an item
of it is bad, the bad ones fail alone, and the others have the outcome they would have without
them. -/
theorem run_isolates {bad : α → Bool} {answer fallback : α → ρ}
    (hgood : ∀ items s, (∀ a ∈ items, bad a = false) →
      ∃ s', w.attempt items s = .ok (items.map answer, s'))
    (hbad : ∀ items s, (∃ a ∈ items, bad a = true) → ∃ s', w.attempt items s = .error s')
    (halone : ∀ a s, (w.alone a s).1 = fallback a) {items : List α} (hne : items ≠ []) (s : σ) :
    (w.run items s).outcomes =
      items.map fun a => if bad a then fallback a else answer a := by
  refine rule (P := fun _ items h => h.outcomes =
    items.map fun a => if bad a then fallback a else answer a) ?_ ?_ ?_ hne s
  · intro items s outcomes s' _ hattempt
    have hall : ∀ a ∈ items, bad a = false := by
      intro a ha
      by_contra hcontra
      obtain ⟨s'', herror⟩ := hbad items s ⟨a, ha, by simpa using hcontra⟩
      rw [herror] at hattempt
      cases hattempt
    obtain ⟨s'', hanswer⟩ := hgood items s hall
    rw [hanswer] at hattempt
    obtain ⟨rfl, -⟩ := Prod.mk.inj (Except.ok.inj hattempt)
    exact List.map_congr_left fun a ha => by rw [hall a ha]; rfl
  · intro a s s' hattempt
    have hfails : bad a = true := by
      by_contra hcontra
      obtain ⟨s'', hanswer⟩ := hgood [a] s fun b hb => by
        rw [List.mem_singleton.mp hb]
        simpa using hcontra
      rw [hanswer] at hattempt
      cases hattempt
    change [(w.alone a s').1] = [if bad a then fallback a else answer a]
    rw [hfails, if_pos rfl, halone]
  · intro xs ys s s' l r _ _ _ hl hr
    change l.outcomes ++ r.outcomes = _
    rw [hl, hr, List.map_append]

end Halving

end Minireg.Lib
