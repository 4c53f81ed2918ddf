import Mathlib.Data.List.Sort

/-!
# The first rows of a sorted list

A query that sorts its rows and takes the first `n` of them sees a row exactly
when fewer than `n` rows come before it (`mem_take_insertionSort`).
-/

namespace Minireg.Lib

variable {α : Type*} [DecidableEq α] (r : α → α → Prop) [DecidableRel r]

/-- How many rows of the list come before `x`. -/
def countBefore (x : α) (l : List α) : Nat := l.countP fun y => r y x ∧ y ≠ x

variable {r}

theorem countBefore_perm {l l' : List α} (h : l.Perm l') (x : α) :
    countBefore r x l = countBefore r x l' := h.countP_eq _

/-- In a sorted list the rows before the first one are none. -/
theorem countBefore_head {x : α} {l : List α} (hr : ∀ y ∈ l, r x y)
    (hanti : ∀ y ∈ l, r y x → r x y → y = x) : countBefore r x (x :: l) = 0 := by
  refine List.countP_eq_zero.mpr fun y hy => ?_
  rcases List.mem_cons.mp hy with rfl | hy
  · simp
  · simp only [decide_eq_true_eq, not_and, not_not]
    exact fun h => hanti y hy h (hr y hy)

theorem mem_take_of_sorted {l : List α} (hs : l.Pairwise r) (hn : l.Nodup)
    (hanti : ∀ a ∈ l, ∀ b ∈ l, r a b → r b a → a = b) {x : α} (hx : x ∈ l) (n : Nat) :
    x ∈ l.take n ↔ countBefore r x l < n := by
  induction l generalizing n with
  | nil => cases hx
  | cons y l ih =>
    obtain ⟨hy, hs⟩ := List.pairwise_cons.mp hs
    obtain ⟨hyl, hn⟩ := List.nodup_cons.mp hn
    cases n with
    | zero => simp
    | succ n =>
      rw [List.take_succ_cons, List.mem_cons]
      rcases List.mem_cons.mp hx with rfl | hxl
      · rw [countBefore_head hy fun z hz h1 h2 =>
          hanti z (List.mem_cons_of_mem _ hz) x List.mem_cons_self h1 h2]
        simp
      · have hne : y ≠ x := fun h => hyl (h ▸ hxl)
        have hcount : countBefore r x (y :: l) = countBefore r x l + 1 :=
          List.countP_cons_of_pos (by simpa using ⟨hy x hxl, hne⟩)
        have hih := ih hs hn (fun a ha b hb => hanti a (List.mem_cons_of_mem _ ha) b
          (List.mem_cons_of_mem _ hb)) hxl n
        rw [hcount, hih]
        constructor
        · rintro (h | h)
          · exact absurd h.symm hne
          · omega
        · intro h
          exact .inr (by omega)

/-- **What a sorted and limited query sees.** -/
theorem mem_take_insertionSort [Std.Total r] [IsTrans α r] {l : List α} (hn : l.Nodup)
    (hanti : ∀ a ∈ l, ∀ b ∈ l, r a b → r b a → a = b) {x : α} (hx : x ∈ l) (n : Nat) :
    x ∈ (l.insertionSort r).take n ↔ countBefore r x l < n := by
  have hp := List.perm_insertionSort r l
  rw [mem_take_of_sorted (List.pairwise_insertionSort r l) (hp.nodup_iff.mpr hn)
      (fun a ha b hb => hanti a (hp.mem_iff.mp ha) b (hp.mem_iff.mp hb)) (hp.mem_iff.mpr hx) n,
    countBefore_perm hp]

end Minireg.Lib
