import Mathlib.Data.List.Basic

/-!
# Lines of a text

`str.splitlines`: every line with the break that ends it, which the last line may lack.
-/

namespace Minireg.Py

/-- A character that ends a line. -/
def isLineBreak (c : Char) : Bool :=
  let n := c.toNat
  (0x0a ≤ n && n ≤ 0x0d) || (0x1c ≤ n && n ≤ 0x1e) || n == 0x85 || n == 0x2028 || n == 0x2029

/-- A line and its break. -/
abbrev LineOf := List Char × List Char

/-- The lines of a text, each with its break. -/
def breakLines : List Char → List LineOf
  | [] => []
  | '\r' :: '\n' :: t => ([], ['\r', '\n']) :: breakLines t
  | c :: t =>
    if isLineBreak c then ([], [c]) :: breakLines t
    else
      match breakLines t with
      | [] => [([c], [])]
      | (line, ending) :: rest => (c :: line, ending) :: rest

/-- `s.splitlines()`. -/
def splitLines (s : List Char) : List (List Char) := (breakLines s).map Prod.fst

/-- The lines of a text up to a line feed, where no carriage return is in it. -/
theorem splitLines_append {s : List Char} (h : '\r' ∉ s) (t : List Char) :
    splitLines (s ++ '\n' :: t) = s.splitOnP isLineBreak ++ splitLines t := by
  induction s with
  | nil =>
    have hfeed : isLineBreak '\n' = true := by decide
    unfold splitLines
    rw [List.nil_append, breakLines, if_pos hfeed]
    · rfl
    · intro rest hcr
      exact absurd hcr (by decide)
  | cons c s ih =>
    have hc : c ≠ '\r' := fun hc => h (hc ▸ List.mem_cons_self)
    have ih := ih (List.not_mem_of_not_mem_cons h)
    rw [List.cons_append, List.splitOnP_cons_eq_if_modifyHead]
    unfold splitLines at ih ⊢
    rw [breakLines]
    · split
      · rw [List.map_cons, ih, List.cons_append]
      · obtain ⟨first, rest, hsplit⟩ :=
          List.exists_cons_of_ne_nil (List.splitOnP_ne_nil isLineBreak s)
        rw [hsplit] at ih ⊢
        rcases hlines : breakLines (s ++ '\n' :: t) with _ | ⟨⟨line, ending⟩, more⟩
        · rw [hlines] at ih
          cases ih
        · rw [hlines, List.map_cons, List.cons_append, List.cons.injEq] at ih
          obtain ⟨rfl, hmore⟩ := ih
          rw [List.modifyHead_cons, List.cons_append, ← hmore]
          rfl
    · rintro rest rfl -
      exact hc rfl

end Minireg.Py
