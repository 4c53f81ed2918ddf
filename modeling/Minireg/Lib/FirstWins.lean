import Mathlib.Data.List.Induction
import Mathlib.Data.List.Nodup

/-!
# Unions in which the first entry wins

`firstWins key l` keeps, of the entries of `l` that share a key, the first one, in the
order of `l`.
-/

namespace Minireg.Lib

variable {α κ : Type*} [DecidableEq κ]

/-- Append an entry whose key is not taken yet. -/
def claim (key : α → κ) (acc : List α) (x : α) : List α :=
  if key x ∈ acc.map key then acc else acc ++ [x]

def firstWins (key : α → κ) (l : List α) : List α := l.foldl (claim key) []

variable {key : α → κ} {l acc : List α} {x : α}

theorem claim_taken (h : key x ∈ acc.map key) : claim key acc x = acc := if_pos h

theorem claim_free (h : key x ∉ acc.map key) : claim key acc x = acc ++ [x] := if_neg h

theorem firstWins_snoc (key : α → κ) (l : List α) (x : α) :
    firstWins key (l ++ [x]) = claim key (firstWins key l) x := by
  simp [firstWins]

theorem mem_map_firstWins {k : κ} : k ∈ (firstWins key l).map key ↔ k ∈ l.map key := by
  induction l using List.reverseRecOn with
  | nil => rfl
  | append_singleton l x ih =>
    rw [firstWins_snoc, claim]
    split
    · next htaken =>
      rw [ih, List.map_append, List.mem_append]
      refine ⟨.inl, fun h => h.elim id fun hx => ?_⟩
      obtain rfl := List.mem_singleton.mp hx
      exact ih.mp htaken
    · rw [List.map_append, List.map_append, List.mem_append, List.mem_append, ih]

theorem nodup_firstWins (key : α → κ) (l : List α) : ((firstWins key l).map key).Nodup := by
  induction l using List.reverseRecOn with
  | nil => exact List.nodup_nil
  | append_singleton l x ih =>
    rw [firstWins_snoc, claim]
    split
    · exact ih
    · next hfree =>
      rw [List.map_append, List.nodup_append]
      refine ⟨ih, List.nodup_singleton _, fun a ha b hb => ?_⟩
      obtain rfl := List.mem_singleton.mp hb
      exact fun h => hfree (h ▸ ha)

/-- What stays is the first entry with its key. -/
theorem mem_firstWins : x ∈ firstWins key l ↔ l.find? (fun y => key y = key x) = some x := by
  induction l using List.reverseRecOn with
  | nil => simp [firstWins]
  | append_singleton l y ih =>
    have hnone : l.find? (fun z => key z = key x) = none ↔ key x ∉ (firstWins key l).map key := by
      rw [mem_map_firstWins]
      simp
    rw [firstWins_snoc, claim, List.find?_append]
    split
    · next htaken =>
      rw [ih]
      rcases hf : l.find? fun z => key z = key x with _ | z
      · have hne : key y ≠ key x := fun h => hnone.mp hf (h ▸ htaken)
        simp [hne]
      · simp
    · next hfree =>
      rw [List.mem_append, ih, List.mem_singleton]
      rcases hf : l.find? fun z => key z = key x with _ | z
      · by_cases hk : key y = key x
        · simp [hk, eq_comm]
        · have hne : x ≠ y := fun h => hk (h ▸ rfl)
          simp [hk, hne]
      · have hne : x ≠ y := by
          rintro rfl
          rw [hnone.mpr hfree] at hf
          cases hf
        simp [hne]

theorem mem_of_mem_firstWins (h : x ∈ firstWins key l) : x ∈ l :=
  List.mem_of_find?_eq_some (mem_firstWins.mp h)

/-- Entries outside `p` do not change what stays inside it. -/
theorem filter_firstWins_append {p : α → Bool} {l' : List α} (h : ∀ x ∈ l', p x = false) :
    (firstWins key (l ++ l')).filter p = (firstWins key l).filter p := by
  induction l' using List.reverseRecOn with
  | nil => rw [List.append_nil]
  | append_singleton l' x ih =>
    have hx := h x (List.mem_append_right _ (List.mem_singleton_self x))
    rw [← List.append_assoc, firstWins_snoc, claim]
    have hl := ih fun y hy => h y (List.mem_append_left _ hy)
    split
    · exact hl
    · rw [List.filter_append, hl]
      simp [hx]

end Minireg.Lib
