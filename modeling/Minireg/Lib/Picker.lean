import Mathlib.Data.List.Basic
import Mathlib.Data.List.Dedup

/-!
# Choices that nothing determines

A `Picker` hands out one element of a list, and says nothing about which. What holds for every
picker holds for every element.
-/

namespace Minireg.Lib

/-- A choice of one element of a list, where it has one. -/
structure Picker (α : Type) where
  first : List α → Option α
  mem : ∀ {l : List α} {a : α}, first l = some a → a ∈ l
  isSome : ∀ {l : List α}, l ≠ [] → (first l).isSome = true

namespace Picker

variable {α : Type}

theorem first_nil (picker : Picker α) : picker.first [] = none := by
  rcases h : picker.first [] with _ | a
  · rfl
  · exact absurd (picker.mem h) List.not_mem_nil

theorem first_eq_none_iff (picker : Picker α) {l : List α} : picker.first l = none ↔ l = [] := by
  constructor
  · intro h
    by_contra hne
    have hsome := picker.isSome hne
    rw [h] at hsome
    cases hsome
  · rintro rfl
    exact picker.first_nil

/-- The only element there is. -/
theorem first_eq (picker : Picker α) {l : List α} {a : α} (ha : a ∈ l)
    (honly : ∀ b ∈ l, b = a) : picker.first l = some a := by
  obtain ⟨b, hb⟩ := Option.isSome_iff_exists.mp (picker.isSome (List.ne_nil_of_mem ha))
  rw [hb, honly b (picker.mem hb)]

/-- The picker that looks for an element of some kind first. -/
def seeking (p : α → Bool) : Picker α where
  first l := (l.find? p).or l.head?
  mem := by
    intro l a h
    rcases hfind : l.find? p with _ | b
    · rw [hfind, Option.none_or] at h
      exact List.mem_of_head? h
    · rw [hfind, Option.some_or] at h
      exact Option.some.inj h ▸ List.mem_of_find?_eq_some hfind
  isSome := by
    intro l hne
    obtain ⟨a, t, rfl⟩ := List.exists_cons_of_ne_nil hne
    rcases hfind : (a :: t).find? p with _ | b <;> simp

theorem seeking_first {p : α → Bool} {l : List α} {a : α} (ha : a ∈ l) (hp : p a = true) :
    ∃ b, (seeking p).first l = some b ∧ b ∈ l ∧ p b = true := by
  obtain ⟨b, hb⟩ := Option.isSome_iff_exists.mp (List.find?_isSome.mpr ⟨a, ha, hp⟩)
  refine ⟨b, ?_, List.mem_of_find?_eq_some hb, List.find?_some hb⟩
  show (l.find? p).or l.head? = some b
  rw [hb, Option.some_or]

/-- Every element is some picker's choice. -/
theorem exists_first [DecidableEq α] {l : List α} {a : α} (ha : a ∈ l) :
    ∃ picker : Picker α, picker.first l = some a := by
  obtain ⟨b, hb, -, heq⟩ := seeking_first (p := fun b => b = a) ha (decide_eq_true rfl)
  exact ⟨seeking fun b => b = a, of_decide_eq_true heq ▸ hb⟩

/-- **What holds of every choice holds of every element.** -/
theorem forall_first_iff [DecidableEq α] {l : List α} {P : Option α → Prop} :
    (∀ picker : Picker α, P (picker.first l)) ↔ (l = [] → P none) ∧ ∀ a ∈ l, P (some a) := by
  constructor
  · intro h
    refine ⟨?_, fun a ha => ?_⟩
    · rintro rfl
      have hnil := h (seeking fun _ => false)
      rwa [first_nil] at hnil
    · obtain ⟨picker, hpicker⟩ := exists_first ha
      exact hpicker ▸ h picker
  · intro h picker
    rcases hfirst : picker.first l with _ | a
    · exact h.1 (picker.first_eq_none_iff.mp hfirst)
    · exact h.2 a (picker.mem hfirst)

end Picker

/-- The order in which a set hands out its elements. -/
structure SetOrder (α : Type) [DecidableEq α] where
  elements : List α → List α
  perm : ∀ l, (elements l).Perm l.dedup

namespace SetOrder

variable {α : Type} [DecidableEq α]

theorem mem_elements (order : SetOrder α) {l : List α} {a : α} : a ∈ order.elements l ↔ a ∈ l :=
  (order.perm l).mem_iff.trans List.mem_dedup

theorem elements_eq_nil (order : SetOrder α) {l : List α} : order.elements l = [] ↔ l = [] := by
  refine ⟨fun h => ?_, fun h => ?_⟩
  · refine List.eq_nil_iff_forall_not_mem.mpr fun a ha => ?_
    have hmem := order.mem_elements.mpr ha
    rw [h] at hmem
    exact List.not_mem_nil hmem
  · refine List.eq_nil_iff_forall_not_mem.mpr fun a ha => ?_
    have hmem := order.mem_elements.mp ha
    rw [h] at hmem
    exact List.not_mem_nil hmem

/-- The order that hands out one element last. -/
def leaving (last : α) : SetOrder α where
  elements l := if last ∈ l then l.dedup.erase last ++ [last] else l.dedup
  perm l := by
    split
    · next h =>
      exact List.perm_append_comm.trans (List.perm_cons_erase (List.mem_dedup.mpr h)).symm
    · rfl

theorem leaving_elements {last : α} {l : List α} (h : last ∈ l) :
    (leaving last).elements l = l.dedup.erase last ++ [last] := if_pos h

end SetOrder

end Minireg.Lib
