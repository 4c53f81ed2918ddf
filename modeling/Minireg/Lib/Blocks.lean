import Mathlib.Data.List.Basic

/-!
# Delimited blocks in a text

A mark is a text that begins with a symbol it has nowhere else, so that two occurrences of marks
never overlap. A block goes from one mark to another; `replaceBlocks` puts a text in the place of
every block, as a search from the left with the shortest match does. `trim` is what it does to the
text behind a block.
-/

namespace Minireg.Lib.Blocks

variable {α : Type*} {lead : α} {mark pre post rest s t : List α}

/-- `lead` begins the mark, and is nowhere else in it. -/
def IsMark (lead : α) (mark : List α) : Prop := ∃ t, mark = lead :: t ∧ lead ∉ t

theorem IsMark.ne_nil (h : IsMark lead mark) : mark ≠ [] := by
  obtain ⟨t, rfl, -⟩ := h
  exact List.cons_ne_nil _ _

/-- No mark begins in a text without it and reaches beyond, where the next one begins. -/
theorem IsMark.apart (h : IsMark lead mark) (hs : s ≠ []) (habsent : ¬ mark <:+: s) :
    ¬ mark <+: s ++ (lead :: t) := by
  rintro ⟨u, hu⟩
  rcases List.append_eq_append_iff.mp hu with ⟨a, rfl, -⟩ | ⟨a, rfl, hrest⟩
  · exact habsent List.infix_append_left
  · cases a with
    | nil =>
      rw [List.append_nil] at habsent
      exact habsent List.infix_rfl
    | cons c a =>
      -- the mark has `lead` a second time
      obtain ⟨b, s, rfl⟩ := List.exists_cons_of_ne_nil hs
      obtain ⟨tail, heq, htail⟩ := h
      rw [List.cons_append, List.cons.injEq] at hrest heq
      refine htail ?_
      rw [← heq.2, hrest.1]
      exact List.mem_append_right _ List.mem_cons_self

/-- A mark without a symbol is on one side of it. -/
theorem infix_of_append_cons {c : α} (hc : c ∉ mark) (hne : mark ≠ [])
    (h : mark <:+: s ++ c :: t) : mark <:+: s ∨ mark <:+: t := by
  have hstarts {u : List α} (hu : mark <+: u ++ c :: t) : mark <+: u := by
    obtain ⟨v, hv⟩ := hu
    rcases List.append_eq_append_iff.mp hv with ⟨a, rfl, -⟩ | ⟨a, rfl, hrest⟩
    · exact List.prefix_append _ _
    · cases a with
      | nil => simp
      | cons d a =>
        rw [List.cons_append, List.cons.injEq] at hrest
        exact absurd (hrest.1 ▸ List.mem_append_right _ List.mem_cons_self) hc
  induction s with
  | nil =>
    rcases List.infix_cons_iff.mp h with hp | hi
    · exact absurd (List.prefix_nil.mp (hstarts hp)) hne
    · exact .inr hi
  | cons d s ih =>
    rcases List.infix_cons_iff.mp h with hp | hi
    · exact .inl (hstarts (u := d :: s) hp).isInfix
    · exact (ih hi).imp_left List.infix_cons

variable [DecidableEq α]

/-! ## Occurrences -/

/-- The first occurrence of a mark, as what is before it and what is behind it. -/
def find (mark : List α) : List α → Option (List α × List α)
  | [] => if mark = [] then some ([], []) else none
  | c :: s =>
    if mark.isPrefixOf (c :: s) then some ([], (c :: s).drop mark.length)
    else (find mark s).map fun found => (c :: found.1, found.2)

theorem find_absent (hne : mark ≠ []) (h : ¬ mark <:+: s) : find mark s = none := by
  induction s with
  | nil =>
    unfold find
    rw [if_neg hne]
  | cons c s ih =>
    have hp : ¬ mark.isPrefixOf (c :: s) = true := fun hp =>
      h (List.isPrefixOf_iff_prefix.mp hp).isInfix
    unfold find
    rw [if_neg hp, ih fun hi => h (List.infix_cons hi)]
    rfl

theorem find_append (hmark : IsMark lead mark) (h : ¬ mark <:+: pre) :
    find mark (pre ++ (mark ++ rest)) = some (pre, rest) := by
  obtain ⟨t, ht, -⟩ := id hmark
  induction pre with
  | nil =>
    rw [List.nil_append]
    have hp : mark.isPrefixOf (mark ++ rest) = true :=
      List.isPrefixOf_iff_prefix.mpr (List.prefix_append _ _)
    have hdrop : (mark ++ rest).drop mark.length = rest := List.drop_left
    obtain ⟨c, s, hs⟩ := List.exists_cons_of_ne_nil
      (List.append_ne_nil_of_left_ne_nil hmark.ne_nil rest)
    rw [hs] at hp hdrop ⊢
    unfold find
    rw [if_pos hp, hdrop]
  | cons c pre ih =>
    have hp : ¬ mark.isPrefixOf (c :: (pre ++ (mark ++ rest))) = true := by
      intro hp
      have hstarts := List.isPrefixOf_iff_prefix.mp hp
      rw [← List.cons_append] at hstarts
      refine hmark.apart (List.cons_ne_nil c pre) h (t := t ++ rest) ?_
      rw [← List.cons_append, ← ht]
      exact hstarts
    rw [List.cons_append]
    unfold find
    rw [if_neg hp, ih fun hi => h (List.infix_cons hi)]
    rfl

/-! ## Blocks -/

/-- The pass over a text, of so many blocks at most. -/
def replaceFrom (first last new : List α) (trim : List α → List α) : Nat → List α → List α
  | 0, s => s
  | n + 1, s =>
    match find first s with
    | none => s
    | some (pre, rest) =>
      match find last rest with
      | none => s
      | some (_, post) => pre ++ (new ++ replaceFrom first last new trim n (trim post))

def replaceBlocks (first last new : List α) (trim : List α → List α) (s : List α) : List α :=
  replaceFrom first last new trim s.length s

variable {first last new inner : List α} {trim : List α → List α}

theorem replaceFrom_absent (hne : first ≠ []) (h : ¬ first <:+: s) (n : Nat) :
    replaceFrom first last new trim n s = s := by
  cases n with
  | zero => rfl
  | succ n =>
    unfold replaceFrom
    rw [find_absent hne h]

theorem replaceBlocks_absent (hne : first ≠ []) (h : ¬ first <:+: s) :
    replaceBlocks first last new trim s = s := replaceFrom_absent hne h _

/-- A text with one block. -/
theorem replaceBlocks_one (hfirst : IsMark lead first) (hlast : IsMark lead last)
    (hpre : ¬ first <:+: pre) (hinner : ¬ last <:+: inner) (hpost : ¬ first <:+: trim post) :
    replaceBlocks first last new trim (pre ++ (first ++ (inner ++ (last ++ post)))) =
      pre ++ (new ++ trim post) := by
  obtain ⟨n, hn⟩ : ∃ n, (pre ++ (first ++ (inner ++ (last ++ post)))).length = n + 1 := by
    refine Nat.exists_eq_add_one.mpr ?_
    have hpos : 0 < first.length := List.length_pos_of_ne_nil hfirst.ne_nil
    rw [List.length_append, List.length_append]
    omega
  unfold replaceBlocks
  rw [hn]
  unfold replaceFrom
  rw [find_append hfirst hpre]
  dsimp only
  rw [find_append hlast hinner]
  dsimp only
  rw [replaceFrom_absent hfirst.ne_nil hpost]

end Minireg.Lib.Blocks
