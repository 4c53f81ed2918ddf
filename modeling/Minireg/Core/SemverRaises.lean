import Minireg.Core.Precedence
import Minireg.Core.SemverConverts

/-!
# Where a range check raises

`satisfies`, `max_satisfying` and `is_valid_range` catch `InvalidRange` and nothing
else. A range is read set by set and token by token, up to the first that is no
comparator; a hyphen range is read as its two bounds. `range_checks_return_iff` says for
which texts all three return.
-/

namespace Minireg.Semver

open Py

/-! ## Tokens -/

theorem mem_splitOnP {p : Char → Bool} {s part : List Char} (h : part ∈ s.splitOnP p) :
    ∀ c ∈ part, p c = false := by
  induction s generalizing part with
  | nil =>
    obtain rfl := List.mem_singleton.mp h
    nofun
  | cons d s ih =>
    rw [List.splitOnP_cons_eq_if_modifyHead] at h
    split at h
    · rcases List.mem_cons.mp h with rfl | h
      · nofun
      · exact ih h
    · next hd =>
      obtain ⟨first, rest, hsplit⟩ := List.exists_cons_of_ne_nil (List.splitOnP_ne_nil p s)
      rw [hsplit, List.modifyHead_cons] at h
      rcases List.mem_cons.mp h with rfl | h
      · rw [List.forall_mem_cons]
        exact ⟨by simpa using hd, ih (hsplit ▸ List.mem_cons_self)⟩
      · exact ih (hsplit ▸ List.mem_cons_of_mem _ h)

theorem mem_splitSpaces {s part : List Char} (h : part ∈ splitSpaces s) :
    part ≠ [] ∧ ∀ c ∈ part, isSpace c = false := by
  obtain ⟨hpart, hne⟩ := List.mem_filter.mp h
  exact ⟨by simpa using hne, mem_splitOnP hpart⟩

theorem splitSpaces_append {c : Char} (hc : isSpace c = true) (s w : List Char) :
    splitSpaces (s ++ c :: w) = splitSpaces s ++ splitSpaces w := by
  unfold splitSpaces
  rw [List.splitOnP_append_cons _ _ hc, List.filter_append]

theorem splitSpaces_all {s : List Char} (h : ∀ c ∈ s, isSpace c = true) : splitSpaces s = [] := by
  induction s with
  | nil => rfl
  | cons c s ih =>
    have hsplit := splitSpaces_append (h c List.mem_cons_self) [] s
    rw [List.nil_append, ih fun d hd => h d (List.mem_cons_of_mem _ hd)] at hsplit
    exact hsplit

theorem exists_first_space {s : List Char} (h : ¬ ∀ c ∈ s, isSpace c = false) :
    ∃ start c rest, s = start ++ c :: rest ∧ (∀ d ∈ start, isSpace d = false) ∧
      isSpace c = true := by
  rcases hrest : s.dropWhile fun c => !isSpace c with _ | ⟨c, rest⟩
  · exact absurd (fun c hc => by simpa using List.dropWhile_eq_nil_iff.mp hrest c hc) h
  · refine ⟨s.takeWhile fun c => !isSpace c, c, rest, ?_, fun d hd => ?_, ?_⟩
    · rw [← hrest, List.takeWhile_append_dropWhile]
    · simpa using List.all_eq_true.mp List.all_takeWhile d hd
    · simpa using stops_dropWhile _ s c rest hrest

/-- Blanks after a text, or what is left of them, make no token. -/
theorem splitSpaces_trailing {s w : List Char} (h : ∀ c ∈ w, isSpace c = true) :
    splitSpaces (s ++ w) = splitSpaces s := by
  cases w with
  | nil => rw [List.append_nil]
  | cons c w =>
    rw [splitSpaces_append (h c List.mem_cons_self),
      splitSpaces_all fun d hd => h d (List.mem_cons_of_mem _ hd), List.append_nil]

theorem dropOperatorSpace_blanks {w : List Char} (h : ∀ c ∈ w, isSpace c = true) (b : Bool) :
    ∀ c ∈ dropOperatorSpace b w, isSpace c = true := by
  induction w generalizing b with
  | nil => nofun
  | cons d w ih =>
    have hrest := ih fun c hc => h c (List.mem_cons_of_mem _ hc)
    rw [dropOperatorSpace]
    split
    · exact hrest true
    · exact List.forall_mem_cons.mpr ⟨h d List.mem_cons_self, hrest _⟩

theorem dropOperatorSpace_subset (b : Bool) (s : List Char) : dropOperatorSpace b s ⊆ s := by
  induction s generalizing b with
  | nil => exact List.Subset.refl []
  | cons c s ih =>
    rw [dropOperatorSpace]
    split
    · exact List.subset_cons_of_subset c (ih true)
    · exact List.cons_subset_cons c (ih _)

/-- Whether a text ends after an operator, read from a place that may be after one. -/
def endsOperator : Bool → List Char → Bool
  | b, [] => b
  | b, c :: rest =>
    if b && isSpace c then endsOperator true rest else endsOperator (isOperatorEnd c) rest

theorem dropOperatorSpace_split (b : Bool) (s w : List Char) :
    dropOperatorSpace b (s ++ w) =
      dropOperatorSpace b s ++ dropOperatorSpace (endsOperator b s) w := by
  induction s generalizing b with
  | nil => rfl
  | cons c s ih =>
    rw [List.cons_append, dropOperatorSpace, dropOperatorSpace, endsOperator]
    split
    · exact ih true
    · rw [ih, List.cons_append]

theorem isSpace_of_isOperatorEnd {c : Char} (h : isOperatorEnd c = true) : isSpace c = false := by
  unfold isOperatorEnd at h
  simp only [Bool.or_eq_true, beq_iff_eq] at h
  rcases h with (((rfl | rfl) | rfl) | rfl) | rfl <;> decide

/-- What stripping takes off the end is blank. -/
theorem stripRight_rest {s w : List Char} (h : stripRight s ++ w = s) :
    ∀ c ∈ w, isSpace c = true := by
  have hsplit : stripRight s ++ (s.reverse.takeWhile isSpace).reverse = s := by
    unfold stripRight
    rw [← List.reverse_append, List.takeWhile_append_dropWhile, List.reverse_reverse]
  have hw : w = (s.reverse.takeWhile isSpace).reverse :=
    List.append_cancel_left (h.trans hsplit.symm)
  intro c hc
  rw [hw, List.mem_reverse] at hc
  exact List.all_eq_true.mp List.all_takeWhile c hc

theorem dropWhile_isSpace_tokens (s : List Char) :
    splitSpaces (dropOperatorSpace false (s.dropWhile isSpace)) =
      splitSpaces (dropOperatorSpace false s) := by
  induction s with
  | nil => rfl
  | cons c s ih =>
    rw [List.dropWhile_cons]
    split
    · next hc =>
      have hoperator : isOperatorEnd c = false := by
        rw [Bool.eq_false_iff]
        intro hoperator
        rw [isSpace_of_isOperatorEnd hoperator] at hc
        cases hc
      rw [ih, dropOperatorSpace, Bool.false_and, if_neg Bool.false_ne_true, hoperator]
      exact (splitSpaces_append hc [] _).symm
    · rfl

/-- Tokens are read in order, up to one that has no form. -/
theorem Outcome.tokens (l : List (List Char))
    (h : ∀ token ∈ l, token ≠ [] ∧ ∀ c ∈ token, isSpace c = false) (b : Bool) :
    Outcome (l.mapM fun token => parseToken token b) (∀ token ∈ l, TokenValid token)
      (InOrder TokenValid TokenConverts l) :=
  .mapM fun token htoken => .token (h token htoken).1 (h token htoken).2 b

/-- Stripping changes no token. -/
theorem tokens_eq (s : List Char) : tokens s = splitSpaces (dropOperatorSpace false s) := by
  unfold tokens
  rw [← dropWhile_isSpace_tokens s]
  obtain ⟨w, hw⟩ := isPrefix_stripRight (s.dropWhile isSpace)
  have hblanks : ∀ c ∈ w, isSpace c = true := stripRight_rest hw
  change splitSpaces (dropOperatorSpace false (stripRight (s.dropWhile isSpace))) = _
  rw [← hw, dropOperatorSpace_split,
    splitSpaces_trailing (dropOperatorSpace_blanks hblanks _), hw]

/-! ## The bounds of a hyphen range -/

variable {s r : List Char} {p : Partial} {g : Groups}

/-- No component of the partial version is left open. -/
structure Partial.Full (p : Partial) : Prop where
  major : isX (some p.major) = false
  minor : isX p.minor = false
  patch : isX p.patch = false

/-- What a hyphen range matches of one of its sides: the text, and its groups. -/
structure Side (side : List Char × Partial) : Prop where
  matched : side.2.Matched
  text : side.2.Full → ∃ (lead : List Char) (g : Groups), g.Spelled ∧ g.toPartial = side.2 ∧
    stripChars side.1 = lead ++ g.text ∧ ∀ c ∈ lead, isLead c = true

theorem stripChars_lead {lead : List Char} (h : g.Spelled) (hs : Stops isSpace (lead ++ g.text)) :
    stripChars (lead ++ g.text) = lead ++ g.text := by
  change stripRight ((lead ++ g.text).dropWhile isSpace) = _
  rw [dropWhile_eq_self_of_stops hs]
  refine stripRight_eq_self fun d hd => ?_
  obtain ⟨c, t, htext, -⟩ := h.head
  rw [List.getLast?_append_of_ne_nil _ (htext ▸ List.cons_ne_nil c t)] at hd
  exact text_isSpace h d (List.mem_of_getLast? hd)

/-- Blanks after a text are stripped. -/
theorem stripChars_trailing {s w : List Char} (h : ∀ c ∈ w, isSpace c = true) :
    stripChars (s ++ w) = stripChars s := by
  have hright (u : List Char) : stripRight (u ++ w) = stripRight u := by
    unfold stripRight
    rw [List.reverse_append, List.dropWhile_append_of_pos fun c hc => h c (List.mem_reverse.mp hc)]
  change stripRight ((s ++ w).dropWhile isSpace) = stripRight (s.dropWhile isSpace)
  rw [List.dropWhile_append]
  split
  · next hempty =>
    rw [List.isEmpty_iff.mp hempty, List.dropWhile_eq_nil_iff.mpr h]
  · exact hright _

theorem side_of_scan {t : List Char} (hs : Stops isSpace s) (hscan : scanPartial s = some (p, r))
    (ht : ∀ u, s = u ++ r → stripChars t = stripChars u) : Side (t, p) where
  matched := ⟨scanPartial_scanned hscan, scanPartial_pre hscan⟩
  text hfull := by
    obtain ⟨g, hg, hversion⟩ := scanVersion_of_partial hscan hfull.major hfull.minor hfull.patch
    have hspelled := scanVersion_spelled hversion
    have hwhole : s = s.takeWhile isLead ++ g.text ++ r := by
      rw [List.append_assoc, ← scanVersion_append hversion, List.takeWhile_append_dropWhile]
    have hstops : Stops isSpace (s.takeWhile isLead ++ g.text) := by
      intro c u heq
      rw [heq] at hwhole
      exact hs c (u ++ r) hwhole
    refine ⟨s.takeWhile isLead, g, hspelled, hg, ?_, List.all_eq_true.mp List.all_takeWhile⟩
    rw [ht _ hwhole, stripChars_lead hspelled hstops]

theorem matchHyphen_sides {low high : List Char × Partial}
    (h : matchHyphen s = some (low, high)) : Side low ∧ Side high := by
  unfold matchHyphen at h
  dsimp only at h
  split at h
  · cases h
  · next p rest hscan =>
    split at h
    · split at h
      · next c tail d right _ _ =>
        obtain ⟨q, hq, hpair⟩ := Option.map_eq_some_iff.mp h
        cases hpair
        constructor
        · refine side_of_scan (stops_dropWhile _ _) hscan fun u hu => ?_
          rw [hu, List.length_append, Nat.add_sub_cancel, List.take_left]
        · unfold matchPartial at hq
          split at hq
          · next hscan' =>
            split at hq
            · next hblank =>
              cases hq
              refine side_of_scan (stops_dropWhile _ _) hscan' fun u hu => ?_
              rw [stripChars_idem, hu, stripChars_trailing (List.all_eq_true.mp hblank)]
            · cases hq
          · cases hq
      · cases h
    · cases h

/-- The text of a bound is one token, once the blanks after its operators are gone. -/
def OneToken (text : List Char) : Prop :=
  ∀ c ∈ dropOperatorSpace true (stripChars text), isSpace c = false

/-- The lower bound of a hyphen range is a comparator. -/
def LowValid (low : List Char × Partial) : Prop := low.2.Full → OneToken low.1

/-- The upper bound of a hyphen range is a comparator. With a prerelease it is written out
from its groups. -/
def HighValid (high : List Char × Partial) : Prop :=
  high.2.Full → high.2.pre = none → OneToken high.1

/-- The operators of the bounds that are taken from the text. -/
inductive IsHyphenOperator : Operator → Prop where
  | ge : IsHyphenOperator .ge
  | le : IsHyphenOperator .le

section Bounds

variable {operator : Operator} (hop : IsHyphenOperator operator) {b : Bool}

include hop

theorem dropOperatorSpace_operator (t : List Char) :
    dropOperatorSpace false (operator.text ++ t) = operator.text ++ dropOperatorSpace true t := by
  cases hop <;> rfl

theorem matchForm_operator {t : List Char} (hspace : ∀ c ∈ t, isSpace c = false) :
    matchForm (operator.text ++ t) = (matchPartial t).map fun p => (.xrange operator, p) := by
  have hdrop := dropWhile_isSpace hspace
  cases hop with
  | ge =>
    change ((matchPartial (t.dropWhile isSpace)).map fun p => (Operator.ge, p)).map _ = _
    rw [hdrop, Option.map_map]
    rfl
  | le =>
    change ((matchPartial (t.dropWhile isSpace)).map fun p => (Operator.le, p)).map _ = _
    rw [hdrop, Option.map_map]
    rfl

theorem operator_isSpace {t : List Char} (hspace : ∀ c ∈ t, isSpace c = false) :
    operator.text ++ t ≠ [] ∧ ∀ c ∈ operator.text ++ t, isSpace c = false := by
  have htext (c d : Char) (hc : isSpace c = false) (hd : isSpace d = false) :
      c :: d :: t ≠ [] ∧ ∀ e ∈ c :: d :: t, isSpace e = false :=
    ⟨List.cons_ne_nil _ _, List.forall_mem_cons.mpr ⟨hc, List.forall_mem_cons.mpr ⟨hd, hspace⟩⟩⟩
  cases hop with
  | ge => exact htext '>' '=' rfl rfl
  | le => exact htext '<' '=' rfl rfl

/-- A whole version behind the operator, whatever leads it. -/
theorem matchForm_whole {lead : List Char} (hg : g.Spelled) (hlead : ∀ c ∈ lead, isLead c = true)
    (hspace : ∀ c ∈ lead ++ g.text, isSpace c = false) :
    matchForm (operator.text ++ (lead ++ g.text)) = some (.xrange operator, g.toPartial) := by
  have hdrop : (lead ++ g.text).dropWhile isLead = g.text := by
    rw [List.dropWhile_append_of_pos hlead]
    exact dropWhile_eq_self_of_stops (text_stops hg)
  have hscan := scanVersion_text hg (.inl rfl)
  rw [List.append_nil, ← hdrop] at hscan
  have hpartial : matchPartial (lead ++ g.text) = some g.toPartial := by
    unfold matchPartial
    rw [scanPartial_of_version hscan]
    rfl
  rw [matchForm_operator hop hspace, hpartial]
  rfl

theorem matchForm_lead {lead : List Char} (hlead : ∀ c ∈ lead, isLead c = true)
    (hspace : ∀ c ∈ lead, isSpace c = false) : matchForm (operator.text ++ lead) = none := by
  have hdrop : lead.dropWhile isLead = [] := List.dropWhile_eq_nil_iff.mpr hlead
  rw [matchForm_operator hop hspace]
  unfold matchPartial scanPartial
  rw [hdrop]
  rfl

theorem Outcome.wholeToken {lead : List Char} (hg : g.Spelled)
    (hlead : ∀ c ∈ lead, isLead c = true) (hspace : ∀ c ∈ lead ++ g.text, isSpace c = false) :
    Outcome ((splitSpaces (operator.text ++ (lead ++ g.text))).mapM
      fun token => parseToken token b) True (∀ s ∈ g.toPartial.written, Converts s) := by
  obtain ⟨hne, hspaceToken⟩ := operator_isSpace hop hspace
  have hform := matchForm_whole hop hg hlead hspace
  have hcounted : (TokenForm.xrange operator).counted g.toPartial = [] := by
    unfold TokenForm.counted
    simp only [Groups.toPartial, hg.major.isX, hg.minor.isX, hg.patch.isX, Bool.false_eq_true,
      if_false, ite_self]
  rw [splitSpaces_eq_singleton hne hspaceToken]
  refine (Outcome.tokens [operator.text ++ (lead ++ g.text)]
    (List.forall_mem_singleton.mpr ⟨hne, hspaceToken⟩) b).congr ?_ ?_
  · refine fun _ => iff_of_true (List.forall_mem_singleton.mpr ?_) trivial
    unfold TokenValid
    rw [hform]
    rfl
  · unfold InOrder TokenConverts
    rw [hform]
    constructor
    · exact fun h => (h.1 _ _ rfl).1
    · refine fun h => ⟨fun f p heq => ?_, fun _ => trivial⟩
      cases heq
      rw [hcounted]
      exact ⟨h, fun s hs => absurd hs List.not_mem_nil⟩

/-- An operator that a space cuts off from its version. -/
theorem Outcome.cutToken {lead rest : List Char} {c : Char} (hlead : ∀ d ∈ lead, isLead d = true)
    (hspace : ∀ d ∈ lead, isSpace d = false) (hc : isSpace c = true) :
    Outcome ((splitSpaces (operator.text ++ (lead ++ c :: rest))).mapM
      fun token => parseToken token b) False True := by
  obtain ⟨hne, hspaceToken⟩ := operator_isSpace hop hspace
  have hform := matchForm_lead hop hlead hspace
  have hvalid : ¬ TokenValid (operator.text ++ lead) := by
    unfold TokenValid
    rw [hform]
    exact Bool.false_ne_true
  have htokens : splitSpaces (operator.text ++ (lead ++ c :: rest)) =
      (operator.text ++ lead) :: splitSpaces rest := by
    have hfirst := splitSpaces_append hc (operator.text ++ lead) rest
    rwa [splitSpaces_eq_singleton hne hspaceToken, List.append_assoc] at hfirst
  have hread := Outcome.tokens (splitSpaces (operator.text ++ (lead ++ c :: rest)))
    (fun token h => mem_splitSpaces h) b
  rw [htokens] at hread ⊢
  refine hread.congr (fun _ => iff_of_false (fun h => hvalid (h _ List.mem_cons_self)) id)
    (iff_of_true ⟨?_, fun h => absurd h hvalid⟩ trivial)
  intro f p heq
  rw [hform] at heq
  cases heq

/-- **A bound taken from the text** is one comparator where it is one token. Otherwise its
first token is an operator without a version. -/
theorem Outcome.sideTokens {lead : List Char} (hg : g.Spelled)
    (hlead : ∀ c ∈ lead, isLead c = true) :
    Outcome ((splitSpaces (dropOperatorSpace false (operator.text ++ (lead ++ g.text)))).mapM
        fun token => parseToken token b)
      (∀ c ∈ dropOperatorSpace true (lead ++ g.text), isSpace c = false)
      ((∀ c ∈ dropOperatorSpace true (lead ++ g.text), isSpace c = false) →
        ∀ s ∈ g.toPartial.written, Converts s) := by
  have hversion := text_isSpace hg
  have hsplit : dropOperatorSpace true (lead ++ g.text) =
      dropOperatorSpace true lead ++ g.text := by
    have hself := dropOperatorSpace_append hversion (endsOperator true lead) []
    rw [List.append_nil] at hself
    rw [dropOperatorSpace_split, hself]
    exact congrArg _ (List.append_nil _)
  have hleads : ∀ c ∈ dropOperatorSpace true lead, isLead c = true :=
    fun c hc => hlead c (dropOperatorSpace_subset true lead hc)
  rw [dropOperatorSpace_operator hop, hsplit]
  by_cases hone : ∀ c ∈ dropOperatorSpace true lead, isSpace c = false
  · have hspace : ∀ c ∈ dropOperatorSpace true lead ++ g.text, isSpace c = false :=
      List.forall_mem_append.mpr ⟨hone, hversion⟩
    exact (Outcome.wholeToken hop hg hleads hspace).congr (fun _ => iff_of_true trivial hspace)
      (imp_iff_right hspace).symm
  · obtain ⟨start, c, rest, hstart, hspace, hc⟩ := exists_first_space hone
    have hspaced : ¬ ∀ c ∈ dropOperatorSpace true lead ++ g.text, isSpace c = false :=
      fun hall => hone fun d hd => hall d (List.mem_append_left _ hd)
    have hread := @Outcome.cutToken operator hop b start (rest ++ g.text) c
      (fun d hd => hleads d (hstart ▸ List.mem_append_left _ hd)) hspace hc
    have htext : start ++ c :: (rest ++ g.text) = dropOperatorSpace true lead ++ g.text := by
      rw [hstart, List.append_assoc, List.cons_append]
    rw [htext] at hread
    exact hread.congr (fun _ => iff_of_false id hspaced)
      (iff_of_true trivial fun h => absurd h hspaced)

end Bounds

/-! ## Sets -/

theorem endsOperator_append (b : Bool) (s t : List Char) :
    endsOperator b (s ++ t) = endsOperator (endsOperator b s) t := by
  induction s generalizing b with
  | nil => rfl
  | cons c s ih =>
    rw [List.cons_append, endsOperator, endsOperator]
    split
    · exact ih true
    · exact ih _

theorem endsOperator_text (hg : g.Spelled) (b : Bool) : endsOperator b g.text = false := by
  have hall (t : List Char) (ht : ∀ c ∈ t, inVersion c = true) (b : Bool) :
      endsOperator b t = false ∨ t = [] := by
    induction t generalizing b with
    | nil => exact .inr rfl
    | cons c t ih =>
      have hc := ht c List.mem_cons_self
      rw [endsOperator, isSpace_of_inVersion hc, Bool.and_false, if_neg Bool.false_ne_true,
        isOperatorEnd_of_inVersion hc]
      rcases ih (fun d hd => ht d (List.mem_cons_of_mem _ hd)) false with h | rfl
      · exact .inl h
      · exact .inl rfl
  obtain ⟨c, t, htext, -⟩ := hg.head
  rcases hall g.text hg.chars b with h | h
  · exact h
  · rw [htext] at h
    cases h

/-- The tokens of two bounds are those of the lower one and those of the upper one. -/
theorem tokens_bounds {lower : List Char} (hlower : endsOperator false lower = false)
    (upper : List Char) :
    tokens (stripChars (between lower upper)) =
      splitSpaces (dropOperatorSpace false lower) ++
        splitSpaces (dropOperatorSpace false upper) := by
  have hstrip : tokens (stripChars (between lower upper)) = tokens (between lower upper) := by
    unfold tokens
    rw [stripChars_idem]
  rw [hstrip, tokens_eq, between, dropOperatorSpace_split, hlower, dropOperatorSpace,
    Bool.false_and, if_neg Bool.false_ne_true]
  exact splitSpaces_append rfl _ _

section Sides

variable {low high : List Char × Partial} {b : Bool}

theorem Outcome.nothing :
    Outcome (([] : List (List Char)).mapM fun token => parseToken token b) True True :=
  Outcome.ok []

/-- The tokens of a bound that is written out. -/
theorem Outcome.comparatorTokens (hg : g.Spelled) (operator : Operator) :
    Outcome ((splitSpaces (dropOperatorSpace false (comparatorText operator g))).mapM
      fun token => parseToken token b) True g.Converts := by
  have htoken := comparatorText_isToken hg operator
  have hsplit := tokens_append htoken (.inl rfl)
  rw [List.append_nil] at hsplit
  have hread : Outcome (parseToken (comparatorText operator g) b) True g.Converts := by
    rw [parseToken_text hg]
    exact (Outcome.raised.map).congr (fun _ => Iff.rfl) g.returns_iff
  rw [hsplit]
  exact .mapM_singleton hread

/-- **The lower bound of a hyphen range.** -/
theorem Outcome.lowSide (hlow : Side low) :
    endsOperator false (hyphenLower low b) = false ∧
      Outcome ((splitSpaces (dropOperatorSpace false (hyphenLower low b))).mapM
        fun token => parseToken token b) (LowValid low)
        (LowValid low → ∀ s ∈ low.2.written, Converts s) := by
  have hends (g : Groups) (h : g.Spelled) : endsOperator false (comparatorText .ge g) = false := by
    unfold comparatorText
    rw [endsOperator_append, endsOperator_text h]
  unfold hyphenLower
  dsimp only
  by_cases hmajor : isX (some low.2.major) = true
  · have hvalid : LowValid low := fun hfull => by rw [hfull.major] at hmajor; cases hmajor
    simp only [Partial.written, hmajor, if_true]
    exact ⟨rfl, Outcome.nothing.congr (fun _ => iff_of_true trivial hvalid)
      (iff_of_true trivial fun _ _ hs => absurd hs List.not_mem_nil)⟩
  rw [Bool.not_eq_true] at hmajor
  by_cases hminor : isX low.2.minor = true
  · have hvalid : LowValid low := fun hfull => by rw [hfull.minor] at hminor; cases hminor
    have hspelled := lowerGroups_spelled (hlow.matched.major hmajor) .zero .zero b
    simp only [Partial.written, hmajor, hminor, Bool.false_eq_true, if_false, if_true]
    rw [atLeast_lowerPre]
    refine ⟨hends _ hspelled, (Outcome.comparatorTokens hspelled .ge).congr
      (fun _ => iff_of_true trivial hvalid) ?_⟩
    rw [lowerGroups_converts, imp_iff_right hvalid, List.forall_mem_singleton]
    exact and_iff_left ⟨converts_zero, converts_zero⟩
  rw [Bool.not_eq_true] at hminor
  by_cases hpatch : isX low.2.patch = true
  · have hvalid : LowValid low := fun hfull => by rw [hfull.patch] at hpatch; cases hpatch
    have hspelled :=
      lowerGroups_spelled (hlow.matched.major hmajor) (hlow.matched.minor hminor) .zero b
    simp only [Partial.written, hmajor, hminor, hpatch, Bool.false_eq_true, if_false, if_true]
    rw [atLeast_lowerPre]
    refine ⟨hends _ hspelled, (Outcome.comparatorTokens hspelled .ge).congr
      (fun _ => iff_of_true trivial hvalid) ?_⟩
    rw [lowerGroups_converts, imp_iff_right hvalid, List.forall_mem_cons,
      List.forall_mem_singleton]
    exact and_congr_right fun _ => and_iff_left converts_zero
  rw [Bool.not_eq_true] at hpatch
  have hfull : low.2.Full := ⟨hmajor, hminor, hpatch⟩
  obtain ⟨lead, g, hspelled, hg, htext, hlead⟩ := hlow.text hfull
  have hvalid : LowValid low ↔ OneToken low.1 := ⟨fun h => h hfull, fun h _ => h⟩
  rw [hvalid]
  unfold OneToken
  simp only [hmajor, hminor, hpatch, Bool.false_eq_true, if_false]
  rw [htext, ← hg]
  refine ⟨?_, Outcome.sideTokens .ge hspelled hlead⟩
  change endsOperator false (Operator.ge.text ++ (lead ++ g.text)) = false
  rw [← List.append_assoc, endsOperator_append, endsOperator_text hspelled]

/-- **The upper bound of a hyphen range.** -/
theorem returns_hyphenUpper :
    Returns (hyphenUpper high) ↔ ∀ s ∈ (TokenForm.xrange .le).counted high.2, Bumps s := by
  unfold hyphenUpper TokenForm.counted
  dsimp only
  split
  · exact iff_of_true (Avoids.ok _) nofun
  split
  · rw [(UpperOf.major high.2.major).returns]
    exact List.forall_mem_singleton.symm
  split
  · have hupper : Returns (belowNextMinor high.2.major (digits high.2.minor)) ↔
        Bumps (digits high.2.minor) := by
      unfold belowNextMinor
      rw [returns_bind, returns_bump]
      exact and_iff_left fun n _ => Avoids.ok _
    rw [hupper]
    exact List.forall_mem_singleton.symm
  · split <;> exact iff_of_true (Avoids.ok _) nofun

theorem Outcome.highSide (hhigh : Side high) {upper : List Char}
    (hupper : hyphenUpper high = .ok upper) :
    Outcome ((splitSpaces (dropOperatorSpace false upper)).mapM
        fun token => parseToken token b) (HighValid high)
      (HighValid high → ∀ s ∈ high.2.written, Converts s) := by
  unfold hyphenUpper at hupper
  dsimp only at hupper
  by_cases hmajor : isX (some high.2.major) = true
  · have hvalid : HighValid high := fun hfull => by rw [hfull.major] at hmajor; cases hmajor
    rw [if_pos hmajor] at hupper
    cases hupper
    simp only [Partial.written, hmajor, if_true]
    exact Outcome.nothing.congr (fun _ => iff_of_true trivial hvalid)
      (iff_of_true trivial fun _ _ hs => absurd hs List.not_mem_nil)
  rw [if_neg hmajor] at hupper
  rw [Bool.not_eq_true] at hmajor
  by_cases hminor : isX high.2.minor = true
  · have hvalid : HighValid high := fun hfull => by rw [hfull.minor] at hminor; cases hminor
    rw [if_pos hminor] at hupper
    have hcount := UpperOf.major high.2.major
    obtain ⟨g, hspelled, rfl, hconverts⟩ := hcount.text upper hupper
    have hbumps := hcount.returns.mp (returns_iff.mpr ⟨_, hupper⟩)
    simp only [Partial.written, hmajor, hminor, Bool.false_eq_true, if_false, if_true,
      List.forall_mem_singleton]
    exact (Outcome.comparatorTokens hspelled .lt).congr (fun _ => iff_of_true trivial hvalid)
      (iff_of_true (hconverts.mpr trivial) fun _ => hbumps.converts)
  rw [if_neg hminor] at hupper
  rw [Bool.not_eq_true] at hminor
  by_cases hpatch : isX high.2.patch = true
  · have hvalid : HighValid high := fun hfull => by rw [hfull.patch] at hpatch; cases hpatch
    rw [if_pos hpatch] at hupper
    have hcount := UpperOf.minor (hhigh.matched.major hmajor) (digits high.2.minor)
    obtain ⟨g, hspelled, rfl, hconverts⟩ := hcount.text upper hupper
    have hbumps := hcount.returns.mp (returns_iff.mpr ⟨_, hupper⟩)
    simp only [Partial.written, hmajor, hminor, hpatch, Bool.false_eq_true, if_false, if_true,
      List.forall_mem_cons]
    refine (Outcome.comparatorTokens hspelled .lt).congr (fun _ => iff_of_true trivial hvalid) ?_
    rw [hconverts, imp_iff_right hvalid]
    exact (and_iff_left ⟨hbumps.converts, fun _ hs => absurd hs List.not_mem_nil⟩).symm
  rw [if_neg hpatch] at hupper
  rw [Bool.not_eq_true] at hpatch
  have hfull : high.2.Full := ⟨hmajor, hminor, hpatch⟩
  rcases hpre : high.2.pre with _ | t
  · obtain ⟨lead, g, hspelled, hg, htext, hlead⟩ := hhigh.text hfull
    have hvalid : HighValid high ↔ OneToken high.1 := ⟨fun h => h hfull hpre, fun h _ _ => h⟩
    rw [hpre] at hupper
    cases hupper
    rw [hvalid]
    unfold OneToken
    rw [htext, ← hg]
    exact Outcome.sideTokens .le hspelled hlead
  · obtain ⟨hparts, hchars⟩ := hhigh.matched.pre t hpre
    rcases t with _ | ⟨c, t⟩
    · exact absurd hparts (by decide)
    have hvalid : HighValid high := fun _ hnone => by rw [hpre] at hnone; cases hnone
    have hspelled : (⟨high.2.major, digits high.2.minor, digits high.2.patch, some (c :: t), none⟩ :
        Groups).Spelled := by
      refine ⟨hhigh.matched.major hmajor, hhigh.matched.minor hminor, hhigh.matched.patch hpatch,
        fun u hu => ?_, fun u hu => ?_⟩
      · obtain rfl := Option.some.inj hu
        exact ⟨hparts, hchars⟩
      · cases hu
    rw [hpre] at hupper
    have htext : upper = comparatorText .le
        ⟨high.2.major, digits high.2.minor, digits high.2.patch, some (c :: t), none⟩ := by
      obtain rfl := Except.ok.inj hupper
      simp [comparatorText, Groups.text, preText, buildText, Operator.text]
    rw [htext]
    refine (Outcome.comparatorTokens hspelled .le).congr (fun _ => iff_of_true trivial hvalid) ?_
    rw [imp_iff_right hvalid]
    unfold Partial.written Groups.Converts Groups.written
    simp only [hmajor, hminor, hpatch, hpre, Bool.false_eq_true, if_false]

end Sides

/-- The comparator set is valid: both bounds of a hyphen range, or every token. -/
def SetValid (raw : List Char) : Prop :=
  match matchHyphen (stripChars raw) with
  | some (low, high) => LowValid low ∧ HighValid high
  | none => ∀ token ∈ tokens raw, TokenValid token

/-- Python converts every number the set makes it convert. A hyphen range counts its upper
bound up before it reads either. -/
def SetConverts (raw : List Char) : Prop :=
  match matchHyphen (stripChars raw) with
  | some (low, high) =>
    (∀ s ∈ (TokenForm.xrange .le).counted high.2, Bumps s) ∧
      (LowValid low → (∀ s ∈ low.2.written, Converts s) ∧
        (HighValid high → ∀ s ∈ high.2.written, Converts s))
  | none => InOrder TokenValid TokenConverts (tokens raw)

/-- The tokens of a hyphen range, once its upper bound is there. -/
theorem Outcome.hyphen {low high : List Char × Partial} (hlow : Side low) (hhigh : Side high)
    (b : Bool) :
    Outcome (do
        let expanded ← Semver.raised (desugarHyphen low high b)
        (Semver.tokens expanded).mapM fun token => parseToken token b)
      (LowValid low ∧ HighValid high)
      ((∀ s ∈ (TokenForm.xrange .le).counted high.2, Bumps s) ∧
        (LowValid low → (∀ s ∈ low.2.written, Converts s) ∧
          (HighValid high → ∀ s ∈ high.2.written, Converts s))) := by
  obtain ⟨hends, hread⟩ := Outcome.lowSide (b := b) hlow
  have hexpand : Returns (desugarHyphen low high b) ↔
      ∀ s ∈ (TokenForm.xrange .le).counted high.2, Bumps s := by
    unfold desugarHyphen
    rw [returns_bind, ← returns_hyphenUpper]
    exact and_iff_left fun upper _ => Avoids.ok _
  have htokens : ∀ expanded, Semver.raised (desugarHyphen low high b) = .ok expanded →
      Outcome ((Semver.tokens expanded).mapM fun token => parseToken token b)
        (LowValid low ∧ HighValid high)
        ((LowValid low → ∀ s ∈ low.2.written, Converts s) ∧
          (LowValid low → HighValid high → ∀ s ∈ high.2.written, Converts s)) := by
    intro expanded hexpanded
    obtain ⟨upper, hupper, heq⟩ := bind_ok (raised_ok hexpanded)
    obtain rfl := Except.ok.inj heq
    have hrest := Outcome.highSide (b := b) hhigh hupper
    rw [tokens_bounds hends, List.mapM_append]
    exact hread.bind fun groups _ => hrest.map (f := fun groups' => groups ++ groups')
  refine (Outcome.raised.bind htokens).congr (fun _ => and_iff_right trivial) ?_
  rw [hexpand, imp_iff_right trivial]
  exact and_congr_right fun _ => forall_and.symm

/-- **A comparator set.** -/
theorem Outcome.comparatorSet (raw : List Char) (b : Bool) :
    Outcome (parseComparatorSet raw b) (SetValid raw) (SetConverts raw) := by
  rw [parseComparatorSet_eq]
  unfold SetValid SetConverts expandHyphen
  rcases hmatch : matchHyphen (stripChars raw) with _ | ⟨low, high⟩
  · have hstrip : Semver.tokens (stripChars raw) = Semver.tokens raw := by
      unfold Semver.tokens
      rw [stripChars_idem]
    have hread := Outcome.tokens (Semver.tokens raw) (fun token h => mem_splitSpaces h) b
    rw [← hstrip] at hread ⊢
    exact hread.map (f := fun groups => orAny groups.flatten)
  · obtain ⟨hlow, hhigh⟩ := matchHyphen_sides hmatch
    have hread := (Outcome.hyphen hlow hhigh b).map (f := fun groups => orAny groups.flatten)
    dsimp only
    rcases hexpand : Semver.raised (desugarHyphen low high b) with e | t
    · rw [hexpand] at hread
      exact hread
    · rw [hexpand] at hread
      exact hread

/-! ## Ranges -/

/-- Every comparator set of the range is valid. -/
def RangeValid (rangeStr : String) : Prop :=
  ∀ part ∈ splitBars (stripChars rangeStr.toList), SetValid part

/-- Python converts every number of the range up to the first set that is not valid. -/
def RangeConverts (rangeStr : String) : Prop :=
  InOrder SetValid SetConverts (splitBars (stripChars rangeStr.toList))

theorem Outcome.range (rangeStr : String) (b : Bool) :
    Outcome (parseRange rangeStr b) (RangeValid rangeStr) (RangeConverts rangeStr) := by
  have hsets := Outcome.mapM (l := splitBars (stripChars rangeStr.toList)) fun part _ =>
    Outcome.comparatorSet part b
  have hread := hsets.map (f := fun sets => ({ sets := sets, includePrerelease := b } : Range))
  unfold parseRange
  rcases hparts : (splitBars (stripChars rangeStr.toList)).mapM fun part =>
      parseComparatorSet part b with e | sets
  · rw [hparts] at hread
    exact hread
  · rw [hparts] at hread
    exact hread

/-- **`is_valid_range` returns** where the range converts. -/
theorem isValidRange_returns_iff (rangeStr : String) :
    Returns (isValidRange rangeStr) ↔ RangeConverts rangeStr := by
  rw [← (Outcome.range rangeStr false).avoids]
  unfold isValidRange
  rcases parseRange rangeStr with e | r
  · cases e with
    | invalidRange msg => exact iff_of_true (Avoids.ok _) (Outcome.invalid msg |>.avoids.mpr trivial)
    | valueError e => exact iff_of_false (fun h => h e rfl trivial) fun h => h _ rfl trivial
  · exact iff_of_true (Avoids.ok _) (Avoids.ok _)

/-- The text is a version. -/
def IsVersion (value : String) : Prop := (matchFullVersion (stripChars value.toList)).isSome

theorem satisfies_returns_iff (version rangeStr : String) (b : Bool) :
    Returns (satisfies version rangeStr b) ↔
      VersionConverts version ∧ (IsVersion version → RangeConverts rangeStr) := by
  rw [← parse_returns_iff]
  unfold satisfies
  rw [returns_bind]
  refine and_congr_right fun hreturns => ?_
  obtain ⟨parsed, hparsed⟩ := hreturns.exists_ok
  rw [hparsed]
  simp only [Except.ok.injEq, forall_eq']
  have hversion : IsVersion version ↔ parsed.isSome := by
    unfold IsVersion
    unfold SemVer.parse at hparsed
    split at hparsed
    · next hnone =>
      cases hparsed
      rw [hnone]
      rfl
    · next g hsome =>
      obtain ⟨v, -, rfl⟩ := map_ok hparsed
      rw [hsome]
      rfl
  rw [hversion]
  rcases parsed with _ | v
  · exact iff_of_true (Avoids.ok _) nofun
  · rw [← (Outcome.range rangeStr b).avoids, imp_iff_right (by rfl)]
    dsimp only
    rcases parseRange rangeStr b with e | r
    · cases e with
      | invalidRange msg =>
        exact iff_of_true (Avoids.ok _) ((Outcome.invalid msg).avoids.mpr trivial)
      | valueError e => exact iff_of_false (fun h => h e rfl trivial) fun h => h _ rfl trivial
    · exact iff_of_true (Avoids.ok _) (Avoids.ok _)

/-- The loop of `max_satisfying` parses every candidate. -/
theorem foldlM_keepBetter_returns (range : Range) (versions : List String)
    (best : Option (String × SemVer)) :
    Returns (versions.foldlM (keepBetter range) best) ↔ ∀ v ∈ versions, VersionConverts v := by
  induction versions generalizing best with
  | nil => exact iff_of_true (Avoids.ok _) nofun
  | cons candidate versions ih =>
    have hstep : Returns (keepBetter range best candidate) ↔ VersionConverts candidate := by
      rw [← parse_returns_iff]
      unfold keepBetter
      rw [returns_bind]
      refine and_iff_left fun parsed _ => ?_
      rcases parsed with _ | v <;> exact Avoids.ok _
    rw [List.foldlM_cons, returns_bind, hstep, List.forall_mem_cons]
    refine and_congr_right fun hconverts => ?_
    obtain ⟨best', hbest'⟩ := (hstep.mpr hconverts).exists_ok
    rw [hbest']
    simp only [Except.ok.injEq, forall_eq', ih]

theorem maxSatisfying_returns_iff (versions : List String) (rangeStr : String) (b : Bool) :
    Returns (maxSatisfying versions rangeStr b) ↔
      RangeConverts rangeStr ∧ (RangeValid rangeStr → ∀ v ∈ versions, VersionConverts v) := by
  have hrange := Outcome.range rangeStr b
  unfold maxSatisfying
  rcases hparse : parseRange rangeStr b with e | r
  · rw [hparse] at hrange
    cases e with
    | invalidRange msg =>
      have hconverts := hrange.avoids.mp ((Outcome.invalid msg).avoids.mpr trivial)
      refine iff_of_true (Avoids.ok _) ⟨hconverts, fun hvalid => ?_⟩
      obtain ⟨r, hr⟩ := (hrange.returns hconverts).mpr hvalid
      cases hr
    | valueError e =>
      refine iff_of_false (fun h => h e rfl trivial) fun h => ?_
      exact hrange.avoids.mpr h.1 _ rfl trivial
  · rw [hparse] at hrange
    have hconverts := hrange.avoids.mp (Avoids.ok r)
    have hvalid := (hrange.returns hconverts).mp ⟨r, rfl⟩
    rw [and_iff_right hconverts, imp_iff_right hvalid]
    dsimp only
    rw [returns_map, foldlM_keepBetter_returns]

/-- Range checking returns a value for a version, the versions to choose from and a range. -/
structure RangeChecksReturn (version : String) (versions : List String) (rangeStr : String)
    (includePrerelease : Bool) : Prop where
  satisfies : Returns (satisfies version rangeStr includePrerelease)
  maxSatisfying : Returns (maxSatisfying versions rangeStr includePrerelease)
  isValidRange : Returns (isValidRange rangeStr)

/-- **Range checking returns** where Python converts the numbers of the range and of the
versions it comes to, and only there. -/
theorem range_checks_return_iff (version : String) (versions : List String) (rangeStr : String)
    (includePrerelease : Bool) :
    RangeChecksReturn version versions rangeStr includePrerelease ↔
      VersionConverts version ∧ RangeConverts rangeStr ∧
        (RangeValid rangeStr → ∀ v ∈ versions, VersionConverts v) := by
  constructor
  · rintro ⟨hsatisfies, hmax, -⟩
    exact ⟨((satisfies_returns_iff _ _ _).mp hsatisfies).1, (maxSatisfying_returns_iff _ _ _).mp hmax⟩
  · rintro ⟨hversion, hrange, hversions⟩
    exact ⟨(satisfies_returns_iff _ _ _).mpr ⟨hversion, fun _ => hrange⟩,
      (maxSatisfying_returns_iff _ _ _).mpr ⟨hrange, hversions⟩,
      (isValidRange_returns_iff _).mpr hrange⟩

/-- A version with a major of 4301 digits. -/
def longVersion : Groups where
  major := List.replicate 4301 '1'
  minor := zero
  patch := zero
  pre := none
  build := none

theorem longVersion_spelled : longVersion.Spelled where
  major := by
    refine .inr ⟨'1', List.replicate 4300 '1', List.replicate_succ, by decide, by decide, ?_⟩
    intro d hd
    rw [List.eq_of_mem_replicate hd]
    decide
  minor := .zero
  patch := .zero
  pre := nofun
  build := nofun

/-- `satisfies` raises for a version of 4301 digits, whatever the range. -/
theorem longVersion_raises :
    ¬ ∀ version versions rangeStr includePrerelease,
      RangeChecksReturn version versions rangeStr includePrerelease := by
  intro h
  have hconverts := ((range_checks_return_iff _ _ _ _).mp
    (h (String.ofList longVersion.text) [] "*" false)).1
  have hmatch : matchFullVersion (stripChars (String.ofList longVersion.text).toList) =
      some longVersion := by
    have hscan := scanVersion_text longVersion_spelled (.inl rfl)
    rw [List.append_nil] at hscan
    rw [String.toList_ofList, stripChars_eq_self (text_isSpace longVersion_spelled)]
    unfold matchFullVersion
    rw [dropWhile_eq_self_of_stops (text_stops longVersion_spelled), hscan]
    rfl
  have hmajor : Converts (List.replicate 4301 '1') := hconverts _ hmatch _ List.mem_cons_self
  unfold Converts maxStrDigits at hmajor
  rw [List.length_replicate] at hmajor
  omega

end Minireg.Semver
