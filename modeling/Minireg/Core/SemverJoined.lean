import Minireg.Core.Precedence
import Minireg.Core.SemverDesugar
import Minireg.Core.SemverRaises

/-!
# Ranges of joined versions

Texts joined with ` || ` read as one range, a set for each text. A version is the range of
itself unless white space cuts the `v` before it off, and a range of joined versions admits
the versions that are equal to one of them in precedence.
-/

namespace Minireg.Semver

open Py

/-! ## Joined texts -/

/-- What stands between two versions of `vulnerable_versions`. -/
def bars : List Char := [' ', '|', '|', ' ']

/-- **The parts of joined texts** are the texts, blanks aside. -/
theorem splitBars_joined {text : List Char} {texts : List (List Char)}
    (h : ∀ t ∈ text :: texts, '|' ∉ t) {lead : List Char} (hlead : ∀ c ∈ lead, isSpace c = true) :
    List.Forall₂ SameStripped (splitBars (lead ++ bars.intercalate (text :: texts)))
      (text :: texts) := by
  have htext := h text List.mem_cons_self
  have hnotLead := not_bar_of_isSpace hlead
  induction texts generalizing text lead with
  | nil =>
    have hone : bars.intercalate [text] = text := by simp
    rw [hone, splitBars_of_not_mem (by simp [htext, hnotLead])]
    exact .cons (stripChars_blanks_append hlead text) .nil
  | cons text' texts ih =>
    have hblank : ∀ c ∈ [' '], isSpace c = true := List.forall_mem_singleton.mpr rfl
    have hchars : lead ++ bars.intercalate (text :: text' :: texts) =
        (lead ++ (text ++ [' '])) ++
          '|' :: '|' :: ([' '] ++ bars.intercalate (text' :: texts)) := by
      simp [bars, List.intercalate_cons_cons]
    rw [hchars, splitBars_append (by simp [htext, hnotLead])]
    refine .cons ?_ (ih (fun t ht => h t (List.mem_cons_of_mem _ ht)) hblank
      (h text' (List.mem_cons_of_mem _ List.mem_cons_self)) (not_bar_of_isSpace hblank))
    exact (stripChars_blanks_append hlead _).trans (stripChars_append_blanks hblank text)

/-- **Joined texts** are read one by one. -/
theorem parseRange_joined {texts : List String} (hne : texts ≠ [])
    (h : ∀ t ∈ texts, '|' ∉ t.toList) (b : Bool) :
    parseRange (join " || " texts) b =
      (texts.mapM fun t => parseComparatorSet t.toList b).map fun sets =>
        { sets := sets, includePrerelease := b } := by
  obtain ⟨text, rest, rfl⟩ := List.exists_cons_of_ne_nil hne
  have hbar : ∀ t ∈ text.toList :: rest.map String.toList, '|' ∉ t := by
    rw [← List.map_cons]
    intro t ht
    obtain ⟨s, hs, rfl⟩ := List.mem_map.mp ht
    exact h s hs
  have hparts := splitBars_joined hbar (List.forall_mem_nil _)
  have hsets : (splitBars (stripChars (join " || " (text :: rest)).toList)).mapM
      (fun part => parseComparatorSet part b) =
      (text :: rest).mapM fun t => parseComparatorSet t.toList b := by
    rw [toList_join]
    have hstrip {s t : List Char} (hs : SameStripped s t) := parseComparatorSet_strip hs b
    refine (mapM_eq_of_forall₂ (splitBars_strip _) fun _ _ hs => hstrip hs).trans
      ((mapM_eq_of_forall₂ hparts fun _ _ hs => hstrip hs).trans ?_)
    simp only [← List.map_cons, List.mapM_map, Function.comp_def]
  unfold parseRange
  rw [hsets]
  rcases (text :: rest).mapM fun t => parseComparatorSet t.toList b with e | sets <;> rfl

/-! ## Versions -/

/-- No white space cuts a version apart: what there is inside follows a `=`. -/
def Unbroken (version : String) : Prop :=
  ∀ c ∈ dropOperatorSpace false (stripChars version.toList), isSpace c = false

/-- What a version starts with makes it a comparator for equality. -/
inductive IsEquality : Operator → Prop where
  | empty : IsEquality .empty
  | eq : IsEquality .eq

section Token

/-! A token that is a version, with what leads it. -/

variable {lead : List Char} {g : Groups} (hg : g.Spelled) (hlead : ∀ c ∈ lead, c = 'v' ∨ c = '=')

include hg hlead

theorem scanOperator_lead : ∃ operator rest, IsEquality operator ∧
    (∀ c ∈ rest, c = 'v' ∨ c = '=') ∧
      scanOperator (lead ++ g.text) = (operator, rest ++ g.text) := by
  cases lead with
  | nil =>
    exact ⟨.empty, [], .empty, List.forall_mem_nil _, scanOperator_text hg .empty⟩
  | cons c rest =>
    obtain ⟨hc, hrest⟩ := List.forall_mem_cons.mp hlead
    rcases hc with rfl | rfl
    · exact ⟨.empty, 'v' :: rest, .empty, hlead, rfl⟩
    · exact ⟨.eq, rest, .eq, hrest, rfl⟩

theorem isSpace_lead : ∀ c ∈ lead ++ g.text, isSpace c = false := by
  refine List.forall_mem_append.mpr ⟨fun c hc => ?_, text_isSpace hg⟩
  rcases hlead c hc with rfl | rfl <;> rfl

theorem scanVersion_lead : scanVersion ((lead ++ g.text).dropWhile isLead) = some (g, []) := by
  have hscan := scanVersion_text hg (.inl rfl)
  have hall : ∀ c ∈ lead, isLead c = true := by
    intro c hc
    rcases hlead c hc with rfl | rfl <;> rfl
  rw [List.dropWhile_append_of_pos hall, dropWhile_eq_self_of_stops (text_stops hg)]
  rwa [List.append_nil] at hscan

/-- Such a token starts with neither the mark of another form nor a wildcard. -/
theorem lead_ne {c d : Char} {t : List Char} (h : lead ++ g.text = c :: t)
    (hd : d ≠ 'v' ∧ d ≠ '=') (hdigit : ¬ ('0' ≤ d ∧ d ≤ '9')) : c ≠ d := by
  rintro rfl
  cases lead with
  | nil =>
    obtain ⟨e, u, htext, hdigit'⟩ := hg.head
    rw [List.nil_append, htext] at h
    obtain ⟨rfl, -⟩ := List.cons.inj h
    exact hdigit hdigit'
  | cons e rest =>
    obtain ⟨rfl, -⟩ := List.cons.inj h
    rcases hlead e List.mem_cons_self with rfl | rfl
    · exact hd.1 rfl
    · exact hd.2 rfl

theorem matchTilde_lead : matchTilde (lead ++ g.text) = none := by
  have hne {c : Char} {t : List Char} (h : lead ++ g.text = c :: t) : c ≠ '~' :=
    lead_ne hg hlead h (by decide) (by decide)
  unfold matchTilde
  rw [dropWhile_isSpace (isSpace_lead hg hlead)]
  split
  · next heq => exact absurd rfl (hne heq)
  · next heq => exact absurd rfl (hne heq)
  · rfl

theorem matchCaret_lead : matchCaret (lead ++ g.text) = none := by
  unfold matchCaret
  rw [dropWhile_isSpace (isSpace_lead hg hlead)]
  split
  · next heq => exact absurd rfl (lead_ne hg hlead heq (by decide) (by decide))
  · rfl

/-- A version that a `v` or a `=` leads **is a comparator** for what is equal to it. -/
theorem parseToken_lead (b : Bool) : ∃ operator, IsEquality operator ∧
    parseToken (lead ++ g.text) b =
      (raised g.toSemVer).map fun v => [{ operator := operator, semver := .version v }] := by
  obtain ⟨operator, rest, hoperator, hrest, hscan⟩ := scanOperator_lead hg hlead
  have hspace := isSpace_lead hg hlead
  have hxrange : matchXrange (lead ++ g.text) = some (operator, g.toPartial) := by
    unfold matchXrange
    rw [dropWhile_isSpace hspace, hscan]
    simp only [dropWhile_isSpace (isSpace_lead hg hrest), matchPartial,
      scanPartial_of_version (scanVersion_lead hg hrest), List.all_nil, if_true, Option.map_some]
  have hcomparator : matchComparator (lead ++ g.text) = some (operator, g) := by
    unfold matchComparator
    rw [dropWhile_isSpace hspace, hscan]
    simp only [dropWhile_isSpace (isSpace_lead hg hrest), matchFullVersion,
      scanVersion_lead hg hrest, List.all_nil, if_true, Option.map_some]
  have hexpand : expandToken (lead ++ g.text) b = .ok (lead ++ g.text) := by
    unfold expandToken
    rw [matchTilde_lead hg hlead, matchCaret_lead hg hlead, hxrange]
    simp only [desugarXrange, Groups.toPartial, hg.major.isX, hg.minor.isX, hg.patch.isX,
      Bool.or_self, Bool.false_eq_true, if_false, Bool.and_false, stripChars_eq_self hspace]
    rfl
  have hne (d : Char) (hd : d ≠ 'v' ∧ d ≠ '=') (hdigit : ¬ ('0' ≤ d ∧ d ≤ '9')) :
      lead ++ g.text ≠ [d] := fun heq => lead_ne hg hlead heq hd hdigit rfl
  have hnil : lead ++ g.text ≠ [] := by
    obtain ⟨c, t, htext, -⟩ := hg.head
    rw [htext]
    exact List.append_ne_nil_of_right_ne_nil _ (List.cons_ne_nil _ _)
  have hparse : parseComparator (lead ++ g.text) =
      (raised g.toSemVer).map fun v => { operator := operator, semver := .version v } := by
    unfold parseComparator
    rw [stripChars_eq_self hspace]
    simp only [hnil, hne '*' (by decide) (by decide), hne 'x' (by decide) (by decide),
      hne 'X' (by decide) (by decide), decide_false, Bool.or_self, Bool.false_eq_true, if_false,
      hcomparator]
  refine ⟨operator, hoperator, ?_⟩
  unfold parseToken
  rw [hexpand]
  simp only [raised, Except.mapError, bind, Except.bind, splitSpaces_eq_singleton hnil hspace,
    List.mapM_cons, hparse, List.mapM_nil]
  rcases g.toSemVer with e | v <;> rfl

end Token

/-- A stripped text does not start with a blank. -/
theorem stops_stripChars (s : List Char) : Stops isSpace (stripChars s) := by
  obtain ⟨w, hw⟩ := isPrefix_stripRight (s.dropWhile isSpace)
  intro c t heq
  refine stops_dropWhile isSpace s c (t ++ w) ?_
  rw [← hw, ← List.cons_append, ← heq]
  rfl

/-- The groups of a version that parses, and what stands before them. -/
theorem parse_groups {version : String} {v : SemVer} (h : Parses version v) :
    ∃ (lead : List Char) (g : Groups), g.Spelled ∧ g.toSemVer = .ok v ∧
      (∀ c ∈ lead, isLead c = true) ∧ stripChars version.toList = lead ++ g.text := by
  unfold Parses SemVer.parse at h
  split at h
  · cases h
  · next g hmatch =>
    obtain ⟨v', hv, hsome⟩ := map_ok h
    cases hsome
    unfold matchFullVersion at hmatch
    split at hmatch
    · next g' rest hscan =>
      split at hmatch
      · next hblank =>
        obtain rfl := Option.some.inj hmatch
        have hspelled := scanVersion_spelled hscan
        have hwhole : stripChars version.toList =
            (stripChars version.toList).takeWhile isLead ++ g'.text ++ rest := by
          rw [List.append_assoc, ← scanVersion_append hscan, List.takeWhile_append_dropWhile]
        have hlead : ∀ c ∈ (stripChars version.toList).takeWhile isLead, isLead c = true :=
          List.all_eq_true.mp List.all_takeWhile
        have hstops : Stops isSpace
            ((stripChars version.toList).takeWhile isLead ++ g'.text) := by
          intro c t heq
          refine stops_stripChars version.toList c (t ++ rest) ?_
          rw [hwhole, heq, List.cons_append]
        refine ⟨_, g', hspelled, hv, hlead, ?_⟩
        calc stripChars version.toList
          _ = stripChars (stripChars version.toList) := (stripChars_idem _).symm
          _ = stripChars ((stripChars version.toList).takeWhile isLead ++ g'.text ++ rest) :=
            congrArg stripChars hwhole
          _ = stripChars ((stripChars version.toList).takeWhile isLead ++ g'.text) :=
            stripChars_trailing (List.all_eq_true.mp hblank)
          _ = _ := stripChars_lead hspelled hstops
      · cases hmatch
    · cases hmatch

/-- **A version is the range of itself**, as one comparator. -/
theorem parseComparatorSet_version {version : String} {v : SemVer}
    (h : Parses version v) (hunbroken : Unbroken version) (b : Bool) :
    ∃ operator, IsEquality operator ∧ parseComparatorSet version.toList b =
      .ok [{ operator := operator, semver := .version v }] := by
  obtain ⟨lead, g, hg, hv, hlead, htext⟩ := parse_groups h
  have hsplit : dropOperatorSpace false (lead ++ g.text) =
      dropOperatorSpace false lead ++ g.text := by
    have hself := dropOperatorSpace_append (text_isSpace hg) (endsOperator false lead) []
    rw [List.append_nil] at hself
    rw [dropOperatorSpace_split, hself]
    exact congrArg _ (List.append_nil _)
  unfold Unbroken at hunbroken
  rw [htext, hsplit] at hunbroken
  have hleads : ∀ c ∈ dropOperatorSpace false lead, c = 'v' ∨ c = '=' := by
    intro c hc
    have hcLead := hlead c (dropOperatorSpace_subset false lead hc)
    have hspace := hunbroken c (List.mem_append_left _ hc)
    unfold isLead at hcLead
    simpa [hspace] using hcLead
  obtain ⟨operator, hoperator, htoken⟩ := parseToken_lead hg hleads b
  have hhyphen : matchHyphen (lead ++ g.text) = none := by
    have hscan := scanVersion_text hg (.inl rfl)
    rw [List.append_nil] at hscan
    have hdrop : (lead ++ g.text).dropWhile isLead = g.text := by
      rw [List.dropWhile_append_of_pos hlead, dropWhile_eq_self_of_stops (text_stops hg)]
    rw [← hdrop] at hscan
    exact matchHyphen_eq_none (htext ▸ stops_stripChars _)
      (.inr ⟨_, scanPartial_of_version hscan⟩) (.inl rfl)
  have htokens : tokens (lead ++ g.text) = [dropOperatorSpace false lead ++ g.text] := by
    obtain ⟨c, t, hct, -⟩ := hg.head
    rw [tokens_eq, hsplit]
    refine splitSpaces_eq_singleton ?_ hunbroken
    rw [hct]
    exact List.append_ne_nil_of_right_ne_nil _ (List.cons_ne_nil _ _)
  refine ⟨operator, hoperator, ?_⟩
  rw [parseComparatorSet_eq, htext]
  unfold expandHyphen
  rw [hhyphen]
  simp only [raised, Except.mapError, bind, Except.bind, htokens, List.mapM_cons, htoken, hv,
    List.mapM_nil]
  rfl

/-! ## The versions a joined range admits -/

theorem SemVer.equivalent_release {v w : SemVer} (h : v.equivalent w = true) :
    v.tuple = w.tuple ∧ v.isPrerelease = w.isPrerelease := by
  have hsame := (SemVer.key_inj v w).mp (of_decide_eq_true h)
  have htuple := congrArg SemVer.tuple hsame
  have hprerelease := congrArg SemVer.isPrerelease hsame
  exact ⟨htuple, hprerelease⟩

/-- A comparator for a prerelease opts in to what is equal to it. -/
theorem testSet_equality {operator : Operator} (h : IsEquality operator) (v w : SemVer) (b : Bool) :
    testSet [{ operator := operator, semver := .version w }] v b = v.equivalent w := by
  have htest : Comparator.test { operator := operator, semver := .version w } v =
      v.equivalent w := by
    cases h <;> rfl
  unfold testSet
  rw [List.all_cons, List.all_nil, Bool.and_true, htest]
  cases hequal : v.equivalent w with
  | false => rfl
  | true =>
    obtain ⟨htuple, hprerelease⟩ := SemVer.equivalent_release hequal
    rw [Bool.true_and]
    split
    · next hopts =>
      have hv := (Bool.and_eq_true_iff.mp hopts).1
      simp [← hprerelease, hv, htuple]
    · rfl

/-- What stripping takes off is blank. -/
theorem mem_stripChars {c : Char} {s : List Char} (h : c ∈ s) (hc : isSpace c = false) :
    c ∈ stripChars s := by
  have hdrop : c ∈ s.dropWhile isSpace := by
    rw [← List.takeWhile_append_dropWhile (p := isSpace) (l := s)] at h
    rcases List.mem_append.mp h with h | h
    · rw [List.all_eq_true.mp List.all_takeWhile c h] at hc
      cases hc
    · exact h
  obtain ⟨w, hw⟩ := isPrefix_stripRight (s.dropWhile isSpace)
  rw [← hw] at hdrop
  rcases List.mem_append.mp hdrop with hmem | hmem
  · exact hmem
  · rw [stripRight_rest hw c hmem] at hc
    cases hc

theorem Parses.bar {version : String} {v : SemVer} (h : Parses version v) :
    '|' ∉ version.toList := by
  obtain ⟨lead, g, hg, -, hlead, htext⟩ := parse_groups h
  intro hbar
  have hmem := mem_stripChars hbar (by decide)
  rw [htext] at hmem
  rcases List.mem_append.mp hmem with hmem | hmem
  · exact absurd (hlead _ hmem) (by decide)
  · exact absurd (hg.chars _ hmem) (by decide)

/-- A version that reads as the range of itself. -/
structure ReadsAlone (version : String) : Prop where
  parses : ∃ v, Parses version v
  unbroken : Unbroken version

theorem ReadsAlone.set {version : String} (h : ReadsAlone version) (b : Bool) :
    ∃ v operator, Parses version v ∧ IsEquality operator ∧
      parseComparatorSet version.toList b =
        .ok [{ operator := operator, semver := .version v }] := by
  obtain ⟨v, hv⟩ := h.parses
  obtain ⟨operator, hoperator, hset⟩ := parseComparatorSet_version hv h.unbroken b
  exact ⟨v, operator, hv, hoperator, hset⟩

/-- **A range of joined versions** admits what is equal to one of them in precedence. -/
theorem satisfies_joined {versions : List String} (hne : versions ≠ [])
    (h : ∀ u ∈ versions, ReadsAlone u) (version : String) (b : Bool) :
    satisfies version (join " || " versions) b = .ok true ↔
      ∃ u ∈ versions, ∃ v w, Parses version v ∧ Parses u w ∧ v.equivalent w = true := by
  have hbar : ∀ u ∈ versions, '|' ∉ u.toList := by
    intro u hu
    obtain ⟨w, hw⟩ := (h u hu).parses
    exact hw.bar
  obtain ⟨sets, hsets⟩ := mapM_of_returns (l := versions)
    (f := fun t => parseComparatorSet t.toList b) fun u hu => by
      obtain ⟨w, operator, -, -, hset⟩ := (h u hu).set b
      exact ⟨_, hset⟩
  have hrange := parseRange_joined hne hbar b
  rw [hsets] at hrange
  constructor
  · intro hsat
    unfold satisfies at hsat
    obtain ⟨parsed, hparsed, hsat⟩ := bind_ok hsat
    rcases parsed with _ | v
    · cases hsat
    · dsimp only at hsat
      rw [hrange] at hsat
      have htest := Except.ok.inj hsat
      obtain ⟨set, hmem, hset⟩ := List.any_eq_true.mp htest
      obtain ⟨u, hu, hparse⟩ := mapM_mem hsets set hmem
      obtain ⟨w, operator, hw, hoperator, hone⟩ := (h u hu).set b
      obtain rfl := Except.ok.inj (hparse.symm.trans hone)
      rw [testSet_equality hoperator] at hset
      exact ⟨u, hu, v, w, hparsed, hw, hset⟩
  · rintro ⟨u, hu, v, w, hv, hw, hequal⟩
    obtain ⟨set, hmem, hparse⟩ := mapM_mem_of_mem hsets u hu
    obtain ⟨w', operator, hw', hoperator, hone⟩ := (h u hu).set b
    obtain rfl := Except.ok.inj (hparse.symm.trans hone)
    obtain rfl := Option.some.inj (Except.ok.inj (hw.symm.trans hw'))
    have htest : Range.test { sets := sets, includePrerelease := b } v = true := by
      refine List.any_eq_true.mpr ⟨_, hmem, ?_⟩
      rw [testSet_equality hoperator]
      exact hequal
    unfold satisfies
    have hparsed : SemVer.parse version = .ok (some v) := hv
    simp only [hparsed, bind, Except.bind, hrange, Except.map]
    exact congrArg Except.ok htest

end Minireg.Semver
