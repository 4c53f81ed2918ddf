import Minireg.Core.SemverText
import Minireg.Py.Raise

/-!
# The two parsing modes

`parseRange` reads a range with or without prereleases included. The modes
differ only in the lower bounds they desugar to: `>=1.2.0` without, `>=1.2.0-0`
with. `Opens` is that difference on a comparator; `parseRange_opens` says a range
that parses without prereleases parses with them, comparator by comparator.
-/

namespace Minireg.Semver

open Py

/-- The comparator with prereleases included: a lower bound may start at its first prerelease. -/
inductive Opens : Comparator → Comparator → Prop where
  | same (c : Comparator) : Opens c c
  | lower (v : SemVer) : v.prerelease = [] →
      Opens { operator := .ge, semver := .version v }
        { operator := .ge, semver := .version { v with prerelease := [.num 0] } }

/-- The comparator sets with prereleases included. -/
abbrev OpensAll : List Comparator → List Comparator → Prop := List.Forall₂ Opens

theorem OpensAll.refl (l : List Comparator) : OpensAll l l :=
  List.forall₂_same.mpr fun c _ => .same c

theorem OpensAll.append {l₁ l₂ l₁' l₂' : List Comparator} (h₁ : OpensAll l₁ l₁')
    (h₂ : OpensAll l₂ l₂') : OpensAll (l₁ ++ l₂) (l₁' ++ l₂') := List.rel_append h₁ h₂

/-! ## Lower bounds -/

/-- The groups of a desugared lower bound. -/
def lowerGroups (a b c : List Char) (includePrerelease : Bool) : Groups where
  major := a
  minor := b
  patch := c
  pre := if includePrerelease then some ['0'] else none
  build := none

variable {a b c : List Char}

theorem lowerGroups_spelled (ha : Numeral a) (hb : Numeral b) (hc : Numeral c) (open_ : Bool) :
    (lowerGroups a b c open_).Spelled where
  major := ha
  minor := hb
  patch := hc
  pre := by
    cases open_ with
    | false => nofun
    | true =>
      intro s hs
      obtain rfl := Option.some.inj hs
      exact ⟨by decide, List.all_eq_true.mp (by decide)⟩
  build := nofun

theorem atLeast_lowerPre (a b c : List Char) (open_ : Bool) :
    atLeast a b c (lowerPre open_) = comparatorText .ge (lowerGroups a b c open_) := by
  cases open_ <;> simp [atLeast, lowerPre, comparatorText, lowerGroups, Groups.text, preText,
    buildText, Operator.text]

/-- Both modes read their lower bound, and the one opens the other. -/
theorem lowerGroups_opens {v : SemVer} (h : (lowerGroups a b c false).toSemVer = .ok v) :
    v.prerelease = [] ∧
      (lowerGroups a b c true).toSemVer = .ok { v with prerelease := [.num 0] } := by
  have hzero : splitPrerelease (some ['0']) = .ok [.num 0] := by decide
  unfold Groups.toSemVer lowerGroups at h ⊢
  obtain ⟨major, hmajor, h⟩ := bind_ok h
  obtain ⟨minor, hminor, h⟩ := bind_ok h
  obtain ⟨patch, hpatch, h⟩ := bind_ok h
  cases h
  dsimp only at hmajor hminor hpatch
  simp only [hmajor, hminor, hpatch, hzero, if_true]
  exact ⟨trivial, rfl⟩

/-- A lower bound is one token in both modes. -/
theorem atLeast_isToken (ha : Numeral a) (hb : Numeral b) (hc : Numeral c) (open_ : Bool) :
    IsToken (atLeast a b c (lowerPre open_)) := by
  rw [atLeast_lowerPre]
  exact comparatorText_isToken (lowerGroups_spelled ha hb hc open_) .ge

theorem parseComparator_opens (ha : Numeral a) (hb : Numeral b) (hc : Numeral c)
    {cmp : Comparator} (h : parseComparator (atLeast a b c (lowerPre false)) = .ok cmp) :
    ∃ cmp', parseComparator (atLeast a b c (lowerPre true)) = .ok cmp' ∧ Opens cmp cmp' := by
  rw [atLeast_lowerPre, parseComparator_text (lowerGroups_spelled ha hb hc _)] at h ⊢
  obtain ⟨v, hv, rfl⟩ := map_ok h
  obtain ⟨hpre, hopen⟩ := lowerGroups_opens (raised_ok hv)
  rw [hopen]
  exact ⟨_, rfl, .lower v hpre⟩

/-! ## Desugaring -/

/-- The two texts one token desugars to. -/
inductive Lowered : List Char → List Char → Prop where
  | same (t : List Char) : Lowered t t
  | lower (a b c upper : List Char) : Numeral a → Numeral b → Numeral c →
      Lowered (between (atLeast a b c (lowerPre false)) upper)
        (between (atLeast a b c (lowerPre true)) upper)

/-- The components of a partial version that are there are numerals. -/
structure Partial.Scanned (p : Partial) : Prop where
  major : isX (some p.major) = false → Numeral p.major
  minor : isX p.minor = false → Numeral (digits p.minor)
  patch : isX p.patch = false → Numeral (digits p.patch)

variable {p : Partial} {s t r : List Char}

theorem scanPartial_scanned (h : scanPartial s = some (p, r)) : p.Scanned := by
  unfold scanPartial at h
  split at h
  · cases h
  · next h₁ =>
    split at h
    · split at h
      · cases h
        exact ⟨scanXid_numeral h₁, nofun, nofun⟩
      · next h₂ =>
        split at h
        · split at h
          · cases h
            exact ⟨scanXid_numeral h₁, scanXid_numeral h₂, nofun⟩
          · next h₃ =>
            cases h
            exact ⟨scanXid_numeral h₁, scanXid_numeral h₂, scanXid_numeral h₃⟩
        · cases h
          exact ⟨scanXid_numeral h₁, scanXid_numeral h₂, nofun⟩
    · cases h
      exact ⟨scanXid_numeral h₁, nofun, nofun⟩

theorem matchPartial_scanned (h : matchPartial s = some p) : p.Scanned := by
  unfold matchPartial at h
  split at h
  · next hscan =>
    split at h
    · cases h
      exact scanPartial_scanned hscan
    · cases h
  · cases h

/-- What desugars without prereleases desugars with them, and only a lower bound differs. -/
def InModes (off on : Except ValueError (List Char)) : Prop :=
  ∀ t, off = .ok t → ∃ t', on = .ok t' ∧ Lowered t t'

theorem InModes.same (x : Except ValueError (List Char)) : InModes x x :=
  fun t h => ⟨t, h, .same t⟩

theorem InModes.between {α : Type} (ha : Numeral a) (hb : Numeral b) (hc : Numeral c)
    (x : Except ValueError α) (upper : α → List Char) :
    InModes (do return Semver.between (atLeast a b c (lowerPre false)) (upper (← x)))
      (do return Semver.between (atLeast a b c (lowerPre true)) (upper (← x))) := by
  intro t h
  obtain ⟨u, rfl, h⟩ := bind_ok h
  cases h
  exact ⟨_, rfl, .lower a b c (upper u) ha hb hc⟩

theorem InModes.fullLower {α : Type} (hp : p.Scanned) (hmajor : isX (some p.major) = false)
    (hminor : isX p.minor = false) (hpatch : isX p.patch = false) (x : Except ValueError α)
    (upper : α → List Char) :
    InModes (do return Semver.between (fullLower p (lowerPre false)) (upper (← x)))
      (do return Semver.between (fullLower p (lowerPre true)) (upper (← x))) := by
  unfold Semver.fullLower
  split
  · exact .same _
  · exact .between (hp.major hmajor) (hp.minor hminor) (hp.patch hpatch) _ _

theorem desugarTilde_modes (hp : p.Scanned) :
    InModes (desugarTilde p false) (desugarTilde p true) := by
  unfold desugarTilde
  dsimp only
  split
  · exact .same _
  next hmajor =>
  have hmajor := Bool.eq_false_iff.mpr hmajor
  split
  · exact .between (hp.major hmajor) .zero .zero _ _
  next hminor =>
  have hminor := Bool.eq_false_iff.mpr hminor
  split
  · exact .between (hp.major hmajor) (hp.minor hminor) .zero _ _
  next hpatch =>
  exact .fullLower hp hmajor hminor (Bool.eq_false_iff.mpr hpatch) _ _

theorem desugarCaret_modes (hp : p.Scanned) :
    InModes (desugarCaret p false) (desugarCaret p true) := by
  unfold desugarCaret
  dsimp only
  split
  · exact .same _
  next hmajor =>
  have hmajor := Bool.eq_false_iff.mpr hmajor
  split
  · exact .between (hp.major hmajor) .zero .zero _ _
  next hminor =>
  have hminor := Bool.eq_false_iff.mpr hminor
  split
  · split
    · exact .between (hp.major hmajor) (hp.minor hminor) .zero _ _
    · exact .between (hp.major hmajor) (hp.minor hminor) .zero _ _
  next hpatch =>
  have hpatch := Bool.eq_false_iff.mpr hpatch
  -- a caret on a major of its own keeps its lower bound as it is written
  split
  · split
    · exact .fullLower hp hmajor hminor hpatch _ _
    · exact .fullLower hp hmajor hminor hpatch _ _
  · exact .same _

theorem desugarXrange_modes (token : List Char) (operator : Operator) (hp : p.Scanned) :
    InModes (desugarXrange token operator p false) (desugarXrange token operator p true) := by
  unfold desugarXrange
  dsimp only
  generalize (if operator = .eq && (isX (some p.major) || isX p.minor || isX p.patch) then
    Operator.empty else operator) = operator
  split
  · exact .same _
  next hmajor =>
  have hmajor := Bool.eq_false_iff.mpr hmajor
  split
  · exact .same _
  split
  · exact .between (hp.major hmajor) .zero .zero _ _
  next hxMinor =>
  split
  · have hminor : isX p.minor = false := by
      rw [hmajor, Bool.false_or] at hxMinor
      exact Bool.eq_false_iff.mpr hxMinor
    exact .between (hp.major hmajor) (hp.minor hminor) .zero _ _
  · exact .same _

theorem matchTilde_scanned (h : matchTilde s = some p) : p.Scanned := by
  unfold matchTilde at h
  split at h
  · exact matchPartial_scanned h
  · exact matchPartial_scanned h
  · cases h

theorem matchCaret_scanned (h : matchCaret s = some p) : p.Scanned := by
  unfold matchCaret at h
  split at h
  · exact matchPartial_scanned h
  · cases h

theorem matchXrange_scanned {operator : Operator} (h : matchXrange s = some (operator, p)) :
    p.Scanned := by
  unfold matchXrange at h
  obtain ⟨q, hq, heq⟩ := Option.map_eq_some_iff.mp h
  cases heq
  exact matchPartial_scanned hq

/-- **The two modes of one token.** -/
theorem expandToken_modes (token : List Char) :
    InModes (expandToken token false) (expandToken token true) := by
  unfold expandToken
  rcases htilde : matchTilde token with _ | p
  · rcases hcaret : matchCaret token with _ | p
    · rcases hxrange : matchXrange token with _ | ⟨operator, p⟩
      · exact .same _
      · exact desugarXrange_modes token operator (matchXrange_scanned hxrange)
    · exact desugarCaret_modes (matchCaret_scanned hcaret)
  · exact desugarTilde_modes (matchTilde_scanned htilde)

/-! ## Parsing -/

/-- The comparators of one token: those that differ are lower bounds. -/
theorem parseToken_opens {token : List Char} {cs : List Comparator}
    (h : parseToken token false = .ok cs) :
    ∃ cs', parseToken token true = .ok cs' ∧ OpensAll cs cs' := by
  unfold parseToken at h ⊢
  obtain ⟨t, ht, h⟩ := bind_ok h
  obtain ⟨t', ht', hlowered⟩ := expandToken_modes token t (raised_ok ht)
  rw [ht']
  cases hlowered with
  | same => exact ⟨cs, h, .refl cs⟩
  | lower a b c upper ha hb hc =>
    have htoken := atLeast_isToken ha hb hc
    unfold between at h ⊢
    rw [splitSpaces_cons (htoken false).ne_nil (htoken false).isSpace, List.mapM_cons] at h
    obtain ⟨cmp, hcmp, h⟩ := bind_ok h
    obtain ⟨rest, hrest, h⟩ := bind_ok h
    cases h
    obtain ⟨cmp', hcmp', hopens⟩ := parseComparator_opens ha hb hc hcmp
    refine ⟨cmp' :: rest, ?_, .cons hopens (OpensAll.refl rest)⟩
    simp only [raised, Except.mapError, bind, Except.bind,
      splitSpaces_cons (htoken true).ne_nil (htoken true).isSpace, List.mapM_cons, hcmp', hrest]
    rfl

/-- The same token in the two modes. -/
inductive TokenModes : List Char → List Char → Prop where
  | same (token : List Char) : TokenModes token token
  | lower (a b c : List Char) : Numeral a → Numeral b → Numeral c →
      TokenModes (atLeast a b c (lowerPre false)) (atLeast a b c (lowerPre true))

theorem parseToken_modes {token token' : List Char} (h : TokenModes token token')
    (cs : List Comparator) (hcs : parseToken token false = .ok cs) :
    ∃ cs', parseToken token' true = .ok cs' ∧ OpensAll cs cs' := by
  cases h with
  | same => exact parseToken_opens hcs
  | lower a b c ha hb hc =>
    have hspelled := lowerGroups_spelled ha hb hc
    rw [atLeast_lowerPre, parseToken_text (hspelled _)] at hcs ⊢
    obtain ⟨v, hv, rfl⟩ := map_ok hcs
    obtain ⟨hpre, hopen⟩ := lowerGroups_opens (raised_ok hv)
    rw [hopen]
    exact ⟨_, rfl, .cons (.lower v hpre) .nil⟩

theorem matchHyphen_scanned {low high : List Char × Partial}
    (h : matchHyphen s = some (low, high)) : low.2.Scanned := by
  unfold matchHyphen at h
  dsimp only at h
  split at h
  · cases h
  · next hscan =>
    split at h
    · split at h
      · obtain ⟨q, -, heq⟩ := Option.map_eq_some_iff.mp h
        cases heq
        exact scanPartial_scanned hscan
      · cases h
    · cases h

/-- The lower bound of a hyphen range, in both modes. -/
theorem hyphenLower_modes {low : List Char × Partial} (hlow : low.2.Scanned) :
    hyphenLower low false = hyphenLower low true ∨
      ∃ a b c, Numeral a ∧ Numeral b ∧ Numeral c ∧
        ∀ open_, hyphenLower low open_ = atLeast a b c (lowerPre open_) := by
  unfold hyphenLower
  dsimp only
  split
  · exact .inl rfl
  next hmajor =>
  have hmajor := hlow.major (Bool.eq_false_iff.mpr hmajor)
  split
  · exact .inr ⟨_, _, _, hmajor, .zero, .zero, fun _ => rfl⟩
  next hminor =>
  split
  · exact .inr ⟨_, _, _, hmajor, hlow.minor (Bool.eq_false_iff.mpr hminor), .zero, fun _ => rfl⟩
  · exact .inl rfl

/-- The tokens of a bound and what follows it. -/
theorem tokens_between (ha : Numeral a) (hb : Numeral b) (hc : Numeral c) (upper : List Char)
    (open_ : Bool) :
    tokens (stripChars (between (atLeast a b c (lowerPre open_)) upper)) =
      atLeast a b c (lowerPre open_) ::
        splitSpaces (dropOperatorSpace false (stripRight (stripRight (' ' :: upper)))) := by
  have htoken := atLeast_isToken ha hb hc open_
  have hends : Ends (' ' :: upper) := .inr ⟨upper, rfl⟩
  unfold tokens between
  rw [stripChars_append htoken, stripChars_append htoken, tokens_append htoken
    hends.stripRight.stripRight]

/-- The tokens of a comparator set, in both modes. -/
theorem expandHyphen_modes {raw t : List Char} (h : expandHyphen raw false = .ok t) :
    ∃ t', expandHyphen raw true = .ok t' ∧ List.Forall₂ TokenModes (tokens t) (tokens t') := by
  have hsame : List.Forall₂ TokenModes (tokens t) (tokens t) :=
    List.forall₂_same.mpr fun token _ => .same token
  unfold expandHyphen at h ⊢
  rcases hmatch : matchHyphen raw with _ | ⟨low, high⟩
  · rw [hmatch] at h
    exact ⟨t, h, hsame⟩
  rw [hmatch] at h
  dsimp only at h ⊢
  unfold desugarHyphen at h ⊢
  obtain ⟨upper, hupper, h⟩ := bind_ok h
  cases h
  rw [hupper]
  refine ⟨_, rfl, ?_⟩
  rcases hyphenLower_modes (matchHyphen_scanned hmatch) with hlower | ⟨a, b, c, ha, hb, hc, hlower⟩
  · rw [← hlower]
    exact hsame
  · rw [hlower, hlower, tokens_between ha hb hc, tokens_between ha hb hc]
    exact .cons (.lower a b c ha hb hc) (List.forall₂_same.mpr fun token _ => .same token)

theorem OpensAll.orAny {cs cs' : List Comparator} (h : OpensAll cs cs') :
    OpensAll (orAny cs) (orAny cs') := by
  unfold Semver.orAny
  cases h with
  | nil => exact .refl _
  | cons hc hcs => exact .cons hc hcs

/-- **The two modes of a comparator set.** -/
theorem parseComparatorSet_opens {raw : List Char} {cs : List Comparator}
    (h : parseComparatorSet raw false = .ok cs) :
    ∃ cs', parseComparatorSet raw true = .ok cs' ∧ OpensAll cs cs' := by
  rw [parseComparatorSet_eq] at h ⊢
  obtain ⟨t, ht, h⟩ := bind_ok h
  obtain ⟨groups, hgroups, h⟩ := bind_ok h
  cases h
  obtain ⟨t', ht', htokens⟩ := expandHyphen_modes (raised_ok ht)
  obtain ⟨groups', hgroups', hopens⟩ :=
    mapM_forall₂ (fun _ _ h => parseToken_modes h) htokens hgroups
  refine ⟨orAny groups'.flatten, ?_, OpensAll.orAny (List.rel_flatten hopens)⟩
  rw [ht']
  simp only [raised, Except.mapError, bind, Except.bind, hgroups']
  rfl

/-- **A range that parses without prereleases parses with them**, and only its lower bounds
change. -/
theorem parseRange_opens {rangeStr : String} {r : Range} (h : parseRange rangeStr false = .ok r) :
    ∃ r', parseRange rangeStr true = .ok r' ∧ r'.includePrerelease = true ∧
      List.Forall₂ OpensAll r.sets r'.sets := by
  unfold parseRange at h ⊢
  obtain ⟨sets, hsets, h⟩ := bind_ok h
  cases h
  obtain ⟨sets', hsets', hopens⟩ := mapM_forall₂
    (fun part part' (heq : part = part') cs hcs => heq ▸ parseComparatorSet_opens hcs)
    (List.forall₂_same.mpr fun _ _ => rfl) hsets
  rw [hsets']
  exact ⟨_, rfl, rfl, hopens⟩

/-! ## What the modes admit -/

/-- The pair is a lower bound at the version's release that the second mode opens. -/
def OpenedAt (v : SemVer) (p : Comparator × Comparator) : Prop :=
  p.1 ≠ p.2 ∧ ∃ w, p.1 = { operator := .ge, semver := .version w } ∧ w.tuple = v.tuple

/-- The release a version names, in its order. -/
abbrev SemVer.release (v : SemVer) : Nat ×ₗ Nat ×ₗ Nat := toLex (v.major, toLex (v.minor, v.patch))

/-- Precedence compares the releases first. -/
theorem SemVer.key_le_iff (v w : SemVer) :
    v.key ≤ w.key ↔ v.release < w.release ∨
      v.tuple = w.tuple ∧ prereleaseKey v.prerelease ≤ prereleaseKey w.prerelease := by
  unfold SemVer.key SemVer.tuple SemVer.release
  simp only [Prod.Lex.toLex_le_toLex, Prod.Lex.toLex_lt_toLex, Prod.mk.injEq]
  tauto

/-- `-0` is the first prerelease of a release. -/
theorem prereleaseKey_zero_le (ids : List Ident) :
    prereleaseKey [.num 0] ≤ prereleaseKey ids := by
  unfold prereleaseKey
  rcases ids with _ | ⟨id, ids⟩
  · decide
  · have hpart : Ident.part (.num 0) ≤ id.part := by
      cases id with
      | num n =>
        simp only [Ident.part, Prod.Lex.toLex_le_toLex, lt_irrefl, true_and, false_or]
        exact Nat.eq_zero_or_pos n |>.elim (fun h => .inr ⟨h.symm, le_refl _⟩) .inl
      | alpha s => exact Prod.Lex.toLex_le_toLex.mpr (.inl Nat.zero_lt_one)
    refine Prod.Lex.toLex_le_toLex.mpr (.inr ⟨rfl, ?_⟩)
    simp only [List.map_cons, List.map_nil]
    rcases hpart.lt_or_eq with hlt | heq
    · exact le_of_lt (List.cons_lt_cons_iff.mpr (.inl hlt))
    · rw [heq]
      cases ids with
      | nil => exact le_refl _
      | cons id' ids =>
        exact le_of_lt (List.cons_lt_cons_iff.mpr (.inr ⟨rfl, List.nil_lt_cons _ _⟩))

/-- A release is above all its prereleases. -/
theorem prereleaseKey_nil_le (ids : List Ident) :
    prereleaseKey [] ≤ prereleaseKey ids ↔ ids = [] := by
  unfold prereleaseKey
  rcases ids with _ | ⟨id, ids⟩
  · simp
  · simp [Prod.Lex.toLex_le_toLex]

/-- **An opened bound** admits what the bound admits, and the prereleases of its release. -/
theorem Opens.test_iff {c c' : Comparator} (h : Opens c c') (v : SemVer) :
    c'.test v = true ↔ c.test v = true ∨ v.isPrerelease = true ∧ OpenedAt v (c, c') := by
  cases h with
  | same c =>
    unfold OpenedAt
    simp
  | lower w hw =>
    have hne : ({ operator := .ge, semver := .version w } : Comparator) ≠
        { operator := .ge, semver := .version { w with prerelease := [.num 0] } } := by
      intro heq
      have := congrArg SemVer.prerelease (Bound.version.inj (Comparator.mk.inj heq).2)
      rw [hw] at this
      cases this
    have hopened : OpenedAt v ({ operator := .ge, semver := .version w },
        { operator := .ge, semver := .version { w with prerelease := [.num 0] } }) ↔
          w.tuple = v.tuple := by
      refine ⟨fun ⟨_, u, hu, htuple⟩ => ?_, fun htuple => ⟨hne, w, rfl, htuple⟩⟩
      cases hu
      exact htuple
    rw [hopened]
    have hprerelease : v.isPrerelease = true ↔ v.prerelease ≠ [] := by
      unfold SemVer.isPrerelease
      simp
    simp only [Comparator.test, decide_eq_true_iff, SemVer.key_le_iff, hw, prereleaseKey_nil_le,
      prereleaseKey_zero_le, and_true, hprerelease]
    by_cases hv : v.prerelease = []
    · simp only [hv, and_true, ne_eq, not_true_eq_false, false_and, or_false]
      rfl
    · simp only [hv, and_false, or_false, ne_eq, not_false_eq_true, true_and]
      rfl

/-- A comparator set admits with prereleases included what it admits without. -/
theorem OpensAll.testSet {cs cs' : List Comparator} (h : OpensAll cs cs') {v : SemVer}
    (htest : testSet cs v false = true) : testSet cs' v true = true := by
  have hall : cs.all (fun c => c.test v) = true := (Bool.and_eq_true_iff.mp htest).1
  clear htest
  unfold Semver.testSet
  rw [Bool.not_true, Bool.and_false, if_neg Bool.false_ne_true, Bool.and_true]
  induction h with
  | nil => rfl
  | cons hopens _ ih =>
    rw [List.all_cons, Bool.and_eq_true] at hall ⊢
    exact ⟨(hopens.test_iff v).mpr (.inl hall.1), ih hall.2⟩

/-- A range admits with prereleases included what it admits without. -/
theorem test_of_opens {sets sets' : List (List Comparator)} (h : List.Forall₂ OpensAll sets sets')
    {v : SemVer} (htest : sets.any (fun cs => testSet cs v false) = true) :
    sets'.any (fun cs => testSet cs v true) = true := by
  induction h with
  | nil => exact htest
  | cons hopens _ ih =>
    rw [List.any_cons, Bool.or_eq_true] at htest ⊢
    exact htest.imp hopens.testSet ih

/-- A version satisfies a range where both parse and the range admits it. -/
theorem satisfies_iff (version rangeStr : String) (includePrerelease : Bool) :
    satisfies version rangeStr includePrerelease = .ok true ↔
      ∃ v r, SemVer.parse version = .ok (some v) ∧
        parseRange rangeStr includePrerelease = .ok r ∧ r.test v = true := by
  unfold satisfies
  rcases SemVer.parse version with e | _ | v
  · exact ⟨nofun, fun ⟨_, _, h, _⟩ => by cases h⟩
  · exact ⟨nofun, fun ⟨_, _, h, _⟩ => by cases h⟩
  · rcases parseRange rangeStr includePrerelease with e | r
    · refine ⟨fun h => ?_, fun ⟨_, _, _, h, _⟩ => by cases h⟩
      cases e <;> cases h
    · refine ⟨fun h => ⟨v, r, rfl, rfl, Except.ok.inj h⟩, fun ⟨_, _, hv, hr, htest⟩ => ?_⟩
      cases hv
      cases hr
      exact congrArg _ htest

/-- **Including prereleases only adds matches.** -/
theorem satisfies_with_prereleases (version rangeStr : String)
    (h : satisfies version rangeStr = .ok true) : satisfies version rangeStr true = .ok true := by
  obtain ⟨v, r, hv, hr, htest⟩ := (satisfies_iff version rangeStr false).mp h
  obtain ⟨r', hr', hmode, hopens⟩ := parseRange_opens hr
  refine (satisfies_iff version rangeStr true).mpr ⟨v, r', hv, hr', ?_⟩
  unfold Range.test at htest ⊢
  rw [hmode]
  refine test_of_opens hopens ?_
  have hoff : r.includePrerelease = false := by
    unfold parseRange at hr
    obtain ⟨sets, -, hr⟩ := bind_ok hr
    cases hr
    rfl
  rwa [hoff] at htest

theorem satisfies_with_prereleases_beta :
    satisfies "1.2.3-beta.2" "~1.2.3-beta.1 || 2.x" true = .ok true :=
  satisfies_with_prereleases "1.2.3-beta.2" "~1.2.3-beta.1 || 2.x" (by decide +kernel)

end Minireg.Semver
