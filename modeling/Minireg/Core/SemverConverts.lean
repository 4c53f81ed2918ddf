import Minireg.Core.SemverDesugar
import Minireg.Core.SemverModes

/-!
# The numbers a token converts

`int` and `str` refuse numbers of more than `maxStrDigits` digits, and the range parser
does not catch what they raise. A token converts the numbers written in it and the one
its next bound is counted up from, and a token of no form is no comparator:
`Outcome.token`.
-/

namespace Minireg.Semver

open Py

variable {α β : Type}

/-! ## Numbers -/

/-- A text of digits that `int` converts. -/
def Converts (s : List Char) : Prop := s.length ≤ maxStrDigits

/-- A text of digits whose successor `str` converts as well: not as many nines as there
may be digits. -/
def Bumps (s : List Char) : Prop :=
  Converts s ∧ (s.length = maxStrDigits → ∃ c ∈ s, decimal? c ≠ some 9)

theorem returns_iff {ε : Type} {x : Except ε α} : Returns x ↔ ∃ a, x = .ok a := by
  refine ⟨Returns.exists_ok, ?_⟩
  rintro ⟨a, rfl⟩
  exact Avoids.ok a

theorem returns_bind {ε : Type} {x : Except ε α} {f : α → Except ε β} :
    Returns (x >>= f) ↔ Returns x ∧ ∀ a, x = .ok a → Returns (f a) := by
  refine ⟨fun h => ?_, fun h => h.1.bind h.2⟩
  obtain ⟨b, hb⟩ := h.exists_ok
  obtain ⟨a, ha, hfa⟩ := bind_ok hb
  refine ⟨returns_iff.mpr ⟨a, ha⟩, fun a' ha' => ?_⟩
  obtain rfl := Except.ok.inj (ha.symm.trans ha')
  exact returns_iff.mpr ⟨b, hfa⟩

theorem returns_map {ε : Type} {x : Except ε α} {f : α → β} : Returns (x.map f) ↔ Returns x := by
  refine ⟨fun h => ?_, Avoids.map⟩
  obtain ⟨b, hb⟩ := h.exists_ok
  obtain ⟨a, ha, -⟩ := map_ok hb
  exact returns_iff.mpr ⟨a, ha⟩

theorem returns_mapM {ε : Type} {f : α → Except ε β} {l : List α} :
    Returns (l.mapM f) ↔ ∀ a ∈ l, Returns (f a) := by
  refine ⟨fun h a ha => ?_, Avoids.mapM⟩
  obtain ⟨l', hl'⟩ := h.exists_ok
  exact returns_iff.mpr (mapM_returns hl' a ha)

theorem returns_pyInt {s : List Char} : Returns (pyInt s) ↔ Converts s := by
  refine ⟨fun h => ?_, pyInt_returns⟩
  obtain ⟨n, hn⟩ := h.exists_ok
  unfold pyInt at hn
  split at hn
  · cases hn
  · next hle => exact Nat.le_of_not_lt hle

theorem returns_pyStr {n : Nat} : Returns (pyStr n) ↔ Short n := by
  rw [pyStr_eq]
  split
  · next h => exact iff_of_true (Avoids.ok _) h
  · next h => exact iff_of_false (fun hreturns => hreturns _ rfl trivial) h

/-- The value of a text of digits, after the digits before it. -/
theorem foldl_succ_le (s : List Char) (n : Nat) :
    s.foldl (fun n c => 10 * n + (decimal? c).getD 0) n + 1 ≤ (n + 1) * 10 ^ s.length ∧
      (s.foldl (fun n c => 10 * n + (decimal? c).getD 0) n + 1 = (n + 1) * 10 ^ s.length ↔
        ∀ c ∈ s, decimal? c = some 9) := by
  induction s generalizing n with
  | nil => exact ⟨by simp, by simp⟩
  | cons c s ih =>
    have hc : (decimal? c).getD 0 ≤ 9 ∧ ((decimal? c).getD 0 = 9 ↔ decimal? c = some 9) := by
      rcases hc : decimal? c with _ | d
      · exact ⟨Nat.zero_le 9, by simp⟩
      · exact ⟨Nat.le_of_lt_succ (decimal_lt hc), by simp⟩
    obtain ⟨hle, hiff⟩ := ih (10 * n + (decimal? c).getD 0)
    have hstep : (10 * n + (decimal? c).getD 0 + 1) * 10 ^ s.length ≤
        (n + 1) * 10 ^ (c :: s).length := by
      rw [List.length_cons, pow_succ', ← Nat.mul_assoc]
      exact Nat.mul_le_mul_right _ (by omega)
    rw [List.foldl_cons, List.forall_mem_cons, ← hc.2]
    refine ⟨hle.trans hstep, ?_, ?_⟩
    · intro heq
      have hfull : (n + 1) * 10 ^ (c :: s).length ≤
          (10 * n + (decimal? c).getD 0 + 1) * 10 ^ s.length := heq ▸ hle
      rw [List.length_cons, pow_succ', ← Nat.mul_assoc] at hfull
      have hdigit := Nat.le_of_mul_le_mul_right hfull (Nat.pow_pos (by decide))
      have hnine : (decimal? c).getD 0 = 9 := by omega
      refine ⟨hnine, hiff.mp ?_⟩
      rw [heq, hnine, List.length_cons, pow_succ', ← Nat.mul_assoc]
      congr 1
      omega
    · rintro ⟨hnine, hrest⟩
      rw [hiff.mpr hrest, hnine, List.length_cons, pow_succ', ← Nat.mul_assoc]
      congr 1
      omega

theorem returns_bump {s : List Char} : Returns (bump s) ↔ Bumps s := by
  unfold bump Bumps
  rw [returns_bind, returns_pyInt]
  refine and_congr_right fun hconverts => ?_
  have hvalue : pyInt s = .ok (s.foldl (fun n c => 10 * n + (decimal? c).getD 0) 0) :=
    if_neg (Nat.not_lt.mpr hconverts)
  obtain ⟨hle, hiff⟩ := foldl_succ_le s 0
  rw [Nat.zero_add, Nat.one_mul] at hle hiff
  rw [hvalue]
  constructor
  · intro hreturns hlength
    have hshort := returns_pyStr.mp (hreturns _ rfl)
    by_contra hnines
    push Not at hnines
    have hfull := hiff.mpr hnines
    rw [hlength] at hfull
    exact absurd hshort (Nat.not_lt.mpr hfull.ge)
  · rintro hnines n hn
    obtain rfl := Except.ok.inj hn
    refine returns_pyStr.mpr ?_
    unfold Short
    rcases Nat.lt_or_eq_of_le hconverts with hlt | heq
    · exact hle.trans_lt (Nat.pow_lt_pow_right (by decide) hlt)
    · rw [← heq]
      refine lt_of_le_of_ne hle fun hfull => ?_
      obtain ⟨c, hc, hne⟩ := hnines heq
      exact hne (hiff.mp hfull c hc)

/-- What is counted up prints as a number that converts. -/
theorem bump_ok {s t : List Char} (h : bump s = .ok t) : Numeral t ∧ Converts t := by
  unfold bump at h
  obtain ⟨n, -, h⟩ := bind_ok h
  rw [pyStr_eq] at h
  split at h
  · next hshort =>
    cases h
    exact ⟨toDigits_numeral _, (Nat.length_toDigits_le_iff (by decide) (by decide)).mpr hshort⟩
  · cases h

theorem Bumps.converts {s : List Char} (h : Bumps s) : Converts s := h.1

theorem converts_zero : Converts zero := by
  unfold Converts zero maxStrDigits
  decide

/-! ## Versions -/

/-- The identifiers of a prerelease that are numbers. -/
def numericParts : Option (List Char) → List (List Char)
  | none => []
  | some s => (s.splitOn '.').filter fun part => part.all isDecimal

/-- The numbers written in the groups of a version. -/
def Groups.written (g : Groups) : List (List Char) :=
  g.major :: g.minor :: g.patch :: numericParts g.pre

/-- Python converts every number of the version. -/
def Groups.Converts (g : Groups) : Prop := ∀ s ∈ g.written, Semver.Converts s

theorem returns_parseIdent {part : List Char} :
    Returns (parseIdent part) ↔ (part.all isDecimal = true → Converts part) := by
  unfold parseIdent
  split
  · next hdecimal => rw [returns_map, returns_pyInt, imp_iff_right hdecimal]
  · next hdecimal => exact iff_of_true (Avoids.ok _) fun h => absurd h hdecimal

theorem returns_splitPrerelease {pre : Option (List Char)} :
    Returns (splitPrerelease pre) ↔ ∀ s ∈ numericParts pre, Converts s := by
  rcases pre with _ | s
  · exact iff_of_true (Avoids.ok _) nofun
  · rcases s with _ | ⟨c, s⟩
    · refine iff_of_true (Avoids.ok _) fun s hs => ?_
      obtain rfl : s = [] := List.mem_singleton.mp (List.mem_filter.mp hs).1
      exact Nat.zero_le _
    · rw [splitPrerelease_eq (List.cons_ne_nil c s), returns_mapM]
      simp only [returns_parseIdent, numericParts, List.mem_filter, and_imp]

/-- **A version is read** where Python converts its numbers, and not otherwise. -/
theorem Groups.returns_iff (g : Groups) : Returns g.toSemVer ↔ g.Converts := by
  have hwritten : g.Converts ↔ Semver.Converts g.major ∧ Semver.Converts g.minor ∧
      Semver.Converts g.patch ∧ ∀ s ∈ numericParts g.pre, Semver.Converts s := by
    unfold Groups.Converts Groups.written
    simp only [List.forall_mem_cons]
  rw [hwritten, ← returns_pyInt, ← returns_pyInt, ← returns_pyInt, ← returns_splitPrerelease]
  constructor
  · intro h
    obtain ⟨v, hv⟩ := h.exists_ok
    unfold Groups.toSemVer at hv
    obtain ⟨major, hmajor, hv⟩ := bind_ok hv
    obtain ⟨minor, hminor, hv⟩ := bind_ok hv
    obtain ⟨patch, hpatch, hv⟩ := bind_ok hv
    obtain ⟨prerelease, hprerelease, -⟩ := bind_ok hv
    exact ⟨Semver.returns_iff.mpr ⟨_, hmajor⟩, Semver.returns_iff.mpr ⟨_, hminor⟩,
      Semver.returns_iff.mpr ⟨_, hpatch⟩, Semver.returns_iff.mpr ⟨_, hprerelease⟩⟩
  · rintro ⟨hmajor, hminor, hpatch, hprerelease⟩
    exact hmajor.bind fun _ _ => hminor.bind fun _ _ => hpatch.bind fun _ _ =>
      hprerelease.bind fun _ _ => Avoids.ok _

/-- Where the text is a version, Python converts its numbers. -/
def VersionConverts (value : String) : Prop :=
  ∀ g, matchFullVersion (stripChars value.toList) = some g → g.Converts

theorem parse_returns_iff (value : String) :
    Returns (SemVer.parse value) ↔ VersionConverts value := by
  unfold SemVer.parse VersionConverts
  rcases matchFullVersion (stripChars value.toList) with _ | g
  · exact iff_of_true (Avoids.ok _) nofun
  · simp only [returns_map, Groups.returns_iff, Option.some.injEq, forall_eq']

/-! ## Reading a range -/

/-- How a call of the range parser ends: it converts every number it comes to where
`converts` holds, and then it accepts the text where `valid` does. -/
structure Outcome (x : Except RangeError α) (valid converts : Prop) : Prop where
  avoids : Avoids RangeError.IsValueError x ↔ converts
  returns : converts → ((∃ a, x = .ok a) ↔ valid)

/-- The elements are read in order, and nothing after one that is not valid. -/
def InOrder (valid converts : α → Prop) : List α → Prop
  | [] => True
  | a :: l => converts a ∧ (valid a → InOrder valid converts l)

namespace Outcome

variable {x : Except RangeError α} {valid converts valid' converts' : Prop}

theorem ok (a : α) : Outcome (.ok a) True True where
  avoids := iff_of_true (Avoids.ok a) trivial
  returns _ := iff_of_true ⟨a, rfl⟩ trivial

theorem invalid (msg : String) :
    Outcome (.error (.invalidRange msg) : Except RangeError α) False True where
  avoids := by
    refine iff_of_true ?_ trivial
    intro e he
    cases he
    exact id
  returns _ := iff_of_false (fun ⟨a, ha⟩ => by cases ha) id

theorem congr (h : Outcome x valid converts) (hvalid : converts → (valid ↔ valid'))
    (hconverts : converts ↔ converts') : Outcome x valid' converts' where
  avoids := h.avoids.trans hconverts
  returns hc := (h.returns (hconverts.mpr hc)).trans (hvalid (hconverts.mpr hc))

theorem raised {y : Except ValueError α} : Outcome (raised y) True (Returns y) := by
  rcases y with e | a
  · have hraised : ¬ Avoids RangeError.IsValueError (Semver.raised (.error e : Except _ α)) :=
      fun h => h _ rfl trivial
    have hreturns : ¬ Returns (.error e : Except ValueError α) := fun h => h e rfl trivial
    exact ⟨iff_of_false hraised hreturns, fun h => absurd h hreturns⟩
  · exact (ok a).congr (fun _ => Iff.rfl) (iff_of_true trivial (Avoids.ok a))

theorem bind {f : α → Except RangeError β} (hx : Outcome x valid converts)
    (hf : ∀ a, x = .ok a → Outcome (f a) valid' converts') :
    Outcome (x >>= f) (valid ∧ valid') (converts ∧ (valid → converts')) := by
  rcases x with e | a
  · have herror : (.error e >>= f : Except RangeError β) = .error e := rfl
    have hnone : ¬ ∃ a, (.error e : Except RangeError α) = .ok a := fun ⟨a, ha⟩ => by cases ha
    have hnone' : ¬ ∃ b, (.error e : Except RangeError β) = .ok b := fun ⟨b, hb⟩ => by cases hb
    have havoids : Avoids RangeError.IsValueError (.error e : Except RangeError β) ↔ converts := by
      rw [← hx.avoids]
      constructor <;> exact fun h e' he' => h e' (by cases he'; rfl)
    rw [herror]
    refine ⟨havoids.trans ⟨fun hc => ⟨hc, fun hv => ?_⟩, And.left⟩, fun hc => ?_⟩
    · exact absurd ((hx.returns hc).mpr hv) hnone
    · exact iff_of_false hnone' fun hv => hnone ((hx.returns hc.1).mpr hv.1)
  · have hc : converts := hx.avoids.mp (Avoids.ok a)
    have hv : valid := (hx.returns hc).mp ⟨a, rfl⟩
    exact (hf a rfl).congr (fun _ => (and_iff_right hv).symm)
      (by rw [and_iff_right hc, imp_iff_right hv])

theorem map {f : α → β} (hx : Outcome x valid converts) : Outcome (x.map f) valid converts := by
  have h := hx.bind fun a _ => ok (f a)
  have hmap : (x >>= fun a => .ok (f a)) = x.map f := by cases x <;> rfl
  rw [hmap] at h
  exact h.congr (fun _ => and_iff_left trivial) (and_iff_left fun _ => trivial)

/-- **A loop** stops at the first element that is not valid. -/
theorem mapM {γ : Type} {f : γ → Except RangeError α} {valid converts : γ → Prop} {l : List γ}
    (h : ∀ c ∈ l, Outcome (f c) (valid c) (converts c)) :
    Outcome (l.mapM f) (∀ c ∈ l, valid c) (InOrder valid converts l) := by
  induction l with
  | nil => exact (ok []).congr (fun _ => iff_of_true trivial nofun) Iff.rfl
  | cons c l ih =>
    have hrest := ih fun d hd => h d (List.mem_cons_of_mem _ hd)
    have hstep : Outcome ((c :: l).mapM f) (valid c ∧ ∀ d ∈ l, valid d)
        (converts c ∧ (valid c → InOrder valid converts l)) := by
      rw [List.mapM_cons]
      exact (h c List.mem_cons_self).bind fun a _ => hrest.map (f := (a :: ·))
    exact hstep.congr (fun _ => List.forall_mem_cons.symm) Iff.rfl

theorem mapM_singleton {γ : Type} {f : γ → Except RangeError α} {c : γ}
    (h : Outcome (f c) valid converts) : Outcome ([c].mapM f) valid converts := by
  have hloop : Outcome ([c].mapM f) (∀ d ∈ [c], valid)
      (InOrder (fun _ => valid) (fun _ => converts) [c]) :=
    mapM (List.forall_mem_singleton.mpr h)
  exact hloop.congr (fun _ => by simp) (and_iff_left fun _ => trivial)

end Outcome

/-! ## Scanning a full version -/

variable {s r a : List Char} {p : Partial} {g : Groups}

theorem scanPrerelease_append {pre : Option (List Char)} (h : scanPrerelease s = (pre, r)) :
    s = preText pre ++ r := by
  unfold scanPrerelease at h
  split at h
  · dsimp only at h
    split at h
    · cases h
      rw [preText, List.cons_append, List.takeWhile_append_dropWhile]
    · cases h
      rfl
  · cases h
    rfl

theorem scanBuild_append {build : Option (List Char)} (h : scanBuild s = (build, r)) :
    s = buildText build ++ r := by
  unfold scanBuild at h
  split at h
  · dsimp only at h
    split at h
    · cases h
      rw [buildText, List.cons_append, List.takeWhile_append_dropWhile]
    · cases h
      rfl
  · cases h
    rfl

/-- A version is scanned off the text it is written with. -/
theorem scanVersion_append (h : scanVersion s = some (g, r)) : s = g.text ++ r := by
  obtain ⟨_, _, _, _, hmajor, hminor, hpatch, hpre, hbuild⟩ := scanVersion_some h
  rw [Groups.text_append, scanNum_append hmajor, scanNum_append hminor, scanNum_append hpatch,
    scanPrerelease_append hpre, scanBuild_append hbuild]

theorem scanXid_of_scanNum (h : scanNum s = some (a, r)) : scanXid s = some (a, r) := by
  unfold scanXid
  split
  · exact absurd h (by simp [scanNum])
  · exact absurd h (by simp [scanNum])
  · exact absurd h (by simp [scanNum])
  · exact h

theorem scanNum_of_scanXid (h : scanXid s = some (a, r)) (hx : isX (some a) = false) :
    scanNum s = some (a, r) := by
  unfold scanXid at h
  split at h
  · cases h
    exact absurd hx (by decide)
  · cases h
    exact absurd hx (by decide)
  · cases h
    exact absurd hx (by decide)
  · exact h

/-- A version is a partial version that leaves nothing open. -/
theorem scanPartial_of_version (h : scanVersion (s.dropWhile isLead) = some (g, r)) :
    scanPartial s = some (g.toPartial, r) := by
  obtain ⟨_, _, _, _, hmajor, hminor, hpatch, hpre, hbuild⟩ := scanVersion_some h
  unfold scanPartial
  simp only [scanXid_of_scanNum hmajor, scanXid_of_scanNum hminor, scanXid_of_scanNum hpatch, hpre,
    hbuild, Groups.toPartial]

theorem scanVersion_of_partial (h : scanPartial s = some (p, r))
    (hmajor : isX (some p.major) = false) (hminor : isX p.minor = false)
    (hpatch : isX p.patch = false) :
    ∃ g, g.toPartial = p ∧ scanVersion (s.dropWhile isLead) = some (g, r) := by
  unfold scanPartial at h
  split at h
  · cases h
  · next h₁ =>
    split at h
    · split at h
      · cases h
        cases hminor
      · next h₂ =>
        split at h
        · split at h
          · cases h
            cases hpatch
          · next h₃ =>
            cases h
            refine ⟨⟨_, _, _, _, _⟩, rfl, ?_⟩
            unfold scanVersion
            simp only [scanNum_of_scanXid h₁ hmajor, scanNum_of_scanXid h₂ hminor,
              scanNum_of_scanXid h₃ hpatch]
            rfl
        · cases h
          cases hpatch
    · cases h
      cases hminor

theorem matchPartial_of_version (h : matchFullVersion s = some g) :
    matchPartial s = some g.toPartial := by
  unfold matchFullVersion at h
  split at h
  · next hscan =>
    split at h
    · next hall =>
      cases h
      unfold matchPartial
      simp only [scanPartial_of_version hscan, hall, if_true]
    · cases h
  · cases h

theorem matchFullVersion_of_partial (h : matchPartial s = some p)
    (hmajor : isX (some p.major) = false) (hminor : isX p.minor = false)
    (hpatch : isX p.patch = false) :
    ∃ g, g.Spelled ∧ g.toPartial = p ∧ matchFullVersion s = some g := by
  unfold matchPartial at h
  split at h
  · next hscan =>
    split at h
    · next hall =>
      cases h
      obtain ⟨g, hg, hversion⟩ := scanVersion_of_partial hscan hmajor hminor hpatch
      refine ⟨g, scanVersion_spelled hversion, hg, ?_⟩
      unfold matchFullVersion
      simp only [hversion, hall, if_true]
    · cases h
  · cases h

theorem matchXrange_of_comparator {operator : Operator}
    (h : matchComparator s = some (operator, g)) :
    matchXrange s = some (operator, g.toPartial) := by
  unfold matchComparator at h
  unfold matchXrange
  rcases hop : scanOperator (s.dropWhile isSpace) with ⟨operator', rest⟩
  rw [hop] at h
  obtain ⟨g', hg, heq⟩ := Option.map_eq_some_iff.mp h
  cases heq
  dsimp only
  rw [matchPartial_of_version hg, Option.map_some]

theorem matchComparator_of_xrange {operator : Operator} (h : matchXrange s = some (operator, p))
    (hmajor : isX (some p.major) = false) (hminor : isX p.minor = false)
    (hpatch : isX p.patch = false) :
    ∃ g, g.Spelled ∧ g.toPartial = p ∧ matchComparator s = some (operator, g) := by
  unfold matchXrange at h
  unfold matchComparator
  rcases hop : scanOperator (s.dropWhile isSpace) with ⟨operator', rest⟩
  rw [hop] at h
  obtain ⟨p', hp, heq⟩ := Option.map_eq_some_iff.mp h
  cases heq
  obtain ⟨g, hspelled, hg, hmatch⟩ := matchFullVersion_of_partial hp hmajor hminor hpatch
  refine ⟨g, hspelled, hg, ?_⟩
  dsimp only
  rw [hmatch, Option.map_some]

/-- What a partial version has after its hyphen is a prerelease. -/
theorem scanPartial_pre (h : scanPartial s = some (p, r)) : ∀ t, p.pre = some t →
    (t.splitOn '.').all isPreIdent = true ∧ ∀ c ∈ t, inPre c = true := by
  unfold scanPartial at h
  split at h
  · cases h
  · split at h
    · split at h
      · cases h
        nofun
      · split at h
        · split at h
          · cases h
            nofun
          · cases h
            exact scanPrerelease_spelled rfl
        · cases h
          nofun
    · cases h
      nofun

theorem matchPartial_pre (h : matchPartial s = some p) : ∀ t, p.pre = some t →
    (t.splitOn '.').all isPreIdent = true ∧ ∀ c ∈ t, inPre c = true := by
  unfold matchPartial at h
  split at h
  · next hscan =>
    split at h
    · cases h
      exact scanPartial_pre hscan
    · cases h
  · cases h

/-! ## The forms of a token -/

/-- What a token is sugar for. -/
inductive TokenForm where
  | tilde
  | caret
  | xrange (operator : Operator)
  deriving DecidableEq, Repr

/-- The first form that a token has, and its groups. -/
def matchForm (token : List Char) : Option (TokenForm × Partial) :=
  match matchTilde token with
  | some p => some (.tilde, p)
  | none => match matchCaret token with
    | some p => some (.caret, p)
    | none => (matchXrange token).map fun q => (.xrange q.1, q.2)

/-- What a form makes of its token. -/
def TokenForm.desugar (token : List Char) (includePrerelease : Bool) :
    TokenForm → Partial → Except ValueError (List Char)
  | .tilde, p => desugarTilde p includePrerelease
  | .caret, p => desugarCaret p includePrerelease
  | .xrange operator, p => desugarXrange token operator p includePrerelease

theorem expandToken_of_form {token : List Char} {f : TokenForm}
    (h : matchForm token = some (f, p)) (b : Bool) : expandToken token b = f.desugar token b p := by
  rcases htilde : matchTilde token with _ | q
  · rcases hcaret : matchCaret token with _ | q
    · simp only [matchForm, htilde, hcaret] at h
      obtain ⟨⟨operator, q⟩, hq, heq⟩ := Option.map_eq_some_iff.mp h
      cases heq
      simp only [expandToken, htilde, hcaret, hq, TokenForm.desugar]
    · simp only [matchForm, htilde, hcaret] at h
      cases h
      simp only [expandToken, htilde, hcaret, TokenForm.desugar]
  · simp only [matchForm, htilde] at h
    cases h
    simp only [expandToken, htilde, TokenForm.desugar]

theorem matchForm_xrange {token : List Char} {operator : Operator}
    (h : matchForm token = some (.xrange operator, p)) : matchXrange token = some (operator, p) := by
  unfold matchForm at h
  split at h
  · cases h
  · split at h
    · cases h
    · obtain ⟨q, hq, heq⟩ := Option.map_eq_some_iff.mp h
      cases heq
      exact hq

/-- The numbers written in a partial version, up to the first component left open. -/
def Partial.written (p : Partial) : List (List Char) :=
  if isX (some p.major) then []
  else if isX p.minor then [p.major]
  else if isX p.patch then [p.major, digits p.minor]
  else p.major :: digits p.minor :: digits p.patch :: numericParts p.pre

/-- The number that a form counts up, if it does. -/
def TokenForm.counted (f : TokenForm) (p : Partial) : List (List Char) :=
  if isX (some p.major) then []
  else match f with
    | .tilde => if isX p.minor then [p.major] else [digits p.minor]
    | .caret =>
      if isX p.minor || p.major ≠ zero then [p.major]
      else if isX p.patch || digits p.minor ≠ zero then [digits p.minor]
      else [digits p.patch]
    | .xrange operator =>
      if operator = .lt || operator = .ge then []
      else if isX p.minor then [p.major]
      else if isX p.patch then [digits p.minor]
      else []

/-- Python converts what a token makes it convert. -/
def TokenConverts (token : List Char) : Prop :=
  ∀ f p, matchForm token = some (f, p) →
    (∀ s ∈ p.written, Converts s) ∧ ∀ s ∈ f.counted p, Bumps s

/-- The token has a form. -/
def TokenValid (token : List Char) : Prop := (matchForm token).isSome

theorem matchTilde_pre (h : matchTilde s = some p) : ∀ t, p.pre = some t →
    (t.splitOn '.').all isPreIdent = true ∧ ∀ c ∈ t, inPre c = true := by
  unfold matchTilde at h
  split at h
  · exact matchPartial_pre h
  · exact matchPartial_pre h
  · cases h

theorem matchCaret_pre (h : matchCaret s = some p) : ∀ t, p.pre = some t →
    (t.splitOn '.').all isPreIdent = true ∧ ∀ c ∈ t, inPre c = true := by
  unfold matchCaret at h
  split at h
  · exact matchPartial_pre h
  · cases h

theorem matchXrange_pre {operator : Operator} (h : matchXrange s = some (operator, p)) :
    ∀ t, p.pre = some t → (t.splitOn '.').all isPreIdent = true ∧ ∀ c ∈ t, inPre c = true := by
  unfold matchXrange at h
  obtain ⟨q, hq, heq⟩ := Option.map_eq_some_iff.mp h
  cases heq
  exact matchPartial_pre hq

/-! ## What a form is read to -/

theorem lowerGroups_converts {a b c : List Char} {opened : Bool} :
    (lowerGroups a b c opened).Converts ↔ Converts a ∧ Converts b ∧ Converts c := by
  have hpre : ∀ s ∈ numericParts (lowerGroups a b c opened).pre, Converts s := by
    cases opened with
    | false => nofun
    | true =>
      intro s hs
      obtain rfl : s = zero := List.mem_singleton.mp (List.mem_filter.mp hs).1
      exact converts_zero
  unfold Groups.Converts Groups.written
  simp only [List.forall_mem_cons]
  exact ⟨fun h => ⟨h.1, h.2.1, h.2.2.1⟩, fun h => ⟨h.1, h.2.1, h.2.2, hpre⟩⟩

theorem parseExpanded_ok (t : List Char) :
    parseExpanded (.ok t) = (splitSpaces t).mapM parseComparator := rfl

/-- A comparator of its own, once it is written out. -/
theorem Outcome.comparator (h : g.Spelled) (operator : Operator) :
    Outcome (parseComparator (comparatorText operator g)) True g.Converts := by
  rw [parseComparator_text h]
  exact (Outcome.raised.map).congr (fun _ => Iff.rfl) g.returns_iff

theorem Outcome.one (h : g.Spelled) (operator : Operator) :
    Outcome (parseExpanded (.ok (comparatorText operator g))) True g.Converts := by
  have htoken := comparatorText_isToken h operator
  rw [parseExpanded_ok, splitSpaces_eq_singleton htoken.ne_nil htoken.isSpace]
  exact .mapM_singleton (.comparator h operator)

theorem Outcome.two {g' : Groups} (h : g.Spelled) (h' : g'.Spelled) :
    Outcome (parseExpanded (.ok (between (comparatorText .ge g) (comparatorText .lt g')))) True
      (g.Converts ∧ g'.Converts) := by
  have hleft := comparatorText_isToken h .ge
  have hright := comparatorText_isToken h' .lt
  rw [parseExpanded_ok, between, splitSpaces_cons hleft.ne_nil hleft.isSpace,
    splitSpaces_eq_singleton hright.ne_nil hright.isSpace, List.mapM_cons, List.mapM_cons,
    List.mapM_nil]
  have hread := (Outcome.comparator h .ge).bind fun c _ =>
    ((Outcome.comparator h' .lt).bind fun c' _ => Outcome.ok [c']).map (f := fun cs => c :: cs)
  refine Outcome.congr hread (fun _ => iff_of_true ⟨trivial, trivial, trivial⟩ trivial) ?_
  exact and_congr_right fun _ => (imp_iff_right trivial).trans (and_iff_left fun _ => trivial)

theorem Outcome.star : Outcome (parseExpanded (.ok ['*'])) True True := by
  have hread : ∀ c ∈ anyComparator, c.Readable := List.forall_mem_singleton.mpr trivial
  rw [parseExpanded_star, checked_pos hread]
  exact .ok _

/-- The upper bound of a form: what counts up, and what the bound converts. -/
structure UpperOf (upper : Except ValueError (List Char)) (counts converts : Prop) : Prop where
  returns : Returns upper ↔ counts
  text : ∀ t, upper = .ok t →
    ∃ g, g.Spelled ∧ t = comparatorText .lt g ∧ (g.Converts ↔ converts)

theorem Outcome.span {upper : Except ValueError (List Char)} {counts converts : Prop}
    (h : g.Spelled) (hupper : UpperOf upper counts converts) :
    Outcome (parseExpanded (do return between (comparatorText .ge g) (← upper))) True
      (counts ∧ g.Converts ∧ converts) := by
  rcases upper with e | t
  · have hcounts : ¬ counts := fun h => hupper.returns.mpr h e rfl trivial
    have havoids : ¬ Avoids RangeError.IsValueError
        (.error (.valueError e) : Except RangeError (List Comparator)) := fun h => h _ rfl trivial
    exact ⟨iff_of_false havoids fun h => hcounts h.1, fun h => absurd h.1 hcounts⟩
  · obtain ⟨g', hspelled, rfl, hconverts⟩ := hupper.text t rfl
    refine (Outcome.two h hspelled).congr (fun _ => Iff.rfl) ?_
    rw [hconverts, and_iff_right (hupper.returns.mp (Avoids.ok _))]

theorem below_text (a b c : List Char) :
    '<' :: dotted a b c ++ ['-', '0'] = comparatorText .lt (lowerGroups a b c true) := by
  simp [comparatorText, lowerGroups, Groups.text, preText, buildText, Operator.text]

theorem UpperOf.counted {s : List Char} {f : List Char → List Char} {converts : Prop}
    (h : ∀ n, Numeral n → Converts n →
      ∃ g, g.Spelled ∧ f n = comparatorText .lt g ∧ (g.Converts ↔ converts)) :
    UpperOf (do return f (← bump s)) (Bumps s) converts where
  returns := by
    rw [returns_bind, returns_bump]
    exact and_iff_left fun n _ => Avoids.ok (f n)
  text t ht := by
    obtain ⟨n, hn, ht⟩ := bind_ok ht
    obtain rfl := Except.ok.inj ht
    exact h n (bump_ok hn).1 (bump_ok hn).2

theorem UpperOf.major (major : List Char) : UpperOf (belowNextMajor major) (Bumps major) True :=
  .counted fun n hn hconverts => ⟨lowerGroups n zero zero true,
    lowerGroups_spelled hn .zero .zero true, below_text n zero zero,
    lowerGroups_converts.trans (iff_of_true ⟨hconverts, converts_zero, converts_zero⟩ trivial)⟩

theorem UpperOf.minor {major : List Char} (hmajor : Numeral major) (minor : List Char) :
    UpperOf (belowNextMinor major minor) (Bumps minor) (Converts major) :=
  .counted fun n hn hconverts => ⟨lowerGroups major n zero true,
    lowerGroups_spelled hmajor hn .zero true, below_text major n zero,
    lowerGroups_converts.trans (and_iff_left ⟨hconverts, converts_zero⟩)⟩

theorem UpperOf.patch {major minor : List Char} (hmajor : Numeral major) (hminor : Numeral minor)
    (patch : List Char) :
    UpperOf (do return '<' :: dotted major minor (← bump patch) ++ ['-', '0']) (Bumps patch)
      (Converts major ∧ Converts minor) :=
  .counted fun n hn hconverts => ⟨lowerGroups major minor n true,
    lowerGroups_spelled hmajor hminor hn true, below_text major minor n,
    lowerGroups_converts.trans ⟨fun h => ⟨h.1, h.2.1⟩, fun h => ⟨h.1, h.2, hconverts⟩⟩⟩

/-- A partial version whose prerelease matches as one. -/
structure Partial.Matched (p : Partial) : Prop extends p.Scanned where
  pre : ∀ t, p.pre = some t → (t.splitOn '.').all isPreIdent = true ∧ ∀ c ∈ t, inPre c = true

theorem matchForm_matched {token : List Char} {f : TokenForm} (h : matchForm token = some (f, p)) :
    p.Matched := by
  unfold matchForm at h
  split at h
  · next htilde =>
    cases h
    exact ⟨matchTilde_scanned htilde, matchTilde_pre htilde⟩
  · split at h
    · next hcaret =>
      cases h
      exact ⟨matchCaret_scanned hcaret, matchCaret_pre hcaret⟩
    · obtain ⟨q, hq, heq⟩ := Option.map_eq_some_iff.mp h
      cases heq
      exact ⟨matchXrange_scanned hq, matchXrange_pre hq⟩

/-- The lower bound of a form whose components are all there. -/
theorem fullLower_groups (hp : p.Matched) (hmajor : isX (some p.major) = false)
    (hminor : isX p.minor = false) (hpatch : isX p.patch = false) (opened : Bool) :
    ∃ g, g.Spelled ∧ fullLower p (lowerPre opened) = comparatorText .ge g ∧
      (g.Converts ↔ ∀ s ∈ p.written, Converts s) := by
  have hwritten : p.written =
      p.major :: digits p.minor :: digits p.patch :: numericParts p.pre := by
    unfold Partial.written
    simp only [hmajor, hminor, hpatch, Bool.false_eq_true, if_false]
  have hnumerals := (⟨hp.major hmajor, hp.minor hminor, hp.patch hpatch⟩ :
    Numeral p.major ∧ Numeral (digits p.minor) ∧ Numeral (digits p.patch))
  rw [hwritten]
  unfold fullLower
  rcases hpre : p.pre with _ | t
  · refine ⟨lowerGroups p.major (digits p.minor) (digits p.patch) opened,
      lowerGroups_spelled hnumerals.1 hnumerals.2.1 hnumerals.2.2 opened,
      atLeast_lowerPre _ _ _ opened, ?_⟩
    rw [lowerGroups_converts]
    simp only [List.forall_mem_cons, numericParts]
    exact ⟨fun h => ⟨h.1, h.2.1, h.2.2, nofun⟩, fun h => ⟨h.1, h.2.1, h.2.2.1⟩⟩
  · obtain ⟨hparts, hchars⟩ := hp.pre t hpre
    rcases t with _ | ⟨c, t⟩
    · exact absurd hparts (by decide)
    · refine ⟨⟨p.major, digits p.minor, digits p.patch, some (c :: t), none⟩,
        ⟨hnumerals.1, hnumerals.2.1, hnumerals.2.2, ?_, nofun⟩, ?_, Iff.rfl⟩
      · intro u hu
        obtain rfl := Option.some.inj hu
        exact ⟨hparts, hchars⟩
      · simp [atLeast, comparatorText, Groups.text, preText, buildText, Operator.text]

/-! ## Desugaring -/

section Desugar

variable {upper : Except ValueError (List Char)} {counts converts : Prop} {opened : Bool}

theorem Outcome.low {a b c : List Char} (ha : Numeral a) (hb : Numeral b) (hc : Numeral c)
    (hupper : UpperOf upper counts converts)
    (himp : Converts a ∧ Converts b ∧ Converts c → converts) :
    Outcome (parseExpanded (do return between (atLeast a b c (lowerPre opened)) (← upper))) True
      ((Converts a ∧ Converts b ∧ Converts c) ∧ counts) := by
  rw [atLeast_lowerPre]
  refine (Outcome.span (lowerGroups_spelled ha hb hc opened) hupper).congr (fun _ => Iff.rfl) ?_
  rw [lowerGroups_converts]
  exact ⟨fun h => ⟨h.2.1, h.1⟩, fun h => ⟨h.2, h.1, himp h.1⟩⟩

theorem Outcome.full (hp : p.Matched) (hmajor : isX (some p.major) = false)
    (hminor : isX p.minor = false) (hpatch : isX p.patch = false)
    (hupper : UpperOf upper counts converts)
    (himp : (∀ s ∈ p.written, Converts s) → converts) :
    Outcome (parseExpanded (do return between (fullLower p (lowerPre opened)) (← upper))) True
      ((∀ s ∈ p.written, Converts s) ∧ counts) := by
  obtain ⟨g, hspelled, htext, hconverts⟩ := fullLower_groups hp hmajor hminor hpatch opened
  rw [htext]
  refine (Outcome.span hspelled hupper).congr (fun _ => Iff.rfl) ?_
  rw [hconverts]
  exact ⟨fun h => ⟨h.2.1, h.1⟩, fun h => ⟨h.2, h.1, himp h.1⟩⟩

theorem Partial.mem_written (hmajor : isX (some p.major) = false) (hminor : isX p.minor = false)
    (hpatch : isX p.patch = false) :
    p.major ∈ p.written ∧ digits p.minor ∈ p.written ∧ digits p.patch ∈ p.written := by
  unfold Partial.written
  simp only [hmajor, hminor, hpatch, Bool.false_eq_true, if_false]
  exact ⟨List.mem_cons_self, by simp, by simp⟩

/-- The spans that a major and a minor alone stand for. -/
theorem Outcome.majorSpan (hmajor : Numeral p.major) :
    Outcome (parseExpanded (do
      return between (atLeast p.major zero zero (lowerPre opened)) (← belowNextMajor p.major))) True
      ((∀ s ∈ [p.major], Converts s) ∧ ∀ s ∈ [p.major], Bumps s) := by
  refine (Outcome.low hmajor .zero .zero (.major p.major) fun _ => trivial).congr
    (fun _ => Iff.rfl) ?_
  rw [List.forall_mem_singleton, List.forall_mem_singleton]
  exact and_congr_left fun _ => and_iff_left ⟨converts_zero, converts_zero⟩

theorem Outcome.minorSpan (hmajor : Numeral p.major) (hminor : Numeral (digits p.minor)) :
    Outcome (parseExpanded (do
      return between (atLeast p.major (digits p.minor) zero (lowerPre opened))
        (← belowNextMinor p.major (digits p.minor)))) True
      ((∀ s ∈ [p.major, digits p.minor], Converts s) ∧ ∀ s ∈ [digits p.minor], Bumps s) := by
  refine (Outcome.low hmajor hminor .zero (.minor hmajor _) fun h => h.1).congr
    (fun _ => Iff.rfl) ?_
  rw [List.forall_mem_cons, List.forall_mem_singleton, List.forall_mem_singleton]
  exact and_congr_left fun _ => and_congr_right fun _ => and_iff_left converts_zero

/-- What a form converts where nothing of its partial version is there. -/
theorem Outcome.open : Outcome (parseExpanded (.ok ['*'])) True
    ((∀ s ∈ ([] : List (List Char)), Converts s) ∧ ∀ s ∈ ([] : List (List Char)), Bumps s) :=
  Outcome.star.congr (fun _ => Iff.rfl) (iff_of_true trivial ⟨nofun, nofun⟩)

theorem Outcome.tilde (hp : p.Matched) :
    Outcome (parseExpanded (desugarTilde p opened)) True
      ((∀ s ∈ p.written, Converts s) ∧ ∀ s ∈ TokenForm.tilde.counted p, Bumps s) := by
  unfold desugarTilde TokenForm.counted
  dsimp only
  by_cases hmajor : isX (some p.major) = true
  · simp only [Partial.written, hmajor, if_true]
    exact .open
  rw [Bool.not_eq_true] at hmajor
  by_cases hminor : isX p.minor = true
  · simp only [Partial.written, hmajor, hminor, Bool.false_eq_true, if_false, if_true]
    exact .majorSpan (hp.major hmajor)
  rw [Bool.not_eq_true] at hminor
  by_cases hpatch : isX p.patch = true
  · simp only [Partial.written, hmajor, hminor, hpatch, Bool.false_eq_true, if_false, if_true]
    exact .minorSpan (hp.major hmajor) (hp.minor hminor)
  rw [Bool.not_eq_true] at hpatch
  simp only [hmajor, hminor, hpatch, Bool.false_eq_true, if_false, List.forall_mem_singleton]
  exact .full hp hmajor hminor hpatch (.minor (hp.major hmajor) _) fun h =>
    h _ (Partial.mem_written hmajor hminor hpatch).1

theorem between_bind (lower : List Char) (f : List Char → List Char)
    (x : Except ValueError (List Char)) :
    (do return between lower (f (← x)) : Except ValueError (List Char)) =
      (do return between lower (← (do return f (← x)))) := by
  cases x <;> rfl

theorem Outcome.caret (hp : p.Matched) :
    Outcome (parseExpanded (desugarCaret p opened)) True
      ((∀ s ∈ p.written, Converts s) ∧ ∀ s ∈ TokenForm.caret.counted p, Bumps s) := by
  unfold desugarCaret TokenForm.counted
  dsimp only
  by_cases hmajor : isX (some p.major) = true
  · simp only [Partial.written, hmajor, if_true]
    exact .open
  rw [Bool.not_eq_true] at hmajor
  by_cases hminor : isX p.minor = true
  · simp only [Partial.written, hmajor, hminor, Bool.false_eq_true, if_false, if_true,
      Bool.true_or]
    exact .majorSpan (hp.major hmajor)
  rw [Bool.not_eq_true] at hminor
  by_cases hpatch : isX p.patch = true
  · simp only [Partial.written, hmajor, hminor, hpatch, Bool.false_eq_true, if_false, if_true,
      Bool.false_or, Bool.true_or]
    by_cases hzero : p.major = Semver.zero
    · simp only [if_pos hzero, decide_eq_false (not_not.mpr hzero), Bool.false_eq_true, if_false]
      exact .minorSpan (hp.major hmajor) (hp.minor hminor)
    · simp only [ne_eq, hzero, not_false_eq_true, decide_true, if_true]
      refine (Outcome.low (hp.major hmajor) (hp.minor hminor) .zero (.major p.major)
        fun _ => trivial).congr (fun _ => Iff.rfl) ?_
      rw [List.forall_mem_cons, List.forall_mem_singleton, List.forall_mem_singleton]
      exact and_congr_left fun _ => and_congr_right fun _ => and_iff_left converts_zero
  rw [Bool.not_eq_true] at hpatch
  obtain ⟨hmajor', hminor', -⟩ := Partial.mem_written hmajor hminor hpatch
  simp only [hmajor, hminor, hpatch, Bool.false_eq_true, if_false, Bool.false_or]
  by_cases hzero : p.major = Semver.zero
  · simp only [if_pos hzero, decide_eq_false (not_not.mpr hzero), Bool.false_eq_true, if_false]
    by_cases hzeroMinor : digits p.minor = Semver.zero
    · simp only [if_pos hzeroMinor, decide_eq_false (not_not.mpr hzeroMinor), Bool.false_eq_true,
        if_false, List.forall_mem_singleton]
      rw [between_bind]
      exact .full hp hmajor hminor hpatch (.patch (hp.major hmajor) (hp.minor hminor) _)
        fun h => ⟨h _ hmajor', h _ hminor'⟩
    · simp only [ne_eq, hzeroMinor, not_false_eq_true, decide_true, if_true,
        List.forall_mem_singleton]
      exact .full hp hmajor hminor hpatch (.minor (hp.major hmajor) _) fun h => h _ hmajor'
  · simp only [ne_eq, hzero, not_false_eq_true, decide_true, if_true,
      List.forall_mem_singleton]
    have hfull := @Outcome.full p _ _ _ false hp hmajor hminor hpatch (.major p.major)
    exact hfull fun _ => trivial

theorem minorOf_returns {xMinor : Bool} :
    Returns (minorOf xMinor p) ↔ (xMinor = false → Converts (digits p.minor)) := by
  unfold minorOf
  cases xMinor with
  | true => exact iff_of_true (Avoids.ok 0) nofun
  | false =>
    rw [if_neg Bool.false_ne_true, returns_pyInt]
    exact (imp_iff_right rfl).symm

theorem returns_pyStr_of_pyInt {s : List Char} {n : Nat} (h : pyInt s = .ok n) :
    Returns (pyStr n) := returns_pyStr.mpr (pyInt_short h)

theorem returns_pyStr_succ {s : List Char} {n : Nat} (h : pyInt s = .ok n) :
    Returns (pyStr (n + 1)) ↔ Bumps s := by
  rw [← returns_bump]
  unfold bump
  rw [returns_bind, h]
  refine ⟨fun hn => ⟨Avoids.ok n, fun m hm => ?_⟩, fun hn => hn.2 n rfl⟩
  obtain rfl := Except.ok.inj hm
  exact hn

/-- The numbers an operator writes its bound with, counted up or not. -/
theorem moveBound_returns {operator : Operator} {xMinor : Bool} {major minor : Nat}
    (hmajor : pyInt p.major = .ok major) (hminor : minorOf xMinor p = .ok minor) :
    Returns (pyStr (moveBound operator xMinor major minor).2.1) ∧
        Returns (pyStr (moveBound operator xMinor major minor).2.2) ↔
      (operator = .gt ∨ operator = .le → Bumps (if xMinor then p.major else digits p.minor)) := by
  have hplain : Returns (pyStr major) := returns_pyStr_of_pyInt hmajor
  cases xMinor with
  | true =>
    obtain rfl := Except.ok.inj hminor
    have hzero : Returns (pyStr 0) := returns_pyStr.mpr Short.zero
    have hnext := returns_pyStr_succ hmajor
    cases operator with
    | empty | eq | lt | ge => exact iff_of_true ⟨hplain, hzero⟩ nofun
    | gt | le => simpa [moveBound, hzero] using hnext
  | false =>
    have hvalue : pyInt (digits p.minor) = .ok minor := hminor
    have hnext := returns_pyStr_succ hvalue
    cases operator with
    | empty | eq | lt | ge => exact iff_of_true ⟨hplain, returns_pyStr_of_pyInt hvalue⟩ nofun
    | gt | le => simpa [moveBound, hplain] using hnext

theorem operatorBound_returns {operator : Operator} {xMinor : Bool} :
    Returns (operatorBound operator xMinor p) ↔
      (Converts p.major ∧ (xMinor = false → Converts (digits p.minor))) ∧
        (operator = .gt ∨ operator = .le → Bumps (if xMinor then p.major else digits p.minor)) := by
  rw [and_comm (a := Converts p.major), ← minorOf_returns, ← returns_pyInt, and_assoc]
  unfold operatorBound
  rw [returns_bind]
  refine and_congr_right fun hreturns => ?_
  obtain ⟨minor, hminor⟩ := hreturns.exists_ok
  rw [hminor]
  simp only [Except.ok.injEq, forall_eq']
  rw [returns_bind]
  refine and_congr_right fun hreturns => ?_
  obtain ⟨major, hmajor⟩ := hreturns.exists_ok
  rw [hmajor]
  simp only [Except.ok.injEq, forall_eq']
  rw [← moveBound_returns hmajor hminor, returns_bind]
  refine and_congr_right fun hreturns => ?_
  obtain ⟨t, ht⟩ := hreturns.exists_ok
  rw [ht]
  simp only [Except.ok.injEq, forall_eq']
  rw [returns_bind]
  exact and_iff_left fun u _ => Avoids.ok _

/-- An operator's bound is written with numbers that convert. -/
theorem operatorBound_converts {operator : Operator} {xMinor : Bool} {t : List Char}
    (h : operatorBound operator xMinor p = .ok t) :
    ∃ moved g, g.Spelled ∧ t = comparatorText moved g ∧ g.Converts := by
  unfold operatorBound at h
  obtain ⟨minor, -, h⟩ := bind_ok h
  obtain ⟨major, -, h⟩ := bind_ok h
  dsimp only at h
  obtain ⟨a, ha, h⟩ := bind_ok h
  obtain ⟨b, hb, h⟩ := bind_ok h
  obtain rfl := Except.ok.inj h
  have hnumber {n : Nat} {u : List Char} (hu : pyStr n = .ok u) : Numeral u ∧ Converts u := by
    rw [pyStr_eq] at hu
    split at hu
    · next hshort =>
      cases hu
      exact ⟨toDigits_numeral n, (Nat.length_toDigits_le_iff (by decide) (by decide)).mpr hshort⟩
    · cases hu
  refine ⟨(moveBound operator xMinor major minor).1,
    lowerGroups a b zero (decide ((moveBound operator xMinor major minor).1 = .lt)),
    lowerGroups_spelled (hnumber ha).1 (hnumber hb).1 .zero _, ?_,
    lowerGroups_converts.mpr ⟨(hnumber ha).2, (hnumber hb).2, converts_zero⟩⟩
  cases (moveBound operator xMinor major minor).1 <;>
    simp [comparatorText, lowerGroups, Groups.text, preText, buildText, Operator.text]

/-- A bound that converts wherever it is written. -/
theorem Outcome.bound {x : Except ValueError (List Char)}
    (h : ∀ t, x = .ok t → ∃ operator g, g.Spelled ∧ t = comparatorText operator g ∧ g.Converts) :
    Outcome (parseExpanded x) True (Returns x) := by
  rcases x with e | t
  · have hreturns : ¬ Returns (.error e : Except ValueError (List Char)) :=
      fun h => h e rfl trivial
    have havoids : ¬ Avoids RangeError.IsValueError
        (.error (.valueError e) : Except RangeError (List Comparator)) := fun h => h _ rfl trivial
    exact ⟨iff_of_false havoids hreturns, fun h => absurd h hreturns⟩
  · obtain ⟨operator, g, hspelled, rfl, hconverts⟩ := h t rfl
    exact (Outcome.one hspelled operator).congr (fun _ => Iff.rfl)
      (iff_of_true hconverts (Avoids.ok _))

/-- Whether the bound of an operator is counted up past what its version leaves open. -/
theorem Outcome.operatorBound {operator : Operator} {xMinor : Bool} {written : List (List Char)}
    (hwritten : (∀ s ∈ written, Converts s) ↔
      Converts p.major ∧ (xMinor = false → Converts (digits p.minor))) :
    Outcome (parseExpanded (Semver.operatorBound operator xMinor p)) True
      ((∀ s ∈ written, Converts s) ∧
        (operator = .gt ∨ operator = .le → Bumps (if xMinor then p.major else digits p.minor))) := by
  rw [hwritten, ← operatorBound_returns]
  exact .bound fun t ht => operatorBound_converts ht

/-- A token that is an operator and a full version. -/
theorem Outcome.whole {token : List Char} {operator : Operator}
    (hmatch : matchXrange token = some (operator, p)) (hmajor : isX (some p.major) = false)
    (hminor : isX p.minor = false) (hpatch : isX p.patch = false) (hne : token ≠ [])
    (hspace : ∀ c ∈ token, isSpace c = false) :
    Outcome (parseExpanded (.ok (stripChars token))) True (∀ s ∈ p.written, Converts s) := by
  obtain ⟨g, -, rfl, hcomparator⟩ := matchComparator_of_xrange hmatch hmajor hminor hpatch
  have hwritten : g.toPartial.written = g.written := by
    unfold Partial.written
    simp only [hmajor, hminor, hpatch, Bool.false_eq_true, if_false]
    rfl
  have hx (d : Char) (hd : matchXrange [d] = some (.empty, { major := [d] })) : token ≠ [d] := by
    rintro rfl
    have hpartial := (Prod.mk.inj (Option.some.inj (hd.symm.trans hmatch))).2
    cases congrArg Partial.minor hpartial
  have hparse : parseComparator token =
      (Semver.raised g.toSemVer).map fun v => { operator := operator, semver := .version v } := by
    unfold parseComparator
    simp only [stripChars_eq_self hspace, hne, hx '*' (by decide), hx 'x' (by decide),
      hx 'X' (by decide), decide_false, Bool.or_self, Bool.false_eq_true, if_false, hcomparator]
  have hread : Outcome (parseComparator token) True (∀ s ∈ g.toPartial.written, Converts s) := by
    rw [hparse, hwritten]
    exact (Outcome.raised.map).congr (fun _ => Iff.rfl) g.returns_iff
  rw [stripChars_eq_self hspace, parseExpanded_ok, splitSpaces_eq_singleton hne hspace,
    List.mapM_cons, List.mapM_nil]
  have hsingle := hread.bind fun c _ => Outcome.ok [c]
  exact hsingle.congr (fun _ => and_self_iff) (and_iff_left fun _ => trivial)

theorem readable_any (b : Bool) (operator : Operator) :
    ∀ c ∈ primitiveComparators b operator .any, c.Readable := by
  have hfirst : (first 0 0 0).Readable :=
    ⟨Short.zero, Short.zero, Short.zero, List.forall_mem_singleton.mpr Short.zero⟩
  unfold primitiveComparators
  dsimp only
  split_ifs
  · exact List.forall_mem_singleton.mpr hfirst
  · exact List.forall_mem_singleton.mpr trivial

theorem Outcome.xrange {token : List Char} {operator : Operator} (hp : p.Matched)
    (hmatch : matchXrange token = some (operator, p)) (hne : token ≠ [])
    (hspace : ∀ c ∈ token, isSpace c = false) :
    Outcome (parseExpanded (desugarXrange token operator p opened)) True
      ((∀ s ∈ p.written, Converts s) ∧ ∀ s ∈ (TokenForm.xrange operator).counted p, Bumps s) := by
  by_cases hmajor : isX (some p.major) = true
  · rw [desugarXrange_any token operator opened hmajor, checked_pos (readable_any opened operator)]
    simp only [TokenForm.counted, Partial.written, hmajor, if_true]
    exact (Outcome.ok _).congr (fun _ => Iff.rfl) (iff_of_true trivial ⟨nofun, nofun⟩)
  rw [Bool.not_eq_true] at hmajor
  unfold desugarXrange TokenForm.counted
  by_cases hminor : isX p.minor = true
  · have hwritten : (∀ s ∈ [p.major], Converts s) ↔
        Converts p.major ∧ (true = false → Converts (digits p.minor)) := by simp
    have hbound (operator : Operator) := @Outcome.operatorBound p operator true _ hwritten
    simp only [Partial.written, hmajor, hminor, Bool.or_true, Bool.true_or, Bool.and_true,
      Bool.false_eq_true, if_false, if_true]
    cases operator with
    | empty | eq => exact .majorSpan (hp.major hmajor)
    | lt | ge => exact (hbound _).congr (fun _ => Iff.rfl) (and_congr_right fun _ => by simp)
    | gt | le => exact (hbound _).congr (fun _ => Iff.rfl) (and_congr_right fun _ => by simp)
  rw [Bool.not_eq_true] at hminor
  by_cases hpatch : isX p.patch = true
  · have hwritten : (∀ s ∈ [p.major, digits p.minor], Converts s) ↔
        Converts p.major ∧ (false = false → Converts (digits p.minor)) := by simp
    have hbound (operator : Operator) := @Outcome.operatorBound p operator false _ hwritten
    simp only [Partial.written, hmajor, hminor, hpatch, Bool.or_true, Bool.or_self, Bool.and_true,
      Bool.false_eq_true, if_false, if_true]
    cases operator with
    | empty | eq => exact .minorSpan (hp.major hmajor) (hp.minor hminor)
    | lt | ge => exact (hbound _).congr (fun _ => Iff.rfl) (and_congr_right fun _ => by simp)
    | gt | le => exact (hbound _).congr (fun _ => Iff.rfl) (and_congr_right fun _ => by simp)
  rw [Bool.not_eq_true] at hpatch
  simp only [hmajor, hminor, hpatch, Bool.or_self, Bool.and_false, Bool.false_eq_true, if_false]
  refine (Outcome.whole hmatch hmajor hminor hpatch hne hspace).congr (fun _ => Iff.rfl) ?_
  refine (and_iff_left ?_).symm
  split <;> nofun

end Desugar

/-- **A token** is invalid where it has no form; otherwise it converts the numbers written
in it and the one its bound counts up. -/
theorem Outcome.token {token : List Char} (hne : token ≠ [])
    (hspace : ∀ c ∈ token, isSpace c = false) (b : Bool) :
    Outcome (parseToken token b) (TokenValid token) (TokenConverts token) := by
  rw [parseToken_eq]
  unfold TokenValid TokenConverts
  rcases hform : matchForm token with _ | ⟨f, p⟩
  · have hunmatched : matchTilde token = none ∧ matchCaret token = none ∧
        matchXrange token = none := by
      unfold matchForm at hform
      split at hform
      · cases hform
      · next htilde =>
        split at hform
        · cases hform
        · next hcaret => exact ⟨htilde, hcaret, Option.map_eq_none_iff.mp hform⟩
    have hx (d : Char) (hd : matchXrange [d] ≠ none) : token ≠ [d] := by
      rintro rfl
      exact hd hunmatched.2.2
    have hcomparator : matchComparator token = none := by
      by_contra hsome
      obtain ⟨⟨operator, g⟩, hg⟩ := Option.ne_none_iff_exists'.mp hsome
      rw [matchXrange_of_comparator hg] at hunmatched
      cases hunmatched.2.2
    have hparse : parseExpanded (expandToken token b) =
        .error (.invalidRange (String.ofList ("invalid comparator: ".toList ++ token))) := by
      have hexpand : expandToken token b = .ok token := by
        unfold expandToken
        rw [hunmatched.1, hunmatched.2.1, hunmatched.2.2]
      rw [hexpand, parseExpanded_ok, splitSpaces_eq_singleton hne hspace, List.mapM_cons]
      unfold parseComparator
      simp only [stripChars_eq_self hspace, hne, hx '*' (by decide), hx 'x' (by decide),
        hx 'X' (by decide), decide_false, Bool.or_self, Bool.false_eq_true, if_false, hcomparator]
      rfl
    rw [hparse]
    exact (Outcome.invalid _).congr (fun _ => by simp) (iff_of_true trivial nofun)
  · rw [expandToken_of_form hform]
    have hp := matchForm_matched hform
    have hread : Outcome (parseExpanded (f.desugar token b p)) True
        ((∀ s ∈ p.written, Converts s) ∧ ∀ s ∈ f.counted p, Bumps s) := by
      cases f with
      | tilde => exact .tilde hp
      | caret => exact .caret hp
      | xrange operator => exact .xrange hp (matchForm_xrange hform) hne hspace
    refine hread.congr (fun _ => iff_of_true trivial rfl) ⟨fun h f' p' heq => ?_, fun h => h f p rfl⟩
    cases heq
    exact h

end Minireg.Semver
