import Minireg.Core.SemverPrint

/-!
# The grammar of ranges

`RangeExpr` is the grammar node-semver documents: partial versions, the operators
before them, tilde, caret and hyphen ranges, blanks between simple ranges and `||`
between sets. `RangeExpr.sets` are the primitive comparators each form is documented
to stand for. Each simple range is one token, and its partial version scans back
from its text.
-/

namespace Minireg.Semver

open Py

/-! ## Expressions -/

/-- A component left open. -/
inductive Wild where
  | lower | upper | star
  deriving DecidableEq, Repr

def Wild.char : Wild → Char
  | .lower => 'x'
  | .upper => 'X'
  | .star => '*'

/-- `xr`: a number or an open component. -/
inductive Xr where
  | wild (w : Wild)
  | num (n : Nat)
  deriving DecidableEq, Repr

def Xr.chars : Xr → List Char
  | .wild w => [w.char]
  | .num n => Nat.toDigits 10 n

/-- `qualifier`: a prerelease and build metadata, either of which may be missing. -/
structure Qualifier where
  prerelease : List Ident := []
  build : Option String := none
  wellFormed : SemVer.WellFormed ⟨0, 0, 0, prerelease, build⟩

/-- The version of the qualifier at a release. -/
def Qualifier.version (q : Qualifier) (major minor patch : Nat) : SemVer where
  major := major
  minor := minor
  patch := patch
  prerelease := q.prerelease
  build := q.build

theorem Qualifier.version_wellFormed (q : Qualifier) (major minor patch : Nat) :
    (q.version major minor patch).WellFormed :=
  ⟨q.wellFormed.prerelease, q.wellFormed.build⟩

/-- `partial`. -/
inductive PartialVersion where
  | one (major : Xr)
  | two (major minor : Xr)
  | three (major minor patch : Xr) (q : Qualifier)

/-- The groups a partial version is read to. -/
def PartialVersion.groups : PartialVersion → Partial
  | .one major => { major := major.chars }
  | .two major minor => { major := major.chars, minor := some minor.chars }
  | .three major minor patch q =>
    { major := major.chars, minor := some minor.chars, patch := some patch.chars,
      pre := (q.version 0 0 0).groups.pre, build := (q.version 0 0 0).groups.build }

def PartialVersion.text : PartialVersion → List Char
  | .one major => major.chars
  | .two major minor => major.chars ++ '.' :: minor.chars
  | .three major minor patch q =>
    dotted major.chars minor.chars patch.chars ++ preText (q.version 0 0 0).groups.pre ++
      buildText (q.version 0 0 0).groups.build

/-- What a partial version gives: nothing, a major, a major and a minor, or a version. -/
inductive Shape where
  | any
  | major (major : Nat)
  | minor (major minor : Nat)
  | full (v : SemVer)
  deriving DecidableEq, Repr

/-- A component after an open one counts for nothing. -/
def PartialVersion.shape : PartialVersion → Shape
  | .one (.wild _) | .two (.wild _) _ | .three (.wild _) _ _ _ => .any
  | .one (.num major) | .two (.num major) (.wild _) | .three (.num major) (.wild _) _ _ =>
    .major major
  | .two (.num major) (.num minor) | .three (.num major) (.num minor) (.wild _) _ =>
    .minor major minor
  | .three (.num major) (.num minor) (.num patch) q => .full (q.version major minor patch)

/-- `simple`. The operator `empty` is a partial version that stands alone. -/
inductive Simple where
  | primitive (operator : Operator) (p : PartialVersion)
  | tilde (p : PartialVersion)
  | caret (p : PartialVersion)

def Simple.text : Simple → List Char
  | .primitive operator p => operator.text ++ p.text
  | .tilde p => '~' :: p.text
  | .caret p => '^' :: p.text

/-- `range`: a hyphen range, or simple ranges with blanks between them. -/
inductive Clause where
  | hyphen (low high : PartialVersion)
  | simples (l : List Simple)

def Clause.text : Clause → List Char
  | .hyphen low high => low.text ++ ' ' :: '-' :: ' ' :: high.text
  | .simples l => spaced (l.map Simple.text)

/-- `logical-or range`, with the blanks before and after the bars. -/
structure Alternative where
  before : Nat
  after : Nat
  clause : Clause

def Alternative.text (a : Alternative) : List Char :=
  List.replicate a.before ' ' ++ '|' :: '|' :: (List.replicate a.after ' ' ++ a.clause.text)

/-- `range-set`. -/
structure RangeExpr where
  first : Clause
  rest : List Alternative

def RangeExpr.chars (e : RangeExpr) : List Char := e.first.text ++ e.rest.flatMap Alternative.text

def RangeExpr.text (e : RangeExpr) : String := String.ofList e.chars

def RangeExpr.clauses (e : RangeExpr) : List Clause := e.first :: e.rest.map Alternative.clause

/-! ## The comparators they stand for -/

/-- The release itself. -/
def release (major minor patch : Nat) : SemVer where
  major := major
  minor := minor
  patch := patch

/-- The first prerelease of a release. -/
def first (major minor patch : Nat) : SemVer where
  major := major
  minor := minor
  patch := patch
  prerelease := [.num 0]

/-- Where a desugared lower bound starts. -/
def start (includePrerelease : Bool) (major minor patch : Nat) : SemVer :=
  if includePrerelease then first major minor patch else release major minor patch

/-- A version as a desugared lower bound: without its build metadata, and at its first
prerelease where the bound is opened. -/
def SemVer.asLower (opened : Bool) (v : SemVer) : SemVer :=
  if v.prerelease = [] then start opened v.major v.minor v.patch else { v with build := none }

abbrev atLeastOf (v : SemVer) : Comparator := { operator := .ge, semver := .version v }

abbrev belowOf (v : SemVer) : Comparator := { operator := .lt, semver := .version v }

/-- An operator before a version of which `low` is the first release and `high` the next. -/
def partialComparators (includePrerelease : Bool) (operator : Operator)
    (low high : Nat × Nat × Nat) : List Comparator :=
  match operator with
  | .empty | .eq =>
    [atLeastOf (start includePrerelease low.1 low.2.1 low.2.2),
      belowOf (first high.1 high.2.1 high.2.2)]
  | .lt => [belowOf (first low.1 low.2.1 low.2.2)]
  | .ge => [atLeastOf (release low.1 low.2.1 low.2.2)]
  | .gt => [atLeastOf (release high.1 high.2.1 high.2.2)]
  | .le => [belowOf (first high.1 high.2.1 high.2.2)]

def primitiveComparators (includePrerelease : Bool) (operator : Operator) : Shape → List Comparator
  | .any => if operator = .lt ∨ operator = .gt then [belowOf (first 0 0 0)] else anyComparator
  | .major major => partialComparators includePrerelease operator (major, 0, 0) (major + 1, 0, 0)
  | .minor major minor =>
    partialComparators includePrerelease operator (major, minor, 0) (major, minor + 1, 0)
  | .full v => [{ operator := operator, semver := .version v }]

def tildeComparators (includePrerelease : Bool) : Shape → List Comparator
  | .any => anyComparator
  | .major major =>
    [atLeastOf (start includePrerelease major 0 0), belowOf (first (major + 1) 0 0)]
  | .minor major minor =>
    [atLeastOf (start includePrerelease major minor 0), belowOf (first major (minor + 1) 0)]
  | .full v => [atLeastOf (v.asLower includePrerelease), belowOf (first v.major (v.minor + 1) 0)]

/-- Where the left-most component that is not zero changes. -/
def caretNext (major minor patch : Nat) : SemVer :=
  if major = 0 then if minor = 0 then first 0 0 (patch + 1) else first 0 (minor + 1) 0
  else first (major + 1) 0 0

def caretComparators (includePrerelease : Bool) : Shape → List Comparator
  | .any => anyComparator
  | .major major =>
    [atLeastOf (start includePrerelease major 0 0), belowOf (first (major + 1) 0 0)]
  | .minor major minor =>
    [atLeastOf (start includePrerelease major minor 0),
      belowOf (if major = 0 then first major (minor + 1) 0 else first (major + 1) 0 0)]
  | .full v =>
    [atLeastOf (v.asLower (includePrerelease && decide (v.major = 0))),
      belowOf (caretNext v.major v.minor v.patch)]

def Simple.comparators (includePrerelease : Bool) : Simple → List Comparator
  | .primitive operator p => primitiveComparators includePrerelease operator p.shape
  | .tilde p => tildeComparators includePrerelease p.shape
  | .caret p => caretComparators includePrerelease p.shape

/-- The lower bound of a hyphen range. -/
def hyphenFrom (includePrerelease : Bool) : Shape → List Comparator
  | .any => []
  | .major major => [atLeastOf (start includePrerelease major 0 0)]
  | .minor major minor => [atLeastOf (start includePrerelease major minor 0)]
  | .full v => [atLeastOf v]

/-- The upper bound of a hyphen range. -/
def hyphenTo : Shape → List Comparator
  | .any => []
  | .major major => [belowOf (first (major + 1) 0 0)]
  | .minor major minor => [belowOf (first major (minor + 1) 0)]
  | .full v => [{ operator := .le
                  semver := .version (if v.prerelease = [] then v else { v with build := none }) }]

def Clause.comparators (includePrerelease : Bool) : Clause → List Comparator
  | .hyphen low high => orAny (hyphenFrom includePrerelease low.shape ++ hyphenTo high.shape)
  | .simples l => orAny (l.flatMap (Simple.comparators includePrerelease))

def RangeExpr.sets (includePrerelease : Bool) (e : RangeExpr) : List (List Comparator) :=
  e.clauses.map (Clause.comparators includePrerelease)

/-! ## The numbers Python converts -/

instance : DecidablePred Short := fun n => Nat.decLt n (10 ^ maxStrDigits)

def Ident.Readable : Ident → Prop
  | .num n => Short n
  | .alpha _ => True

instance : DecidablePred Ident.Readable := fun
  | .num n => inferInstanceAs (Decidable (Short n))
  | .alpha _ => .isTrue trivial

/-- No number of the version has more digits than Python converts. -/
structure SemVer.Readable (v : SemVer) : Prop where
  major : Short v.major
  minor : Short v.minor
  patch : Short v.patch
  prerelease : ∀ id ∈ v.prerelease, id.Readable

instance (v : SemVer) : Decidable v.Readable :=
  decidable_of_iff (Short v.major ∧ Short v.minor ∧ Short v.patch ∧
      ∀ id ∈ v.prerelease, id.Readable)
    ⟨fun ⟨h₁, h₂, h₃, h₄⟩ => ⟨h₁, h₂, h₃, h₄⟩,
      fun h => ⟨h.major, h.minor, h.patch, h.prerelease⟩⟩

def Comparator.Readable (c : Comparator) : Prop :=
  match c.semver with
  | .any => True
  | .version v => v.Readable

instance : DecidablePred Comparator.Readable := fun
  | { operator := _, semver := .any } => .isTrue trivial
  | { operator := _, semver := .version v } => inferInstanceAs (Decidable v.Readable)

/-- No bound of the range has a number of more digits than Python converts. -/
def RangeExpr.Readable (includePrerelease : Bool) (e : RangeExpr) : Prop :=
  ∀ cs ∈ e.sets includePrerelease, ∀ c ∈ cs, c.Readable

/-- The comparators, where all can be read. -/
def checked (cs : List Comparator) : Except RangeError (List Comparator) :=
  if ∀ c ∈ cs, c.Readable then .ok cs else .error (.valueError .tooManyDigits)

theorem SemVer.Readable.printable {v : SemVer} (h : v.Readable) (hwell : v.WellFormed) :
    v.Printable where
  major := h.major
  minor := h.minor
  patch := h.patch
  prerelease id hid := by
    have hread := h.prerelease id hid
    have hid := hwell.prerelease id hid
    cases id with
    | num n => exact hread
    | alpha s => exact hid
  build := hwell.build

theorem short_of_pyInt {n m : Nat} (h : pyInt (Nat.toDigits 10 n) = .ok m) : Short n := by
  unfold pyInt at h
  split at h
  · cases h
  · next hlength =>
    exact (Nat.length_toDigits_le_iff (by decide) (by decide)).mp (Nat.le_of_not_lt hlength)

theorem pyInt_eq (n : Nat) :
    pyInt (Nat.toDigits 10 n) = if Short n then .ok n else .error .tooManyDigits := by
  split
  · next h => exact pyInt_toDigits h
  · next h =>
    rcases heq : pyInt (Nat.toDigits 10 n) with ⟨⟩ | m
    · rfl
    · exact absurd (short_of_pyInt heq) h

theorem pyStr_eq (n : Nat) :
    pyStr n = if Short n then .ok (Nat.toDigits 10 n) else .error .tooManyDigits := by
  have htext : (toString n).toList = Nat.toDigits 10 n := Nat.toList_repr
  have hlength : (Nat.toDigits 10 n).length ≤ maxStrDigits ↔ Short n :=
    Nat.length_toDigits_le_iff (by decide) (by decide)
  unfold pyStr
  dsimp only
  rw [htext]
  by_cases h : Short n
  · rw [if_pos h, if_neg (Nat.not_lt.mpr (hlength.mpr h))]
  · rw [if_neg h, if_pos (Nat.lt_of_not_le (mt hlength.mp h))]

theorem Short.of_succ {n : Nat} (h : Short (n + 1)) : Short n := Nat.lt_of_succ_lt h

theorem Short.zero : Short 0 := Nat.pow_pos (by decide)

theorem Short.one : Short 1 := Nat.one_lt_pow (by decide) (by decide)

theorem bump_eq (n : Nat) :
    bump (Nat.toDigits 10 n) =
      if Short (n + 1) then .ok (Nat.toDigits 10 (n + 1)) else .error .tooManyDigits := by
  unfold bump
  rw [pyInt_eq]
  by_cases h : Short (n + 1)
  · rw [if_pos h, if_pos h.of_succ]
    exact (pyStr_eq (n + 1)).trans (if_pos h)
  · rw [if_neg h]
    split
    · exact (pyStr_eq (n + 1)).trans (if_neg h)
    · rfl

theorem readable_of_parseIdent {id id' : Ident} (h : parseIdent id.text.toList = .ok id') :
    id.Readable := by
  cases id with
  | alpha s => trivial
  | num n =>
    unfold parseIdent at h
    rw [Ident.toList_text, if_pos (List.all_eq_true.mpr (toDigits_numeral n).digits.2)] at h
    obtain ⟨m, hm, -⟩ := map_ok h
    exact short_of_pyInt hm

/-- **A version reads where Python converts its numbers**, and not otherwise. -/
theorem SemVer.WellFormed.toSemVer {v : SemVer} (h : v.WellFormed) :
    v.groups.toSemVer = if v.Readable then .ok v else .error .tooManyDigits := by
  split
  · next hread => exact (hread.printable h).toSemVer
  · next hread =>
    rcases heq : v.groups.toSemVer with ⟨⟩ | w
    · rfl
    · refine absurd ?_ hread
      unfold Groups.toSemVer SemVer.groups at heq
      obtain ⟨major, hmajor, heq⟩ := bind_ok heq
      obtain ⟨minor, hminor, heq⟩ := bind_ok heq
      obtain ⟨patch, hpatch, heq⟩ := bind_ok heq
      obtain ⟨prerelease, hprerelease, -⟩ := bind_ok heq
      refine ⟨short_of_pyInt hmajor, short_of_pyInt hminor, short_of_pyInt hpatch, ?_⟩
      intro id hid
      have hne : v.prerelease ≠ [] := List.ne_nil_of_mem hid
      dsimp only at hprerelease
      rw [if_neg hne, splitPrerelease_eq (identsText_ne_nil hne h.prerelease),
        splitOn_identsText hne h.prerelease] at hprerelease
      obtain ⟨id', hid'⟩ := mapM_returns hprerelease _ (List.mem_map_of_mem hid)
      exact readable_of_parseIdent hid'

/-! ## Scanning -/

theorem Xr.scan (x : Xr) {rest : List Char} (hrest : Stops isDecimal rest) :
    scanXid (x.chars ++ rest) = some (x.chars, rest) := by
  cases x with
  | wild w => cases w <;> rfl
  | num n => exact (toDigits_numeral n).scanXid hrest

theorem Xr.stops (x : Xr) (rest : List Char) : Stops isLead (x.chars ++ rest) := by
  cases x with
  | wild w => cases w <;> exact .cons (by decide)
  | num n => exact (toDigits_numeral n).stops.1

/-- Where a partial version starts. -/
def IsHead (c : Char) : Prop := ('0' ≤ c ∧ c ≤ '9') ∨ c = 'x' ∨ c = 'X' ∨ c = '*'

theorem IsHead.ne {c d : Char} (h : IsHead c) (hdigit : ¬ ('0' ≤ d ∧ d ≤ '9'))
    (hd : d ≠ 'x' ∧ d ≠ 'X' ∧ d ≠ '*') : c ≠ d := by
  rintro rfl
  rcases h with h | rfl | rfl | rfl
  · exact hdigit h
  · exact hd.1 rfl
  · exact hd.2.1 rfl
  · exact hd.2.2 rfl

theorem Xr.head (x : Xr) : ∃ c t, x.chars = c :: t ∧ IsHead c := by
  cases x with
  | wild w => cases w <;> exact ⟨_, _, rfl, by simp [IsHead, Wild.char]⟩
  | num n =>
    obtain ⟨⟨c, t, hct, hdigit⟩, -⟩ := (toDigits_numeral n).digits
    exact ⟨c, t, hct, .inl hdigit⟩

theorem PartialVersion.text_three (major minor patch : Xr) (q : Qualifier) :
    (PartialVersion.three major minor patch q).text = major.chars ++ '.' :: (minor.chars ++ '.' ::
      (patch.chars ++ (preText (q.version 0 0 0).groups.pre ++
        buildText (q.version 0 0 0).groups.build))) := by
  simp only [PartialVersion.text, dotted, List.append_assoc, List.cons_append]

theorem PartialVersion.head (p : PartialVersion) : ∃ c t, p.text = c :: t ∧ IsHead c := by
  have happend (x : Xr) (rest : List Char) : ∃ c t, x.chars ++ rest = c :: t ∧ IsHead c := by
    obtain ⟨c, t, hct, hhead⟩ := x.head
    rw [hct]
    exact ⟨c, t ++ rest, rfl, hhead⟩
  cases p with
  | one major => exact major.head
  | two major minor => exact happend major _
  | three major minor patch q =>
    rw [PartialVersion.text_three]
    exact happend major _

/-- **A partial version reads back from its text.** -/
theorem PartialVersion.scan (p : PartialVersion) {rest : List Char} (hrest : Ends rest) :
    scanPartial (p.text ++ rest) = some (p.groups, rest) := by
  have hdot (t : List Char) : Stops isDecimal ('.' :: t) := .cons (by decide)
  have hdecimal : Stops isDecimal rest := hrest.stops (by decide)
  cases p with
  | one major =>
    simp only [PartialVersion.text, scanPartial, dropWhile_eq_self_of_stops (major.stops _),
      major.scan hdecimal]
    rcases hrest with rfl | ⟨w, rfl⟩ <;> rfl
  | two major minor =>
    simp only [PartialVersion.text, List.append_assoc, List.cons_append, scanPartial,
      dropWhile_eq_self_of_stops (major.stops _), major.scan (hdot _), minor.scan hdecimal]
    rcases hrest with rfl | ⟨w, rfl⟩ <;> rfl
  | three major minor patch q =>
    have hspelled := q.wellFormed.spelled
    have hpatch := patch.scan (stops_suffix hrest (p := isDecimal) (by decide) (by decide)
      (by decide) (q.version 0 0 0).groups.pre (q.version 0 0 0).groups.build)
    have hpre := scanPrerelease_text hspelled.pre
      (stops_build hrest (by decide) (by decide) (q.version 0 0 0).groups.build)
      (stops_build hrest (by decide) (by decide) (q.version 0 0 0).groups.build)
    have hbuild := scanBuild_text hspelled.build hrest
    change scanPrerelease (preText (q.version 0 0 0).groups.pre ++ _) = _ at hpre
    change scanBuild (buildText (q.version 0 0 0).groups.build ++ _) = _ at hbuild
    simp only [PartialVersion.text_three, List.append_assoc, List.cons_append, scanPartial,
      dropWhile_eq_self_of_stops (major.stops _), major.scan (hdot _), minor.scan (hdot _), hpatch]
    rw [hpre]
    dsimp only
    rw [hbuild]
    rfl

theorem PartialVersion.matchPartial (p : PartialVersion) :
    matchPartial p.text = some p.groups := by
  have hscan := p.scan (.inl rfl)
  rw [List.append_nil] at hscan
  unfold Semver.matchPartial
  rw [hscan]
  rfl

/-- A character of a partial version. -/
def inPartial (c : Char) : Bool := inVersion c || c == '*'

theorem inPartial_of_inVersion {c : Char} (h : inVersion c = true) : inPartial c = true := by
  unfold inPartial
  rw [h, Bool.true_or]

theorem Xr.inPartial (x : Xr) : ∀ c ∈ x.chars, inPartial c = true := by
  cases x with
  | wild w => cases w <;> exact List.all_eq_true.mp (by decide)
  | num n =>
    exact fun c hc => inPartial_of_inVersion (inVersion_of_numeral (toDigits_numeral n) c hc)

theorem PartialVersion.inPartial (p : PartialVersion) : ∀ c ∈ p.text, inPartial c = true := by
  have hdot : Semver.inPartial '.' = true := by decide
  cases p with
  | one major => exact major.inPartial
  | two major minor =>
    exact List.forall_mem_append.mpr
      ⟨major.inPartial, List.forall_mem_cons.mpr ⟨hdot, minor.inPartial⟩⟩
  | three major minor patch q =>
    have hchars := q.wellFormed.spelled.chars
    unfold Groups.text at hchars
    rw [List.append_assoc] at hchars
    have hsuffix := (List.forall_mem_append.mp hchars).2
    rw [PartialVersion.text_three]
    refine List.forall_mem_append.mpr ⟨major.inPartial, List.forall_mem_cons.mpr ⟨hdot, ?_⟩⟩
    refine List.forall_mem_append.mpr ⟨minor.inPartial, List.forall_mem_cons.mpr ⟨hdot, ?_⟩⟩
    refine List.forall_mem_append.mpr ⟨patch.inPartial, fun c hc => ?_⟩
    exact inPartial_of_inVersion (hsuffix c hc)

theorem isSpace_of_inPartial {c : Char} (h : inPartial c = true) : isSpace c = false := by
  rcases Bool.or_eq_true_iff.mp h with h | h
  · exact isSpace_of_inVersion h
  · rw [beq_iff_eq.mp h]
    decide

theorem isOperatorEnd_of_inPartial {c : Char} (h : inPartial c = true) :
    isOperatorEnd c = false := by
  rcases Bool.or_eq_true_iff.mp h with h | h
  · exact isOperatorEnd_of_inVersion h
  · rw [beq_iff_eq.mp h]
    decide

theorem bar_of_inPartial {c : Char} (h : inPartial c = true) : c ≠ '|' := by
  rintro rfl
  revert h
  decide

/-! ## Tokens -/

/-- What stands before a partial version. -/
inductive IsLeader : List Char → Prop where
  | operator (operator : Operator) : IsLeader operator.text
  | tilde : IsLeader ['~']
  | caret : IsLeader ['^']

theorem IsLeader.chars {l : List Char} (h : IsLeader l) :
    ∀ c ∈ l, isSpace c = false ∧ c ≠ '-' ∧ c ≠ '|' := by
  have hall : l.all (fun c => !isSpace c && c != '-' && c != '|') = true := by
    rcases h with ⟨⟨⟩⟩ | _ | _ <;> decide
  intro c hc
  simpa [and_assoc] using List.all_eq_true.mp hall c hc

/-- Nothing, or a character no partial version starts with. -/
theorem IsLeader.scan {l : List Char} (h : IsLeader l) (p : PartialVersion) {w : List Char}
    (hw : Ends w) : scanPartial (l ++ p.text ++ w) = none ∨
      ∃ q, scanPartial (l ++ p.text ++ w) = some (q, w) := by
  have hnone (d : Char) (t : List Char) (hd : isLead d = false) (hxid : scanXid (d :: t) = none) :
      scanPartial (d :: t) = none := by
    unfold scanPartial
    rw [dropWhile_eq_self_of_stops (.cons hd), hxid]
  rcases h with ⟨⟨⟩⟩ | _ | _
  · exact .inr ⟨_, p.scan hw⟩
  · exact .inr ⟨_, p.scan hw⟩
  · exact .inl (hnone '<' _ (by decide) rfl)
  · exact .inl (hnone '<' _ (by decide) rfl)
  · exact .inl (hnone '>' _ (by decide) rfl)
  · exact .inl (hnone '>' _ (by decide) rfl)
  · exact .inl (hnone '~' _ (by decide) rfl)
  · exact .inl (hnone '^' _ (by decide) rfl)

theorem IsLeader.plain {l : List Char} (h : IsLeader l) (p : PartialVersion) :
    Plain (l ++ p.text) where
  ne_nil := by
    obtain ⟨c, t, hct, -⟩ := p.head
    rw [hct]
    exact List.append_ne_nil_of_right_ne_nil _ (List.cons_ne_nil _ _)
  isSpace := List.forall_mem_append.mpr
    ⟨fun c hc => (h.chars c hc).1, fun c hc => isSpace_of_inPartial (p.inPartial c hc)⟩
  last c hc := by
    obtain ⟨d, t, hdt, -⟩ := p.head
    rw [List.getLast?_append_of_ne_nil _ (by rw [hdt]; exact List.cons_ne_nil _ _)] at hc
    exact isOperatorEnd_of_inPartial (p.inPartial c (List.mem_of_getLast? hc))
  start := by
    obtain ⟨c, t, hct, hhead⟩ := p.head
    rcases hl : l with _ | ⟨d, u⟩
    · refine ⟨c, t, hct, ?_, hhead.ne (by decide) (by decide)⟩
      exact isSpace_of_inPartial (p.inPartial c (hct ▸ List.mem_cons_self))
    · obtain ⟨hspace, hhyphen, -⟩ := h.chars d (hl ▸ List.mem_cons_self)
      exact ⟨d, u ++ p.text, rfl, hspace, hhyphen⟩
  scan w hw := h.scan p hw

theorem Simple.leader (s : Simple) :
    ∃ (l : List Char) (p : PartialVersion), IsLeader l ∧ s.text = l ++ p.text := by
  cases s with
  | primitive operator p => exact ⟨_, p, .operator operator, rfl⟩
  | tilde p => exact ⟨_, p, .tilde, rfl⟩
  | caret p => exact ⟨_, p, .caret, rfl⟩

theorem Simple.plain (s : Simple) : Plain s.text := by
  obtain ⟨l, p, hl, htext⟩ := s.leader
  rw [htext]
  exact hl.plain p

theorem Simple.bar (s : Simple) : '|' ∉ s.text := by
  obtain ⟨l, p, hl, htext⟩ := s.leader
  rw [htext, List.mem_append]
  rintro (hbar | hbar)
  · exact (hl.chars _ hbar).2.2 rfl
  · exact bar_of_inPartial (p.inPartial _ hbar) rfl

/-- The text has no blank at either end, nor inside. -/
theorem PartialVersion.isSpace (p : PartialVersion) : ∀ c ∈ p.text, isSpace c = false :=
  fun c hc => isSpace_of_inPartial (p.inPartial c hc)

theorem scanOperator_partial (operator : Operator) (p : PartialVersion) :
    scanOperator (operator.text ++ p.text) = (operator, p.text) := by
  obtain ⟨c, t, hct, hhead⟩ := p.head
  have hlt : c ≠ '<' := hhead.ne (by decide) (by decide)
  have hgt : c ≠ '>' := hhead.ne (by decide) (by decide)
  have heq : c ≠ '=' := hhead.ne (by decide) (by decide)
  rw [hct]
  cases operator <;> simp [scanOperator, Operator.text, hlt, hgt, heq]

theorem matchXrange_partial (operator : Operator) (p : PartialVersion) :
    matchXrange (operator.text ++ p.text) = some (operator, p.groups) := by
  unfold matchXrange
  rw [dropWhile_isSpace ((IsLeader.operator operator).plain p).isSpace, scanOperator_partial]
  dsimp only
  rw [dropWhile_isSpace p.isSpace, p.matchPartial]
  rfl

/-- No operator starts like a tilde or a caret range. -/
theorem operator_head (operator : Operator) (p : PartialVersion) :
    ∃ c t, operator.text ++ p.text = c :: t ∧ c ≠ '~' ∧ c ≠ '^' := by
  obtain ⟨c, t, hct, hhead⟩ := p.head
  cases operator with
  | empty => exact ⟨c, t, hct, hhead.ne (by decide) (by decide), hhead.ne (by decide) (by decide)⟩
  | eq => exact ⟨'=', _, rfl, by decide, by decide⟩
  | lt => exact ⟨'<', _, rfl, by decide, by decide⟩
  | le => exact ⟨'<', _, rfl, by decide, by decide⟩
  | gt => exact ⟨'>', _, rfl, by decide, by decide⟩
  | ge => exact ⟨'>', _, rfl, by decide, by decide⟩

theorem expandToken_primitive (operator : Operator) (p : PartialVersion) (b : Bool) :
    expandToken (Simple.primitive operator p).text b =
      desugarXrange (operator.text ++ p.text) operator p.groups b := by
  have hspace := dropWhile_isSpace ((IsLeader.operator operator).plain p).isSpace
  obtain ⟨c, t, hct, htilde, hcaret⟩ := operator_head operator p
  have hnotTilde : matchTilde (operator.text ++ p.text) = none := by
    unfold matchTilde
    rw [hspace, hct]
    split
    · next heq => exact absurd (List.cons.inj heq).1 htilde
    · next heq => exact absurd (List.cons.inj heq).1 htilde
    · rfl
  have hnotCaret : matchCaret (operator.text ++ p.text) = none := by
    unfold matchCaret
    rw [hspace, hct]
    split
    · next heq => exact absurd (List.cons.inj heq).1 hcaret
    · rfl
  unfold expandToken Simple.text
  rw [hnotTilde, hnotCaret, matchXrange_partial]

theorem expandToken_tilde (p : PartialVersion) (b : Bool) :
    expandToken (Simple.tilde p).text b = desugarTilde p.groups b := by
  obtain ⟨c, t, hct, hhead⟩ := p.head
  have hgt : c ≠ '>' := hhead.ne (by decide) (by decide)
  have hmatch : matchTilde ('~' :: p.text) = some p.groups := by
    unfold matchTilde
    rw [List.dropWhile_cons_of_neg (by decide)]
    split
    · next heq =>
      rw [hct] at heq
      exact absurd (List.cons.inj (List.cons.inj heq).2).1 hgt
    · next heq =>
      obtain rfl := (List.cons.inj heq).2
      exact p.matchPartial
    · next hne => exact absurd rfl (hne p.text)
  unfold expandToken Simple.text
  rw [hmatch]

theorem expandToken_caret (p : PartialVersion) (b : Bool) :
    expandToken (Simple.caret p).text b = desugarCaret p.groups b := by
  have hnotTilde : matchTilde ('^' :: p.text) = none := rfl
  have hmatch : matchCaret ('^' :: p.text) = some p.groups := p.matchPartial
  unfold expandToken Simple.text
  rw [hnotTilde, hmatch]

end Minireg.Semver
