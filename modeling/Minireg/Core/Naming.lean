import Mathlib.Data.List.Sort
import Minireg.Core.Semver
import Minireg.Upstreams.Base

/-!
# Names, versions and tags

What a published npm name, version or dist-tag may look like, and the order of
npm versions: `maxSemver` picks `latest`, the last of the greatest stable ones.
PEP 440 is what `packaging` implements, so `Pep440` takes it as given.
-/

namespace Minireg

open Py Semver

/-! ## PEP 440 -/

/-- `packaging.version`: the key that equal versions share (none where the text does
not parse), the canonical spelling, and what is kept of a text that does not parse. -/
structure Pep440 where
  key? : String → Option String
  canonical : String → String
  legacy : String → String

namespace Pep440

variable (pep : Pep440) (version : String)

/-- `normalize_pypi_version`. -/
def normalize : String :=
  if (pep.key? version).isSome then pep.canonical version else pep.legacy version

/-- `pypi_versions_equal`. -/
def equal (a b : String) : Bool :=
  match pep.key? a, pep.key? b with
  | some x, some y => x = y
  | _, _ => pep.normalize a = pep.normalize b

/-- A canonical spelling reads back as the version it spells. -/
def Lawful : Prop :=
  ∀ version, (pep.key? version).isSome = true → pep.key? (pep.canonical version) = pep.key? version

end Pep440

/-! ## npm names -/

/-- A character that `quote` leaves alone. -/
def isUnreserved (c : Char) : Bool :=
  ('0' ≤ c && c ≤ '9') || ('a' ≤ c && c ≤ 'z') || ('A' ≤ c && c ≤ 'Z') ||
    c == '_' || c == '.' || c == '-' || c == '~'

/-- `quote(s, safe="") == s`. -/
def isUrlSafe (s : String) : Bool := s.toList.all isUnreserved

/-- `_NPM_ILLEGAL_RE.search(s)`. -/
def hasNpmIllegal (s : String) : Bool :=
  s.toList.any fun c => c ∈ ['~', '\'', '!', '(', ')', '*', '"'] || isSpace c

def npmBlacklist : List String := ["node_modules", "favicon.ico"]

/-- The scope and the package of `_NPM_SCOPED_RE`. -/
def npmScoped (name : String) : Option (String × String) :=
  match name.toList with
  | '@' :: rest =>
    match rest.splitOn '/' with
    | [scope, pkg] =>
      if scope.isEmpty || pkg.isEmpty then none else some (String.ofList scope, String.ofList pkg)
    | _ => none
  | _ => none

def startsWithDot (s : String) : Bool :=
  match s.toList with
  | c :: _ => c == '.' || c == '_'
  | [] => false

/-- The check of one half of a scoped name. -/
def npmPartError (part : String) : Option String :=
  if part = "" || startsWithDot part then some "name cannot start with a period or an underscore"
  else if hasNpmIllegal part then some "name can only contain URL-friendly characters"
  else if !isUrlSafe part then some "name can only contain URL-friendly characters"
  else none

/-- `is_valid_npm_name`: why a new name is not valid, or none. -/
def npmNameError (cm : CaseMap) (name : String) : Option String :=
  if name = "" || strip name = "" then some "name cannot be empty"
  else if 214 < name.length then some "name can no longer contain more than 214 characters"
  else if cm.lower name ∈ npmBlacklist then some "name is blacklisted"
  else if startsWithDot name then some "name cannot start with a period or an underscore"
  else if name ≠ cm.lower name then some "name can no longer contain capital letters"
  else if hasNpmIllegal name then some "name can only contain URL-friendly characters"
  else match npmScoped name with
    | some (scope, pkg) => npmPartError scope <|> npmPartError pkg
    | none =>
      if name.toList.head? = some '@' || '/' ∈ name.toList then
        some "name can only contain URL-friendly characters"
      else if !isUrlSafe name then some "name can only contain URL-friendly characters"
      else none

/-- `npm_tarball_filename`. -/
def npmTarballFilename (name version : String) : String :=
  let base := if name.toList.head? = some '@' then
      String.ofList ((name.toList.splitOn '/').getLastD [])
    else name
  base ++ "-" ++ version ++ ".tgz"

/-- `npm_dist_tag_error`. -/
def npmDistTagError (tag : String) : Except ValueError (Option String) :=
  if strip tag = "" then .ok (some "dist-tag name must not be empty")
  else do
    if ← isValidRange tag then
      return some ("dist-tag '" ++ tag ++ "' must not be a valid semver range")
    else if !isUrlSafe tag then
      return some ("dist-tag '" ++ tag ++ "' can only contain URL-safe characters")
    else return none

/-! ## npm versions -/

/-- `is_valid_semver`. The `$` of its expression also matches before a last newline. -/
def isValidSemver (version : String) : Bool :=
  match scanVersion version.toList with
  | some (_, rest) => rest = [] || rest = ['\n']
  | none => false

/-- What `semver_key` compares: a version that does not parse is below all that do. -/
abbrev SemverKey := Nat ×ₗ Key ×ₗ String

def semverKey (version : String) : Except ValueError SemverKey :=
  (SemVer.parse version).map fun
    | none => toLex (0, toLex (toLex (0, toLex (0, toLex (0, toLex (1, [])))), version))
    | some v => toLex (1, toLex (v.key, ""))

/-- Equal in precedence; versions that do not parse are equal as texts. -/
def semverEqual (a b : String) : Bool :=
  match SemVer.parse a, SemVer.parse b with
  | .ok (some v), .ok (some w) => v.equivalent w
  | _, _ => a = b

/-- Where the version parses, `str(SemVer.parse(version)) == version`. -/
def IsCanonical (version : String) : Prop :=
  ∀ v, SemVer.parse version = .ok (some v) → v.text = version

/-- `sort_semver`. -/
def sortSemver (versions : List String) : Except ValueError (List String) := do
  let keyed ← versions.mapM fun v => (semverKey v).map fun k => (k, v)
  return (keyed.insertionSort fun a b => a.1 ≤ b.1).map Prod.snd

/-- A version without a prerelease, strictly written. -/
def isStableSemver (version : String) : Bool :=
  isValidSemver version && '-' ∉ version.toList.takeWhile (· ≠ '+')

/-- `max_semver`. -/
def maxSemver (versions : List String) : Except ValueError (Option String) :=
  if versions = [] then .ok none
  else
    let stable := versions.filter isStableSemver
    (sortSemver (if stable = [] then versions else stable)).map List.getLast?

theorem mem_of_mapM_snd {f : String → Except ValueError SemverKey} {versions : List String}
    {keyed : List (SemverKey × String)}
    (h : versions.mapM (fun v => (f v).map fun k => (k, v)) = .ok keyed) :
    keyed.map Prod.snd = versions := by
  induction versions generalizing keyed with
  | nil =>
    obtain rfl := Except.ok.inj h
    rfl
  | cons v vs ih =>
    rw [List.mapM_cons] at h
    rcases hk : f v with e | k
    · rw [hk] at h
      cases h
    · rw [hk] at h
      rcases hrest : vs.mapM (fun v => (f v).map fun k => (k, v)) with e | rest
      · rw [hrest] at h
        cases h
      · rw [hrest] at h
        obtain rfl := Except.ok.inj h
        rw [List.map_cons, ih hrest]

/-- Sorting changes only the order. -/
theorem sortSemver_perm {versions sorted : List String} (h : sortSemver versions = .ok sorted) :
    sorted.Perm versions := by
  unfold sortSemver at h
  rcases hk : versions.mapM (fun v => (semverKey v).map fun k => (k, v)) with e | keyed
  · rw [hk] at h
    cases h
  · rw [hk] at h
    obtain rfl := Except.ok.inj h
    rw [← mem_of_mapM_snd hk]
    exact (List.perm_insertionSort _ keyed).map Prod.snd

/-- The greatest version is one of the versions. -/
theorem maxSemver_mem {versions : List String} {v : String}
    (h : maxSemver versions = .ok (some v)) : v ∈ versions := by
  unfold maxSemver at h
  split at h
  · cases h
  · dsimp only at h
    generalize hpool : (if versions.filter isStableSemver = [] then versions
      else versions.filter isStableSemver) = pool at h
    rcases hsort : sortSemver pool with e | sorted
    · rw [hsort] at h
      cases h
    · rw [hsort] at h
      have hmem : v ∈ pool :=
        (sortSemver_perm hsort).mem_iff.mp (List.mem_of_getLast? (Except.ok.inj h))
      rw [← hpool] at hmem
      split at hmem
      · exact hmem
      · exact (List.mem_filter.mp hmem).1

/-- Where there are versions, one of them is the greatest. -/
theorem maxSemver_ne_none {versions : List String} (h : versions ≠ []) :
    maxSemver versions ≠ .ok none := by
  intro hmax
  unfold maxSemver at hmax
  rw [if_neg h] at hmax
  dsimp only at hmax
  generalize hpool : (if versions.filter isStableSemver = [] then versions
    else versions.filter isStableSemver) = pool at hmax
  have hne : pool ≠ [] := by
    rw [← hpool]
    split
    · exact h
    · next hstable => exact hstable
  rcases hsort : sortSemver pool with e | sorted
  · rw [hsort] at hmax
    cases hmax
  · rw [hsort] at hmax
    rw [List.getLast?_eq_none_iff.mp (Except.ok.inj hmax)] at hsort
    exact hne (List.nil_perm.mp (sortSemver_perm hsort))

/-! ### Canonical texts -/

theorem part_injective : Function.Injective Ident.part := by
  rintro (n | s) (m | t) h
  · obtain ⟨-, h⟩ := Prod.mk.inj (toLex.injective h)
    obtain ⟨rfl, -⟩ := Prod.mk.inj (toLex.injective h)
    rfl
  · cases (Prod.mk.inj (toLex.injective h)).1
  · cases (Prod.mk.inj (toLex.injective h)).1
  · obtain ⟨-, h⟩ := Prod.mk.inj (toLex.injective h)
    obtain ⟨-, rfl⟩ := Prod.mk.inj (toLex.injective h)
    rfl

theorem prereleaseKey_injective : Function.Injective prereleaseKey := by
  intro p q h
  unfold prereleaseKey at h
  rcases p with _ | ⟨a, p⟩ <;> rcases q with _ | ⟨b, q⟩
  · rfl
  · cases (Prod.mk.inj (toLex.injective h)).1
  · cases (Prod.mk.inj (toLex.injective h)).1
  · exact (List.map_injective_iff.mpr part_injective) (Prod.mk.inj (toLex.injective h)).2

/-- Versions of one precedence print alike, up to build metadata. -/
theorem text_eq_of_key {v w : SemVer} (h : v.key = w.key) (hv : '+' ∉ v.text.toList)
    (hw : '+' ∉ w.text.toList) : v.text = w.text := by
  obtain ⟨hmajor, h⟩ := Prod.mk.inj (toLex.injective h)
  obtain ⟨hminor, h⟩ := Prod.mk.inj (toLex.injective h)
  obtain ⟨hpatch, h⟩ := Prod.mk.inj (toLex.injective h)
  have hpre := prereleaseKey_injective h
  have hplain : ∀ u : SemVer, '+' ∉ u.text.toList →
      u.text = SemVer.text { u with build := none } := by
    intro u hu
    unfold SemVer.text at hu ⊢
    dsimp only at hu ⊢
    split at hu
    · next build hbuild =>
      split at hu
      · next hempty => exact if_pos hempty
      · exact absurd (by simp) hu
    · rfl
  rw [hplain v hv, hplain w hw]
  unfold SemVer.text
  dsimp only
  rw [hmajor, hminor, hpatch, hpre]

/-- **Canonical versions** without build metadata are equal only if they are the same text. -/
theorem eq_of_semverEqual {a b : String} (ha : IsCanonical a) (hb : IsCanonical b)
    (hplusA : '+' ∉ a.toList) (hplusB : '+' ∉ b.toList) (h : semverEqual a b = true) : a = b := by
  unfold semverEqual at h
  split at h
  · next v w hv hw =>
    have hkey : v.key = w.key := of_decide_eq_true h
    have hva := ha v hv
    have hwb := hb w hw
    rw [← hva, ← hwb]
    exact text_eq_of_key hkey (hva ▸ hplusA) (hwb ▸ hplusB)
  · exact of_decide_eq_true h

end Minireg
