import Minireg.Core.VersionOrder
import Minireg.Lib.Picker
import Minireg.Py.Dict

/-!
# The fix an audit offers

`dedupe_by_cve` merges the records of one CVE, and `lowest_clearing_version` picks the
version to upgrade to from what is left. An audit does one after the other.
-/

namespace Minireg.Vulns

open Py Lib Semver

/-- What a merge raises. -/
inductive MergeError where
  | valueError (e : ValueError)
  | typeError
  deriving DecidableEq, Repr

/-- An OSV record as an audit presents it. -/
structure Entry where
  cveId : Option String := none
  osvId : Option String := none
  cvssScore : Option ℚ := none
  severity : Option String := none
  summary : Option String := none
  fixedVersion : Option String := none
  suppressed : Bool := false
  url : String := ""
  deriving DecidableEq

/-- A text that is there and not empty. -/
def truthy (text : Option String) : Option String := text.filter (· ≠ "")

namespace Entry

/-- `entry.get("cve_id") or entry.get("osv_id") or ""`. -/
def cve (e : Entry) : String := (truthy e.cveId).getD ((truthy e.osvId).getD "")

/-- `entry.get("cvss_score") or 0`. -/
def points (e : Entry) : ℚ := e.cvssScore.getD 0

/-- The fixed version, where there is one. -/
def bound (e : Entry) : Option String := truthy e.fixedVersion

end Entry

/-! ## Merging -/

/-- `fix_key`: a version by its precedence, or a text that does not parse. -/
inductive FixKey where
  | version (k : Key)
  | text (value : String)

def fixKey (value : String) : Except MergeError FixKey :=
  ((SemVer.parse value).mapError .valueError).map fun
    | some v => .version v.key
    | none => .text value

/-- The tuple of `0.0.0`. Below it are its prereleases, whose last field is a tuple of tuples. -/
def firstRelease : Key := toLex (0, toLex (0, toLex (0, toLex (1, []))))

/-- `j > k`, on the tuples. That of a text is `(0, 0, 0, (0, (value,)))`. -/
def FixKey.gt : FixKey → FixKey → Except MergeError Bool
  | .version j, .version k => .ok (k < j)
  | .text s, .text t => .ok (t < s)
  | .version j, .text _ => if j < firstRelease then .error .typeError else .ok true
  | .text _, .version k => if k < firstRelease then .error .typeError else .ok false

/-- `fix_key(candidate) > fix_key(existing)`. -/
def beats (candidate existing : String) : Except MergeError Bool := do
  (← fixKey candidate).gt (← fixKey existing)

/-- `current.update(entry)` where the entry scores higher; the bound is kept if there is one. -/
def takeScore (current entry : Entry) : Entry :=
  if current.points < entry.points then
    { entry with fixedVersion := if (truthy current.fixedVersion).isSome then current.fixedVersion
        else entry.fixedVersion }
  else current

/-- Whether the bound of an entry replaces the one there is. -/
def replacesBound (current entry : Entry) : Except MergeError Bool :=
  match entry.bound, current.bound with
  | none, _ => .ok false
  | some _, none => .ok true
  | some candidate, some existing => beats candidate existing

/-- One more entry of a CVE that there is an entry of. -/
def mergeEntry (current entry : Entry) : Except MergeError Entry := do
  let current := takeScore current entry
  let current := if ← replacesBound current entry then
      { current with fixedVersion := entry.fixedVersion } else current
  return { current with suppressed := current.suppressed && entry.suppressed }

/-- One turn of the loop. -/
def mergeInto (merged : Dict String Entry) (entry : Entry) :
    Except MergeError (Dict String Entry) :=
  match merged.get? entry.cve with
  | none => .ok (merged.set entry.cve entry)
  | some current => (mergeEntry current entry).map (merged.set entry.cve)

/-- `sorted(entries, key=lambda e: e.get("cvss_score") or 0, reverse=True)`. -/
def byScore (entries : List Entry) : List Entry :=
  entries.insertionSort fun a b => b.points ≤ a.points

/-- `dedupe_by_cve`. -/
def dedupeByCve (entries : List Entry) : Except MergeError (List Entry) := do
  let merged ← entries.foldlM mergeInto []
  return byScore (merged.map Prod.snd)

/-! ## Picking a version -/

section Fix

variable {V : Type} [LinearOrder V] (pypi : Pep440Order V) (order : SetOrder String)
variable (ecosystem : Ecosystem)

/-- `_installable_version`. -/
def installableVersion (value : String) : Bool :=
  value ≠ "" && value = strip value &&
    if ecosystem = .pypi then (pypi.version value).isSome else isValidSemver value

/-- The fixed versions that a client may be told to upgrade to. -/
def fixes (cves : List Entry) : List String :=
  (cves.filterMap Entry.fixedVersion).filter (installableVersion pypi ecosystem)

/-- `lowest_clearing_version`. -/
def lowestClearingVersion (cves : List Entry) (currentVersion : Option String := none) :
    Except ValueError (Option String) := do
  if fixes pypi ecosystem cves = [] then return none
  let ordered ← sortVersionsFor pypi ecosystem (order.elements (fixes pypi ecosystem cves))
  match ordered.getLast? with
  | none => return none
  | some target =>
    match truthy currentVersion with
    | none => return some target
    | some current =>
      let ranked ← sortVersionsFor pypi ecosystem [current, target]
      return if ranked.getLast? = some current then none else some target

/-- The CVEs of an audited version, worst first, and the version to upgrade to. -/
def audited (installed : String) (records : List Entry) :
    Except MergeError (List Entry × Option String) := do
  let cves := byScore (← dedupeByCve records)
  let fixVersion ← (lowestClearingVersion pypi order ecosystem cves (some installed)).mapError
    .valueError
  return (cves, fixVersion)

end Fix

end Minireg.Vulns
