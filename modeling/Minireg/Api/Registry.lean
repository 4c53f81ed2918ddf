import Minireg.Services.Ownership
import Minireg.Services.Policy
import Minireg.Services.PypiPublish

/-!
# What the registry endpoints share

The environment of a request, the verdict on one version with its scan, and the
record of a refused publish.
-/

namespace Minireg

open Py Lib Semver

/-- What an inline scan of one version says. -/
structure Scan where
  maxScore : Option Rat := none
  hasFix : Bool := false
  scanned : Bool := true
  hasAdvisories : Bool := false
  malicious : Bool := false
  deriving DecidableEq, Repr

/-- Outside the endpoints, for the time of one request. -/
structure RegistryEnv where
  codec : NpmPublish.Codec
  pep440 : Pep440
  sqlLower : String → String
  floatText : Option Rat → String
  sortPypiVersions : List String → List String
  specifierContains : String → String → Option Bool
  parseWheelFilename : String → Option (String × String)
  parseSdistFilename : String → Option (String × String)
  openWheel : NpmPublish.Bytes → Except String PypiPublish.WheelArchive
  parseMetadata : NpmPublish.Bytes → PypiPublish.Form
  namespaces : Ecosystem → List String
  resolution : Ecosystem → String → Bool × Except ResolveError (Option ResolveResult)
  inlineScan : Ecosystem → String → String → Scan
  engine : PolicyEngine
  now : Time

namespace RegistryEnv

variable (env : RegistryEnv)

def caseMap : CaseMap := env.codec.caseMap

def ownership : OwnershipEnv where
  caseMap := env.caseMap
  sqlLower := env.sqlLower
  namespaces := env.namespaces
  pep440 := env.pep440
  resolution := env.resolution

def policy : PolicyEnv where
  caseMap := env.caseMap
  specifierContains := env.specifierContains

def dists : PypiPublish.Distributions where
  codec := env.codec
  pep440 := env.pep440
  parseWheelFilename := env.parseWheelFilename
  parseSdistFilename := env.parseSdistFilename
  openWheel := env.openWheel
  parseMetadata := env.parseMetadata

def naming : Naming where
  caseMap := env.caseMap
  floatText := env.floatText
  normalizePypiVersion := env.pep440.normalize
  sortPypiVersions := env.sortPypiVersions
  maxSemver versions := ((Minireg.maxSemver versions).toOption).join

/-- `normalized_for`. -/
def normalizedFor (ecosystem : Ecosystem) (name : String) : String :=
  normalizeNameFor env.caseMap ecosystem name

end RegistryEnv

section Verdicts

variable (env : RegistryEnv) (ecosystem : Ecosystem) (normalized : String)

/-- The subject of a version that was just scanned. -/
def scannedSubject (version : String) (scan : Scan) : Subject where
  ecosystem := ecosystem
  normalizedName := normalized
  version := some version
  maxCvss := scan.maxScore
  hasFix := scan.hasFix
  scanned := scan.scanned
  hasAdvisories := some scan.hasAdvisories
  malicious := scan.malicious

/-- The subject of a stored version. -/
def storedSubject (v : PackageVersion) : Subject where
  ecosystem := ecosystem
  normalizedName := normalized
  version := some v.version
  maxCvss := v.maxCvss
  hasFix := v.hasFix
  scanned := v.scannedAt.isSome
  hasAdvisories := some v.hasAdvisories
  malicious := v.isMalicious

/-- `_blocked_versions`, as texts. -/
def blockedVersions (package : Package) : Except ValueError (List String) := do
  let blocked ← package.versions.rows.filterM fun v => do
    return !(← evaluate env.policy env.engine (storedSubject ecosystem normalized v)).allowed
  return blocked.map PackageVersion.version

end Verdicts

/-- The package row that a publish works on: the name becomes local, and owned. -/
def openPackage (ecosystem : Ecosystem) (name normalized : String) (grant : PublishGrant) : Package :=
  let package : Package := grant.package.getD
    { ecosystem := ecosystem, name := name, normalizedName := normalized }
  { package with
    isLocal := true
    ownerUserId := if package.ownerUserId = none then grant.ownerUserId else package.ownerUserId }

/-- `_record_publish_denied`: it commits. -/
def recordPublishDenied (ecosystem : String) (identity : Identity) (target : String)
    (reason : Option String) (s : Session) : Session :=
  (s.change fun db => db.recordAudit
    { action := "registry.publish.denied"
      actorUserId := identity.userId
      targetId := ecosystem ++ ":" ++ target
      success := false
      reason := reason }).commit

end Minireg
