import Minireg.Docker.Db
import Mathlib.Data.List.Dedup

/-!
# Image policy

What may be pulled. `evaluateRules` judges a scanned image by the deny list, the
known-exploited findings and a severity threshold; `evaluatePull` says whether a
repository may serve a manifest right now.
-/

namespace Minireg.Docker

open Py

/-! ## The policy -/

/-- `_rank`. -/
def Severity.rank : Severity → Nat
  | .unknown => 0
  | .low => 1
  | .medium => 2
  | .high => 3
  | .critical => 4

def Severity.name : Severity → String
  | .unknown => "UNKNOWN"
  | .low => "LOW"
  | .medium => "MEDIUM"
  | .high => "HIGH"
  | .critical => "CRITICAL"

structure GateRules where
  blockKev : Bool := false
  blockSeverity : Option Severity := none
  onlyFixable : Bool := true
  deriving DecidableEq, Repr

structure ImagePolicy where
  scanningEnabled : Bool := true
  scanOnPull : Bool := true
  strictMode : Bool := false
  denyCves : List String := []
  allowCves : List String := []
  pull : GateRules := {}
  push : GateRules := { blockKev := true, blockSeverity := some .critical, onlyFixable := true }
  pushRequireScan : Bool := true
  rescanHours : Nat := 24
  rescanRecentDays : Nat := 30
  maxScanBytes : Nat := 6 * 1024 * 1024 * 1024
  platforms : List String := ["linux/amd64", "linux/arm64"]
  severities : List Severity := [.unknown, .low, .medium, .high, .critical]
  ignoreUnfixed : Bool := false
  keepReports : Nat := 3
  deriving DecidableEq, Repr

/-- Is this platform on the scan list? A listed platform without a variant
covers its variants. -/
def ImagePolicy.scansPlatform (policy : ImagePolicy) (platform : Option String) : Bool :=
  match platform with
  | none => true
  | some platform =>
    platform = "" || policy.platforms = [] || policy.platforms.any fun p =>
      platform = p ||
        (p.toList.count '/' = 1 && (p ++ "/").toList.isPrefixOf platform.toList)

/-! ## Verdicts -/

inductive VerdictCode where
  | denied | unavailable
  deriving DecidableEq, Repr

structure ImageVerdict where
  allowed : Bool
  reason : Option String := none
  code : VerdictCode := .denied
  retryAfter : Option Nat := none
  source : Option String := none
  deriving DecidableEq, Repr

/-- `ALLOW`. -/
def allow : ImageVerdict := { allowed := true }

/-- A firm refusal. -/
def refuse (reason source : String) : ImageVerdict :=
  { allowed := false, reason := some reason, source := some source }

section Rules

variable (db : Db)

/-- The findings stored for a manifest. -/
def findingsOf (manifestId : Nat) : List DockerFinding :=
  db.findings.filter fun f => f.manifestId = manifestId

def DockerFinding.fixable (f : DockerFinding) : Bool := f.fixedVersion.getD "" ≠ ""

/-- Findings that count against the gates, after the accepted-risk list. -/
def gateCounts (manifestId : Nat) (policy : ImagePolicy) : List DockerFinding :=
  (findingsOf db manifestId).filter fun f => f.vulnId ∉ policy.allowCves

def deniedCvesPresent (manifestId : Nat) (policy : ImagePolicy) : List String :=
  (((findingsOf db manifestId).filter fun f => f.vulnId ∈ policy.denyCves).map
    DockerFinding.vulnId).dedup.take 5

def thresholdHits (rules : GateRules) (counts : List DockerFinding) : Nat :=
  match rules.blockSeverity with
  | none => 0
  | some floor =>
    (counts.filter fun f => (!rules.onlyFixable || f.fixable) && floor.rank ≤ f.severity.rank).length

/-- Deny list, KEV and severity threshold against a scanned manifest. -/
def evaluateRules (manifestId : Nat) (policy : ImagePolicy) (rules : GateRules) (label : String) :
    ImageVerdict :=
  let denied := deniedCvesPresent db manifestId policy
  if denied ≠ [] then
    refuse ("image contains " ++ join ", " denied ++ ", which the image policy denies") "deny_list"
  else if !(rules.blockKev || rules.blockSeverity.isSome) then allow
  else
    let counts := gateCounts db manifestId policy
    let kev := (counts.filter DockerFinding.kev).length
    if rules.blockKev && kev ≠ 0 then
      refuse (label ++ " policy: image contains " ++ toString kev ++
        " known-exploited vulnerabilities (CISA KEV)") "kev"
    else
      let hits := thresholdHits rules counts
      if hits ≠ 0 then
        refuse (label ++ " policy: image has " ++ toString hits ++
          (if rules.onlyFixable then " fixable " else " ") ++ "findings at " ++
          (rules.blockSeverity.map Severity.name).getD "None" ++ " or above") "severity"
      else allow

/-- `push_block_reasons`: the push verdict recorded for a manifest in this repository. -/
def pushBlockReason (repo : DockerRepository) (manifestId : Nat) : Option String :=
  (db.linkOf repo manifestId).bind DockerRepoManifest.pushBlockReason

/-- The verdict an index takes from one of its platform images, if it is firm. -/
def evaluateChild (repo : DockerRepository) (policy : ImagePolicy) (child : DockerManifest) :
    Option ImageVerdict :=
  let blocked := if repo.isLocal then (pushBlockReason db repo child.id).getD "" else ""
  let verdict :=
    if blocked ≠ "" then some (refuse blocked "push_policy")
    else if child.scanStatus = .scanned then some (evaluateRules db child.id policy policy.pull "pull")
    else none
  verdict.bind fun v =>
    if !v.allowed && v.code = .denied then
      let place := match child.platform with
        | some p => if p ≠ "" then p else takeChars 19 child.digest
        | none => takeChars 19 child.digest
      some { allowed := false, reason := some (place ++ ": " ++ v.reason.getD "None"),
             source := v.source }
    else none

/-- The platform images an index names. -/
def childImages (indexId : Nat) : List DockerManifest :=
  db.manifests.rows.filter fun m => m.digest ∈ db.childDigests [indexId] && m.kind = .image

/-- `_evaluate_index`: an index takes the verdict of its worst platform image. -/
def evaluateIndex (repo : DockerRepository) (indexId : Nat) (policy : ImagePolicy) : ImageVerdict :=
  ((childImages db indexId).findSome? (evaluateChild db repo policy)).getD allow

/-- `_skip_reason`: what the last scan job of the manifest said. -/
def skipReason (manifestId : Nat) : Option String :=
  match ((db.jobs.rows.filter fun j => j.manifestId = manifestId).foldl
      (fun (best : Option DockerScanJob) j => match best with
        | none => some j
        | some b => if j.id > b.id then some j else some b) none).bind DockerScanJob.error with
  | some e => if e ≠ "" then some (takeChars 200 e) else none
  | none => none

/-- An unscanned image is held, or refused, where the policy waits for scans. -/
def gated (repo : DockerRepository) (policy : ImagePolicy) : Bool :=
  policy.scanningEnabled && (policy.strictMode || (repo.isLocal && policy.pushRequireScan))

/-- May this manifest be served from this repository right now? -/
def evaluatePull (repo : DockerRepository) (manifest : DockerManifest) (policy : ImagePolicy) :
    ImageVerdict :=
  if repo.quarantined then
    refuse ("repository " ++ repo.name ++ " is quarantined" ++
      (if repo.quarantineReason.getD "" ≠ "" then ": " ++ repo.quarantineReason.getD "" else ""))
      "quarantine"
  else
    let reason := if repo.isLocal then (pushBlockReason db repo manifest.id).getD "" else ""
    if reason ≠ "" then refuse reason "push_policy"
    else
      match manifest.kind with
      | .index => evaluateIndex db repo manifest.id policy
      | .image =>
        if manifest.scanStatus = .scanned then
          evaluateRules db manifest.id policy policy.pull "pull"
        else if !gated repo policy then allow
        else if manifest.scanStatus = .notApplicable then
          let why := skipReason db manifest.id
          refuse ("image could not be scanned" ++
            (match why with
              | some w => " (" ++ w ++ ")"
              | none => "") ++
            ", and policy refuses images that have not been scanned") "unscanned"
        else
          { allowed := false
            reason := some "image has not been scanned yet; a scan is queued, retry shortly"
            code := .unavailable
            retryAfter := some 15
            source := some "unscanned" }
      | _ => allow

end Rules

/-- A stored finding has an id of the deny list. -/
theorem deniedCvesPresent_ne_nil {db : Db} {manifestId : Nat} {policy : ImagePolicy} :
    deniedCvesPresent db manifestId policy ≠ [] ↔
    ∃ f ∈ findingsOf db manifestId, f.vulnId ∈ policy.denyCves := by
  unfold deniedCvesPresent
  rw [Ne, List.take_eq_nil_iff]
  simp [List.dedup_eq_nil, List.filter_eq_nil_iff]

end Minireg.Docker
