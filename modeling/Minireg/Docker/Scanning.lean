import Minireg.Docker.Report

/-!
# The scan queue

`enqueue` puts at most one waiting or running job in the queue for a manifest,
`claim` hands the next one to a worker under a lease, `fail`, `skip` and `ingest`
end it. A claim marks the image as being scanned; `ingest` replaces its findings
and holds it to the push rules. `scannerClaim`, `runningJob` and `scannerResult`
are the routes the worker calls.
-/

namespace Minireg.Docker

open Py Lib

/-! ## Writing rows -/

namespace Db

variable (db : Db)

/-- Rewrite the row of one job; its id stays. -/
def updateJob (jobId : Nat) (f : DockerScanJob → DockerScanJob) : Db :=
  { db with jobs := db.jobs.modify (fun j =>
      if j.id = jobId then { f j with id := j.id } else j) (by
      intro j
      split <;> rfl) }

def setScanStatus (manifestId : Nat) (status : ScanStatus) : Db :=
  db.updateManifest manifestId fun m => { m with scanStatus := status }

section

variable {db} {jobId manifestId : Nat} {f f' : DockerScanJob → DockerScanJob}
  {g : DockerManifest → DockerManifest} {status status' : ScanStatus}

@[simp] theorem updateJob_manifests : (db.updateJob jobId f).manifests = db.manifests := rfl
@[simp] theorem updateJob_findings : (db.updateJob jobId f).findings = db.findings := rfl
@[simp] theorem updateJob_nextId : (db.updateJob jobId f).nextId = db.nextId := rfl
@[simp] theorem updateManifest_jobs : (db.updateManifest manifestId g).jobs = db.jobs := rfl
@[simp] theorem updateManifest_findings :
    (db.updateManifest manifestId g).findings = db.findings := rfl
@[simp] theorem updateManifest_nextId : (db.updateManifest manifestId g).nextId = db.nextId := rfl

theorem mem_updateJob {j : DockerScanJob} :
    j ∈ (db.updateJob jobId f).jobs ↔
      ∃ i ∈ db.jobs, (if i.id = jobId then { f i with id := i.id } else i) = j :=
  List.mem_map

theorem mem_updateManifest {m : DockerManifest} :
    m ∈ (db.updateManifest manifestId g).manifests ↔
      ∃ n ∈ db.manifests, (if n.id = manifestId then { g n with id := n.id } else n) = m :=
  List.mem_map

/-- Two writes to one job are one. -/
theorem updateJob_updateJob :
    (db.updateJob jobId f).updateJob jobId f' =
      db.updateJob jobId fun j => f' { f j with id := j.id } := by
  unfold updateJob
  congr 1
  refine Table.ext_rows (List.map_map.trans (List.map_congr_left fun j _ => ?_))
  by_cases h : j.id = jobId <;> simp [h]

theorem updateJob_setScanStatus :
    (db.setScanStatus manifestId status).updateJob jobId f =
      (db.updateJob jobId f).setScanStatus manifestId status := rfl

theorem mem_setScanStatus {m : DockerManifest} :
    m ∈ (db.setScanStatus manifestId status).manifests ↔
      ∃ n ∈ db.manifests,
        (if n.id = manifestId then { n with scanStatus := status } else n) = m :=
  mem_updateManifest

theorem setScanStatus_setScanStatus :
    (db.setScanStatus manifestId status).setScanStatus manifestId status' =
      db.setScanStatus manifestId status' := by
  unfold setScanStatus updateManifest
  congr 1
  refine Table.ext_rows (List.map_map.trans (List.map_congr_left fun m _ => ?_))
  by_cases h : m.id = manifestId <;> simp [h]

end

end Db

/-! ## Queue -/

/-- Priorities. Lower runs first. -/
def priorityPush : Nat := 10
def priorityPull : Nat := 50
def priorityManual : Nat := 60
def prioritySchedule : Nat := 100

/-- Two minutes. -/
def lease : Time := 2 * 60 * 1000000

def maxAttempts : Nat := 3

/-- Waiting or running. -/
def DockerScanJob.active (j : DockerScanJob) : Bool := j.status = .queued || j.status = .running

/-- The waiting or running job of a manifest. -/
def activeJob (db : Db) (manifestId : Nat) : Option DockerScanJob :=
  db.jobs.rows.find? fun j => j.manifestId = manifestId && j.active

/-- The row of a new scan of a manifest. -/
def scanJob (id : Nat) (manifest : DockerManifest) (repository : String) (reason : ScanReason)
    (priority : Nat) (mode : Option ScanMode) : DockerScanJob :=
  { id := id
    manifestId := manifest.id
    repository := takeChars 512 repository
    mode := mode.getD
      (if manifest.sbomDigest.getD "" ≠ "" && reason = .schedule then .sbom else .image)
    reason := reason
    priority := priority }

/-- Queue a scan unless one is already waiting or running for the manifest. The
job returned is the new or the existing one. -/
def enqueue (manifest : DockerManifest) (repository : String) (reason : ScanReason)
    (priority : Nat) (mode : Option ScanMode) (db : Db) : Db × Option Nat :=
  if manifest.kind ≠ .image then (db, none)
  else
    match activeJob db manifest.id with
    | some existing =>
      if priority < existing.priority && existing.status = .queued then
        (db.updateJob existing.id fun j => { j with priority := priority }, some existing.id)
      else (db, some existing.id)
    | none =>
      let job := scanJob db.nextId manifest repository reason priority mode
      let db := { db with jobs := db.jobs.put job, nextId := db.nextId + 1 }
      if manifest.scanStatus = .unscanned || manifest.scanStatus = .failed then
        (db.setScanStatus manifest.id .queued, some job.id)
      else (db, some job.id)

/-- Its worker stopped renewing the lease. -/
def DockerScanJob.expired (now : Time) (j : DockerScanJob) : Bool :=
  j.status = .running && j.leaseUntil.any (· < now)

/-- A job whose lease ran out goes back to the queue. -/
def DockerScanJob.requeue (now : Time) (j : DockerScanJob) : DockerScanJob :=
  if j.expired now then { j with status := .queued, worker := none, leaseUntil := none } else j

theorem DockerScanJob.requeue_id (now : Time) (j : DockerScanJob) : (j.requeue now).id = j.id := by
  unfold DockerScanJob.requeue
  split <;> rfl

def requeueExpired (now : Time) (db : Db) : Db :=
  { db with jobs := db.jobs.modify (DockerScanJob.requeue now) (DockerScanJob.requeue_id now) }

theorem mem_requeueExpired {now : Time} {db : Db} {j : DockerScanJob} :
    j ∈ (requeueExpired now db).jobs ↔ ∃ i ∈ db.jobs, i.requeue now = j := List.mem_map

/-- The job that runs next: lowest priority, then lowest id. -/
def nextJob (db : Db) : Option DockerScanJob :=
  ((db.jobs.rows.filter fun j => j.status = .queued).insertionSort fun a b =>
    a.priority < b.priority ∨ a.priority = b.priority ∧ a.id ≤ b.id).head?

/-- What a claim writes onto the job. -/
def DockerScanJob.claimed (worker : String) (now : Time) (j : DockerScanJob) : DockerScanJob :=
  { j with status := .running, worker := some (takeChars 128 worker), attempts := j.attempts + 1,
           startedAt := some now, leaseUntil := some (now + lease) }

@[simp] theorem DockerScanJob.claimed_id (worker : String) (now : Time) (j : DockerScanJob) :
    (j.claimed worker now).id = j.id := rfl
@[simp] theorem DockerScanJob.claimed_manifestId (worker : String) (now : Time)
    (j : DockerScanJob) : (j.claimed worker now).manifestId = j.manifestId := rfl

/-- Take the next job. -/
def claim (worker : String) (now : Time) (db : Db) : Db × Option DockerScanJob :=
  let db := requeueExpired now db
  match nextJob db with
  | none => (db, none)
  | some job =>
    ((db.updateJob job.id (DockerScanJob.claimed worker now)).setScanStatus job.manifestId .scanning,
      some (job.claimed worker now))

def renew (job : DockerScanJob) (now : Time) (db : Db) : Db :=
  db.updateJob job.id fun j => { j with leaseUntil := some (now + lease) }

/-- Record a failed attempt, retried up to `maxAttempts` unless `retry` is off. -/
def fail (job : DockerScanJob) (error : String) (retry : Bool) (now : Time) (db : Db) : Db :=
  let error := takeChars 2000 (if error ≠ "" then error else "unknown error")
  if maxAttempts ≤ job.attempts || !retry then
    (db.updateJob job.id fun j =>
      { j with status := .failed, error := some error, finishedAt := some now }).setScanStatus
        job.manifestId .failed
  else
    let db := db.updateJob job.id fun j =>
      { j with status := .queued, error := some error, worker := none, leaseUntil := none }
    db.updateManifest job.manifestId (fun m =>
      { m with scanStatus := if m.scanStatus = .scanning then .queued else m.scanStatus })

/-- What a skip writes onto the job. -/
def DockerScanJob.skipped (reason : String) (now : Time) (j : DockerScanJob) : DockerScanJob :=
  { j with status := .done, error := some (takeChars 2000 reason), finishedAt := some now }

/-- The job cannot be scanned by design. -/
def skip (job : DockerScanJob) (reason : String) (now : Time) (db : Db) : Db :=
  (db.updateJob job.id (DockerScanJob.skipped reason now)).setScanStatus job.manifestId
    .notApplicable

/-- `scanner_claim`: the next job the worker is handed. A job that turns out not
to be scannable is skipped. -/
def scannerClaim (policy : ImagePolicy) (worker : String) (now : Time) (db : Db) :
    Db × Option DockerScanJob :=
  if !policy.scanningEnabled then (db, none)
  else
    match claim worker now db with
    | (db, none) => (db, none)
    | (db, some job) =>
      match db.manifests.find? job.manifestId with
      | none => (skip job "not a scannable image" now db, none)
      | some manifest =>
        if manifest.kind ≠ .image then (skip job "not a scannable image" now db, none)
        else if policy.maxScanBytes ≠ 0 && policy.maxScanBytes < manifest.totalSize then
          (skip job ("image is " ++ toString manifest.totalSize ++ " bytes, over the " ++
            toString policy.maxScanBytes ++ " scan limit") now db, none)
        else if job.mode = .sbom && manifest.sbomDigest.getD "" = "" then
          (db.updateJob job.id fun j => { j with mode := .image },
            some { job with mode := .image })
        else (db, some job)

/-- `_running_job`. -/
def runningJob (db : Db) (jobId : Nat) (worker : String) : Option DockerScanJob :=
  (db.jobs.find? jobId).filter fun j =>
    j.status = .running && (worker = "" || j.worker = some worker)

/-! ## Ingestion -/

/-- `_release_file`: delete a report or SBOM file unless another row points at it. -/
def releaseFile (digest : Digest) (db : Db) : Db :=
  let still := db.scans.rows.countP (fun s => s.reportDigest = some digest) +
    db.manifests.rows.countP (fun m => m.sbomDigest = some digest)
  if still ≤ 1 then db.deleteFile digest else db

/-- Forget the report of a scan. -/
def clearReport (scanId : Nat) (db : Db) : Db :=
  { db with scans := db.scans.modify (fun s =>
      if s.id = scanId then { s with reportDigest := none } else s) (by
      intro s
      split <;> rfl) }

/-- `_prune_reports`: keep the newest reports of a manifest. -/
def pruneReports (manifestId keep : Nat) (db : Db) : Db :=
  let scans := (db.scans.rows.filter fun s => s.manifestId = manifestId).insertionSort
    fun a b => b.id ≤ a.id
  (scans.drop keep).foldl (fun db old =>
    match old.reportDigest with
    | some digest => if digest ≠ "" then clearReport old.id (releaseFile digest db) else db
    | none => db) db

/-- The link is in a local repository. -/
def inLocal (db : Db) (l : DockerRepoManifest) : Bool :=
  db.repositories.rows.any fun r => r.id = l.repositoryId && r.isLocal

/-- Hold an image served from a local repository to the push bar, once its scan is in. -/
def applyPushPolicy (manifest : DockerManifest) (policy : ImagePolicy) (db : Db) : Db :=
  if manifest.kind ≠ .image || manifest.scanStatus ≠ .scanned then db
  else if !(db.repoManifests.any fun l => l.manifestId = manifest.id && inLocal db l) then db
  else
    let verdict := evaluateRules db manifest.id policy policy.push "push"
    { db with repoManifests := db.repoManifests.map fun l =>
        if l.manifestId = manifest.id && inLocal db l then
          { l with pushBlockReason := if verdict.allowed then none else verdict.reason }
        else l }

/-- `reapply_push_policy`, after the policy was saved. -/
def reapplyPushPolicy (policy : ImagePolicy) (db : Db) : Db :=
  (db.manifests.rows.filter fun m => m.kind = .image && m.scanStatus = .scanned &&
      db.repoManifests.any fun l => l.manifestId = m.id && inLocal db l).foldl
    (fun db m => applyPushPolicy m policy db) db

/-- `reflag_kev`: mark the findings the catalogue lists. -/
def reflagKev (policy : ImagePolicy) (db : Db) : Db :=
  reapplyPushPolicy policy
    { db with findings := db.findings.map fun f => { f with kev := f.vulnId ∈ db.kevEntries } }

/-- The rows stored for what a scan found. -/
def findingRows (db : Db) (manifestId scanId : Nat) (findings : List ParsedFinding) :
    List DockerFinding :=
  let kev := db.kevEntries.filter fun c =>
    "CVE-".toList.isPrefixOf c.toList && c ∈ findings.map ParsedFinding.vulnId
  findings.map fun f =>
    { manifestId := manifestId, scanId := scanId, vulnId := f.vulnId, pkgName := f.pkgName
      installedVersion := f.installedVersion, fixedVersion := f.fixedVersion
      severity := f.severity, kev := f.vulnId ∈ kev }

/-- Store the SBOM of a scan and let go of the one it replaces. -/
def storeSbom (env : ScanEnv) (manifest : DockerManifest) (sbom : List UInt8) (db : Db) : Db :=
  let digest := env.sha256 sbom
  let db := db.putFile digest
  let db := match manifest.sbomDigest with
    | some old => if old ≠ "" && old ≠ digest then releaseFile old db else db
    | none => db
  db.updateManifest manifest.id fun m => { m with sbomDigest := some digest }

/-- Replace the findings of a manifest by those of a new scan. -/
def recordScan (manifest : DockerManifest) (job : DockerScanJob) (reportDigest : Digest)
    (findings : List ParsedFinding) (now : Time) (db : Db) : Db :=
  let scan : DockerScan :=
    { id := db.nextId, manifestId := manifest.id, mode := job.mode
      reportDigest := some reportDigest }
  let db :=
    { db with
      scans := db.scans.put scan
      nextId := db.nextId + 1
      findings := db.findings.filter (fun f : DockerFinding => f.manifestId ≠ manifest.id) ++
        findingRows db manifest.id scan.id findings }
  let db := db.updateManifest manifest.id fun m =>
    { m with scanStatus := .scanned, scannedAt := some now, latestScanId := some scan.id }
  db.updateJob job.id fun j => { j with status := .done, finishedAt := some now, error := none }

/-- A result is in. -/
def ingest (env : ScanEnv) (policy : ImagePolicy) (job : DockerScanJob) (report : List UInt8)
    (sbom : Option (List UInt8)) (now : Time) (db : Db) : Except ReportError Db :=
  match db.manifests.find? job.manifestId with
  | none => .error (.invalid "the manifest this job was for no longer exists")
  | some manifest =>
    match parseReport env policy report with
    | .error e => .error e
    | .ok findings =>
      match (match sbom with
        | some raw => validateSbom env raw
        | none => .ok ()) with
      | .error e => .error e
      | .ok () =>
        let db := db.putFile (env.sha256 report)
        let db := match sbom with
          | some raw => storeSbom env manifest raw db
          | none => db
        let db := recordScan manifest job (env.sha256 report) findings now db
        let db := pruneReports manifest.id policy.keepReports db
        .ok (applyPushPolicy { manifest with scanStatus := .scanned } policy db)

/-- `scanner_result`: a rejected report counts as a failed attempt. -/
def scannerResult (env : ScanEnv) (policy : ImagePolicy) (jobId : Nat) (worker : String)
    (report : List UInt8) (sbom : Option (List UInt8)) (now : Time) (db : Db) : Db :=
  match runningJob db jobId worker with
  | none => db
  | some job =>
    match ingest env policy job report sbom now db with
    | .ok db => db
    | .error (.invalid message) => fail job ("rejected report: " ++ message) true now db
    | .error .typeError => db

/-- `scanner_heartbeat`. -/
def scannerHeartbeat (jobId : Nat) (worker : String) (now : Time) (db : Db) : Db :=
  match runningJob db jobId worker with
  | none => db
  | some job => renew job now db

/-- `scanner_fail`. -/
def scannerFail (jobId : Nat) (worker error : String) (permanent : Bool) (now : Time) (db : Db) :
    Db :=
  match runningJob db jobId worker with
  | none => db
  | some job => fail job error (!permanent) now db

/-! ## Scheduling -/

/-- The scanned images pulled lately whose last scan is old, each with the
repositories that hold it, oldest scan first. -/
def staleImages (policy : ImagePolicy) (now : Time) (db : Db) :
    List (DockerManifest × DockerRepository) :=
  let stale := now - policy.rescanHours * 3600 * 1000000
  let recent := now - policy.rescanRecentDays * 86400 * 1000000
  let due := db.manifests.rows.filter fun m => m.kind = .image && m.scanStatus = .scanned &&
    m.scannedAt.any (· < stale) && m.lastAccessedAt.any (recent ≤ ·)
  ((due.flatMap fun m => db.repoManifests.flatMap fun l =>
    if l.manifestId = m.id then
      (db.repositories.rows.filter fun r => r.id = l.repositoryId).map fun r => (m, r)
    else [])).insertionSort fun a b => a.1.scannedAt.getD 0 ≤ b.1.scannedAt.getD 0

/-- Queue each image once. -/
def enqueueAll : List (DockerManifest × DockerRepository) → List Nat → Db → Db
  | [], _, db => db
  | (m, r) :: rest, done, db =>
    if m.id ∈ done then enqueueAll rest done db
    else
      let mode := if m.sbomDigest.getD "" ≠ "" then ScanMode.sbom else .image
      enqueueAll rest (m.id :: done) (enqueue m r.name .schedule prioritySchedule (some mode) db).1

/-- Queue rescans of images whose last scan is older than `rescanHours`. -/
def scheduleRescans (policy : ImagePolicy) (now : Time) (limit : Nat) (db : Db) : Db :=
  if !policy.scanningEnabled then db
  else enqueueAll ((staleImages policy now db).take limit) [] db

/-- Would a pull of the image from this repository queue a scan? -/
def scanEligible (repo : DockerRepository) (manifest : DockerManifest) (policy : ImagePolicy) :
    Bool :=
  manifest.kind = .image && policy.scanningEnabled && !repo.quarantined &&
    (manifest.scanStatus = .unscanned || manifest.scanStatus = .failed) &&
    (policy.scanOnPull || repo.isLocal) && policy.scansPlatform manifest.platform

/-- `_maybe_scan`, where a pull calls it. -/
def maybeScan (repo : DockerRepository) (manifest : DockerManifest) (policy : ImagePolicy)
    (db : Db) : Db :=
  if scanEligible repo manifest policy then
    (enqueue manifest repo.name .pull (if repo.isLocal then priorityPush else priorityPull) none
      db).1
  else db

end Minireg.Docker
