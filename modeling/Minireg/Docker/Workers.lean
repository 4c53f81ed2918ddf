import Minireg.Docker.Queue

/-!
# The workers of the scan queue

A request of a worker looks at its job and commits what it makes of it, and so does a request
that queues a scan; other requests commit in between. `Scanners` keeps the requests that have
looked and not committed (`calls`), and to whom each job was handed. A claim holds the rows it
reads, so it is one step.
-/

namespace Minireg.Docker

open Py Lib

/-! ## Requests -/

/-- What a worker reports about a job. -/
inductive Report where
  | heartbeat
  | failed (error : String) (retry : Bool)
  | scanned (report : List UInt8) (sbom : Option (List UInt8))

/-- A request with the job it has looked at: the one a scan is already queued as, or the one a
worker reports about. -/
inductive ScanCall where
  | enqueue (manifest : DockerManifest) (repository : String) (reason : ScanReason)
      (priority : Nat) (mode : Option ScanMode) (existing : Option DockerScanJob)
  | worker (job : DockerScanJob) (worker : String) (report : Report)

/-- The part of `enqueue` after it looked for a job. -/
def enqueueFound (manifest : DockerManifest) (repository : String) (reason : ScanReason)
    (priority : Nat) (mode : Option ScanMode) (existing : Option DockerScanJob) (db : Db) : Db :=
  match existing with
  | some existing =>
    if priority < existing.priority && existing.status = .queued then
      db.updateJob existing.id fun j => { j with priority := priority }
    else db
  | none =>
    let job := scanJob db.nextId manifest repository reason priority mode
    let db := { db with jobs := db.jobs.put job, nextId := db.nextId + 1 }
    if manifest.scanStatus = .unscanned || manifest.scanStatus = .failed then
      db.setScanStatus manifest.id .queued
    else db

structure Scanners where
  db : Db
  calls : List ScanCall := []
  /-- The jobs that were handed out, to whom, the latest first. -/
  handed : List (Nat × String) := []

namespace Scanners

/-- How often a job was handed out. -/
def timesHanded (s : Scanners) (jobId : Nat) : Nat := s.handed.countP (·.1 = jobId)

/-- The worker a job was handed to last. -/
def lastHandedTo (s : Scanners) (jobId : Nat) : Option String :=
  (s.handed.find? (·.1 = jobId)).map Prod.snd

end Scanners

/-- What the requests do: look, and later commit or break off. A `claim` does both. `outside` is
any other change of the database, which may delete jobs. -/
inductive ScannersAct where
  | outside
  | enqueue (manifest : DockerManifest) (repository : String) (reason : ScanReason)
      (priority : Nat) (mode : Option ScanMode)
  | claim (policy : ImagePolicy) (worker : String) (now : Time)
  | report (jobId : Nat) (worker : String) (report : Report)
  | commit (i : Nat) (policy : ImagePolicy) (now : Time)
  | breakOff (i : Nat)

/-- A report commits. One whose scan is rejected looks again, to report a failure. -/
def commitReport (env : ScanEnv) (policy : ImagePolicy) (now : Time) (job : DockerScanJob)
    (worker : String) (report : Report) (db : Db) : Db × Option ScanCall :=
  match report with
  | .heartbeat => (renew job now db, none)
  | .failed error retry => (fail job error retry now db, none)
  | .scanned report sbom =>
    match ingest env policy job report sbom now db with
    | .ok db => (db, none)
    | .error (.invalid message) =>
      (db, (runningJob db job.id worker).map fun job =>
        .worker job worker (.failed ("rejected report: " ++ message) true))
    | .error .typeError => (db, none)

/-- One step; `none` is a request that is refused before it looks. -/
def Scanners.step (env : ScanEnv) (s : Scanners) : ScannersAct → Option Scanners
  | .outside => none
  | .enqueue manifest repository reason priority mode =>
    if manifest.kind ≠ .image then some s
    else some { s with calls := s.calls ++
      [.enqueue manifest repository reason priority mode (activeJob s.db manifest.id)] }
  | .claim policy worker now =>
    if worker = "" || 128 < worker.length then none
    else
      let (db, job) := scannerClaim policy worker now s.db
      some { s with db := db, handed := (job.map fun j => (j.id, worker)).toList ++ s.handed }
  | .report jobId worker report =>
    if 128 < worker.length then none
    else some { s with
      calls := s.calls ++ ((runningJob s.db jobId worker).map (.worker · worker report)).toList }
  | .commit i policy now =>
    match s.calls[i]? with
    | none => none
    | some (.enqueue manifest repository reason priority mode existing) =>
      some { s with
        db := enqueueFound manifest repository reason priority mode existing s.db
        calls := s.calls.eraseIdx i }
    | some (.worker job worker report) =>
      let (db, again) := commitReport env policy now job worker report s.db
      some { s with db := db, calls := s.calls.eraseIdx i ++ again.toList }
  | .breakOff i => some { s with calls := s.calls.eraseIdx i }

/-- The database changes elsewhere: jobs are at most deleted, and ids are not given out twice. -/
structure Scanners.Outside (s s' : Scanners) : Prop where
  calls : s'.calls = s.calls
  handed : s'.handed = s.handed
  jobs : ∀ j ∈ s'.db.jobs, j ∈ s.db.jobs
  nextId : s.db.nextId ≤ s'.db.nextId

/-- The queue, its workers and whoever queues scans. -/
def scanners (env : ScanEnv) : System Scanners ScannersAct where
  init s := s.db.jobs = .empty _ ∧ s.calls = [] ∧ s.handed = []
  Step s a s' := a = .outside ∧ s.Outside s' ∨ s.step env a = some s'

/-! ## What each commit does to the jobs -/

section Commits

variable {env : ScanEnv} {policy : ImagePolicy} {db db' : Db}

theorem takeChars_of_length_le {n : Nat} {s : String} (h : s.length ≤ n) : takeChars n s = s := by
  unfold takeChars
  rw [List.take_of_length_le (by rwa [String.length_toList]), String.ofList_toList]

/-- `scannerClaim` returns expired jobs to the queue, and takes the next one at most: it is
handed out or skipped. -/
theorem scannerClaim_jobs (policy : ImagePolicy) (worker : String) (now : Time) (db : Db) :
    scannerClaim policy worker now db = (db, none) ∨
    scannerClaim policy worker now db = (requeueExpired now db, none) ∨
    ∃ job f, nextJob (requeueExpired now db) = some job ∧
      (scannerClaim policy worker now db).1.nextId = db.nextId ∧
      (scannerClaim policy worker now db).1.jobs =
        ((requeueExpired now db).updateJob job.id f).jobs ∧
      (∀ j, (f j).manifestId = j.manifestId ∧ (f j).attempts = j.attempts + 1) ∧
      (((scannerClaim policy worker now db).2 = none ∧ ∀ j, (f j).status = .done) ∨
        ((scannerClaim policy worker now db).2.map DockerScanJob.id = some job.id ∧
          ∀ j, (f j).status = .running ∧ (f j).worker = some (takeChars 128 worker))) := by
  unfold scannerClaim
  split
  · exact .inl rfl
  refine .inr ?_
  unfold claim
  dsimp only
  rcases hnext : nextJob (requeueExpired now db) with _ | job
  · exact .inl rfl
  refine .inr ⟨job, ?_⟩
  -- a job that cannot be scanned is skipped
  have hskip : ∀ reason, ∃ f : DockerScanJob → DockerScanJob,
      (skip (job.claimed worker now) reason now ((Db.updateJob (requeueExpired now db) job.id
        (DockerScanJob.claimed worker now)).setScanStatus job.manifestId .scanning)).jobs =
          ((requeueExpired now db).updateJob job.id f).jobs ∧
      (∀ j, (f j).manifestId = j.manifestId ∧ (f j).attempts = j.attempts + 1) ∧
      ∀ j, (f j).status = .done := by
    intro reason
    refine ⟨fun j => (j.claimed worker now).skipped reason now, ?_, fun j => ⟨rfl, rfl⟩,
      fun j => rfl⟩
    rw [skip_claimed]
    rfl
  dsimp only
  split
  · obtain ⟨f, hjobs, hf, hdone⟩ := hskip "not a scannable image"
    exact ⟨f, rfl, rfl, hjobs, hf, .inl ⟨rfl, hdone⟩⟩
  split
  · obtain ⟨f, hjobs, hf, hdone⟩ := hskip "not a scannable image"
    exact ⟨f, rfl, rfl, hjobs, hf, .inl ⟨rfl, hdone⟩⟩
  split
  · obtain ⟨f, hjobs, hf, hdone⟩ := hskip _
    exact ⟨f, rfl, rfl, hjobs, hf, .inl ⟨rfl, hdone⟩⟩
  split
  · refine ⟨fun j => { j.claimed worker now with mode := .image }, rfl, rfl, ?_,
      fun j => ⟨rfl, rfl⟩, .inr ⟨rfl, fun j => ⟨rfl, rfl⟩⟩⟩
    exact congrArg (fun db => (Db.setScanStatus db job.manifestId .scanning).jobs)
      Db.updateJob_updateJob
  · exact ⟨DockerScanJob.claimed worker now, rfl, rfl, rfl, fun j => ⟨rfl, rfl⟩,
      .inr ⟨rfl, fun j => ⟨rfl, rfl⟩⟩⟩

/-- How a report rewrites its job: it stays what it was, is done or has failed, or a failure that
may be retried puts it back in the queue. -/
def Report.Rewrites (job : DockerScanJob) (report : Report) (f : DockerScanJob → DockerScanJob) :
    Prop :=
  ∀ j, (f j).manifestId = j.manifestId ∧ (f j).attempts = j.attempts ∧
    ((f j).status = j.status ∧ (f j).worker = j.worker ∨
      (f j).status = .done ∨ (f j).status = .failed ∨
      (∃ error retry, report = .failed error retry) ∧ (f j).status = .queued ∧
        job.attempts < maxAttempts)

/-- A commit rewrites the job of the report, or changes nothing and has looked again. -/
theorem commitReport_cases (env : ScanEnv) (policy : ImagePolicy) (now : Time)
    (job : DockerScanJob) (worker : String) (report : Report) (db : Db) :
    ((commitReport env policy now job worker report db).1 = db ∧
      ∀ call ∈ (commitReport env policy now job worker report db).2,
        ∃ job' error, runningJob db job.id worker = some job' ∧
          call = .worker job' worker (.failed error true)) ∨
    ((commitReport env policy now job worker report db).2 = none ∧
      db.nextId ≤ (commitReport env policy now job worker report db).1.nextId ∧
      ∃ f, report.Rewrites job f ∧
        (commitReport env policy now job worker report db).1.jobs =
          (db.updateJob job.id f).jobs) := by
  unfold commitReport
  cases report with
  | heartbeat =>
    exact .inr ⟨rfl, Nat.le_refl _, fun j => { j with leaseUntil := some (now + lease) },
      fun j => ⟨rfl, rfl, .inl ⟨rfl, rfl⟩⟩, rfl⟩
  | failed error retry =>
    refine .inr ⟨rfl, ?_⟩
    dsimp only
    unfold fail
    generalize takeChars 2000 (if error ≠ "" then error else "unknown error") = text
    dsimp only
    split
    · exact ⟨Nat.le_refl _,
        fun j => { j with status := .failed, error := some text, finishedAt := some now },
        fun j => ⟨rfl, rfl, .inr (.inr (.inl rfl))⟩, rfl⟩
    · next hretry =>
      have hattempts : job.attempts < maxAttempts := by
        simp only [Bool.or_eq_true, decide_eq_true_eq, not_or, not_le] at hretry
        exact hretry.1
      exact ⟨Nat.le_refl _,
        fun j => { j with status := .queued, error := some text, worker := none, leaseUntil := none },
        fun j => ⟨rfl, rfl, .inr (.inr (.inr ⟨⟨error, retry, rfl⟩, rfl, hattempts⟩))⟩, rfl⟩
  | scanned report sbom =>
    dsimp only
    split
    · next db' hok =>
      obtain ⟨m, found, db₁, db₂, d, -, -, -, hc, hdb₂, hcore⟩ := ingest_ok hok
      have hjobs : db₂.jobs = db.jobs ∧ db₂.nextId = db.nextId := by
        simp only [Db.core, Prod.mk.injEq] at hc
        rcases hdb₂ with rfl | ⟨_, rfl⟩
        · exact ⟨hc.2.2.1, hc.2.2.2⟩
        · exact ⟨hc.2.2.1, hc.2.2.2⟩
      have hdone : db'.jobs = (recordScan m job d found now db₂).jobs ∧
          db'.nextId = db₂.nextId + 1 := by
        simp only [Db.core, Prod.mk.injEq] at hcore
        exact ⟨hcore.2.2.1, hcore.2.2.2⟩
      refine .inr ⟨rfl, ?_, fun j =>
        { j with status := .done, finishedAt := some now, error := none },
        fun j => ⟨rfl, rfl, .inr (.inl rfl)⟩, hdone.1.trans ?_⟩
      · rw [hdone.2, hjobs.2]
        exact Nat.le_succ _
      · refine Table.ext_rows ?_
        exact congrArg (fun t : Table DockerScanJob.id => t.rows.map _) hjobs.1
    · next message _ =>
      refine .inl ⟨rfl, fun call hcall => ?_⟩
      obtain ⟨job', hrunning, rfl⟩ := Option.map_eq_some_iff.mp hcall
      exact ⟨job', _, hrunning, rfl⟩
    · exact .inl ⟨rfl, fun call hcall => by cases hcall⟩

end Commits

/-! ## The invariant -/

/-- A request of a named worker has seen its job no later than it was handed out last, and where
it has not been handed out since, it was to this worker. -/
def ScanCall.Ok (s : Scanners) : ScanCall → Prop
  | enqueue _ _ _ _ _ _ => True
  | worker job name _ => job.id < s.db.nextId ∧
      (name ≠ "" → ∀ j ∈ s.db.jobs, j.id = job.id → job.attempts ≤ j.attempts ∧
        (j.attempts = job.attempts → s.lastHandedTo j.id = some name))

structure Scanners.Ok (s : Scanners) : Prop where
  ids : ∀ j ∈ s.db.jobs, j.id < s.db.nextId
  one : ∀ i ∈ s.db.jobs, ∀ j ∈ s.db.jobs, i.active = true → j.active = true →
    i.manifestId = j.manifestId → i = j
  counted : ∀ j ∈ s.db.jobs, s.timesHanded j.id ≤ j.attempts
  attempts : ∀ j ∈ s.db.jobs, j.attempts ≤ maxAttempts
  waiting : ∀ j ∈ s.db.jobs, j.status = .queued → j.attempts < maxAttempts
  running : ∀ j ∈ s.db.jobs, j.status = .running →
    ∃ w, w ≠ "" ∧ j.worker = some w ∧ s.lastHandedTo j.id = some w
  given : ∀ e ∈ s.handed, e.1 < s.db.nextId
  bounded : ∀ jobId, s.timesHanded jobId ≤ maxAttempts
  calls : ∀ call ∈ s.calls, call.Ok s

/-- No job is added, none is handed out or brought back to life, and a job that waits has an
attempt left. -/
structure Calm (db db' : Db) : Prop where
  nextId : db.nextId ≤ db'.nextId
  jobs : ∀ j' ∈ db'.jobs, ∃ j ∈ db.jobs, j'.id = j.id ∧ j'.manifestId = j.manifestId ∧
    j'.attempts = j.attempts ∧ (j'.active = true → j.active = true) ∧
    (j'.status = .queued → j'.attempts < maxAttempts) ∧
    (j'.status = .running → j.status = .running ∧ j'.worker = j.worker)

namespace Scanners

variable {s s' : Scanners}

/-- What is known of the calls outlasts a change in which jobs keep their attempts. -/
theorem callOk_mono {call : ScanCall} (h : call.Ok s) (hnext : s.db.nextId ≤ s'.db.nextId)
    (hhanded : s'.handed = s.handed)
    (hjobs : ∀ j' ∈ s'.db.jobs, ∃ j ∈ s.db.jobs, j'.id = j.id ∧ j'.attempts = j.attempts) :
    call.Ok s' := by
  cases call with
  | enqueue => trivial
  | worker job worker report =>
    refine ⟨Nat.lt_of_lt_of_le h.1 hnext, fun hnamed j' hj' hid => ?_⟩
    obtain ⟨j, hj, hid', hattempts⟩ := hjobs j' hj'
    obtain ⟨hle, hlast⟩ := h.2 hnamed j hj (hid' ▸ hid)
    unfold lastHandedTo at hlast ⊢
    rw [hattempts, hid', hhanded]
    exact ⟨hle, hlast⟩

theorem Ok.calm (h : s.Ok) (hcalm : Calm s.db s'.db) (hhanded : s'.handed = s.handed)
    (hcalls : ∀ call ∈ s'.calls, call ∈ s.calls ∨ call.Ok s) : s'.Ok := by
  have htimes : ∀ jobId, s'.timesHanded jobId = s.timesHanded jobId := fun jobId => by
    unfold timesHanded
    rw [hhanded]
  have hlast : ∀ jobId, s'.lastHandedTo jobId = s.lastHandedTo jobId := fun jobId => by
    unfold lastHandedTo
    rw [hhanded]
  constructor
  · intro j' hj'
    obtain ⟨j, hj, hid, -⟩ := hcalm.jobs j' hj'
    exact hid ▸ Nat.lt_of_lt_of_le (h.ids j hj) hcalm.nextId
  · intro i' hi' j' hj' hai haj hij
    obtain ⟨i, hi, hiid, him, -, hia, -⟩ := hcalm.jobs i' hi'
    obtain ⟨j, hj, hjid, hjm, -, hja, -⟩ := hcalm.jobs j' hj'
    have hsame : i = j := h.one i hi j hj (hia hai) (hja haj) (by rw [← him, ← hjm, hij])
    exact Table.eq_of_key hi' hj' (by rw [hiid, hjid, hsame])
  · intro j' hj'
    obtain ⟨j, hj, hid, -, hattempts, -⟩ := hcalm.jobs j' hj'
    rw [htimes, hid, hattempts]
    exact h.counted j hj
  · intro j' hj'
    obtain ⟨j, hj, -, -, hattempts, -⟩ := hcalm.jobs j' hj'
    exact hattempts ▸ h.attempts j hj
  · intro j' hj'
    obtain ⟨j, -, -, -, -, -, hwaiting, -⟩ := hcalm.jobs j' hj'
    exact hwaiting
  · intro j' hj' hrunning
    obtain ⟨j, hj, hid, -, -, -, -, hrun⟩ := hcalm.jobs j' hj'
    obtain ⟨hstatus, hworker⟩ := hrun hrunning
    rw [hworker, hlast, hid]
    exact h.running j hj hstatus
  · rw [hhanded]
    exact fun e he => Nat.lt_of_lt_of_le (h.given e he) hcalm.nextId
  · exact fun jobId => htimes jobId ▸ h.bounded jobId
  · intro call hcall
    have hok : call.Ok s := (hcalls call hcall).elim (h.calls call) id
    refine callOk_mono hok hcalm.nextId hhanded fun j' hj' => ?_
    obtain ⟨j, hj, hid, -, hattempts, -⟩ := hcalm.jobs j' hj'
    exact ⟨j, hj, hid, hattempts⟩

/-- A job that is kept as it is is calm. -/
theorem Ok.same (h : s.Ok) {j : DockerScanJob} (hj : j ∈ s.db.jobs) :
    ∃ i ∈ s.db.jobs, j.id = i.id ∧ j.manifestId = i.manifestId ∧ j.attempts = i.attempts ∧
      (j.active = true → i.active = true) ∧ (j.status = .queued → j.attempts < maxAttempts) ∧
      (j.status = .running → i.status = .running ∧ j.worker = i.worker) :=
  ⟨j, hj, rfl, rfl, rfl, id, h.waiting j hj, fun hrun => ⟨hrun, rfl⟩⟩

theorem Ok.outside (h : s.Ok) (hout : s.Outside s') : s'.Ok :=
  h.calm ⟨hout.nextId, fun j hj => h.same (hout.jobs j hj)⟩ hout.handed
    fun _ hcall => .inl (hout.calls ▸ hcall)

/-- Expired jobs go back to the queue with an attempt left. -/
theorem Ok.requeueExpired (h : s.Ok) {now : Time}
    (hleft : ∀ j ∈ s.db.jobs, j.expired now = true → j.attempts < maxAttempts) :
    Calm s.db (requeueExpired now s.db) where
  nextId := Nat.le_refl _
  jobs j' hj' := by
    obtain ⟨j, hj, rfl⟩ := mem_requeueExpired.mp hj'
    unfold DockerScanJob.requeue
    split
    · next hexpired =>
      refine ⟨j, hj, rfl, rfl, rfl, fun _ => ?_, fun _ => hleft j hj hexpired, fun hrun => ?_⟩
      · simp only [DockerScanJob.expired, Bool.and_eq_true, decide_eq_true_eq] at hexpired
        simp [DockerScanJob.active, hexpired.1]
      · cases hrun
    · exact h.same hj

/-- A job that is found running was handed to the worker it is of. -/
theorem Ok.looked (h : s.Ok) {jobId : Nat} {worker : String} {job : DockerScanJob}
    (hfound : runningJob s.db jobId worker = some job) (report : Report) :
    ScanCall.Ok s (.worker job worker report) := by
  obtain ⟨hjob, hrunning⟩ := runningJob_some hfound
  refine ⟨h.ids job hjob, fun hnamed j hj hid => ?_⟩
  obtain rfl : j = job := Table.eq_of_key hj hjob hid
  refine ⟨Nat.le_refl _, fun _ => ?_⟩
  obtain ⟨w, -, hworker, hlast⟩ := h.running j hj hrunning
  have hname := (Option.filter_eq_some_iff.mp hfound).2
  simp only [hworker, Bool.and_eq_true, Bool.or_eq_true, decide_eq_true_eq, hnamed, false_or,
    Option.some.injEq] at hname
  rw [hlast, hname.2]

/-- A report on a job that has not been handed out since, a failure on one that is active. -/
theorem Ok.rewrites (h : s.Ok) {job : DockerScanJob} {report : Report}
    {f : DockerScanJob → DockerScanJob} {db' : Db} (hf : report.Rewrites job f)
    (hnext : s.db.nextId ≤ db'.nextId) (hjobs : db'.jobs = (s.db.updateJob job.id f).jobs)
    (hsince : ∀ j ∈ s.db.jobs, j.id = job.id → j.attempts = job.attempts ∧
      ((∃ error retry, report = .failed error retry) → j.active = true)) : Calm s.db db' where
  nextId := hnext
  jobs j' hj' := by
    rw [hjobs] at hj'
    obtain ⟨j, hj, rfl⟩ := Db.mem_updateJob.mp hj'
    split
    · next hid =>
      obtain ⟨hmanifest, hattempts, hstatus⟩ := hf j
      obtain ⟨hsame, hactive⟩ := hsince j hj hid
      refine ⟨j, hj, rfl, hmanifest, hattempts, ?_⟩
      dsimp only [DockerScanJob.active]
      rcases hstatus with ⟨hkept, hworker⟩ | hdone | hfailed | ⟨hreport, hqueued, hleft⟩
      · rw [hkept, hworker, hattempts]
        exact ⟨id, h.waiting j hj, fun hrun => ⟨hrun, rfl⟩⟩
      · simp [hdone]
      · simp [hfailed]
      · rw [hqueued, hattempts, hsame]
        exact ⟨fun _ => hactive hreport, fun _ => hleft, fun hrun => by cases hrun⟩
    · exact h.same hj

/-- A waiting job is claimed: handed to a worker, or skipped. -/
theorem Ok.taken (h : s.Ok) {job : DockerScanJob} {f : DockerScanJob → DockerScanJob} {db' : Db}
    {given : Option String} (hjob : job ∈ s.db.jobs) (hqueued : job.status = .queued)
    (hnext : db'.nextId = s.db.nextId) (hjobs : db'.jobs = (s.db.updateJob job.id f).jobs)
    (hf : ∀ j, (f j).manifestId = j.manifestId ∧ (f j).attempts = j.attempts + 1)
    (hgiven : (given = none ∧ ∀ j, (f j).status = .done) ∨
      ∃ w, given = some w ∧ w ≠ "" ∧ ∀ j, (f j).status = .running ∧ (f j).worker = some w) :
    Ok { s with db := db', handed := (given.map (job.id, ·)).toList ++ s.handed } := by
  -- a job is one of before, or the claimed one
  have hcases : ∀ j' ∈ db'.jobs, (j' ∈ s.db.jobs ∧ j'.id ≠ job.id) ∨
      j' = { f job with id := job.id } := by
    intro j' hj'
    rw [hjobs] at hj'
    obtain ⟨j, hj, rfl⟩ := Db.mem_updateJob.mp hj'
    split
    · next hid => exact .inr (by rw [Table.eq_of_key hj hjob hid])
    · next hid => exact .inl ⟨hj, hid⟩
  have hleft := h.waiting job hjob hqueued
  have hactive : job.active = true := by simp [DockerScanJob.active, hqueued]
  obtain ⟨hmanifest, hattempts⟩ := hf job
  let s' : Scanners := { s with db := db', handed := (given.map (job.id, ·)).toList ++ s.handed }
  have htimes : ∀ jobId, s'.timesHanded jobId =
      s.timesHanded jobId + if given.isSome = true ∧ job.id = jobId then 1 else 0 := by
    intro jobId
    rcases given with _ | w
    · simp [s', timesHanded]
    · simp [s', timesHanded, List.countP_cons]
  have hother : ∀ jobId, jobId ≠ job.id → s'.lastHandedTo jobId = s.lastHandedTo jobId := by
    intro jobId hne
    rcases given with _ | w
    · simp [s', lastHandedTo]
    · simp [s', lastHandedTo, Ne.symm hne]
  have hclaimed : s.timesHanded job.id + 1 ≤ job.attempts + 1 :=
    Nat.succ_le_succ (h.counted job hjob)
  have hcount : s'.timesHanded job.id ≤ s.timesHanded job.id + 1 := by
    rw [htimes]
    split <;> omega
  constructor
  · intro j' hj'
    rw [hnext]
    rcases hcases j' hj' with ⟨hj, -⟩ | rfl
    · exact h.ids j' hj
    · exact h.ids job hjob
  · intro i' hi' j' hj' hai haj hij
    rcases hcases i' hi' with ⟨hi, hine⟩ | rfl <;> rcases hcases j' hj' with ⟨hj, hjne⟩ | rfl
    · exact h.one i' hi j' hj hai haj hij
    · exact absurd (congrArg _ (h.one i' hi job hjob hai hactive (hij.trans hmanifest))) hine
    · exact absurd (congrArg _ (h.one j' hj job hjob haj hactive (hij.symm.trans hmanifest))) hjne
    · rfl
  · intro j' hj'
    rcases hcases j' hj' with ⟨hj, hne⟩ | rfl
    · have := h.counted j' hj
      have hzero := htimes j'.id
      rw [if_neg fun hand => hne hand.2.symm] at hzero
      exact hzero ▸ this
    · dsimp only
      rw [hattempts]
      exact hcount.trans hclaimed
  · intro j' hj'
    rcases hcases j' hj' with ⟨hj, -⟩ | rfl
    · exact h.attempts j' hj
    · dsimp only
      rw [hattempts]
      exact hleft
  · intro j' hj' hstatus
    rcases hcases j' hj' with ⟨hj, -⟩ | rfl
    · exact h.waiting j' hj hstatus
    · rcases hgiven with ⟨-, hdone⟩ | ⟨w, -, -, hrun⟩
      · rw [show (f job).status = .done from hdone job] at hstatus
        cases hstatus
      · rw [show (f job).status = .running from (hrun job).1] at hstatus
        cases hstatus
  · intro j' hj' hstatus
    rcases hcases j' hj' with ⟨hj, hne⟩ | rfl
    · have hlast := hother j'.id hne
      obtain ⟨w, hnamed, hworker, hw⟩ := h.running j' hj hstatus
      exact ⟨w, hnamed, hworker, hlast.trans hw⟩
    · rcases hgiven with ⟨-, hdone⟩ | ⟨w, rfl, hnamed, hrun⟩
      · rw [show (f job).status = .done from hdone job] at hstatus
        cases hstatus
      · exact ⟨w, hnamed, (hrun job).2, by simp [lastHandedTo]⟩
  · intro e he
    rw [hnext]
    rcases List.mem_append.mp he with he | he
    · obtain ⟨w, -, rfl⟩ := Option.map_eq_some_iff.mp (Option.mem_toList.mp he)
      exact h.ids job hjob
    · exact h.given e he
  · intro jobId
    by_cases hid : jobId = job.id
    · subst hid
      exact (hcount.trans hclaimed).trans hleft
    · have hzero := htimes jobId
      rw [if_neg fun hand => hid hand.2.symm] at hzero
      exact hzero ▸ h.bounded jobId
  · intro call hcall
    have hok := h.calls call hcall
    cases call with
    | enqueue => trivial
    | worker seen name report =>
      refine ⟨hnext.symm ▸ hok.1, fun hnamed j' hj' hid => ?_⟩
      rcases hcases j' hj' with ⟨hj, hne⟩ | rfl
      · obtain ⟨hle, hlast⟩ := hok.2 hnamed j' hj hid
        exact ⟨hle, fun hsame => (hother j'.id hne).trans (hlast hsame)⟩
      · -- the claimed job has one attempt more than any call has seen
        obtain ⟨hle, -⟩ := hok.2 hnamed job hjob hid
        dsimp only
        rw [hattempts]
        exact ⟨Nat.le_succ_of_le hle, fun hsame => absurd (hsame ▸ hle) (Nat.not_succ_le_self _)⟩

/-- A job is added for a manifest that has none. -/
theorem Ok.added (h : s.Ok) {job : DockerScanJob} {db' : Db} (hid : job.id = s.db.nextId)
    (hstatus : job.status = .queued) (hattempts : job.attempts = 0)
    (hnext : db'.nextId = s.db.nextId + 1) (hjobs : db'.jobs = s.db.jobs.put job)
    (hnone : activeJob s.db job.manifestId = none) : Ok { s with db := db' } := by
  have hcases : ∀ j' ∈ db'.jobs, j' ∈ s.db.jobs ∨ j' = job := by
    intro j' hj'
    rw [hjobs] at hj'
    exact (Table.mem_put.mp hj').elim .inr fun hj => .inl hj.1
  have hfree : ∀ j ∈ s.db.jobs, j.active = true → j.manifestId ≠ job.manifestId := by
    intro j hj hactive heq
    have := List.find?_eq_none.mp hnone j hj
    simp [heq, hactive] at this
  have hnew : s.timesHanded job.id = 0 := by
    refine List.countP_eq_zero.mpr fun e he => ?_
    have hlt := h.given e he
    simp only [decide_eq_true_eq]
    omega
  constructor
  · intro j' hj'
    rw [hnext]
    rcases hcases j' hj' with hj | rfl
    · exact Nat.lt_succ_of_lt (h.ids j' hj)
    · omega
  · intro i' hi' j' hj' hai haj hij
    rcases hcases i' hi' with hi | rfl <;> rcases hcases j' hj' with hj | rfl
    · exact h.one i' hi j' hj hai haj hij
    · exact absurd hij (hfree i' hi hai)
    · exact absurd hij.symm (hfree j' hj haj)
    · rfl
  · intro j' hj'
    rcases hcases j' hj' with hj | rfl
    · exact h.counted j' hj
    · exact hnew ▸ Nat.zero_le _
  · intro j' hj'
    rcases hcases j' hj' with hj | rfl
    · exact h.attempts j' hj
    · exact hattempts ▸ Nat.zero_le _
  · intro j' hj' hqueued
    rcases hcases j' hj' with hj | rfl
    · exact h.waiting j' hj hqueued
    · rw [hattempts]
      decide
  · intro j' hj' hrunning
    rcases hcases j' hj' with hj | rfl
    · exact h.running j' hj hrunning
    · rw [hstatus] at hrunning
      cases hrunning
  · intro e he
    rw [hnext]
    exact Nat.lt_succ_of_lt (h.given e he)
  · exact h.bounded
  · intro call hcall
    have hok := h.calls call hcall
    cases call with
    | enqueue => trivial
    | worker seen name report =>
      refine ⟨hnext ▸ Nat.lt_succ_of_lt hok.1, fun hnamed j' hj' hseen => ?_⟩
      rcases hcases j' hj' with hj | rfl
      · exact hok.2 hnamed j' hj hseen
      · have := hok.1
        omega

/-- What a commit of `enqueue` does: a priority, a job that is added, or nothing. -/
theorem enqueueFound_cases (manifest : DockerManifest) (repository : String) (reason : ScanReason)
    (priority : Nat) (mode : Option ScanMode) (existing : Option DockerScanJob) (db : Db) :
    enqueueFound manifest repository reason priority mode existing db = db ∨
    (∃ jobId, enqueueFound manifest repository reason priority mode existing db =
      db.updateJob jobId fun j => { j with priority := priority }) ∨
    (existing = none ∧ ∃ db' : Db,
      enqueueFound manifest repository reason priority mode existing db = db' ∧
      db'.jobs = db.jobs.put (scanJob db.nextId manifest repository reason priority mode) ∧
      db'.nextId = db.nextId + 1) := by
  unfold enqueueFound
  split
  · split
    · exact .inr (.inl ⟨_, rfl⟩)
    · exact .inl rfl
  · refine .inr (.inr ⟨rfl, _, rfl, ?_⟩)
    dsimp only
    split <;> exact ⟨rfl, rfl⟩

/-- A commit of `enqueue`, of a job that is still missing where it is added. -/
theorem Ok.enqueueFound (h : s.Ok) {manifest : DockerManifest} {repository : String}
    {reason : ScanReason} {priority : Nat} {mode : Option ScanMode}
    {existing : Option DockerScanJob} (i : Nat)
    (hmissing : existing = none → activeJob s.db manifest.id = none) :
    Ok { s with
      db := Docker.enqueueFound manifest repository reason priority mode existing s.db
      calls := s.calls.eraseIdx i } := by
  have hcalls : ∀ db : Db, Calm s.db db → Ok { s with db := db, calls := s.calls.eraseIdx i } :=
    fun db hcalm => h.calm hcalm rfl fun _ hcall => .inl (List.mem_of_mem_eraseIdx hcall)
  rcases enqueueFound_cases manifest repository reason priority mode existing s.db with
    he | ⟨jobId, he⟩ | ⟨hnone, db', he, hjobs, hnext⟩
  · rw [he]
    exact hcalls _ ⟨Nat.le_refl _, fun j hj => h.same hj⟩
  · rw [he]
    refine hcalls _ ⟨Nat.le_refl _, fun j' hj' => ?_⟩
    obtain ⟨j, hj, rfl⟩ := Db.mem_updateJob.mp hj'
    split
    · exact ⟨j, hj, rfl, rfl, rfl, id, h.waiting j hj, fun hrun => ⟨hrun, rfl⟩⟩
    · exact h.same hj
  · rw [he]
    have hadded : Ok { s with db := db' } :=
      h.added rfl rfl rfl hnext hjobs (hmissing hnone)
    exact hadded.calm ⟨Nat.le_refl _, fun j hj => hadded.same hj⟩ rfl
      fun _ hcall => .inl (List.mem_of_mem_eraseIdx hcall)

/-- A claim while no job that has used its attempts has outlived its lease. -/
theorem Ok.claim (h : s.Ok) (policy : ImagePolicy) {worker : String} {now : Time}
    (hnamed : worker ≠ "") (hshort : worker.length ≤ 128)
    (hleft : policy.scanningEnabled = true →
      ∀ j ∈ s.db.jobs, j.expired now = true → j.attempts < maxAttempts) :
    Ok { s with
      db := (scannerClaim policy worker now s.db).1
      handed := ((scannerClaim policy worker now s.db).2.map fun j => (j.id, worker)).toList ++
        s.handed } := by
  by_cases henabled : policy.scanningEnabled = true
  · have hrequeued : Ok { s with db := Docker.requeueExpired now s.db } :=
      h.calm (h.requeueExpired (hleft henabled)) rfl fun _ hcall => .inl hcall
    rcases scannerClaim_jobs policy worker now s.db with
      he | he | ⟨job, f, hnext, hid, hjobs, hf, hgiven⟩
    · rw [he]
      exact h
    · rw [he]
      exact hrequeued
    · obtain ⟨hjob, hqueued⟩ := nextJob_some hnext
      generalize hgive : (scannerClaim policy worker now s.db).2.map (fun _ => worker) = given
      have hgiven' : (given = none ∧ ∀ j, (f j).status = .done) ∨
          ∃ w, given = some w ∧ w ≠ "" ∧ ∀ j, (f j).status = .running ∧ (f j).worker = some w := by
        rcases hgiven with ⟨hnone, hdone⟩ | ⟨hsome, hrun⟩
        · exact .inl ⟨by rw [← hgive, hnone]; rfl, hdone⟩
        · obtain ⟨job', hjob', -⟩ := Option.map_eq_some_iff.mp hsome
          refine .inr ⟨worker, by rw [← hgive, hjob']; rfl, hnamed, fun j => ?_⟩
          rw [(hrun j).2, takeChars_of_length_le hshort]
          exact ⟨(hrun j).1, rfl⟩
      have htaken := hrequeued.taken hjob hqueued hid hjobs hf hgiven'
      subst hgive
      have hhanded : (scannerClaim policy worker now s.db).2.map (fun j => (j.id, worker)) =
          ((scannerClaim policy worker now s.db).2.map fun _ => worker).map (job.id, ·) := by
        rcases hgiven with ⟨hnone, -⟩ | ⟨hsome, -⟩
        · rw [hnone]
          rfl
        · obtain ⟨job', hjob', hjobId⟩ := Option.map_eq_some_iff.mp hsome
          rw [hjob', ← hjobId]
          rfl
      rw [hhanded]
      exact htaken
  · have he : scannerClaim policy worker now s.db = (s.db, none) := by
      unfold scannerClaim
      simp [henabled]
    rw [he]
    exact h

end Scanners

/-! ## Steps in time -/

/-- A job is added while there is still none, and a report of a named worker commits before its
job is handed out again, a failure while the job is active. -/
def ScanCall.InTime (s : Scanners) : ScanCall → Prop
  | enqueue manifest _ _ _ _ existing => existing = none → activeJob s.db manifest.id = none
  | worker job name report => name ≠ "" ∧
      ∀ j ∈ s.db.jobs, j.id = job.id → j.attempts = job.attempts ∧
        ((∃ error retry, report = .failed error retry) → j.active = true)

/-- Calls commit in time, and no job that has used its attempts has outlived its lease when a
claim looks. -/
def ScannersAct.InTime (s : Scanners) : ScannersAct → Prop
  | claim policy _ now => policy.scanningEnabled = true →
      ∀ j ∈ s.db.jobs, j.expired now = true → j.attempts < maxAttempts
  | commit i _ _ => ∀ call ∈ s.calls[i]?, call.InTime s
  | _ => True

variable {s s' : Scanners} {a : ScannersAct} {env : ScanEnv}

/-- **One step** in time. -/
theorem Scanners.Ok.step (h : s.Ok) (hok : a.InTime s) (hstep : (scanners env).Step s a s') :
    s'.Ok := by
  rcases hstep with ⟨-, hout⟩ | hstep
  · exact h.outside hout
  have hsame : Calm s.db s.db := ⟨Nat.le_refl _, fun j hj => h.same hj⟩
  cases a with
  | outside => cases hstep
  | enqueue manifest repository reason priority mode =>
    unfold Scanners.step at hstep
    dsimp only at hstep
    split at hstep
    · exact Option.some.inj hstep ▸ h
    · obtain rfl := Option.some.inj hstep
      refine h.calm hsame rfl fun call hcall => ?_
      rcases List.mem_append.mp hcall with hcall | hcall
      · exact .inl hcall
      · obtain rfl := List.mem_singleton.mp hcall
        exact .inr trivial
  | claim policy worker now =>
    unfold Scanners.step at hstep
    dsimp only at hstep
    split at hstep
    · cases hstep
    · next hworker =>
      simp only [Bool.or_eq_true, decide_eq_true_eq, not_or, not_lt] at hworker
      obtain rfl := Option.some.inj hstep
      exact h.claim policy hworker.1 hworker.2 hok
  | report jobId worker report =>
    unfold Scanners.step at hstep
    dsimp only at hstep
    split at hstep
    · cases hstep
    · obtain rfl := Option.some.inj hstep
      refine h.calm hsame rfl fun call hcall => ?_
      rcases List.mem_append.mp hcall with hcall | hcall
      · exact .inl hcall
      · obtain ⟨job, hfound, rfl⟩ := Option.map_eq_some_iff.mp (Option.mem_toList.mp hcall)
        exact .inr (h.looked hfound report)
  | commit i policy now =>
    unfold Scanners.step at hstep
    dsimp only at hstep
    rcases hcall : s.calls[i]? with _ | call
    · rw [hcall] at hstep
      cases hstep
    have htime := hok call hcall
    rw [hcall] at hstep
    cases call with
    | enqueue manifest repository reason priority mode existing =>
      obtain rfl := Option.some.inj hstep
      exact h.enqueueFound i htime
    | worker job worker report =>
      obtain rfl := Option.some.inj hstep
      obtain ⟨-, hsince⟩ := htime
      rcases commitReport_cases env policy now job worker report s.db with
        ⟨hdb, hagain⟩ | ⟨hnone, hnext, f, hf, hjobs⟩
      · refine h.calm (by rw [hdb]; exact hsame) rfl fun call hcall => ?_
        rcases List.mem_append.mp hcall with hcall | hcall
        · exact .inl (List.mem_of_mem_eraseIdx hcall)
        · obtain ⟨job', error, hfound, rfl⟩ := hagain call (Option.mem_toList.mp hcall)
          exact .inr (h.looked hfound _)
      · refine h.calm (h.rewrites hf hnext hjobs hsince) rfl fun call hcall => ?_
        rw [hnone, Option.toList_none, List.append_nil] at hcall
        exact .inl (List.mem_of_mem_eraseIdx hcall)
  | breakOff i =>
    obtain rfl := Option.some.inj hstep
    exact h.calm hsame rfl fun call hcall => .inl (List.mem_of_mem_eraseIdx hcall)

/-- **Every state reached** in time. -/
theorem Scanners.Ok.reach (h : (scanners env).Reach (fun s a => a.InTime s) s) : s.Ok := by
  refine h.invariant (I := Scanners.Ok) ?_ fun s a s' hok htime hstep => hok.step htime hstep
  rintro s ⟨hjobs, hcalls, hhanded⟩
  constructor <;> simp [hjobs, hcalls, hhanded, Scanners.timesHanded]

/-! ## The queue in time -/

/-- At most one job of a manifest waits or runs, and no job was handed out too often. -/
structure Scanners.Orderly (s : Scanners) : Prop where
  one : ∀ i ∈ s.db.jobs, ∀ j ∈ s.db.jobs, i.active = true → j.active = true →
    i.manifestId = j.manifestId → i = j
  attempts : ∀ jobId, s.timesHanded jobId ≤ maxAttempts

/-- A worker whose job was handed to another one is refused, and what it commits of a look before
leaves the job as it is. -/
structure Scanners.KeepsOut (s : Scanners) (a : ScannersAct) (s' : Scanners) : Prop where
  refused : ∀ jobId worker other report, a = .report jobId worker report → worker ≠ "" →
    s.lastHandedTo jobId = some other → other ≠ worker → s'.calls = s.calls
  commits : ∀ i policy now job worker other report, a = .commit i policy now →
    s.calls[i]? = some (.worker job worker report) →
    s.lastHandedTo job.id = some other → other ≠ worker →
      s'.db.jobs.find? job.id = s.db.jobs.find? job.id

theorem Scanners.Ok.keepsOut (h : s.Ok) (htime : a.InTime s)
    (hstep : (scanners env).Step s a s') : s.KeepsOut a s' where
  refused := by
    rintro jobId worker other report rfl hnamed hlast hother
    rcases hstep with ⟨hact, -⟩ | hstep
    · cases hact
    unfold Scanners.step at hstep
    dsimp only at hstep
    split at hstep
    · cases hstep
    obtain rfl := Option.some.inj hstep
    rcases hfound : runningJob s.db jobId worker with _ | job
    · exact List.append_nil _
    -- it would be running for the worker it was handed to last
    obtain ⟨-, hseen⟩ := h.looked hfound report
    obtain ⟨hjob, -⟩ := runningJob_some hfound
    have hid : job.id = jobId := Table.find?_key (Option.filter_eq_some_iff.mp hfound).1
    have hworker := (hseen hnamed job hjob rfl).2 rfl
    rw [hid, hlast] at hworker
    exact absurd (Option.some.inj hworker) hother
  commits := by
    rintro i policy now job worker other report rfl hcall hlast hother
    obtain ⟨hnamed, hsince⟩ := htime _ hcall
    have hnone : s.db.jobs.find? job.id = none := by
      refine Table.find?_eq_none_iff.mpr fun j hj hid => hother ?_
      obtain ⟨-, hseen⟩ := h.calls _ (List.mem_of_getElem? hcall)
      have hworker := (hseen hnamed j hj hid).2 (hsince j hj hid).1
      rw [hid, hlast] at hworker
      exact Option.some.inj hworker
    rw [hnone]
    rcases hstep with ⟨hact, -⟩ | hstep
    · cases hact
    unfold Scanners.step at hstep
    dsimp only at hstep
    rw [hcall] at hstep
    obtain rfl := Option.some.inj hstep
    dsimp only
    rcases commitReport_cases env policy now job worker report s.db with
      ⟨hdb, -⟩ | ⟨-, -, f, -, hjobs⟩
    · rw [hdb, hnone]
    · rw [hjobs]
      refine Table.find?_eq_none_iff.mpr fun j' hj' hid => ?_
      obtain ⟨j, hj, rfl⟩ := Db.mem_updateJob.mp hj'
      refine Table.find?_eq_none_iff.mp hnone j hj ?_
      split at hid <;> exact hid

/-- **The queue in time**: one job a manifest, no job handed out more than `MAX_ATTEMPTS` times,
and a worker cannot reach a job that was handed to another one. -/
theorem scanners_in_time (env : ScanEnv) (s : Scanners)
    (hreach : (scanners env).Reach (fun s a => a.InTime s) s) :
    s.Orderly ∧ ∀ a s', a.InTime s → (scanners env).Step s a s' → s.KeepsOut a s' := by
  have hok : s.Ok := .reach hreach
  exact ⟨⟨hok.one, hok.bounded⟩, fun a s' htime hstep => hok.keepsOut htime hstep⟩

/-! ## A worker that dies -/

def crashEnv : ScanEnv where
  codec := constCodec []
  sha256 _ := ""
  orjson _ := none
  caseMap := .ascii

def crashImage : DockerManifest := { id := 1, digest := "sha256:01" }

/-- One image, not scanned yet. -/
def crashStart : Scanners where
  db := { manifests := { rows := [crashImage] }, nextId := 2 }

/-- The image is queued for a scan, and the worker claims it every time its lease has run out. -/
def crashes (claims : Nat) : List ScannersAct :=
  [.enqueue crashImage "local/app" .push priorityPush none, .commit 0 {} 0] ++
    (List.range claims).map fun n => .claim {} "w1" (n * (lease + 1))

theorem scanners_in_time_crash : ∃ s, s.timesHanded 2 = 1 ∧ s.Orderly ∧
    ∀ a s', a.InTime s → (scanners crashEnv).Step s a s' → s.KeepsOut a s' := by
  have hinit : (scanners crashEnv).init crashStart := ⟨rfl, rfl, rfl⟩
  have hqueued : ∃ s, Scanners.step crashEnv crashStart
      (.enqueue crashImage "local/app" .push priorityPush none) = some s ∧
      ∃ s', s.step crashEnv (.commit 0 {} 0) = some s' ∧
        s'.db.jobs.rows.all (fun j => !j.expired 0) = true ∧
        ∃ s'', s'.step crashEnv (.claim {} "w1" 0) = some s'' ∧ s''.timesHanded 2 = 1 :=
    ⟨_, rfl, _, rfl, by decide +kernel, _, rfl, by decide +kernel⟩
  obtain ⟨s, hs, s', hs', hlive, s'', hs'', htimes⟩ := hqueued
  have hlook : (scanners crashEnv).Reach (fun s a => a.InTime s) s :=
    .step (.init hinit) (a := .enqueue crashImage "local/app" .push priorityPush none) trivial
      (Or.inr hs)
  have hcommit : (scanners crashEnv).Reach (fun s a => a.InTime s) s' := by
    refine .step hlook (a := .commit 0 {} 0) (fun call hcall => ?_) (Or.inr hs')
    obtain rfl := Option.some.inj hs
    obtain rfl := Option.some.inj hcall
    exact fun _ => rfl
  have hclaim : (scanners crashEnv).Reach (fun s a => a.InTime s) s'' := by
    refine .step hcommit (a := .claim {} "w1" 0) (fun _ j hj hexpired => ?_) (Or.inr hs'')
    have := List.all_eq_true.mp hlive j hj
    rw [hexpired] at this
    cases this
  exact ⟨s'', htimes, scanners_in_time crashEnv s'' hclaim⟩

/-- A scan that crashes its worker is handed out again without end. -/
theorem scanners_hand_out_again :
    ¬ ∀ s, (scanners crashEnv).Reach (fun _ _ => True) s → s.Orderly := by
  intro h
  have hrun : ((crashes 4).foldlM (Scanners.step crashEnv) crashStart).map
      (Scanners.timesHanded · 2) = some 4 := by
    decide +kernel
  obtain ⟨s, hs, htimes⟩ := Option.map_eq_some_iff.mp hrun
  have hinit : (scanners crashEnv).init crashStart := ⟨rfl, rfl, rfl⟩
  have hreach : (scanners crashEnv).Reach (fun _ _ => True) s :=
    (System.Reach.init hinit).exec (fun _ _ _ hstep => ⟨trivial, Or.inr hstep⟩) hs
  have hbound := (h s hreach).attempts 2
  rw [htimes] at hbound
  exact absurd hbound (by decide)

end Minireg.Docker
