import Minireg.Docker.Scanning
import Minireg.Lib.Run

/-!
# Runs of the scan queue

`scanQueue` is the registry as the scanner sees it: manifests are stored, scans
are queued, claimed, renewed, failed, answered and scheduled, in any order.
`QueueOk` holds in every state reached: no row points at an id not yet given
out, and a manifest has at most one waiting or running job.
-/

namespace Minireg.Docker

open Py Lib

/-- Store a manifest and link it to the repository it was stored through. -/
def storeIn (env : RegistryEnv) (repo : DockerRepository) (body : List UInt8)
    (contentType : Option String) (expected : Option Digest) (upstreamId pushedBy : Option Nat)
    (now : Time) (db : Db) : Db :=
  match storeManifest env body contentType expected upstreamId pushedBy now db with
  | .ok (db, row) => db.link repo row
  | .error _ => db

inductive ScanAction where
  | store (repo : DockerRepository) (body : List UInt8) (contentType : Option String)
      (expected : Option Digest) (upstreamId pushedBy : Option Nat) (now : Time)
  | enqueue (digest : Digest) (repository : String) (reason : ScanReason) (priority : Nat)
      (mode : Option ScanMode)
  | claim (worker : String) (now : Time)
  | heartbeat (jobId : Nat) (worker : String) (now : Time)
  | fail (jobId : Nat) (worker error : String) (permanent : Bool) (now : Time)
  | result (jobId : Nat) (worker : String) (report : List UInt8) (sbom : Option (List UInt8))
      (now : Time)
  | schedule (now : Time) (limit : Nat)

def ScanAction.apply (env : ScanEnv) (policy : ImagePolicy) (db : Db) : ScanAction → Db
  | .store repo body contentType expected upstreamId pushedBy now =>
    storeIn env.toRegistryEnv repo body contentType expected upstreamId pushedBy now db
  | .enqueue digest repository reason priority mode =>
    match db.manifestRow digest with
    | some m => (Docker.enqueue m repository reason priority mode db).1
    | none => db
  | .claim worker now => (scannerClaim policy worker now db).1
  | .heartbeat jobId worker now => scannerHeartbeat jobId worker now db
  | .fail jobId worker error permanent now => scannerFail jobId worker error permanent now db
  | .result jobId worker report sbom now =>
    scannerResult env policy jobId worker report sbom now db
  | .schedule now limit => scheduleRescans policy now limit db

/-- A registry that has stored nothing yet. -/
structure Db.Blank (db : Db) : Prop where
  manifests : db.manifests = .empty _
  findings : db.findings = []
  jobs : db.jobs = .empty _

/-- The registry as the scanner sees it, under one policy. -/
def scanQueue (env : ScanEnv) (policy : ImagePolicy) : System Db ScanAction where
  init := Db.Blank
  Step db a db' := db' = a.apply env policy db

/-! ## What the queue looks at -/

/-- The tables the queue and the verdicts are about. -/
def Db.core (db : Db) :
    Table DockerManifest.id × List DockerFinding × Table DockerScanJob.id × Nat :=
  (db.manifests, db.findings, db.jobs, db.nextId)

section Core

variable (db : Db)

@[simp] theorem putFile_core (digest : Digest) : (db.putFile digest).core = db.core := by
  unfold Db.putFile
  split <;> rfl

@[simp] theorem deleteFile_core (digest : Digest) : (db.deleteFile digest).core = db.core := rfl

@[simp] theorem link_core (repo : DockerRepository) (m : DockerManifest) :
    (db.link repo m).core = db.core := by
  unfold Db.link
  split <;> rfl

@[simp] theorem releaseFile_core (digest : Digest) : (releaseFile digest db).core = db.core := by
  unfold releaseFile
  dsimp only
  split <;> rfl

@[simp] theorem clearReport_core (scanId : Nat) : (clearReport scanId db).core = db.core := rfl

@[simp] theorem pruneReports_core (manifestId keep : Nat) :
    (pruneReports manifestId keep db).core = db.core := by
  unfold pruneReports
  dsimp only
  generalize List.drop keep _ = scans
  induction scans generalizing db with
  | nil => rfl
  | cons old scans ih =>
    rw [List.foldl_cons, ih]
    split
    · split
      · simp
      · rfl
    · rfl

@[simp] theorem applyPushPolicy_core (m : DockerManifest) (policy : ImagePolicy) :
    (applyPushPolicy m policy db).core = db.core := by
  unfold applyPushPolicy
  split
  · rfl
  · split <;> rfl

end Core

/-! ## What each operation does -/

section Operations

variable {env : ScanEnv} {policy : ImagePolicy} {db db' : Db}

/-- `enqueue` leaves the state alone, changes the priority of a waiting job, or
adds a waiting job, after which an image never scanned is marked as queued. -/
theorem enqueue_cases (m : DockerManifest) (repository : String) (reason : ScanReason)
    (priority : Nat) (mode : Option ScanMode) (db : Db) :
    (enqueue m repository reason priority mode db).1 = db ∨
    (∃ existing, (enqueue m repository reason priority mode db).1 =
      db.updateJob existing fun j => { j with priority := priority }) ∨
    ∃ job : DockerScanJob, job.id = db.nextId ∧ job.manifestId = m.id ∧ job.status = .queued ∧
      activeJob db m.id = none ∧
      (enqueue m repository reason priority mode db).1 =
        if m.scanStatus = .unscanned ∨ m.scanStatus = .failed then
          ({ db with jobs := db.jobs.put job, nextId := db.nextId + 1 } : Db).setScanStatus m.id .queued
        else { db with jobs := db.jobs.put job, nextId := db.nextId + 1 } := by
  unfold enqueue
  split
  · exact .inl rfl
  · split
    · next existing _ =>
      split
      · exact .inr (.inl ⟨existing.id, rfl⟩)
      · exact .inl rfl
    · next hnone =>
      refine .inr (.inr ⟨scanJob db.nextId m repository reason priority mode, rfl, rfl, rfl,
        hnone, ?_⟩)
      simp only [Bool.or_eq_true, decide_eq_true_eq]
      split <;> rfl

theorem enqueue_nextId (m : DockerManifest) (repository : String) (reason : ScanReason)
    (priority : Nat) (mode : Option ScanMode) (db : Db) :
    db.nextId ≤ (enqueue m repository reason priority mode db).1.nextId := by
  rcases enqueue_cases m repository reason priority mode db with
    he | ⟨existing, he⟩ | ⟨job, -, -, -, -, he⟩
  · rw [he]
  · rw [he]
    exact Nat.le_refl _
  · rw [he]
    split <;> exact Nat.le_succ _

theorem nextJob_some {job : DockerScanJob} (h : nextJob db = some job) :
    job ∈ db.jobs ∧ job.status = .queued := by
  unfold nextJob at h
  have hmem := (List.mem_insertionSort _).mp (List.mem_of_mem_head? h)
  obtain ⟨hj, hq⟩ := List.mem_filter.mp hmem
  exact ⟨hj, of_decide_eq_true hq⟩

theorem mem_staleImages {now : Time} {p : DockerManifest × DockerRepository}
    (h : p ∈ staleImages policy now db) : p.1 ∈ db.manifests ∧ p.1.scanStatus = .scanned := by
  unfold staleImages at h
  dsimp only at h
  obtain ⟨m, hm, hp⟩ := List.mem_flatMap.mp ((List.mem_insertionSort _).mp h)
  obtain ⟨hmem, hcond⟩ := List.mem_filter.mp hm
  simp only [Bool.and_eq_true, decide_eq_true_eq] at hcond
  obtain ⟨l, -, hl⟩ := List.mem_flatMap.mp hp
  split at hl
  · obtain ⟨r, -, rfl⟩ := List.mem_map.mp hl
    exact ⟨hmem, hcond.1.1.2⟩
  · cases hl

/-- A claim that ends in a skip: the job is done, its image not applicable. -/
theorem skip_claimed (job : DockerScanJob) (worker reason : String) (now : Time) (db : Db) :
    skip (job.claimed worker now) reason now ((db.updateJob job.id
        (DockerScanJob.claimed worker now)).setScanStatus job.manifestId .scanning) =
      (db.updateJob job.id fun j => (j.claimed worker now).skipped reason now).setScanStatus
        job.manifestId .notApplicable := by
  unfold skip
  rw [DockerScanJob.claimed_id, DockerScanJob.claimed_manifestId, Db.updateJob_setScanStatus,
    Db.setScanStatus_setScanStatus]
  exact congrArg (Db.setScanStatus · job.manifestId .notApplicable) Db.updateJob_updateJob

/-- `scannerClaim` at most returns expired jobs to the queue, or it takes the
next job: one that cannot be scanned is done, and a worker gets the others. -/
theorem scannerClaim_cases (policy : ImagePolicy) (worker : String) (now : Time) (db : Db) :
    (policy.scanningEnabled = false ∧ (scannerClaim policy worker now db).1 = db) ∨
    (scannerClaim policy worker now db).1 = requeueExpired now db ∨
    ∃ job, policy.scanningEnabled = true ∧ nextJob (requeueExpired now db) = some job ∧
      ((∃ f : DockerScanJob → DockerScanJob,
        (scannerClaim policy worker now db).1 =
          ((requeueExpired now db).updateJob job.id f).setScanStatus job.manifestId
            .notApplicable ∧
        ∀ j, (f j).manifestId = j.manifestId ∧ (f j).status = .done) ∨
      ∃ f : DockerScanJob → DockerScanJob,
        (scannerClaim policy worker now db).1 =
          ((requeueExpired now db).updateJob job.id f).setScanStatus job.manifestId
            .scanning ∧
        (∀ j, (f j).manifestId = j.manifestId ∧ (f j).status = .running) ∧
        ∀ m ∈ db.manifests, m.id = job.manifestId → m.kind = .image) := by
  unfold scannerClaim
  split
  · next h => exact .inl ⟨by simpa using h, rfl⟩
  · next henabled =>
    refine .inr ?_
    unfold claim
    dsimp only
    rcases hnext : nextJob (requeueExpired now db) with _ | job
    · exact .inl rfl
    · refine .inr ⟨job, by simpa using henabled, rfl, ?_⟩
      dsimp only
      split
      · rw [skip_claimed]
        exact .inl ⟨fun j => (j.claimed worker now).skipped _ now, rfl,
          fun j => ⟨rfl, rfl⟩⟩
      · next m hm =>
        split
        · rw [skip_claimed]
          exact .inl ⟨fun j => (j.claimed worker now).skipped _ now, rfl,
          fun j => ⟨rfl, rfl⟩⟩
        · next hkind =>
          split
          · rw [skip_claimed]
            exact .inl ⟨fun j => (j.claimed worker now).skipped _ now, rfl,
          fun j => ⟨rfl, rfl⟩⟩
          · have himage : ∀ n ∈ db.manifests, n.id = job.manifestId → n.kind = .image := by
              intro n hn hid
              -- the row found is the claimed one, marked as being scanned
              obtain ⟨hmem, hmid⟩ := Table.find?_eq_some_iff.mp hm
              obtain ⟨n', hn', rfl⟩ := Db.mem_setScanStatus.mp hmem
              have hkind' : n'.kind = .image := by
                simp only [not_not] at hkind
                split at hkind <;> exact hkind
              have hid' : n'.id = n.id := by
                rw [hid]
                split at hmid <;> exact hmid
              rw [← Table.eq_of_key hn' hn hid']
              exact hkind'
            split
            · exact .inr ⟨fun j => { j.claimed worker now with mode := .image },
                congrArg (Db.setScanStatus · job.manifestId .scanning) Db.updateJob_updateJob,
                fun j => ⟨rfl, rfl⟩, himage⟩
            · exact .inr ⟨DockerScanJob.claimed worker now, rfl, fun j => ⟨rfl, rfl⟩, himage⟩

theorem runningJob_some {jobId : Nat} {worker : String} {job : DockerScanJob}
    (h : runningJob db jobId worker = some job) : job ∈ db.jobs ∧ job.status = .running := by
  unfold runningJob at h
  obtain ⟨hfind, hp⟩ := Option.filter_eq_some_iff.mp h
  simp only [Bool.and_eq_true, decide_eq_true_eq] at hp
  exact ⟨Table.find?_mem hfind, hp.1⟩

/-- `fail` ends the job or puts it back in the queue, and marks its image. -/
theorem fail_cases (job : DockerScanJob) (error : String) (retry : Bool) (now : Time) (db : Db) :
    ∃ (f : DockerScanJob → DockerScanJob) (g : DockerManifest → DockerManifest),
      fail job error retry now db =
        (db.updateJob job.id f).updateManifest job.manifestId g ∧
      (∀ j, (f j).manifestId = j.manifestId ∧ (f j).status ≠ .running) ∧
      ∀ m, (g m).kind = m.kind := by
  unfold fail
  dsimp only
  split
  · exact ⟨_, _, rfl, fun j => ⟨rfl, by simp⟩, fun m => rfl⟩
  · exact ⟨_, _, rfl, fun j => ⟨rfl, by simp⟩, fun m => rfl⟩

theorem storeSbom_eq (env : ScanEnv) (m : DockerManifest) (raw : List UInt8) (db : Db) :
    ∃ db₁ : Db, db₁.core = db.core ∧ storeSbom env m raw db =
      db₁.updateManifest m.id fun m => { m with sbomDigest := some (env.sha256 raw) } := by
  unfold storeSbom
  refine ⟨_, ?_, rfl⟩
  split
  · split <;> simp
  · simp

/-- An ingested result records a scan over a state that differs from the one
before in the files, and in the SBOM of the image. -/
theorem ingest_ok {job : DockerScanJob} {report : List UInt8} {sbom : Option (List UInt8)}
    {now : Time} (h : ingest env policy job report sbom now db = .ok db') :
    ∃ m found, ∃ db₁ db₂ : Db, ∃ reportDigest, m ∈ db.manifests ∧ m.id = job.manifestId ∧
      parseReport env policy report = .ok found ∧ db₁.core = db.core ∧
      (db₂ = db₁ ∨ ∃ d : Digest, db₂ =
        db₁.updateManifest m.id fun m => { m with sbomDigest := some d }) ∧
      db'.core = (recordScan m job reportDigest found now db₂).core := by
  unfold ingest at h
  split at h
  · cases h
  · next m hm =>
    obtain ⟨hmem, hid⟩ := Table.find?_eq_some_iff.mp hm
    split at h
    · cases h
    · next found hfound =>
      split at h
      · cases h
      · cases h
        rcases sbom with _ | raw
        · exact ⟨m, found, _, _, env.sha256 report, hmem, hid, hfound, putFile_core db _,
            .inl rfl, (applyPushPolicy_core _ _ _).trans (pruneReports_core _ _ _)⟩
        · obtain ⟨db₁, hc, heq⟩ := storeSbom_eq env m raw (db.putFile (env.sha256 report))
          refine ⟨m, found, db₁, _, env.sha256 report, hmem, hid, hfound,
            hc.trans (putFile_core db _), .inr ⟨_, heq⟩, ?_⟩
          exact (applyPushPolicy_core _ _ _).trans (pruneReports_core _ _ _)

/-- `scannerResult`: nothing, a failed attempt or an ingested report. -/
theorem scannerResult_cases (env : ScanEnv) (policy : ImagePolicy) (jobId : Nat) (worker : String) (report : List UInt8)
    (sbom : Option (List UInt8)) (now : Time) (db : Db) :
    scannerResult env policy jobId worker report sbom now db = db ∨
    ∃ job ∈ db.jobs, job.status = .running ∧
      ((∃ error, scannerResult env policy jobId worker report sbom now db =
        fail job error true now db) ∨
      ingest env policy job report sbom now db =
        .ok (scannerResult env policy jobId worker report sbom now db)) := by
  unfold scannerResult
  split
  · exact .inl rfl
  · next job hjob =>
    obtain ⟨hmem, hrun⟩ := runningJob_some hjob
    split
    · next hok => exact .inr ⟨job, hmem, hrun, .inr hok⟩
    · exact .inr ⟨job, hmem, hrun, .inl ⟨_, rfl⟩⟩
    · exact .inl rfl

/-- `storeIn` leaves the rows alone or inserts a new one. -/
theorem storeIn_cases (env : ScanEnv) (repo : DockerRepository) (body : List UInt8) (contentType : Option String)
    (expected : Option Digest) (upstreamId pushedBy : Option Nat) (now : Time) (db : Db) :
    (storeIn env.toRegistryEnv repo body contentType expected upstreamId pushedBy now db).core =
      db.core ∨
    ∃ parsed row, ∃ db₁ : Db, parse env.codec body contentType = .ok parsed ∧
      db.manifestRow (env.sha256 body) = none ∧ row.id = db.nextId ∧ db₁.core = db.core ∧
      (storeIn env.toRegistryEnv repo body contentType expected upstreamId pushedBy now db).core =
        (insertManifest parsed row db₁).core := by
  unfold storeIn storeManifest
  split
  · next hstore =>
    split at hstore
    · cases hstore
    · next parsed hparse =>
      dsimp only at hstore
      split at hstore
      · cases hstore
      · split at hstore
        · cases hstore
          exact .inl (by simp)
        · next hnone =>
          cases hstore
          have hrow : db.manifestRow (env.sha256 body) = none := by
            unfold Db.manifestRow at hnone ⊢
            have := putFile_core db (env.sha256 body)
            simp only [Db.core, Prod.mk.injEq] at this
            rwa [this.1] at hnone
          have hid : (db.putFile (env.sha256 body)).nextId = db.nextId := by
            have := putFile_core db (env.sha256 body)
            simp only [Db.core, Prod.mk.injEq] at this
            exact this.2.2.2
          exact .inr ⟨parsed, _, db.putFile (env.sha256 body), hparse, hrow, hid,
            putFile_core db _, link_core _ _ _⟩
  · exact .inl rfl

end Operations

/-! ## The rows -/

structure QueueOk (db : Db) : Prop where
  rows : ∀ m ∈ db.manifests, m.id < db.nextId
  findings : ∀ f ∈ db.findings, f.manifestId < db.nextId
  jobs : ∀ j ∈ db.jobs, j.id < db.nextId ∧ j.manifestId < db.nextId
  oneJob : ∀ i ∈ db.jobs, ∀ j ∈ db.jobs, i.active = true → j.active = true →
    i.manifestId = j.manifestId → i = j

theorem Db.Blank.queueOk {db : Db} (h : db.Blank) : QueueOk db where
  rows := by rw [h.manifests]; exact fun _ hm => absurd hm Table.not_mem_empty
  findings := by rw [h.findings]; exact fun _ hf => absurd hf List.not_mem_nil
  jobs := by rw [h.jobs]; exact fun _ hj => absurd hj Table.not_mem_empty
  oneJob := by rw [h.jobs]; exact fun _ hi => absurd hi Table.not_mem_empty

namespace QueueOk

variable {db db' : Db}

theorem of_core (h : QueueOk db) (hc : db'.core = db.core) : QueueOk db' := by
  obtain ⟨hm, hf, hj, hn⟩ : db'.manifests = db.manifests ∧ db'.findings = db.findings ∧
      db'.jobs = db.jobs ∧ db'.nextId = db.nextId := by
    simpa only [Db.core, Prod.mk.injEq] using hc
  constructor
  · rw [hm, hn]; exact h.rows
  · rw [hf, hn]; exact h.findings
  · rw [hj, hn]; exact h.jobs
  · rw [hj]; exact h.oneJob

theorem updateManifest (h : QueueOk db) {manifestId : Nat} {g : DockerManifest → DockerManifest} :
    QueueOk (db.updateManifest manifestId g) where
  rows m hm := by
    obtain ⟨n, hn, rfl⟩ := Db.mem_updateManifest.mp hm
    have := h.rows n hn
    split <;> exact this
  findings := h.findings
  jobs := h.jobs
  oneJob := h.oneJob

/-- A job may be rewritten as long as it is not brought back to life. -/
theorem updateJob (h : QueueOk db) {jobId : Nat} {f : DockerScanJob → DockerScanJob}
    (hm : ∀ j, (f j).manifestId = j.manifestId)
    (hact : ∀ j ∈ db.jobs, j.id = jobId → (f j).active = true → j.active = true) :
    QueueOk (db.updateJob jobId f) where
  rows := h.rows
  findings := h.findings
  jobs j hj := by
    obtain ⟨i, hi, rfl⟩ := Db.mem_updateJob.mp hj
    have := h.jobs i hi
    split
    · exact ⟨this.1, (hm i).symm ▸ this.2⟩
    · exact this
  oneJob i hi j hj hai haj hij := by
    have hback : ∀ k ∈ db.jobs, (if k.id = jobId then { f k with id := k.id } else k).active = true →
        k.active = true := by
      intro k hk hak
      split at hak
      · next hid => exact hact k hk hid hak
      · exact hak
    have hsame : ∀ k : DockerScanJob,
        (if k.id = jobId then { f k with id := k.id } else k).manifestId = k.manifestId := by
      intro k
      split
      · exact hm k
      · rfl
    obtain ⟨i', hi', rfl⟩ := Db.mem_updateJob.mp hi
    obtain ⟨j', hj', rfl⟩ := Db.mem_updateJob.mp hj
    rw [hsame, hsame] at hij
    rw [h.oneJob i' hi' j' hj' (hback i' hi' hai) (hback j' hj' haj) hij]

/-- A job may be added for a manifest that has none waiting or running. -/
theorem addJob (h : QueueOk db) {job : DockerScanJob} (hid : job.id = db.nextId)
    (hm : job.manifestId < db.nextId) (hnone : activeJob db job.manifestId = none) :
    QueueOk { db with jobs := db.jobs.put job, nextId := db.nextId + 1 } where
  rows m hm := Nat.lt_succ_of_lt (h.rows m hm)
  findings f hf := Nat.lt_succ_of_lt (h.findings f hf)
  jobs j hj := by
    rcases Table.mem_put.mp hj with rfl | ⟨hj, -⟩
    · exact ⟨by rw [hid]; exact Nat.lt_succ_self _, Nat.lt_succ_of_lt hm⟩
    · exact (h.jobs j hj).imp Nat.lt_succ_of_lt Nat.lt_succ_of_lt
  oneJob i hi j hj hai haj hij := by
    have hno : ∀ k ∈ db.jobs, k.active = true → k.manifestId ≠ job.manifestId := by
      intro k hk hak heq
      have := List.find?_eq_none.mp hnone k hk
      simp [heq, hak] at this
    rcases Table.mem_put.mp hi with hi | ⟨hi', -⟩ <;>
      rcases Table.mem_put.mp hj with hj | ⟨hj', -⟩
    · rw [hi, hj]
    · exact absurd (hi ▸ hij.symm) (hno j hj' haj)
    · exact absurd (hj ▸ hij) (hno i hi' hai)
    · exact h.oneJob i hi' j hj' hai haj hij

theorem requeueExpired (h : QueueOk db) (now : Time) : QueueOk (requeueExpired now db) where
  rows := h.rows
  findings := h.findings
  jobs j hj := by
    obtain ⟨i, hi, rfl⟩ := mem_requeueExpired.mp hj
    have hm : (i.requeue now).manifestId = i.manifestId := by
      unfold DockerScanJob.requeue
      split <;> rfl
    rw [DockerScanJob.requeue_id, hm]
    exact h.jobs i hi
  oneJob i hi j hj hai haj hij := by
    have hback : ∀ k : DockerScanJob, (k.requeue now).active = true →
        k.active = true ∧ (k.requeue now).manifestId = k.manifestId := by
      intro k hk
      unfold DockerScanJob.requeue at hk ⊢
      split
      · next he =>
        simp only [DockerScanJob.expired, Bool.and_eq_true, decide_eq_true_eq] at he
        simp [DockerScanJob.active, he.1]
      · next he =>
        rw [if_neg he] at hk
        exact ⟨hk, rfl⟩
    obtain ⟨i', hi', rfl⟩ := mem_requeueExpired.mp hi
    obtain ⟨j', hj', rfl⟩ := mem_requeueExpired.mp hj
    obtain ⟨hi1, hi2⟩ := hback i' hai
    obtain ⟨hj1, hj2⟩ := hback j' haj
    rw [hi2, hj2] at hij
    rw [h.oneJob i' hi' j' hj' hi1 hj1 hij]

theorem insertManifest (h : QueueOk db) {parsed : ParsedManifest} {row : DockerManifest}
    (hid : row.id = db.nextId) : QueueOk (insertManifest parsed row db) where
  rows m hm := by
    obtain ⟨n, hn, rfl⟩ := mem_insertManifest hm
    have hlt : n.id < db.nextId + 1 := by
      rcases hn with rfl | hn
      · omega
      · exact Nat.lt_succ_of_lt (h.rows n hn)
    split
    · rw [learnEntries_id]
      exact hlt
    · exact hlt
  findings f hf := Nat.lt_succ_of_lt (h.findings f hf)
  jobs j hj := (h.jobs j hj).imp Nat.lt_succ_of_lt Nat.lt_succ_of_lt
  oneJob := h.oneJob

theorem recordScan (h : QueueOk db) {m : DockerManifest} {job : DockerScanJob}
    {reportDigest : Digest} {found : List ParsedFinding} {now : Time}
    (hm : m.id < db.nextId) : QueueOk (recordScan m job reportDigest found now db) := by
  unfold Docker.recordScan
  refine updateJob (updateManifest ?_) (fun j => rfl) ?_
  · exact
      { rows := fun n hn => Nat.lt_succ_of_lt (h.rows n hn)
        findings := by
          intro f hf
          rcases List.mem_append.mp hf with hf | hf
          · exact Nat.lt_succ_of_lt (h.findings f (List.mem_filter.mp hf).1)
          · obtain ⟨p, -, rfl⟩ := List.mem_map.mp hf
            exact Nat.lt_succ_of_lt hm
        jobs := fun j hj => (h.jobs j hj).imp Nat.lt_succ_of_lt Nat.lt_succ_of_lt
        oneJob := h.oneJob }
  · intro j _ _ hact
    simp [DockerScanJob.active] at hact

theorem enqueue (h : QueueOk db) {m : DockerManifest} (hm : m.id < db.nextId)
    (repository : String) (reason : ScanReason) (priority : Nat) (mode : Option ScanMode) :
    QueueOk (enqueue m repository reason priority mode db).1 := by
  rcases enqueue_cases m repository reason priority mode db with
    he | ⟨existing, he⟩ | ⟨job, hid, hmid, -, hnone, he⟩
  · rw [he]
    exact h
  · rw [he]
    exact h.updateJob (fun _ => rfl) fun _ _ _ hact => hact
  · rw [he]
    have hadd := h.addJob hid (hmid ▸ hm) (hmid ▸ hnone)
    split
    · exact hadd.updateManifest
    · exact hadd

theorem enqueueAll (rows : List (DockerManifest × DockerRepository)) (done : List Nat)
    (h : QueueOk db) (hrows : ∀ p ∈ rows, p.1.id < db.nextId) :
    QueueOk (enqueueAll rows done db) := by
  induction rows generalizing done db with
  | nil => exact h
  | cons p rows ih =>
    unfold Docker.enqueueAll
    have hrest : ∀ q ∈ rows, q.1.id < db.nextId := fun q hq => hrows q (List.mem_cons_of_mem _ hq)
    split
    · exact ih _ h hrest
    · refine ih _ (h.enqueue (hrows p List.mem_cons_self) _ _ _ _) fun q hq => ?_
      exact Nat.lt_of_lt_of_le (hrest q hq) (enqueue_nextId ..)

theorem fail (h : QueueOk db) {job : DockerScanJob} (hjob : job ∈ db.jobs)
    (hrun : job.status = .running) (error : String) (retry : Bool) (now : Time) :
    QueueOk (fail job error retry now db) := by
  obtain ⟨f, g, he, hf, -⟩ := fail_cases job error retry now db
  rw [he]
  refine (h.updateJob (fun j => (hf j).1) fun j hj hid _ => ?_).updateManifest
  rw [Table.eq_of_key hj hjob hid]
  simp [DockerScanJob.active, hrun]

theorem claim (h : QueueOk db) {policy : ImagePolicy} (worker : String) (now : Time) :
    QueueOk (scannerClaim policy worker now db).1 := by
  have hre := h.requeueExpired now
  rcases scannerClaim_cases policy worker now db with
    ⟨-, he⟩ | he | ⟨job, -, hnext, ⟨f, he, hf⟩ | ⟨f, he, hf, -⟩⟩
  · rw [he]
    exact h
  · rw [he]
    exact hre
  · rw [he]
    refine (hre.updateJob (fun j => (hf j).1) fun j _ _ hact => ?_).updateManifest
    simp [DockerScanJob.active, (hf j).2] at hact
  · rw [he]
    refine (hre.updateJob (fun j => (hf j).1) fun j hj hid _ => ?_).updateManifest
    -- the job taken was waiting
    obtain ⟨hjob, hq⟩ := nextJob_some hnext
    rw [Table.eq_of_key hj hjob hid]
    simp [DockerScanJob.active, hq]

theorem result (h : QueueOk db) {env : ScanEnv} {policy : ImagePolicy} (jobId : Nat)
    (worker : String) (report : List UInt8) (sbom : Option (List UInt8)) (now : Time) :
    QueueOk (scannerResult env policy jobId worker report sbom now db) := by
  rcases scannerResult_cases env policy jobId worker report sbom now db with
    he | ⟨job, hjob, hrun, ⟨error, he⟩ | hok⟩
  · rw [he]
    exact h
  · rw [he]
    exact h.fail hjob hrun error true now
  · obtain ⟨m, found, db₁, db₂, d, hm, -, -, hc, hdb₂, hcore⟩ := ingest_ok hok
    have h₁ : QueueOk db₁ := h.of_core hc
    have hn : db₁.nextId = db.nextId := congrArg (fun c => c.2.2.2) hc
    refine (QueueOk.recordScan ?_ ?_).of_core hcore
    · rcases hdb₂ with rfl | ⟨_, rfl⟩
      · exact h₁
      · exact h₁.updateManifest
    · rcases hdb₂ with rfl | ⟨_, rfl⟩ <;> exact hn ▸ h.rows m hm

/-- **One step.** -/
theorem step (h : QueueOk db) (env : ScanEnv) (policy : ImagePolicy) (a : ScanAction) :
    QueueOk (a.apply env policy db) := by
  cases a with
  | store repo body contentType expected upstreamId pushedBy now =>
    rcases storeIn_cases env repo body contentType expected upstreamId pushedBy now db with
      hc | ⟨parsed, row, db₁, -, -, hid, hc₁, hc⟩
    · exact h.of_core hc
    · have hn : db₁.nextId = db.nextId := congrArg (fun c => c.2.2.2) hc₁
      exact ((h.of_core hc₁).insertManifest (hid.trans hn.symm)).of_core hc
  | enqueue digest repository reason priority mode =>
    dsimp only [ScanAction.apply]
    split
    · next m hm => exact h.enqueue (h.rows m (List.mem_of_find?_eq_some hm)) _ _ _ _
    · exact h
  | claim worker now => exact h.claim worker now
  | heartbeat jobId worker now =>
    dsimp only [ScanAction.apply, scannerHeartbeat]
    split
    · exact h
    · exact h.updateJob (fun _ => rfl) fun _ _ _ hact => hact
  | fail jobId worker error permanent now =>
    dsimp only [ScanAction.apply, scannerFail]
    split
    · exact h
    · next job hjob =>
      obtain ⟨hmem, hrun⟩ := runningJob_some hjob
      exact h.fail hmem hrun _ _ _
  | result jobId worker report sbom now => exact h.result jobId worker report sbom now
  | schedule now limit =>
    dsimp only [ScanAction.apply, scheduleRescans]
    split
    · exact h
    · refine h.enqueueAll _ _ fun p hp => h.rows p.1 ?_
      exact (mem_staleImages (List.mem_of_mem_take hp)).1

/-- **Every state reached.** -/
theorem reach {env : ScanEnv} {policy : ImagePolicy} {ok : Db → ScanAction → Prop}
    (h : (scanQueue env policy).Reach ok db) : QueueOk db := by
  refine h.invariant (I := QueueOk) (fun _ h0 => Db.Blank.queueOk h0) ?_
  rintro s a _ h - rfl
  exact h.step env policy a

end QueueOk

end Minireg.Docker
