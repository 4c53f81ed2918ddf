import Minireg.Docker.Queue

/-!
# The deny list

An image whose stored findings hold a denied vulnerability is refused
(`DenyListEnforced`). The verdict looks at the scan status before the findings,
and a rescan takes the status away from `scanned`: `evaluatePull_denied` says
what such an image is refused for, `denyList_enforced` which runs of the scan
queue keep it refused.
-/

namespace Minireg.Docker

open Py Lib

/-- The finding alone makes the policy refuse the image. -/
def Denied (policy : ImagePolicy) (f : DockerFinding) : Prop :=
  f.vulnId ∈ policy.denyCves ∨
    policy.pull.blockKev = true ∧ f.kev = true ∧ f.vulnId ∉ policy.allowCves

instance (policy : ImagePolicy) (f : DockerFinding) : Decidable (Denied policy f) :=
  inferInstanceAs (Decidable (_ ∨ _))

/-- The stored findings of the manifest hold a denied one. -/
def HoldsDenied (policy : ImagePolicy) (db : Db) (manifestId : Nat) : Prop :=
  ∃ f ∈ db.findings, f.manifestId = manifestId ∧ Denied policy f

instance (policy : ImagePolicy) (db : Db) (manifestId : Nat) :
    Decidable (HoldsDenied policy db manifestId) :=
  inferInstanceAs (Decidable (∃ f ∈ db.findings, _ ∧ _))

/-- No manifest with a denied finding is served from the repository. -/
def DenyListEnforced (policy : ImagePolicy) (repo : DockerRepository) (db : Db) : Prop :=
  ∀ m ∈ db.manifests, HoldsDenied policy db m.id →
    (evaluatePull db repo m policy).allowed = false

/-! ## The verdict -/

section

variable {policy : ImagePolicy} {repo : DockerRepository} {db : Db} {m : DockerManifest}

/-- The rules refuse what holds a denied finding. -/
theorem evaluateRules_denied (h : HoldsDenied policy db m.id) :
    (evaluateRules db m.id policy policy.pull "pull").allowed = false := by
  obtain ⟨f, hf, hm, hd⟩ := h
  unfold evaluateRules
  dsimp only
  split
  · rfl
  · next hnone =>
    rcases hd with hdeny | ⟨hblock, hkev, hallow⟩
    · have hfound : f ∈ findingsOf db m.id := List.mem_filter.mpr ⟨hf, by simpa using hm⟩
      exact absurd (deniedCvesPresent_ne_nil.mpr ⟨f, hfound, hdeny⟩) hnone
    · -- a known-exploited finding that no accept entry covers is counted
      have hcount : ((gateCounts db m.id policy).filter DockerFinding.kev).length ≠ 0 := by
        refine List.length_pos_iff_exists_mem.mpr ⟨f, ?_⟩ |>.ne'
        refine List.mem_filter.mpr ⟨List.mem_filter.mpr ⟨?_, by simpa using hallow⟩, hkev⟩
        exact List.mem_filter.mpr ⟨hf, by simpa using hm⟩
      simp only [hblock, Bool.true_or, Bool.not_true, Bool.false_eq_true, if_false, ne_eq, hcount,
        not_false_eq_true, decide_true, Bool.and_self, if_true]
      rfl

/-- **What an image with a denied finding is refused for**: its repository is
quarantined, a push verdict blocks it, or it is still taken for an image and
either scanned or held back for not being scanned. -/
theorem evaluatePull_denied (h : HoldsDenied policy db m.id) (hkind : m.kind ≠ .index) :
    (evaluatePull db repo m policy).allowed = false ↔
      repo.quarantined = true ∨
      (repo.isLocal = true ∧ (pushBlockReason db repo m.id).getD "" ≠ "") ∨
      (m.kind = .image ∧ (m.scanStatus = .scanned ∨ gated repo policy = true)) := by
  unfold evaluatePull
  by_cases hq : repo.quarantined = true
  · simp [hq, refuse]
  rw [if_neg hq]
  dsimp only
  by_cases hb : (if repo.isLocal = true then (pushBlockReason db repo m.id).getD "" else "") ≠ ""
  · rw [if_pos hb]
    have : repo.isLocal = true ∧ (pushBlockReason db repo m.id).getD "" ≠ "" := by
      split at hb
      · next hl => exact ⟨hl, hb⟩
      · exact absurd rfl hb
    exact iff_of_true rfl (.inr (.inl this))
  rw [if_neg hb]
  have hb' : ¬ (repo.isLocal = true ∧ (pushBlockReason db repo m.id).getD "" ≠ "") := by
    rintro ⟨hl, hne⟩
    rw [if_pos hl] at hb
    exact hb hne
  rcases hk : m.kind with _ | _ | _ | _ | _ <;> dsimp only
  · by_cases hs : m.scanStatus = .scanned
    · rw [if_pos hs]
      exact iff_of_true (evaluateRules_denied h) (.inr (.inr ⟨rfl, .inl hs⟩))
    · rw [if_neg hs]
      by_cases hg : gated repo policy = true
      · rw [if_neg (by simp [hg])]
        refine iff_of_true ?_ (.inr (.inr ⟨rfl, .inr hg⟩))
        split <;> rfl
      · rw [if_pos (by simpa using hg)]
        refine iff_of_false (by simp [allow]) ?_
        rintro (h | h | ⟨-, h | h⟩)
        · exact hq h
        · exact hb' h
        · exact hs h
        · exact hg h
  · exact absurd hk hkind
  all_goals
    refine iff_of_false (by simp [allow]) ?_
    rintro (h | h | ⟨h, -⟩)
    · exact hq h
    · exact hb' h
    · cases h

end

/-! ## Runs -/

/-- The steps that keep a denied image refused. A new index lists no image with
denied findings, and none being scanned, as an attestation; and where the
repository serves images that have not been scanned, no claim takes a job of an
image with denied findings. -/
def KeepsDenied (env : ScanEnv) (policy : ImagePolicy) (repo : DockerRepository) (db : Db) :
    ScanAction → Prop
  | .store _ body contentType _ _ _ _ =>
    db.manifestRow (env.sha256 body) = none →
      ∀ parsed, parse env.codec body contentType = .ok parsed → parsed.isIndex = true →
        ∀ r ∈ parsed.refs, isAttestationEntry r.platform r.annotations = true →
          ∀ m ∈ db.manifests, m.digest = r.digest → ¬ HoldsDenied policy db m.id ∧
            ∀ j ∈ db.jobs, j.manifestId = m.id → j.status ≠ .running
  | .claim _ now =>
    policy.scanningEnabled = true → gated repo policy = false →
      ∀ job, nextJob (requeueExpired now db) = some job → ¬ HoldsDenied policy db job.manifestId
  | _ => True

/-- What the run keeps: a manifest with denied findings is an image, scanned
unless the repository waits for scans anyway, and so is what is being scanned. -/
structure Judged (policy : ImagePolicy) (repo : DockerRepository) (db : Db) : Prop where
  denied : ∀ m ∈ db.manifests, HoldsDenied policy db m.id →
    m.kind = .image ∧ (m.scanStatus = .scanned ∨ gated repo policy = true)
  running : ∀ j ∈ db.jobs, j.status = .running → ∀ m ∈ db.manifests, m.id = j.manifestId →
    m.kind = .image ∧ (HoldsDenied policy db m.id → gated repo policy = true)

theorem Judged.enforced {policy : ImagePolicy} {repo : DockerRepository} {db : Db}
    (h : Judged policy repo db) : DenyListEnforced policy repo db := by
  intro m hm hd
  obtain ⟨hk, hs⟩ := h.denied m hm hd
  exact (evaluatePull_denied hd (by simp [hk])).mpr (.inr (.inr ⟨hk, hs⟩))

theorem Db.Blank.judged {policy : ImagePolicy} {repo : DockerRepository} {db : Db}
    (h : db.Blank) : Judged policy repo db where
  denied := by rw [h.manifests]; exact fun _ hm => absurd hm Table.not_mem_empty
  running := by rw [h.jobs]; exact fun _ hj => absurd hj Table.not_mem_empty

namespace Judged

variable {policy : ImagePolicy} {repo : DockerRepository} {db db' : Db}

theorem of_core (h : Judged policy repo db) (hc : db'.core = db.core) : Judged policy repo db' := by
  obtain ⟨hm, hf, hj, -⟩ : db'.manifests = db.manifests ∧ db'.findings = db.findings ∧
      db'.jobs = db.jobs ∧ db'.nextId = db.nextId := by
    simpa only [Db.core, Prod.mk.injEq] using hc
  have hh : ∀ i, HoldsDenied policy db' i ↔ HoldsDenied policy db i := fun i => by
    unfold HoldsDenied
    rw [hf]
  constructor
  · rw [hm]
    exact fun m hm hd => h.denied m hm ((hh _).mp hd)
  · rw [hm, hj]
    exact fun j hj hr m hm hid => (h.running j hj hr m hm hid).imp_right fun k hd => k ((hh _).mp hd)

/-- A row may change its status where it holds nothing denied, or is scanned, or
the repository waits for scans. -/
theorem updateManifest (h : Judged policy repo db) {manifestId : Nat}
    {g : DockerManifest → DockerManifest} (hk : ∀ m, (g m).kind = m.kind)
    (hs : ∀ m ∈ db.manifests, m.id = manifestId → HoldsDenied policy db m.id →
      (g m).scanStatus = .scanned ∨ gated repo policy = true) :
    Judged policy repo (db.updateManifest manifestId g) where
  denied m hm hd := by
    obtain ⟨n, hn, rfl⟩ := Db.mem_updateManifest.mp hm
    split at hd
    · next hid =>
      rw [if_pos hid]
      exact ⟨(hk n).trans (h.denied n hn hd).1, hs n hn hid hd⟩
    · next hid =>
      rw [if_neg hid]
      exact h.denied n hn hd
  running j hj hr m hm hid := by
    obtain ⟨n, hn, rfl⟩ := Db.mem_updateManifest.mp hm
    by_cases hnid : n.id = manifestId
    · rw [if_pos hnid] at hid ⊢
      exact ⟨(hk n).trans (h.running j hj hr n hn hid).1, (h.running j hj hr n hn hid).2⟩
    · rw [if_neg hnid] at hid ⊢
      exact h.running j hj hr n hn hid

/-- A job may be rewritten; one that starts running must be of an image that is
not denied unless the repository waits for scans. -/
theorem updateJob (h : Judged policy repo db) {jobId : Nat} {f : DockerScanJob → DockerScanJob}
    (hm : ∀ j, (f j).manifestId = j.manifestId)
    (hr : ∀ j ∈ db.jobs, j.id = jobId → (f j).status = .running → j.status = .running ∨
      ∀ m ∈ db.manifests, m.id = j.manifestId →
        m.kind = .image ∧ (HoldsDenied policy db m.id → gated repo policy = true)) :
    Judged policy repo (db.updateJob jobId f) where
  denied := h.denied
  running j hj hrun m hmem hid := by
    obtain ⟨i, hi, rfl⟩ := Db.mem_updateJob.mp hj
    by_cases hiid : i.id = jobId
    · rw [if_pos hiid] at hrun hid
      have hmid : m.id = i.manifestId := hid.trans (hm i)
      rcases hr i hi hiid hrun with hrun' | hnew
      · exact h.running i hi hrun' m hmem hmid
      · exact hnew m hmem hmid
    · rw [if_neg hiid] at hrun hid
      exact h.running i hi hrun m hmem hid

theorem addJob (h : Judged policy repo db) {job : DockerScanJob} (hq : job.status = .queued)
    {n : Nat} : Judged policy repo { db with jobs := db.jobs.put job, nextId := n } where
  denied := h.denied
  running j hj hrun := by
    rcases Table.mem_put.mp hj with rfl | ⟨hj, -⟩
    · rw [hq] at hrun
      cases hrun
    · exact h.running j hj hrun

theorem requeueExpired (h : Judged policy repo db) (now : Time) :
    Judged policy repo (requeueExpired now db) where
  denied := h.denied
  running j hj hrun := by
    obtain ⟨i, hi, rfl⟩ := mem_requeueExpired.mp hj
    unfold DockerScanJob.requeue at hrun ⊢
    split at hrun
    · cases hrun
    · next he =>
      rw [if_neg he]
      exact h.running i hi hrun

theorem insertManifest (h : Judged policy repo db) (hq : QueueOk db) {parsed : ParsedManifest}
    {row : DockerManifest} (hid : row.id = db.nextId)
    (hrefs : parsed.isIndex = true → ∀ r ∈ parsed.refs,
      isAttestationEntry r.platform r.annotations = true → ∀ m ∈ db.manifests,
        m.digest = r.digest → ¬ HoldsDenied policy db m.id ∧
          ∀ j ∈ db.jobs, j.manifestId = m.id → j.status ≠ .running) :
    Judged policy repo (insertManifest parsed row db) := by
  -- a row the index may not mark keeps its kind and its status
  have hkeep : ∀ n ∈ db.manifests, (HoldsDenied policy db n.id ∨
      ∃ j ∈ db.jobs, j.manifestId = n.id ∧ j.status = .running) → parsed.isIndex = true →
      (learnEntries parsed.refs n).kind = n.kind ∧
        (learnEntries parsed.refs n).scanStatus = n.scanStatus := by
    intro n hn hcare hi
    refine learnEntries_kind fun r hr hd => Bool.eq_false_iff.mpr fun hatt => ?_
    obtain ⟨hnd, hnj⟩ := hrefs hi r hr hatt n hn hd
    rcases hcare with hd | ⟨j, hj, hjm, hjr⟩
    · exact hnd hd
    · exact hnj j hj hjm hjr
  constructor
  · intro m hm hd
    obtain ⟨n, hn, rfl⟩ := mem_insertManifest hm
    have hdn : HoldsDenied policy db n.id := by
      split at hd
      · rwa [learnEntries_id] at hd
      · exact hd
    rcases hn with rfl | hn
    · -- the new row has no findings yet
      obtain ⟨f, hf, hfm, -⟩ := hdn
      have := hq.findings f hf
      omega
    · split
      · next hi =>
        obtain ⟨hk, hs⟩ := hkeep n hn (.inl hdn) hi
        rw [hk, hs]
        exact h.denied n hn hdn
      · exact h.denied n hn hdn
  · intro j hj hrun m hm hmid
    obtain ⟨n, hn, rfl⟩ := mem_insertManifest hm
    have hnid : n.id = j.manifestId := by
      split at hmid
      · rwa [learnEntries_id] at hmid
      · exact hmid
    rcases hn with rfl | hn
    · have := (hq.jobs j hj).2
      omega
    · obtain ⟨hk, hd⟩ := h.running j hj hrun n hn hnid
      split
      · next hi =>
        rw [(hkeep n hn (.inr ⟨j, hj, hnid.symm, hrun⟩) hi).1, learnEntries_id]
        exact ⟨hk, hd⟩
      · exact ⟨hk, hd⟩

/-- The findings of other manifests stay. -/
theorem holdsDenied_recordScan {m : DockerManifest} {job : DockerScanJob} {reportDigest : Digest}
    {found : List ParsedFinding} {now : Time} {manifestId : Nat} (hne : manifestId ≠ m.id)
    (h : HoldsDenied policy (recordScan m job reportDigest found now db) manifestId) :
    HoldsDenied policy db manifestId := by
  obtain ⟨f, hf, hfm, hd⟩ := h
  rcases List.mem_append.mp hf with hf | hf
  · exact ⟨f, (List.mem_filter.mp hf).1, hfm, hd⟩
  · obtain ⟨p, -, rfl⟩ := List.mem_map.mp hf
    exact absurd hfm.symm hne

/-- The image of a running job is scanned after its result is in. -/
theorem recordScan (h : Judged policy repo db) (hq : QueueOk db) {m : DockerManifest}
    {job : DockerScanJob} (hjob : job ∈ db.jobs) (hrun : job.status = .running)
    (hm : m.id = job.manifestId) (reportDigest : Digest) (found : List ParsedFinding)
    (now : Time) : Judged policy repo (recordScan m job reportDigest found now db) := by
  constructor
  · intro n' hn' hd
    obtain ⟨n, hn, rfl⟩ := Db.mem_updateManifest.mp hn'
    by_cases hid : n.id = m.id
    · rw [if_pos hid]
      exact ⟨(h.running job hjob hrun n hn (hid.trans hm)).1, .inl rfl⟩
    · rw [if_neg hid] at hd ⊢
      exact h.denied n hn (holdsDenied_recordScan hid hd)
  · intro j' hj' hrun' n' hn' hmid
    obtain ⟨j, hj, rfl⟩ := Db.mem_updateJob.mp hj'
    by_cases hjid : j.id = job.id
    · rw [if_pos hjid] at hrun'
      cases hrun'
    · rw [if_neg hjid] at hrun' hmid
      -- no other job of the image is active
      have hne : j.manifestId ≠ m.id := fun heq => hjid (congrArg DockerScanJob.id
        (hq.oneJob j hj job hjob (by simp [DockerScanJob.active, hrun'])
          (by simp [DockerScanJob.active, hrun]) (heq.trans hm)))
      obtain ⟨n, hn, rfl⟩ := Db.mem_updateManifest.mp hn'
      have hid : n.id ≠ m.id := by
        intro hid
        rw [if_pos hid] at hmid
        exact hne (hmid.symm.trans hid)
      rw [if_neg hid] at hmid ⊢
      exact (h.running j hj hrun' n hn hmid).imp_right fun k hd =>
        k (holdsDenied_recordScan hid hd)

theorem enqueue (h : Judged policy repo db) {m : DockerManifest}
    (hm : m.scanStatus = .scanned ∨ m ∈ db.manifests) (repository : String) (reason : ScanReason)
    (priority : Nat) (mode : Option ScanMode) :
    Judged policy repo (enqueue m repository reason priority mode db).1 := by
  rcases enqueue_cases m repository reason priority mode db with
    he | ⟨existing, he⟩ | ⟨job, -, -, hst, -, he⟩
  · rw [he]
    exact h
  · rw [he]
    exact h.updateJob (fun _ => rfl) fun _ _ _ hrun => .inl hrun
  · rw [he]
    have hadd : Judged policy repo { db with jobs := db.jobs.put job, nextId := db.nextId + 1 } :=
      h.addJob hst
    split
    · next hs =>
      refine hadd.updateManifest (fun _ => rfl) fun n hn hid hd => .inr ?_
      rcases hm with hm | hm
      · rw [hm] at hs
        simp at hs
      · rw [Table.eq_of_key hn hm hid] at hd
        rcases (h.denied m hm hd).2 with hsc | hg
        · rw [hsc] at hs
          simp at hs
        · exact hg
    · exact hadd

theorem enqueueAll (h : Judged policy repo db) (rows : List (DockerManifest × DockerRepository))
    (done : List Nat) (hrows : ∀ p ∈ rows, p.1.scanStatus = .scanned) :
    Judged policy repo (enqueueAll rows done db) := by
  induction rows generalizing done db with
  | nil => exact h
  | cons p rows ih =>
    unfold Docker.enqueueAll
    have hrest : ∀ q ∈ rows, q.1.scanStatus = .scanned := fun q hq =>
      hrows q (List.mem_cons_of_mem _ hq)
    split
    · exact ih h _ hrest
    · exact ih (h.enqueue (.inl (hrows p List.mem_cons_self)) _ _ _ _) _ hrest

/-- Ending a running job marks an image without denied findings, or one of a
repository that waits for scans. -/
theorem fail (h : Judged policy repo db) {job : DockerScanJob} (hjob : job ∈ db.jobs)
    (hrun : job.status = .running) (error : String) (retry : Bool) (now : Time) :
    Judged policy repo (fail job error retry now db) := by
  obtain ⟨f, g, he, hf, hk⟩ := fail_cases job error retry now db
  rw [he]
  have hj : Judged policy repo (db.updateJob job.id f) :=
    h.updateJob (fun j => (hf j).1) fun j _ _ hr => absurd hr (hf j).2
  exact hj.updateManifest hk fun m hm hid hd => .inr ((h.running job hjob hrun m hm hid).2 hd)

theorem claim (h : Judged policy repo db) (worker : String) (now : Time)
    (hok : policy.scanningEnabled = true → gated repo policy = false →
      ∀ job, nextJob (Docker.requeueExpired now db) = some job →
        ¬ HoldsDenied policy db job.manifestId) :
    Judged policy repo (scannerClaim policy worker now db).1 := by
  have hre := h.requeueExpired now
  rcases scannerClaim_cases policy worker now db with
    ⟨-, he⟩ | he | ⟨job, hen, hnext, hcase⟩
  · rw [he]
    exact h
  · rw [he]
    exact hre
  · have hgate : HoldsDenied policy db job.manifestId → gated repo policy = true := by
      intro hd
      by_contra hg
      exact hok hen (Bool.eq_false_iff.mpr hg) job hnext hd
    rcases hcase with ⟨f, he, hf⟩ | ⟨f, he, hf, himage⟩
    · rw [he]
      have hj : Judged policy repo ((Docker.requeueExpired now db).updateJob job.id f) :=
        hre.updateJob (fun j => (hf j).1) fun j _ _ hr => by
          rw [(hf j).2] at hr
          cases hr
      exact hj.updateManifest (fun _ => rfl) fun m _ hid hd => .inr (hgate (hid ▸ hd))
    · rw [he]
      obtain ⟨hjob, -⟩ := nextJob_some hnext
      have hj : Judged policy repo ((Docker.requeueExpired now db).updateJob job.id f) :=
        hre.updateJob (fun j => (hf j).1) fun j hj hid _ => .inr fun m hm hmid => by
          rw [Table.eq_of_key hj hjob hid] at hmid
          exact ⟨himage m hm hmid, fun hd => hgate (hmid ▸ hd)⟩
      exact hj.updateManifest (fun _ => rfl) fun m _ hid hd => .inr (hgate (hid ▸ hd))

theorem result (h : Judged policy repo db) (hq : QueueOk db) {env : ScanEnv} (jobId : Nat)
    (worker : String) (report : List UInt8) (sbom : Option (List UInt8)) (now : Time) :
    Judged policy repo (scannerResult env policy jobId worker report sbom now db) := by
  rcases scannerResult_cases env policy jobId worker report sbom now db with
    he | ⟨job, hjob, hrun, ⟨error, he⟩ | hok⟩
  · rw [he]
    exact h
  · rw [he]
    exact h.fail hjob hrun error true now
  · obtain ⟨m, found, db₁, db₂, d, -, hmid, -, hc, hdb₂, hcore⟩ := ingest_ok hok
    have h₁ : Judged policy repo db₁ := h.of_core hc
    have hq₁ : QueueOk db₁ := hq.of_core hc
    have hjobs : db₁.jobs = db.jobs := congrArg (fun c => c.2.2.1) hc
    refine Judged.of_core ?_ hcore
    rcases hdb₂ with rfl | ⟨sbomDigest, rfl⟩
    · exact h₁.recordScan hq₁ (hjobs ▸ hjob) hrun hmid d found now
    · have h₂ : Judged policy repo
          (db₁.updateManifest m.id fun m => { m with sbomDigest := some sbomDigest }) :=
        h₁.updateManifest (fun _ => rfl) fun n hn _ hd => (h₁.denied n hn hd).2
      exact h₂.recordScan hq₁.updateManifest (hjobs ▸ hjob) hrun hmid d found now

/-- **One step.** -/
theorem step (h : Judged policy repo db) (hq : QueueOk db) {env : ScanEnv} {a : ScanAction}
    (hok : KeepsDenied env policy repo db a) : Judged policy repo (a.apply env policy db) := by
  cases a with
  | store repo' body contentType expected upstreamId pushedBy now =>
    rcases storeIn_cases env repo' body contentType expected upstreamId pushedBy now db
      with hc | ⟨parsed, row, db₁, hparse, hnew, hid, hc₁, hc⟩
    · exact h.of_core hc
    · obtain ⟨hm, hf, hj, hn⟩ : db₁.manifests = db.manifests ∧ db₁.findings = db.findings ∧
          db₁.jobs = db.jobs ∧ db₁.nextId = db.nextId := by
        simpa only [Db.core, Prod.mk.injEq] using hc₁
      refine ((h.of_core hc₁).insertManifest (hq.of_core hc₁) (hid.trans hn.symm) ?_).of_core hc
      intro hi r hr hatt
      unfold HoldsDenied
      rw [hm, hf, hj]
      exact hok hnew parsed hparse hi r hr hatt
  | enqueue digest repository reason priority mode =>
    dsimp only [ScanAction.apply]
    split
    · next m hm => exact h.enqueue (.inr (List.mem_of_find?_eq_some hm)) _ _ _ _
    · exact h
  | claim worker now => exact h.claim worker now hok
  | heartbeat jobId worker now =>
    dsimp only [ScanAction.apply, scannerHeartbeat]
    split
    · exact h
    · exact h.updateJob (fun _ => rfl) fun _ _ _ hrun => .inl hrun
  | fail jobId worker error permanent now =>
    dsimp only [ScanAction.apply, scannerFail]
    split
    · exact h
    · next job hjob =>
      obtain ⟨hmem, hrun⟩ := runningJob_some hjob
      exact h.fail hmem hrun _ _ _
  | result jobId worker report sbom now => exact h.result hq jobId worker report sbom now
  | schedule now limit =>
    dsimp only [ScanAction.apply, scheduleRescans]
    split
    · exact h
    · exact h.enqueueAll _ _ fun p hp => (mem_staleImages (List.mem_of_mem_take hp)).2

end Judged

/-- **Which runs keep the deny list enforced.** -/
theorem denyList_enforced {env : ScanEnv} {policy : ImagePolicy} {repo : DockerRepository}
    {db : Db} (h : (scanQueue env policy).Reach (KeepsDenied env policy repo) db) :
    DenyListEnforced policy repo db := by
  refine Judged.enforced (h.invariant (I := fun db => QueueOk db ∧ Judged policy repo db)
    (fun _ h0 => ⟨Db.Blank.queueOk h0, Db.Blank.judged h0⟩) ?_).2
  rintro s a _ ⟨hq, hj⟩ hok rfl
  exact ⟨hq.step env policy a, hj.step hq hok⟩

/-! ## A rescan of a denied image -/

def log4jReport : Json :=
  .obj [("Results", .arr [.obj [("Vulnerabilities", .arr [.obj
    [("VulnerabilityID", .str "CVE-2021-44228"), ("PkgName", .str "log4j-core"),
     ("Severity", .str "CRITICAL")]])]])]

/-- A scanner whose reports all list one vulnerability. -/
def log4jEnv : ScanEnv where
  codec := constCodec plainImage
  sha256 bytes := if bytes = [] then "sha256:image" else "sha256:report"
  orjson _ := some log4jReport
  caseMap := .ascii

def log4jPolicy : ImagePolicy := { denyCves := ["CVE-2021-44228"] }

def appRepo : DockerRepository := { id := 1, name := "hub/app", upstreamId := some 1 }

def appDb : Db := { repositories := { rows := [appRepo] } }

theorem appDb_blank : appDb.Blank := ⟨rfl, rfl, rfl⟩

/-- The image is stored, queued, claimed and scanned. -/
def scanRun : List ScanAction :=
  [.store appRepo [] none none none none 0,
   .enqueue "sha256:image" "hub/app" .pull priorityPull none,
   .claim "w" 1, .result 2 "w" [1] none 2]

/-- A day later the scheduler queues a rescan, and a worker claims it. -/
def rescanRun : List ScanAction :=
  [.schedule (25 * 3600 * 1000000) 500, .claim "w" (25 * 3600 * 1000000 + 1)]

def runActions (env : ScanEnv) (policy : ImagePolicy) (db : Db) (as : List ScanAction) : Db :=
  as.foldl (fun db a => a.apply env policy db) db

theorem reach_runActions {env : ScanEnv} {policy : ImagePolicy} {db : Db} (as : List ScanAction)
    (h : (scanQueue env policy).Reach (fun _ _ => True) db) :
    (scanQueue env policy).Reach (fun _ _ => True) (runActions env policy db as) := by
  induction as generalizing db with
  | nil => exact h
  | cons a as ih => exact ih (h.step trivial rfl)

instance (policy : ImagePolicy) (repo : DockerRepository) (db : Db) :
    Decidable (DenyListEnforced policy repo db) :=
  inferInstanceAs (Decidable (∀ m ∈ db.manifests.rows, _ → _))

/-- While the rescan runs, the denied image is served. -/
theorem denyList_not_enforced : ¬ ∀ db,
    (scanQueue log4jEnv log4jPolicy).Reach (fun _ _ => True) db →
      DenyListEnforced log4jPolicy appRepo db := by
  intro h
  have hreach := reach_runActions (scanRun ++ rescanRun)
    (.init appDb_blank : (scanQueue log4jEnv log4jPolicy).Reach (fun _ _ => True) appDb)
  exact absurd (h _ hreach) (by decide +kernel)

/-- Until then it is refused. -/
theorem denyList_enforced_log4j :
    HoldsDenied log4jPolicy (runActions log4jEnv log4jPolicy appDb scanRun) 1 ∧
      DenyListEnforced log4jPolicy appRepo (runActions log4jEnv log4jPolicy appDb scanRun) := by
  refine ⟨by decide +kernel, denyList_enforced (?_ : (scanQueue log4jEnv log4jPolicy).Reach
    (KeepsDenied log4jEnv log4jPolicy appRepo) _)⟩
  have himage : (parse (constCodec plainImage) [] none).toOption.map ParsedManifest.isIndex =
      some false := by decide
  have hnone : (runActions log4jEnv log4jPolicy appDb (scanRun.take 2)).findings = [] := by
    decide +kernel
  refine .step (a := .result 2 "w" [1] none 2) (.step (a := .claim "w" 1)
    (.step (a := .enqueue "sha256:image" "hub/app" .pull priorityPull none)
      (.step (a := .store appRepo [] none none none none 0) (.init appDb_blank) ?_ rfl)
      trivial rfl) ?_ rfl) trivial rfl
  · intro _ parsed hparse hi
    change parse (constCodec plainImage) [] none = .ok parsed at hparse
    rw [hparse] at himage
    simp only [Except.toOption, Option.map_some, Option.some.injEq] at himage
    rw [himage] at hi
    cases hi
  · rintro - - job - ⟨f, hf, -⟩
    change f ∈ (runActions log4jEnv log4jPolicy appDb (scanRun.take 2)).findings at hf
    rw [hnone] at hf
    cases hf

end Minireg.Docker
