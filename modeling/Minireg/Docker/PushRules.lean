import Minireg.Docker.Isolation
import Minireg.Docker.Queue

/-!
# The push rules and their marks

The verdict of the push rules on a scanned image is written onto its links in local
repositories. `MarksTrack` says that every such mark is what the rules make of the findings
now; `applyPushPolicy` sets the marks of one image, and each operation that changes findings,
links or rules applies it. The rules come from `loadPolicy`, which every replica caches.
-/

namespace Minireg.Docker

open Py Lib

/-! ## Loading the policy -/

/-- The setting, its copy in the shared cache and those of the replicas, with the time each is
good until. -/
structure PolicyStore where
  saved : ImagePolicy := {}
  shared : Option (Time × ImagePolicy) := none
  locals : Dict Nat (Time × ImagePolicy) := []

/-- A replica at work: the time, and whether it reaches the shared cache. -/
structure At where
  replica : Nat
  now : Time
  reachable : Bool := true

namespace PolicyStore

/-- `load_policy`: a replica keeps its copy for 5 seconds, the shared one lasts 60. -/
def load (p : PolicyStore) (r : At) : ImagePolicy × PolicyStore :=
  let keep := fun (policy : ImagePolicy) (p : PolicyStore) =>
    { p with locals := Dict.set p.locals r.replica (r.now + 5 * 1000000, policy) }
  match (Dict.get? p.locals r.replica).filter (·.1 > r.now) with
  | some (_, policy) => (policy, p)
  | none =>
    match p.shared.filter fun copy => r.reachable && copy.1 > r.now with
    | some (_, policy) => (policy, keep policy p)
    | none =>
      (p.saved, keep p.saved
        { p with shared := if r.reachable then some (r.now + 60 * 1000000, p.saved) else p.shared })

/-- `invalidate_policy`: the copy of this replica and the shared one are dropped. -/
def invalidate (p : PolicyStore) (r : At) : PolicyStore :=
  { p with
    shared := if r.reachable then none else p.shared
    locals := p.locals.filter fun e => e.1 ≠ r.replica }

theorem load_saved (p : PolicyStore) (r : At) : (p.load r).2.saved = p.saved := by
  unfold load
  dsimp only
  split
  · rfl
  · split <;> rfl

end PolicyStore

/-! ## Marks -/

/-- The marks of an image in local repositories are what the push rules make of its findings. -/
def Tracks (policy : ImagePolicy) (db : Db) (manifestId : Nat) : Prop :=
  ∀ l ∈ db.repoManifests, l.manifestId = manifestId → inLocal db l = true →
    (l.pushBlockReason.isSome = true ↔
      (evaluateRules db manifestId policy policy.push "push").allowed = false)

/-- **Every scanned image's marks track the rules.** -/
def MarksTrack (policy : ImagePolicy) (db : Db) : Prop :=
  ∀ m ∈ db.manifests, m.kind = .image → m.scanStatus = .scanned → Tracks policy db m.id

section Marks

variable {policy policy' : ImagePolicy} {db db' : Db} {m : DockerManifest}

theorem evaluateRules_reason (db : Db) (manifestId : Nat) (policy : ImagePolicy)
    (rules : GateRules) (label : String)
    (h : (evaluateRules db manifestId policy rules label).allowed = false) :
    (evaluateRules db manifestId policy rules label).reason.isSome = true := by
  unfold evaluateRules at h ⊢
  dsimp only at h ⊢
  split
  · rfl
  · next hdenied =>
    rw [if_neg hdenied] at h
    split
    · next hoff =>
      rw [if_pos hoff] at h
      cases h
    · next hoff =>
      rw [if_neg hoff] at h
      split
      · rfl
      · next hkev =>
        rw [if_neg hkev] at h
        split
        · rfl
        · next hhits =>
          rw [if_neg hhits] at h
          cases h

/-- The rules look at the findings of the image only. -/
theorem evaluateRules_findings {manifestId : Nat} {rules : GateRules} {label : String}
    (h : findingsOf db' manifestId = findingsOf db manifestId) :
    evaluateRules db' manifestId policy rules label =
      evaluateRules db manifestId policy rules label := by
  unfold evaluateRules deniedCvesPresent gateCounts
  rw [h]

/-- A mark from the rules, on the links of the image in local repositories. -/
def marked (policy : ImagePolicy) (db : Db) (manifestId : Nat) (l : DockerRepoManifest) :
    DockerRepoManifest :=
  if l.manifestId = manifestId && inLocal db l then
    let verdict := evaluateRules db manifestId policy policy.push "push"
    { l with pushBlockReason := if verdict.allowed then none else verdict.reason }
  else l

theorem marked_repositoryId (policy : ImagePolicy) (db : Db) (l : DockerRepoManifest)
    (manifestId : Nat) : (marked policy db manifestId l).repositoryId = l.repositoryId ∧
      (marked policy db manifestId l).manifestId = l.manifestId := by
  unfold marked
  split <;> exact ⟨rfl, rfl⟩

/-- `applyPushPolicy` marks the links of a scanned image, and leaves everything else. -/
theorem applyPushPolicy_eq (hkind : m.kind = .image) (hscanned : m.scanStatus = .scanned) :
    applyPushPolicy m policy db =
      { db with repoManifests := db.repoManifests.map (marked policy db m.id) } := by
  unfold applyPushPolicy
  rw [if_neg (by simp [hkind, hscanned])]
  split
  · next hnone =>
    have hlinks : db.repoManifests.map (marked policy db m.id) = db.repoManifests := by
      refine (List.map_congr_left fun l hl => ?_).trans (List.map_id _)
      simp only [Bool.not_eq_true', List.any_eq_false] at hnone
      unfold marked
      rw [if_neg (hnone l hl)]
      rfl
    rw [hlinks]
  · rfl

theorem applyPushPolicy_of_ne (h : m.kind ≠ .image ∨ m.scanStatus ≠ .scanned) :
    applyPushPolicy m policy db = db := by
  unfold applyPushPolicy
  rw [if_pos (by simpa using h)]

/-- Marks outlast a change that adds no local link of the image and leaves its findings. -/
theorem Tracks.frame {i : Nat} (h : Tracks policy db i)
    (hlinks : ∀ l ∈ db'.repoManifests, l.manifestId = i → inLocal db' l = true →
      l ∈ db.repoManifests ∧ inLocal db l = true)
    (hfindings : findingsOf db' i = findingsOf db i) : Tracks policy db' i := by
  intro l hl hid hlocal
  obtain ⟨hmem, hin⟩ := hlinks l hl hid hlocal
  rw [evaluateRules_findings hfindings]
  exact h l hmem hid hin

/-- Applying the rules sets the marks of the image. -/
theorem tracks_apply_self (hkind : m.kind = .image) (hscanned : m.scanStatus = .scanned) :
    Tracks policy (applyPushPolicy m policy db) m.id := by
  rw [applyPushPolicy_eq hkind hscanned]
  intro l' hl' hid hlocal
  obtain ⟨l, -, rfl⟩ := List.mem_map.mp hl'
  obtain ⟨hrepo, hmanifest⟩ := marked_repositoryId policy db l m.id
  have hin : inLocal db l = true := by
    unfold inLocal at hlocal ⊢
    rwa [hrepo] at hlocal
  have hsame : evaluateRules { db with repoManifests := db.repoManifests.map (marked policy db m.id) }
      m.id policy policy.push "push" = evaluateRules db m.id policy policy.push "push" :=
    evaluateRules_findings rfl
  rw [hsame]
  unfold marked
  rw [if_pos (by simp [← hmanifest, hid, hin])]
  rcases hallowed : (evaluateRules db m.id policy policy.push "push").allowed with _ | _
  · simp [hallowed, evaluateRules_reason _ _ _ _ _ hallowed]
  · simp [hallowed]

/-- And it leaves those of the other images. -/
theorem tracks_apply {i : Nat} (h : Tracks policy db i) :
    Tracks policy (applyPushPolicy m policy db) i := by
  by_cases hjudged : m.kind = .image ∧ m.scanStatus = .scanned
  · obtain ⟨hkind, hscanned⟩ := hjudged
    by_cases hid : i = m.id
    · exact hid ▸ tracks_apply_self hkind hscanned
    · rw [applyPushPolicy_eq hkind hscanned]
      refine h.frame (fun l' hl' hl hlocal => ?_) rfl
      obtain ⟨l, hmem, rfl⟩ := List.mem_map.mp hl'
      have hother : marked policy db m.id l = l := by
        unfold marked
        rw [if_neg fun hc => ?_]
        simp only [Bool.and_eq_true, decide_eq_true_eq] at hc
        rw [(marked_repositoryId policy db l m.id).2] at hl
        exact hid (hl.symm.trans hc.1)
      rw [hother] at hlocal ⊢
      exact ⟨hmem, hlocal⟩
  · rw [applyPushPolicy_of_ne (by by_contra hc; simp_all)]
    exact h

theorem applyPushPolicy_rows (m : DockerManifest) (policy : ImagePolicy) (db : Db) :
    (applyPushPolicy m policy db).manifests = db.manifests :=
  congrArg Prod.fst (applyPushPolicy_core db m policy)

theorem foldl_apply_rows (rows : List DockerManifest) (db : Db) :
    (rows.foldl (fun db m => applyPushPolicy m policy db) db).manifests = db.manifests := by
  induction rows generalizing db with
  | nil => rfl
  | cons m rows ih => rw [List.foldl_cons, ih, applyPushPolicy_rows]

theorem tracks_foldl {i : Nat} (rows : List DockerManifest) (db : Db)
    (hrows : ∀ m ∈ rows, m.kind = .image ∧ m.scanStatus = .scanned)
    (h : (∃ m ∈ rows, m.id = i) ∨ Tracks policy db i) :
    Tracks policy (rows.foldl (fun db m => applyPushPolicy m policy db) db) i := by
  induction rows generalizing db with
  | nil => exact h.resolve_left fun ⟨_, hm, _⟩ => absurd hm List.not_mem_nil
  | cons m rows ih =>
    refine ih _ (fun m' hm' => hrows m' (List.mem_cons_of_mem _ hm')) ?_
    rcases h with ⟨m', hm', hid⟩ | h
    · rcases List.mem_cons.mp hm' with rfl | hm'
      · obtain ⟨hkind, hscanned⟩ := hrows m' List.mem_cons_self
        exact .inr (hid ▸ tracks_apply_self hkind hscanned)
      · exact .inl ⟨m', hm', hid⟩
    · exact .inr (tracks_apply h)

/-- **Reapplying the rules** sets every mark, whatever the marks were. -/
theorem marksTrack_reapply (policy : ImagePolicy) (db : Db) :
    MarksTrack policy (reapplyPushPolicy policy db) := by
  intro m hm hkind hscanned
  unfold reapplyPushPolicy at hm ⊢
  rw [foldl_apply_rows] at hm
  refine tracks_foldl _ db (fun m' hm' => ?_) ?_
  · have := (List.mem_filter.mp hm').2
    simp only [Bool.and_eq_true, decide_eq_true_eq] at this
    exact this.1
  · by_cases hlinked : (db.repoManifests.any fun l => l.manifestId = m.id && inLocal db l) = true
    · refine .inl ⟨m, List.mem_filter.mpr ⟨hm, ?_⟩, rfl⟩
      simp only [hkind, hscanned, decide_true, Bool.true_and]
      exact hlinked
    · -- no local link has a mark to track
      refine .inr fun l hl hid hlocal => ?_
      exact absurd (List.any_eq_true.mpr ⟨l, hl, by simp [hid, hlocal]⟩) hlinked

/-- The manifest is linked in a local repository. -/
def locallyLinked (db : Db) (manifestId : Nat) : Bool :=
  db.repoManifests.any fun l => l.manifestId = manifestId && inLocal db l

/-- An image without a local link has no mark. -/
theorem Tracks.of_unlinked {i : Nat} (h : locallyLinked db i = false) : Tracks policy db i := by
  intro l hl hid hlocal
  have := List.any_eq_false.mp h l hl
  simp [hid, hlocal] at this

theorem applyPushPolicy_of_unlinked (h : locallyLinked db m.id = false) :
    applyPushPolicy m policy db = db := by
  unfold applyPushPolicy
  split
  · rfl
  · unfold locallyLinked at h
    rw [if_pos (by rw [h]; rfl)]

/-- What the push rules look at. -/
def SameRules (policy policy' : ImagePolicy) : Prop :=
  policy'.push = policy.push ∧ policy'.denyCves = policy.denyCves ∧
    policy'.allowCves = policy.allowCves

theorem SameRules.symm (h : SameRules policy policy') : SameRules policy' policy :=
  ⟨h.1.symm, h.2.1.symm, h.2.2.symm⟩

theorem MarksTrack.sameRules (h : MarksTrack policy db) (hsame : SameRules policy policy') :
    MarksTrack policy' db := by
  obtain ⟨hpush, hdeny, hallow⟩ := hsame
  intro m hm hkind hscanned l hl hid hlocal
  have hverdict : evaluateRules db m.id policy' policy'.push "push" =
      evaluateRules db m.id policy policy.push "push" := by
    unfold evaluateRules deniedCvesPresent gateCounts
    rw [hpush, hdeny, hallow]
  rw [hverdict]
  exact h m hm hkind hscanned l hl hid hlocal

end Marks

/-! ## What leaves the marks -/

def RepoAction.isPut : RepoAction → Bool
  | .put .. => true
  | _ => false

/-- Ids of repositories are given out before links to them are made. -/
structure Placed (db : Db) : Prop where
  repositories : ∀ r ∈ db.repositories, r.id < db.nextId
  links : ∀ l ∈ db.repoManifests, l.repositoryId < db.nextId

theorem placed_apply {db : Db} (h : Placed db) (m : DockerManifest) (policy : ImagePolicy) :
    Placed (applyPushPolicy m policy db) := by
  by_cases hjudged : m.kind = .image ∧ m.scanStatus = .scanned
  · rw [applyPushPolicy_eq hjudged.1 hjudged.2]
    refine ⟨h.repositories, fun l' hl' => ?_⟩
    obtain ⟨l, hl, rfl⟩ := List.mem_map.mp hl'
    rw [(marked_repositoryId policy db l m.id).1]
    exact h.links l hl
  · rw [applyPushPolicy_of_ne (by by_contra hc; simp_all)]
    exact h

/-- No local link is made or marked, apart from those of the images in `linked`. Findings stay and
no image becomes a scanned one, apart from those in `touched`. -/
structure KeepsMarks (linked touched : Set Nat) (db db' : Db) : Prop where
  placed : Placed db → Placed db'
  links : Placed db → ∀ l ∈ db'.repoManifests, l.manifestId ∉ linked → inLocal db' l = true →
    l ∈ db.repoManifests ∧ inLocal db l = true
  findings : ∀ i ∉ touched, findingsOf db' i = findingsOf db i
  rows : ∀ m' ∈ db'.manifests, m'.kind = .image → m'.scanStatus = .scanned ∨ m'.id ∈ touched →
    ∃ m ∈ db.manifests, m.id = m'.id ∧ m.kind = .image ∧ (m.scanStatus = .scanned ∨ m.id ∈ touched)

namespace KeepsMarks

variable {linked touched : Set Nat} {db db' db'' : Db} {repo : DockerRepository} {m : DockerManifest}

theorem trans (h : KeepsMarks linked touched db db') (h' : KeepsMarks linked touched db' db'') :
    KeepsMarks linked touched db db'' where
  placed hp := h'.placed (h.placed hp)
  links hp l hl hl' hlocal :=
    have ⟨hmem, hin⟩ := h'.links (h.placed hp) l hl hl' hlocal
    h.links hp l hmem hl' hin
  findings i hi := (h'.findings i hi).trans (h.findings i hi)
  rows m'' hm'' hkind hscanned := by
    obtain ⟨m', hm', hid', hkind', hscanned'⟩ := h'.rows m'' hm'' hkind hscanned
    obtain ⟨m, hm, hid, hrest⟩ := h.rows m' hm' hkind' hscanned'
    exact ⟨m, hm, hid.trans hid', hrest⟩

/-- Rows of manifests may change, and ids be given out. -/
theorem of_rows (hnext : db.nextId ≤ db'.nextId) (hrepos : db'.repositories = db.repositories)
    (hlinks : db'.repoManifests = db.repoManifests) (hfindings : db'.findings = db.findings)
    (hrows : ∀ m' ∈ db'.manifests, m'.kind = .image → m'.scanStatus = .scanned ∨ m'.id ∈ touched →
      ∃ m ∈ db.manifests, m.id = m'.id ∧ m.kind = .image ∧
        (m.scanStatus = .scanned ∨ m.id ∈ touched)) : KeepsMarks linked touched db db' where
  placed hp :=
    { repositories := fun r hr => (hp.repositories r (hrepos ▸ hr)).trans_le hnext
      links := fun l hl => (hp.links l (hlinks ▸ hl)).trans_le hnext }
  links _ l hl _ hlocal := by
    unfold inLocal at hlocal ⊢
    rw [hrepos] at hlocal
    exact ⟨hlinks ▸ hl, hlocal⟩
  findings i _ := by
    unfold findingsOf
    rw [hfindings]
  rows := hrows

theorem of_tables (hnext : db.nextId ≤ db'.nextId) (hrepos : db'.repositories = db.repositories)
    (hlinks : db'.repoManifests = db.repoManifests) (hfindings : db'.findings = db.findings)
    (hrows : db'.manifests = db.manifests) : KeepsMarks linked touched db db' :=
  of_rows hnext hrepos hlinks hfindings fun m hm hkind hscanned =>
    ⟨m, hrows ▸ hm, rfl, hkind, hscanned⟩

theorem refl (db : Db) : KeepsMarks linked touched db db := of_tables (Nat.le_refl _) rfl rfl rfl rfl

theorem putFile (digest : Digest) : KeepsMarks linked touched db (db.putFile digest) := by
  unfold Db.putFile
  split
  · exact refl _
  · exact of_tables (Nat.le_refl _) rfl rfl rfl rfl

theorem releaseFile (digest : Digest) : KeepsMarks linked touched db (releaseFile digest db) := by
  unfold Docker.releaseFile
  dsimp only
  split
  · exact of_tables (Nat.le_refl _) rfl rfl rfl rfl
  · exact refl _

theorem pruneReports (manifestId keep : Nat) :
    KeepsMarks linked touched db (pruneReports manifestId keep db) := by
  unfold Docker.pruneReports
  dsimp only
  generalize List.drop keep _ = scans
  induction scans generalizing db with
  | nil => exact refl _
  | cons old scans ih =>
    rw [List.foldl_cons]
    refine trans ?_ ih
    split
    · split
      · exact (releaseFile _).trans (of_tables (Nat.le_refl _) rfl rfl rfl rfl)
      · exact refl _
    · exact refl _

theorem updateJob (jobId : Nat) (f : DockerScanJob → DockerScanJob) :
    KeepsMarks linked touched db (db.updateJob jobId f) := of_tables (Nat.le_refl _) rfl rfl rfl rfl

/-- A row that is rewritten does not become a scanned image. -/
theorem updateManifest {manifestId : Nat} {g : DockerManifest → DockerManifest}
    (hg : ∀ m, (g m).kind = m.kind ∧ ((g m).scanStatus = .scanned → m.scanStatus = .scanned)) :
    KeepsMarks linked touched db (db.updateManifest manifestId g) := by
  refine of_rows (Nat.le_refl _) rfl rfl rfl fun m' hm' hkind hscanned => ?_
  obtain ⟨m, hm, rfl⟩ := Db.mem_updateManifest.mp hm'
  refine ⟨m, hm, ?_⟩
  split at hkind
  · next hid =>
    rw [if_pos hid] at hscanned ⊢
    exact ⟨rfl, (hg m).1 ▸ hkind, hscanned.imp_left (hg m).2⟩
  · next hid =>
    rw [if_neg hid] at hscanned ⊢
    exact ⟨rfl, hkind, hscanned⟩

theorem setScanStatus (manifestId : Nat) {status : ScanStatus} (h : status ≠ .scanned) :
    KeepsMarks linked touched db (db.setScanStatus manifestId status) :=
  updateManifest fun _ => ⟨rfl, fun hs => absurd hs h⟩

/-! ### The queue -/

theorem enqueue (m : DockerManifest) (repository : String) (reason : ScanReason) (priority : Nat)
    (mode : Option ScanMode) :
    KeepsMarks linked touched db (enqueue m repository reason priority mode db).1 := by
  rcases enqueue_cases m repository reason priority mode db with
    he | ⟨existing, he⟩ | ⟨job, -, -, -, -, he⟩
  · rw [he]
    exact refl _
  · rw [he]
    exact updateJob _ _
  · have hput : KeepsMarks linked touched db
        { db with jobs := db.jobs.put job, nextId := db.nextId + 1 } :=
      of_tables (Nat.le_succ _) rfl rfl rfl rfl
    rw [he]
    split
    · exact hput.trans (setScanStatus _ (by decide))
    · exact hput

theorem enqueueAll (rows : List (DockerManifest × DockerRepository)) (done : List Nat) :
    KeepsMarks linked touched db (enqueueAll rows done db) := by
  induction rows generalizing done db with
  | nil => exact refl _
  | cons p rows ih =>
    unfold Docker.enqueueAll
    split
    · exact ih _
    · exact (enqueue ..).trans (ih _)

theorem claim (policy : ImagePolicy) (worker : String) (now : Time) :
    KeepsMarks linked touched db (scannerClaim policy worker now db).1 := by
  have hrequeue : KeepsMarks linked touched db (requeueExpired now db) :=
    of_tables (Nat.le_refl _) rfl rfl rfl rfl
  rcases scannerClaim_cases policy worker now db with
    ⟨-, he⟩ | he | ⟨job, -, -, ⟨f, he, -⟩ | ⟨f, he, -⟩⟩
  · rw [he]
    exact refl _
  · rw [he]
    exact hrequeue
  · rw [he]
    exact hrequeue.trans ((updateJob _ _).trans (setScanStatus _ (by decide)))
  · rw [he]
    exact hrequeue.trans ((updateJob _ _).trans (setScanStatus _ (by decide)))

theorem fail (job : DockerScanJob) (error : String) (retry : Bool) (now : Time) :
    KeepsMarks linked touched db (fail job error retry now db) := by
  unfold Docker.fail
  dsimp only
  split
  · exact (updateJob _ _).trans (setScanStatus _ (by decide))
  · refine (updateJob _ _).trans (updateManifest fun m => ⟨rfl, fun hs => ?_⟩)
    dsimp only at hs
    split at hs
    · cases hs
    · exact hs

theorem storeSbom (env : ScanEnv) (m : DockerManifest) (raw : List UInt8) :
    KeepsMarks linked touched db (storeSbom env m raw db) := by
  unfold Docker.storeSbom
  refine (putFile (env.sha256 raw)).trans ?_
  dsimp only
  split
  · split
    · exact (releaseFile _).trans (updateManifest fun _ => ⟨rfl, id⟩)
    · exact updateManifest fun _ => ⟨rfl, id⟩
  · exact updateManifest fun _ => ⟨rfl, id⟩

/-- A new scan touches its image. -/
theorem recordScan (m : DockerManifest) (job : DockerScanJob) (reportDigest : Digest)
    (found : List ParsedFinding) (now : Time) :
    KeepsMarks linked {m.id} db (recordScan m job reportDigest found now db) where
  placed hp :=
    { repositories := fun r hr => Nat.lt_succ_of_lt (hp.repositories r hr)
      links := fun l hl => Nat.lt_succ_of_lt (hp.links l hl) }
  links _ _ hl _ hlocal := ⟨hl, hlocal⟩
  findings i hi := by
    have hnone : (findingRows db m.id db.nextId found).filter (fun f => f.manifestId = i) = [] := by
      refine List.filter_eq_nil_iff.mpr fun f hf => ?_
      obtain ⟨_, -, rfl⟩ := List.mem_map.mp hf
      simpa using Ne.symm hi
    refine (List.filter_append ..).trans ?_
    change _ ++ (findingRows db m.id db.nextId found).filter _ = _
    rw [hnone, List.append_nil, List.filter_filter]
    refine List.filter_congr fun f _ => ?_
    by_cases hf : f.manifestId = i
    · have hother : i ≠ m.id := hi
      simp [hf, hother]
    · simp [hf]
  rows m' hm' hkind hscanned := by
    obtain ⟨n, hn, rfl⟩ := Db.mem_updateManifest.mp hm'
    refine ⟨n, hn, ?_⟩
    split at hkind
    · next hid =>
      rw [if_pos hid]
      exact ⟨rfl, hkind, .inr hid⟩
    · next hid =>
      rw [if_neg hid] at hscanned ⊢
      exact ⟨rfl, hkind, hscanned⟩

/-- A scan that is taken in touches its image, which is held to the push rules last. -/
theorem ingested {env : ScanEnv} {policy : ImagePolicy} {job : DockerScanJob} {report : List UInt8}
    {sbom : Option (List UInt8)} {now : Time}
    (h : ingest env policy job report sbom now db = .ok db') :
    ∃ m db₁, m ∈ db.manifests ∧ m.id = job.manifestId ∧ KeepsMarks linked {m.id} db db₁ ∧
      db' = applyPushPolicy { m with scanStatus := .scanned } policy db₁ := by
  unfold ingest at h
  split at h
  · cases h
  · next m hm =>
    obtain ⟨hmem, hid⟩ := Table.find?_eq_some_iff.mp hm
    split at h
    · cases h
    · next found _ =>
      split at h
      · cases h
      · obtain rfl := Except.ok.inj h
        refine ⟨m, _, hmem, hid, ?_, rfl⟩
        refine trans ?_ ((recordScan m job (env.sha256 report) found now).trans
          (pruneReports m.id policy.keepReports))
        rcases sbom with _ | raw
        · exact putFile _
        · exact (putFile _).trans (storeSbom ..)

/-! ### Manifests, links and blobs -/

/-- What an index teaches does not make a scanned image. -/
theorem learnEntries_image {refs : List Ref} (h : (learnEntries refs m).kind = .image) :
    m.kind = .image ∧ (learnEntries refs m).scanStatus = m.scanStatus := by
  induction refs generalizing m with
  | nil => exact ⟨h, rfl⟩
  | cons ref refs ih =>
    obtain ⟨hkind, hstatus⟩ := ih (m := learnEntry ref m) h
    have hplain : m.digest = ref.digest →
        isAttestationEntry ref.platform ref.annotations = false := by
      intro hd
      by_contra hatt
      unfold learnEntry at hkind
      rw [if_pos hd] at hkind
      dsimp only at hkind
      rw [if_pos (eq_true_of_ne_false hatt)] at hkind
      cases hkind
    obtain ⟨hkind', hstatus'⟩ := learnEntry_kind hplain
    exact ⟨hkind' ▸ hkind, hstatus.trans hstatus'⟩

/-- A new row is not of a scanned image. -/
theorem insertManifest (db : Db) (parsed : ParsedManifest) {row : DockerManifest}
    (hnew : row.scanStatus ≠ .scanned) :
    KeepsMarks ∅ ∅ db (insertManifest parsed row db) ∧
      ∀ m' ∈ (insertManifest parsed row db).manifests, m'.id = row.id → m'.kind = .image →
        m'.scanStatus ≠ .scanned := by
  have hold : ∀ n : DockerManifest,
      (if parsed.isIndex = true then learnEntries parsed.refs n else n).kind = .image →
        n.kind = .image ∧
          (if parsed.isIndex = true then learnEntries parsed.refs n else n).scanStatus =
            n.scanStatus := by
    intro n himage
    split at himage
    · next hindex =>
      rw [if_pos hindex]
      exact learnEntries_image himage
    · next hindex =>
      rw [if_neg hindex]
      exact ⟨himage, rfl⟩
  have hid : ∀ n : DockerManifest,
      (if parsed.isIndex = true then learnEntries parsed.refs n else n).id = n.id := by
    intro n
    split
    · exact learnEntries_id _ n
    · rfl
  constructor
  · refine of_rows (Nat.le_succ _) rfl rfl rfl fun m' hm' hkind hscanned => ?_
    obtain ⟨n, hn, rfl⟩ := mem_insertManifest hm'
    obtain ⟨himage, hstatus⟩ := hold n hkind
    rw [hstatus] at hscanned
    refine ⟨n, hn.resolve_left ?_, (hid n).symm, himage, .inl (hscanned.resolve_right (Set.notMem_empty _))⟩
    rintro rfl
    exact hnew (hscanned.resolve_right (Set.notMem_empty _))
  · intro m' hm' hid' hkind
    have hrow : (if parsed.isIndex = true then learnEntries parsed.refs row else row) ∈
        (Docker.insertManifest parsed row db).manifests := by
      unfold Docker.insertManifest
      dsimp only
      split
      · exact Table.mem_modify.mpr ⟨row, Table.mem_put.mpr (.inl rfl), rfl⟩
      · exact Table.mem_put.mpr (.inl rfl)
    obtain rfl := Table.eq_of_key hm' hrow (hid'.trans (hid row).symm)
    rw [(hold row hkind).2]
    exact hnew

/-- A store adds no row of a scanned image; the row it returns is of one if it was there. -/
theorem store {env : RegistryEnv} {body : List UInt8} {contentType : Option String}
    {expected : Option Digest} {upstreamId pushedBy : Option Nat} {now : Time}
    {row : DockerManifest}
    (h : storeManifest env body contentType expected upstreamId pushedBy now db = .ok (db', row)) :
    KeepsMarks ∅ ∅ db db' ∧
      (row.scanStatus = .scanned →
        db.manifestRow (env.sha256 body) = some row ∧ db' = db.putFile (env.sha256 body)) ∧
      ∀ m' ∈ db'.manifests, m'.id = row.id → m'.kind = .image → m'.scanStatus = .scanned →
        row.kind = .image ∧ row.scanStatus = .scanned := by
  have heq := storeManifest_eq env body contentType expected upstreamId pushedBy now db
  rw [h] at heq
  rcases hacc : accepted env body contentType expected with _ | parsed
  · rw [hacc] at heq
    cases heq
  rw [hacc] at heq
  rcases hrow : db.manifestRow (env.sha256 body) with _ | existing
  · rw [hrow] at heq
    obtain ⟨rfl, rfl⟩ := Prod.mk.inj (Option.some.inj heq)
    have hnew : (newManifest db parsed (env.sha256 body) body.length upstreamId pushedBy
        now).scanStatus ≠ .scanned := by
      unfold newManifest
      dsimp only
      split <;> decide
    obtain ⟨hkeeps, hnone⟩ := insertManifest (db.putFile (env.sha256 body)) parsed hnew
    exact ⟨(putFile _).trans hkeeps, fun hs => absurd hs hnew,
      fun m' hm' hid hkind hs => absurd hs (hnone m' hm' hid hkind)⟩
  · rw [hrow] at heq
    obtain ⟨rfl, rfl⟩ := Prod.mk.inj (Option.some.inj heq)
    refine ⟨putFile _, fun _ => ⟨rfl, rfl⟩, fun m' hm' hid hkind hs => ?_⟩
    have hmanifests : (db.putFile (env.sha256 body)).manifests = db.manifests := by
      unfold Db.putFile
      split <;> rfl
    rw [hmanifests] at hm'
    obtain rfl := Table.eq_of_key hm' (List.mem_of_find?_eq_some hrow) hid
    exact ⟨hkind, hs⟩

theorem storeManifest_repositories {env : RegistryEnv} {body : List UInt8}
    {contentType : Option String} {expected : Option Digest} {upstreamId pushedBy : Option Nat}
    {now : Time} {row : DockerManifest}
    (h : storeManifest env body contentType expected upstreamId pushedBy now db = .ok (db', row)) :
    db'.repositories = db.repositories := by
  have hput : ∀ digest, (db.putFile digest).repositories = db.repositories := fun digest => by
    unfold Db.putFile
    split <;> rfl
  unfold storeManifest at h
  split at h
  · cases h
  · dsimp only at h
    split at h
    · cases h
    · split at h
      · obtain ⟨rfl, -⟩ := Prod.mk.inj (Except.ok.inj h)
        exact hput _
      · obtain ⟨rfl, -⟩ := Prod.mk.inj (Except.ok.inj h)
        exact hput _

/-- The repository is there, and not in the local namespace. -/
theorem link (hrepo : repo ∈ db.repositories) (hlocal : repo.isLocal = false) :
    KeepsMarks linked touched db (db.link repo m) := by
  unfold Db.link
  split
  · exact refl _
  constructor
  · refine fun hp => ⟨hp.repositories, fun l hl => ?_⟩
    rcases List.mem_append.mp hl with hl | hl
    · exact hp.links l hl
    · rw [List.mem_singleton.mp hl]
      exact hp.repositories repo hrepo
  · intro hp l hl _ hin
    rcases List.mem_append.mp hl with hl | hl
    · exact ⟨hl, hin⟩
    · rw [List.mem_singleton.mp hl] at hin
      obtain ⟨r, hr, hcond⟩ := List.any_eq_true.mp hin
      simp only [Bool.and_eq_true, decide_eq_true_eq] at hcond
      rw [Table.eq_of_key hr hrepo hcond.1, hlocal] at hcond
      cases hcond.2
  · exact fun _ _ => rfl
  · exact fun m hm hkind hscanned => ⟨m, hm, rfl, hkind, hscanned⟩

/-- A link in any repository touches the image. -/
theorem link_touched (hrepo : ∃ r ∈ db.repositories, r.id = repo.id) :
    KeepsMarks {m.id} touched db (db.link repo m) := by
  unfold Db.link
  split
  · exact refl _
  constructor
  · refine fun hp => ⟨hp.repositories, fun l hl => ?_⟩
    rcases List.mem_append.mp hl with hl | hl
    · exact hp.links l hl
    · obtain ⟨r, hr, hid⟩ := hrepo
      rw [List.mem_singleton.mp hl, ← hid]
      exact hp.repositories r hr
  · intro _ l hl hother hin
    rcases List.mem_append.mp hl with hl | hl
    · exact ⟨hl, hin⟩
    · exact absurd (List.mem_singleton.mp hl ▸ rfl) hother
  · exact fun _ _ => rfl
  · exact fun m hm hkind hscanned => ⟨m, hm, rfl, hkind, hscanned⟩

theorem setTag (repo : DockerRepository) (tag : String) (m : DockerManifest) (now : Time) :
    KeepsMarks linked touched db (setTag repo tag m now db) := of_tables (Nat.le_refl _) rfl rfl rfl rfl

theorem addRepoBlob (repo : DockerRepository) (digest : Digest) :
    KeepsMarks linked touched db (addRepoBlob repo digest db) := by
  unfold Docker.addRepoBlob
  dsimp only
  split
  · exact refl _
  · exact of_tables (Nat.le_refl _) rfl rfl rfl rfl

theorem recordLocalBlob (digest : Digest) (now : Time) (size : Nat) :
    KeepsMarks linked touched db (recordLocalBlob digest now db size) := by
  unfold Docker.recordLocalBlob
  split
  · exact of_tables (Nat.le_refl _) rfl rfl rfl rfl
  · split
    · exact refl _
    · exact of_tables (Nat.le_refl _) rfl rfl rfl rfl

theorem recordBlob (repo : DockerRepository) (digest : Digest) (size : Nat) (now : Time) :
    KeepsMarks linked touched db (recordBlob db repo digest size now) := by
  unfold Docker.recordBlob
  split
  · exact refl _
  · exact of_tables (Nat.le_refl _) rfl rfl rfl rfl

theorem mountBlob (repo : DockerRepository) (digest : Digest) (now : Time)
    (source : Option DockerRepository) (size : Nat) (policy : ImagePolicy) :
    KeepsMarks linked touched db (mountBlob repo digest now db source size policy).1 := by
  rcases @mountBlob_cases repo digest now db source size policy with hm | ⟨hm, -⟩
  · rw [hm]
    exact refl _
  · rw [hm]
    exact (recordLocalBlob ..).trans (addRepoBlob ..)

/-- The repository of a name, found or made. -/
theorem getRepo (db : Db) (target : Target) : KeepsMarks linked touched db (getRepo target db).1 ∧
    (getRepo target db).2 ∈ (getRepo target db).1.repositories := by
  unfold Docker.getRepo
  split
  · next repo hrepo => exact ⟨refl _, List.mem_of_find?_eq_some hrepo⟩
  refine ⟨?_, Table.mem_put.mpr (.inl rfl)⟩
  constructor
  · refine fun hp => ⟨fun r hr => ?_, fun l hl => Nat.lt_succ_of_lt (hp.links l hl)⟩
    rcases Table.mem_put.mp hr with rfl | ⟨hr, -⟩
    · exact Nat.lt_succ_self _
    · exact Nat.lt_succ_of_lt (hp.repositories r hr)
  · intro hp l hl _ hin
    obtain ⟨r, hr, hcond⟩ := List.any_eq_true.mp hin
    refine ⟨hl, List.any_eq_true.mpr ⟨r, ?_, hcond⟩⟩
    simp only [Bool.and_eq_true, decide_eq_true_eq] at hcond
    rcases Table.mem_put.mp hr with rfl | ⟨hr, -⟩
    · -- the new id is not of any link
      exact absurd hcond.1.symm (Nat.ne_of_lt (hp.links l hl))
    · exact hr
  · exact fun _ _ => rfl
  · exact fun m hm hkind hscanned => ⟨m, hm, rfl, hkind, hscanned⟩

theorem setOwner (repo : DockerRepository) (userId : Option Nat) :
    KeepsMarks linked touched db (setOwner repo userId db) where
  placed hp :=
    { repositories := fun r hr => by
        obtain ⟨r', hr', rfl⟩ := List.mem_map.mp hr
        have := hp.repositories r' hr'
        split <;> exact this
      links := hp.links }
  links _ l hl _ hin := by
    obtain ⟨r, hr, hcond⟩ := List.any_eq_true.mp hin
    obtain ⟨r', hr', rfl⟩ := List.mem_map.mp hr
    refine ⟨hl, List.any_eq_true.mpr ⟨r', hr', ?_⟩⟩
    split at hcond <;> exact hcond
  findings _ _ := rfl
  rows m hm hkind hscanned := ⟨m, hm, rfl, hkind, hscanned⟩

theorem repoForPush {target : Target} {ident : RegistryIdentity}
    (h : repoForPush target ident db = .ok (db', repo)) : KeepsMarks linked touched db db' ∧
      ∃ r ∈ db'.repositories, r.id = repo.id := by
  obtain ⟨(hkeeps : KeepsMarks linked touched _ _), hmem⟩ := getRepo db target
  unfold Docker.repoForPush at h
  dsimp only at h
  split at h
  · obtain ⟨rfl, rfl⟩ := Prod.mk.inj (Except.ok.inj h)
    refine ⟨hkeeps.trans (setOwner ..), _, List.mem_map.mpr ⟨_, hmem, rfl⟩, ?_⟩
    split <;> rfl
  · split at h
    · cases h
    · obtain ⟨rfl, rfl⟩ := Prod.mk.inj (Except.ok.inj h)
      exact ⟨hkeeps, _, hmem, rfl⟩

/-! ### Requests -/

section Requests

variable {env : RegistryEnv} {routes : String → Option Nat} {now : Time}

theorem storeAndLink {body : List UInt8} {mediaType : Option String} {expected : Option Digest}
    {row : DockerManifest} (hrepo : repo ∈ db.repositories) (hlocal : repo.isLocal = false)
    (h : storeAndLink env repo now db body mediaType expected = .ok (db', row)) :
    KeepsMarks ∅ ∅ db db' := by
  unfold Docker.storeAndLink at h
  rcases hstore : storeManifest env body mediaType expected repo.upstreamId none now db with
    e | ⟨db₁, row₁⟩
  · rw [hstore] at h
    cases h
  · rw [hstore] at h
    obtain ⟨rfl, rfl⟩ := Prod.mk.inj (Except.ok.inj h)
    have hrepos : repo ∈ db₁.repositories := storeManifest_repositories hstore ▸ hrepo
    exact (store hstore).1.trans (link hrepos hlocal)

theorem manifestByDigest (hrepo : repo ∈ db.repositories) (digest : Digest) (negative : Bool)
    (reply : UpstreamReply) :
    KeepsMarks ∅ ∅ db (manifestByDigest env repo now db digest negative reply).2 := by
  unfold Docker.manifestByDigest
  split
  · exact refl _
  split
  · exact refl _
  next hlocal =>
  split
  · exact refl _
  split
  · exact refl _
  · split
    · exact refl _
    · next hstore => exact storeAndLink hrepo (eq_false_of_ne_true hlocal) hstore
  · exact refl _
  · exact refl _

theorem fetchTag (hrepo : repo ∈ db.repositories) (hlocal : repo.isLocal = false) (tag : String)
    (expected : Option Digest) (reply : UpstreamReply) :
    KeepsMarks ∅ ∅ db (fetchTag env repo now db tag expected reply).2 := by
  unfold Docker.fetchTag
  split
  · split
    · exact refl _
    · next hstore => exact (storeAndLink hrepo hlocal hstore).trans (setTag ..)
  · exact refl _
  · exact of_tables (Nat.le_refl _) rfl rfl rfl rfl
  · exact refl _

theorem revalidate (hrepo : repo ∈ db.repositories) (hlocal : repo.isLocal = false) (tag : String)
    (probe byDigest byTag : UpstreamReply) : KeepsMarks ∅ ∅ db
      (revalidate env repo now db tag probe byDigest byTag).2 := by
  unfold Docker.revalidate
  rcases hprobe : probeAnswer env repo now db tag probe with _ | answer
  · have hfetch : KeepsMarks ∅ ∅ db (Docker.fetchTag env repo now db tag
        (movedReply (movedTo repo db tag probe) byDigest byTag).1
        (movedReply (movedTo repo db tag probe) byDigest byTag).2).2 :=
      fetchTag hrepo hlocal tag _ _
    dsimp only
    split
    · next hget =>
      rw [hget] at hfetch
      exact hfetch
    · exact hfetch
  · dsimp only
    unfold probeAnswer at hprobe
    split at hprobe
    · cases hprobe
    · split at hprobe
      · obtain rfl := Option.some.inj hprobe
        exact fetchTag hrepo hlocal _ _ _
      · obtain rfl := Option.some.inj hprobe
        exact refl _
      · split at hprobe
        · obtain rfl := Option.some.inj hprobe
          exact setTag ..
        · obtain ⟨known, -, rfl⟩ := Option.map_eq_some_iff.mp hprobe
          exact (link hrepo hlocal).trans (setTag ..)

theorem openBlob (repo : DockerRepository) (digest : Digest) (reply : BlobReply) :
    KeepsMarks linked touched db (openBlob db repo digest now reply).2 := by
  unfold Docker.openBlob
  dsimp only
  split
  · exact refl _
  split
  · exact refl _
  split
  · exact refl _
  split
  · exact (putFile _).trans (recordBlob ..)
  · exact refl _
  · exact refl _
  · exact refl _

theorem pushInto {name : String} {ident : RegistryIdentity} {history : List Event}
    {f : Db → DockerRepository → Except ParseError (Db × List Event)}
    (hf : ∀ db₁ repo db' events, f db₁ repo = .ok (db', events) → KeepsMarks linked touched db₁ db') :
    KeepsMarks linked touched db (World.pushInto routes ⟨db, history⟩ name ident f).db := by
  unfold World.pushInto
  split
  · exact refl _
  · split
    · exact refl _
    · next hpush =>
      split
      · exact refl _
      · next hok => exact (repoForPush hpush).1.trans (hf _ _ _ _ hok)

theorem pullThrough {name : String} {history : List Event}
    {f : Db → DockerRepository → Db × List Event}
    (hf : ∀ db₁ repo, repo ∈ db₁.repositories → KeepsMarks linked touched db₁ (f db₁ repo).1) :
    KeepsMarks linked touched db (World.pullThrough routes ⟨db, history⟩ name f).db := by
  unfold World.pullThrough
  split
  · exact refl _
  · obtain ⟨(hkeeps : KeepsMarks linked touched _ _), hmem⟩ := getRepo db ⟨name, routes name⟩
    exact hkeeps.trans (hf _ _ hmem)

/-- Every request but a manifest PUT leaves the marks. -/
theorem request {a : RepoAction} (hput : a.isPut = false) (history : List Event) :
    KeepsMarks ∅ ∅ db (a.apply env routes ⟨db, history⟩).db := by
  cases a with
  | start name ident =>
    refine pushInto fun db₁ repo db' events hok => ?_
    obtain ⟨rfl, -⟩ := Prod.mk.inj (Except.ok.inj hok)
    exact refl _
  | upload name ident content digest now =>
    refine pushInto fun db₁ repo db' events hok => ?_
    obtain ⟨⟨db₂, size⟩, hfinish, ⟨⟩⟩ := map_ok hok
    obtain ⟨-, rfl⟩ := finishUpload_ok hfinish
    exact (putFile _).trans ((recordLocalBlob ..).trans (addRepoBlob ..))
  | mount name ident source digest size policy now =>
    refine pushInto fun db₁ repo db' events hok => ?_
    obtain ⟨hdb, -⟩ := Prod.mk.inj (Except.ok.inj hok)
    exact hdb ▸ mountBlob ..
  | put => cases hput
  | deleteManifest name ident digest =>
    refine pushInto fun db₁ repo db' events hok => ?_
    obtain ⟨db₂, hdel, ⟨⟩⟩ := map_ok hok
    unfold Docker.deleteManifest at hdel
    split at hdel
    · cases hdel
    · split at hdel
      · cases hdel
      · obtain rfl := Except.ok.inj hdel
        constructor
        · exact fun hp => ⟨hp.repositories, fun l hl => hp.links l (List.mem_filter.mp hl).1⟩
        · exact fun _ l hl _ hin => ⟨(List.mem_filter.mp hl).1, hin⟩
        · exact fun _ _ => rfl
        · exact fun m hm hkind hscanned => ⟨m, hm, rfl, hkind, hscanned⟩
  | deleteTag name ident tag =>
    refine pushInto fun db₁ repo db' events hok => ?_
    obtain ⟨db₂, hdel, ⟨⟩⟩ := map_ok hok
    unfold Docker.deleteTag at hdel
    dsimp only at hdel
    split at hdel
    · obtain rfl := Except.ok.inj hdel
      exact of_tables (Nat.le_refl _) rfl rfl rfl rfl
    · cases hdel
  | deleteBlob name ident digest =>
    refine pushInto fun db₁ repo db' events hok => ?_
    obtain ⟨db₂, hdel, ⟨⟩⟩ := map_ok hok
    unfold Docker.deleteBlob at hdel
    dsimp only at hdel
    split at hdel
    · obtain rfl := Except.ok.inj hdel
      exact of_tables (Nat.le_refl _) rfl rfl rfl rfl
    · cases hdel
  | pullDigest name digest negative reply now =>
    exact pullThrough fun db₁ repo hrepo => manifestByDigest hrepo ..
  | pullTag name tag probe byDigest byTag now =>
    refine pullThrough fun db₁ repo hrepo => ?_
    dsimp only
    split
    · exact refl _
    · next hlocal => exact revalidate hrepo (eq_false_of_ne_true hlocal) ..
  | openBlob name digest reply now => exact pullThrough fun db₁ repo _ => openBlob ..
  | touch digest now =>
    dsimp only [RepoAction.apply]
    split
    · exact updateManifest fun _ => ⟨rfl, id⟩
    · exact refl _

end Requests

end KeepsMarks

/-! ## The invariant -/

/-- The marks track the rules, and links are to repositories that were made before. -/
structure MarksOk (policy : ImagePolicy) (db : Db) : Prop where
  placed : Placed db
  track : MarksTrack policy db

namespace MarksOk

variable {policy policy' : ImagePolicy} {db db' : Db}

theorem sameRules (h : MarksOk policy db) (hsame : SameRules policy policy') : MarksOk policy' db :=
  ⟨h.placed, h.track.sameRules hsame⟩

/-- The images that are neither linked nor touched keep their marks. -/
theorem others {linked touched : Set Nat} (h : MarksOk policy db)
    (hk : KeepsMarks linked touched db db') {m' : DockerManifest} (hm' : m' ∈ db'.manifests)
    (hkind : m'.kind = .image) (hscanned : m'.scanStatus = .scanned) (hlinked : m'.id ∉ linked)
    (htouched : m'.id ∉ touched) : Tracks policy db' m'.id := by
  obtain ⟨m, hm, hid, hkind', hscanned'⟩ := hk.rows m' hm' hkind (.inl hscanned)
  have htrack := h.track m hm hkind' (hscanned'.resolve_right (hid ▸ htouched))
  rw [hid] at htrack
  exact htrack.frame (fun l hl hl' hlocal => hk.links h.placed l hl (hl' ▸ hlinked) hlocal)
    (hk.findings _ htouched)

theorem keeps (h : MarksOk policy db) (hk : KeepsMarks ∅ ∅ db db') : MarksOk policy db' :=
  ⟨hk.placed h.placed, fun _ hm' hkind hscanned =>
    h.others hk hm' hkind hscanned (Set.notMem_empty _) (Set.notMem_empty _)⟩

/-- One image is linked or touched, and then held to the rules again. -/
theorem judge {m : DockerManifest} {linked touched : Set Nat} (h : MarksOk policy db)
    (hkind : m.kind = .image) (hscanned : m.scanStatus = .scanned)
    (hk : KeepsMarks linked touched db db') (hlinked : linked ⊆ {m.id})
    (htouched : touched ⊆ {m.id}) : MarksOk policy (applyPushPolicy m policy db') := by
  refine ⟨placed_apply (hk.placed h.placed) m policy, fun m' hm' hkind' hscanned' => ?_⟩
  rw [applyPushPolicy_rows] at hm'
  by_cases hid : m'.id = m.id
  · exact hid ▸ tracks_apply_self hkind hscanned
  · exact tracks_apply (h.others hk hm' hkind' hscanned' (fun hl => hid (hlinked hl))
      fun ht => hid (htouched ht))

/-- One image is linked or touched that has no mark to keep. -/
theorem unjudged {i : Nat} {linked touched : Set Nat} (h : MarksOk policy db)
    (hk : KeepsMarks linked touched db db') (hlinked : linked ⊆ {i}) (htouched : touched ⊆ {i})
    (hnone : ∀ m' ∈ db'.manifests, m'.id = i → m'.kind = .image → m'.scanStatus = .scanned →
      Tracks policy db' i) : MarksOk policy db' := by
  refine ⟨hk.placed h.placed, fun m' hm' hkind hscanned => ?_⟩
  by_cases hid : m'.id = i
  · exact hid ▸ hnone m' hm' hid hkind hscanned
  · exact h.others hk hm' hkind hscanned (fun hl => hid (hlinked hl)) fun ht => hid (htouched ht)

/-- A pushed manifest. -/
theorem put {env : RegistryEnv} {target : Target} {repo : DockerRepository} {reference : String}
    {body : List UInt8} {contentType : Option String} {ident : RegistryIdentity} {now : Time}
    {row : DockerManifest} (h : MarksOk policy db) (hrepo : ∃ r ∈ db.repositories, r.id = repo.id)
    (hput : putManifest env target repo db reference body contentType ident policy' now =
      .ok (db', row))
    (htime : (∃ m, db.manifestRow (env.sha256 body) = some m ∧ m.kind = .image ∧
      m.scanStatus = .scanned) → SameRules policy policy') : MarksOk policy db' := by
  obtain ⟨-, db₁, hstore, rfl⟩ := putManifest_ok hput
  obtain ⟨hkeeps, hold, hrow⟩ := KeepsMarks.store hstore
  have hrepo₁ : ∃ r ∈ db₁.repositories, r.id = repo.id := by
    rwa [KeepsMarks.storeManifest_repositories hstore]
  have hlink : KeepsMarks {row.id} ∅ db₁ (db₁.link repo row) := .link_touched hrepo₁
  have hdone : MarksOk policy (if row.scanStatus = .scanned then
      applyPushPolicy row policy' (db₁.link repo row) else db₁.link repo row) := by
    by_cases hjudged : row.kind = .image ∧ row.scanStatus = .scanned
    · obtain ⟨hkind, hscanned⟩ := hjudged
      obtain ⟨hfound, rfl⟩ := hold hscanned
      have hsame := htime ⟨row, hfound, hkind, hscanned⟩
      rw [if_pos hscanned]
      exact (((h.sameRules hsame).keeps hkeeps).judge hkind hscanned hlink subset_rfl
        (Set.empty_subset _)).sameRules hsame.symm
    · have hnone : MarksOk policy (db₁.link repo row) := by
        refine (h.keeps hkeeps).unjudged hlink subset_rfl (Set.empty_subset _)
          fun m' hm' hid hkind hscanned => ?_
        have hm : m' ∈ db₁.manifests := by
          unfold Db.link at hm'
          split at hm' <;> exact hm'
        exact absurd (hrow m' hm hid hkind hscanned) hjudged
      split
      · next hscanned =>
        rw [applyPushPolicy_of_ne (.inl fun hkind => hjudged ⟨hkind, hscanned⟩)]
        exact hnone
      · exact hnone
  dsimp only
  split
  · exact hdone
  · exact hdone.keeps (.setTag ..)

/-- A scan that is taken in. -/
theorem ingest {env : ScanEnv} {job : DockerScanJob} {report : List UInt8}
    {sbom : Option (List UInt8)} {now : Time} (h : MarksOk policy db)
    (hok : ingest env policy' job report sbom now db = .ok db')
    (htime : locallyLinked db job.manifestId = true → SameRules policy policy') :
    MarksOk policy db' := by
  obtain ⟨m, db₁, hm, hid, (hk : KeepsMarks ∅ {m.id} db db₁), rfl⟩ := KeepsMarks.ingested hok
  by_cases hkind : m.kind = .image
  · by_cases hlinked : locallyLinked db job.manifestId = true
    · have hsame := htime hlinked
      exact (judge (m := { m with scanStatus := .scanned }) (h.sameRules hsame) hkind rfl hk
        (Set.empty_subset _) subset_rfl).sameRules hsame.symm
    · have hnone : locallyLinked db₁ m.id = false := by
        refine List.any_eq_false.mpr fun l hl hc => hlinked ?_
        simp only [Bool.and_eq_true, decide_eq_true_eq] at hc
        obtain ⟨hmem, hin⟩ := hk.links h.placed l hl (Set.notMem_empty _) hc.2
        exact List.any_eq_true.mpr ⟨l, hmem, by simp [hc.1, hid, hin]⟩
      rw [applyPushPolicy_of_unlinked (m := { m with scanStatus := .scanned }) hnone]
      exact h.unjudged hk (Set.empty_subset _) subset_rfl fun _ _ _ _ _ => .of_unlinked hnone
  · rw [applyPushPolicy_of_ne (m := { m with scanStatus := .scanned }) (.inl hkind)]
    refine h.unjudged hk (Set.empty_subset _) subset_rfl fun m' hm' hid' hkind' hscanned' => ?_
    obtain ⟨n, hn, hnid, hnkind, -⟩ := hk.rows m' hm' hkind' (.inl hscanned')
    obtain rfl := Table.eq_of_key hn hm (hnid.trans hid')
    exact absurd hnkind hkind

end MarksOk

/-! ## Runs -/

/-- The registry with its push rules. -/
structure Ruled where
  db : Db := {}
  store : PolicyStore := {}

/-- The rules are applied to this image: it is scanned, and linked in a local repository. -/
def judged (db : Db) (m : DockerManifest) : Bool :=
  m.kind = .image && m.scanStatus = .scanned && locallyLinked db m.id

/-- The requests that load the policy: of a claim, of a result whose job runs, of a schedule. -/
def ScanAction.loads (db : Db) : ScanAction → Bool
  | .claim _ _ => true
  | .result jobId worker _ _ _ =>
    (runningJob db jobId worker).any fun job => (db.manifests.find? job.manifestId).isSome
  | .schedule _ _ => true
  | _ => false

def ScanAction.isStore : ScanAction → Bool
  | .store .. => true
  | _ => false

inductive RuledAct where
  /-- Another request that loads the policy. -/
  | read (r : At)
  /-- A request to the registry, other than a manifest PUT. -/
  | request (a : RepoAction)
  | push (r : At) (name : String) (ident : RegistryIdentity) (reference : String)
      (body : List UInt8) (contentType : Option String)
  | scan (r : At) (a : ScanAction)
  /-- `put_policy`. -/
  | save (r : At) (policy : ImagePolicy)
  /-- `refresh_kev`, with the entries of the feed. -/
  | refreshKev (r : At) (entries : List String)

def Ruled.step (env : ScanEnv) (routes : String → Option Nat) (s : Ruled) :
    RuledAct → Option Ruled
  | .read r => some { s with store := (s.store.load r).2 }
  | .request a =>
    if a.isPut then none
    else some { s with db := (a.apply env.toRegistryEnv routes ⟨s.db, []⟩).db }
  | .push r name ident reference body contentType =>
    match routes name with
    | some _ => none
    | none =>
      match repoForPush ⟨name, none⟩ ident s.db with
      | .error _ => none
      | .ok (db, repo) =>
        match putManifest env.toRegistryEnv ⟨name, none⟩ repo db reference body contentType ident
            (s.store.load r).1 r.now with
        | .error _ => none
        | .ok (db, row) =>
          some { db := db, store := if judged db row then (s.store.load r).2 else s.store }
  | .scan r a =>
    if a.isStore then none
    else
      some { db := a.apply env (s.store.load r).1 s.db
             store := if a.loads s.db then (s.store.load r).2 else s.store }
  | .save r policy =>
    let store := PolicyStore.invalidate { s.store with saved := policy } r
    some { db := reapplyPushPolicy (store.load r).1 s.db, store := (store.load r).2 }
  | .refreshKev r entries =>
    if entries = [] then none
    else
      some { db := reflagKev (s.store.load r).1 { s.db with kevEntries := entries }
             store := (s.store.load r).2 }

/-- The registry under pushes and pulls, scans, saves of the policy and refreshes of the
catalogue, by any replicas. -/
def ruled (env : ScanEnv) (routes : String → Option Nat) : System Ruled RuledAct where
  init s := s.db.Blank ∧ s.db.repositories = .empty _ ∧ s.db.repoManifests = [] ∧
    s.store.shared = none ∧ s.store.locals = []
  Step s a s' := s.step env routes a = some s'

/-- A step that applies the rules applies those that are saved. -/
def Ruled.InTime (env : ScanEnv) (s : Ruled) : RuledAct → Prop
  | .push r _ _ _ body _ =>
    (∃ m, s.db.manifestRow (env.sha256 body) = some m ∧ m.kind = .image ∧
      m.scanStatus = .scanned) → SameRules s.store.saved (s.store.load r).1
  | .scan r (.result jobId worker _ _ _) =>
    (∃ job, runningJob s.db jobId worker = some job ∧ locallyLinked s.db job.manifestId = true) →
      SameRules s.store.saved (s.store.load r).1
  | .refreshKev r _ =>
    (∃ m ∈ s.db.manifests, judged s.db m = true) → SameRules s.store.saved (s.store.load r).1
  | _ => True

section Runs

variable {env : ScanEnv} {routes : String → Option Nat} {s s' : Ruled}

theorem PolicyStore.get?_invalidate (p : PolicyStore) (r : At) :
    Dict.get? (p.invalidate r).locals r.replica = none := by
  refine Dict.get?_eq_none_iff.mpr (List.any_eq_false.mpr fun e he => ?_)
  simpa using (List.mem_filter.mp he).2

/-- After a save the replica loads what it saved. -/
theorem PolicyStore.load_invalidate (p : PolicyStore) (r : At) :
    ((p.invalidate r).load r).1 = p.saved := by
  have hshared : ((p.invalidate r).shared.filter fun copy =>
      r.reachable && decide (copy.1 > r.now)) = none := by
    unfold invalidate
    dsimp only
    cases r.reachable
    · simp
    · rfl
  unfold load
  dsimp only
  rw [get?_invalidate, Option.filter_none, hshared]
  rfl

theorem repoForPush_manifestRow {db db' : Db} {repo : DockerRepository} {target : Target}
    {ident : RegistryIdentity} (h : repoForPush target ident db = .ok (db', repo)) :
    db'.manifestRow = db.manifestRow := by
  have hget : (getRepo target db).1.manifestRow = db.manifestRow := by
    unfold getRepo
    split <;> rfl
  unfold repoForPush at h
  dsimp only at h
  split at h
  · obtain ⟨rfl, -⟩ := Prod.mk.inj (Except.ok.inj h)
    exact hget
  · split at h
    · cases h
    · obtain ⟨rfl, -⟩ := Prod.mk.inj (Except.ok.inj h)
      exact hget

/-- What the scanner does keeps the marks, if a result comes in time. -/
theorem MarksOk.scan {policy policy' : ImagePolicy} {db : Db} {a : ScanAction}
    (h : MarksOk policy db) (hstore : a.isStore = false)
    (htime : ∀ jobId worker report sbom now, a = .result jobId worker report sbom now →
      (∃ job, runningJob db jobId worker = some job ∧ locallyLinked db job.manifestId = true) →
        SameRules policy policy') : MarksOk policy (a.apply env policy' db) := by
  cases a with
  | store => cases hstore
  | enqueue digest repository reason priority mode =>
    dsimp only [ScanAction.apply]
    split
    · exact h.keeps (.enqueue ..)
    · exact h
  | claim worker now => exact h.keeps (.claim ..)
  | heartbeat jobId worker now =>
    dsimp only [ScanAction.apply, scannerHeartbeat]
    split
    · exact h
    · exact h.keeps (.updateJob ..)
  | fail jobId worker error permanent now =>
    dsimp only [ScanAction.apply, scannerFail]
    split
    · exact h
    · exact h.keeps (.fail ..)
  | result jobId worker report sbom now =>
    dsimp only [ScanAction.apply, scannerResult]
    split
    · exact h
    · next job hjob =>
      split
      · next hok =>
        exact h.ingest hok fun hlinked => htime _ _ _ _ _ rfl ⟨job, hjob, hlinked⟩
      · exact h.keeps (.fail ..)
      · exact h
  | schedule now limit =>
    dsimp only [ScanAction.apply, scheduleRescans]
    split
    · exact h
    · exact h.keeps (.enqueueAll ..)

theorem placed_reapply {db : Db} (h : Placed db) (policy : ImagePolicy) :
    Placed (reapplyPushPolicy policy db) := by
  unfold reapplyPushPolicy
  generalize db.manifests.rows.filter _ = rows
  induction rows generalizing db with
  | nil => exact h
  | cons m rows ih => exact ih (placed_apply h m policy)

/-- A refresh of the catalogue flags the findings, and applies the rules. -/
theorem MarksOk.reflag {policy policy' : ImagePolicy} {db : Db} (h : Placed db)
    (htime : (∃ m ∈ db.manifests, judged db m = true) → SameRules policy policy')
    (entries : List String) :
    MarksOk policy (reflagKev policy' { db with kevEntries := entries }) := by
  unfold reflagKev
  by_cases hjudged : ∃ m ∈ db.manifests, judged db m = true
  · refine sameRules ⟨placed_reapply ?_ _, marksTrack_reapply policy' _⟩ (htime hjudged).symm
    exact ⟨h.repositories, h.links⟩
  · -- there is no image to apply the rules to
    have hnone : ∀ m ∈ db.manifests, judged db m = false := fun m hm =>
      eq_false_of_ne_true fun hc => hjudged ⟨m, hm, hc⟩
    unfold reapplyPushPolicy
    rw [List.filter_eq_nil_iff.mpr fun m hm => ?_]
    · refine ⟨⟨h.repositories, h.links⟩, fun m hm hkind hscanned => .of_unlinked ?_⟩
      have hm := hnone m hm
      unfold judged at hm
      have hlinked : locallyLinked db m.id = false := by simpa [hkind, hscanned] using hm
      exact hlinked
    · rw [Bool.not_eq_true]
      exact hnone m hm

/-- **One step.** -/
theorem MarksOk.step {a : RuledAct} (h : MarksOk s.store.saved s.db) (htime : s.InTime env a)
    (hstep : s.step env routes a = some s') : MarksOk s'.store.saved s'.db := by
  have hsaved : ∀ (c : Bool) (r : At),
      (if c = true then (s.store.load r).2 else s.store).saved = s.store.saved := by
    intro c r
    split
    · exact PolicyStore.load_saved ..
    · rfl
  cases a with
  | read r =>
    obtain rfl := Option.some.inj hstep
    rw [PolicyStore.load_saved]
    exact h
  | request a =>
    unfold Ruled.step at hstep
    dsimp only at hstep
    split at hstep
    · cases hstep
    · next hput =>
      obtain rfl := Option.some.inj hstep
      exact h.keeps (.request (eq_false_of_ne_true hput) [])
  | push r name ident reference body contentType =>
    unfold Ruled.step at hstep
    dsimp only at hstep
    split at hstep
    · cases hstep
    split at hstep
    · cases hstep
    next db repo hpush =>
    split at hstep
    · cases hstep
    next db' row hput =>
    obtain rfl := Option.some.inj hstep
    obtain ⟨hkeeps, hrepo⟩ := KeepsMarks.repoForPush hpush
    rw [hsaved]
    refine (h.keeps hkeeps).put hrepo hput fun hscanned => htime ?_
    rwa [repoForPush_manifestRow hpush] at hscanned
  | scan r a =>
    unfold Ruled.step at hstep
    dsimp only at hstep
    split at hstep
    · cases hstep
    · next hstore =>
      obtain rfl := Option.some.inj hstep
      rw [hsaved]
      refine h.scan (eq_false_of_ne_true hstore) ?_
      rintro jobId worker report sbom now rfl
      exact htime
  | save r policy =>
    obtain rfl := Option.some.inj hstep
    rw [PolicyStore.load_saved, PolicyStore.load_invalidate]
    exact ⟨placed_reapply h.placed _, marksTrack_reapply _ _⟩
  | refreshKev r entries =>
    unfold Ruled.step at hstep
    dsimp only at hstep
    split at hstep
    · cases hstep
    · obtain rfl := Option.some.inj hstep
      rw [PolicyStore.load_saved]
      exact .reflag h.placed htime entries

/-- **Every run.** In a run whose steps apply the rules that are saved, every mark is what the
rules say. -/
theorem marks_track (h : (ruled env routes).Reach (fun s a => s.InTime env a) s) :
    MarksTrack s.store.saved s.db := by
  refine (h.invariant (I := fun s => MarksOk s.store.saved s.db) ?_ ?_).track
  · rintro s ⟨hblank, hrepos, hlinks, -, -⟩
    refine ⟨⟨?_, ?_⟩, ?_⟩
    · rw [hrepos]
      exact fun _ hr => absurd hr Table.not_mem_empty
    · rw [hlinks]
      exact fun _ hl => absurd hl List.not_mem_nil
    · intro m hm
      rw [hblank.manifests] at hm
      exact absurd hm Table.not_mem_empty
  · exact fun s a s' hok htime hstep => hok.step htime hstep

/-! ### One replica -/

/-- Who the step is of. -/
def RuledAct.by? : RuledAct → Option At
  | .read r => some r
  | .request _ => none
  | .push r _ _ _ _ _ => some r
  | .scan r _ => some r
  | .save r _ => some r
  | .refreshKev r _ => some r

/-- The copies that a replica can load are of what is saved. -/
structure PolicyStore.Fresh (p : PolicyStore) (replica : Nat) : Prop where
  own : ∀ copy, Dict.get? p.locals replica = some copy → copy.2 = p.saved
  shared : ∀ copy, p.shared = some copy → copy.2 = p.saved

theorem PolicyStore.Fresh.load {r : At} {p : PolicyStore} (h : p.Fresh r.replica) :
    (p.load r).1 = p.saved ∧ (p.load r).2.Fresh r.replica := by
  have hown : ∀ (d : Dict Nat (Time × ImagePolicy)) (expires : Time) (copy : Time × ImagePolicy),
      Dict.get? (Dict.set d r.replica (expires, p.saved)) r.replica = some copy →
        copy.2 = p.saved := by
    intro d expires copy hcopy
    rw [Dict.get?_set, if_pos rfl] at hcopy
    obtain rfl := Option.some.inj hcopy
    rfl
  unfold PolicyStore.load
  dsimp only
  split
  · next copy hlocal => exact ⟨h.own _ (Option.filter_eq_some_iff.mp hlocal).1, h⟩
  · split
    · next hshared =>
      obtain rfl := h.shared _ (Option.filter_eq_some_iff.mp hshared).1
      exact ⟨rfl, hown _ _, h.shared⟩
    · refine ⟨rfl, hown _ _, fun copy hcopy => ?_⟩
      dsimp only at hcopy
      split at hcopy
      · obtain rfl := Option.some.inj hcopy
        rfl
      · exact h.shared copy hcopy

theorem Ruled.step_fresh {replica : Nat} {a : RuledAct} (h : s.store.Fresh replica)
    (hone : ∀ r, a.by? = some r → r.replica = replica ∧ r.reachable = true)
    (hstep : s.step env routes a = some s') : s'.store.Fresh replica := by
  have hload : ∀ (c : Bool) (r : At), a.by? = some r →
      (if c = true then (s.store.load r).2 else s.store).Fresh replica := by
    intro c r hr
    obtain ⟨rfl, -⟩ := hone r hr
    split
    · exact h.load.2
    · exact h
  cases a with
  | read r =>
    obtain rfl := Option.some.inj hstep
    exact hload true r rfl
  | request a =>
    unfold Ruled.step at hstep
    dsimp only at hstep
    split at hstep
    · cases hstep
    · obtain rfl := Option.some.inj hstep
      exact h
  | push r name ident reference body contentType =>
    unfold Ruled.step at hstep
    dsimp only at hstep
    split at hstep
    · cases hstep
    split at hstep
    · cases hstep
    split at hstep
    · cases hstep
    · obtain rfl := Option.some.inj hstep
      exact hload _ r rfl
  | scan r a =>
    unfold Ruled.step at hstep
    dsimp only at hstep
    split at hstep
    · cases hstep
    · obtain rfl := Option.some.inj hstep
      exact hload _ r rfl
  | save r policy =>
    obtain ⟨rfl, hreachable⟩ := hone r rfl
    obtain rfl := Option.some.inj hstep
    refine PolicyStore.Fresh.load ⟨fun copy hcopy => ?_, fun copy hcopy => ?_⟩ |>.2
    · rw [PolicyStore.get?_invalidate] at hcopy
      cases hcopy
    · unfold PolicyStore.invalidate at hcopy
      rw [if_pos hreachable] at hcopy
      cases hcopy
  | refreshKev r entries =>
    unfold Ruled.step at hstep
    dsimp only at hstep
    split at hstep
    · cases hstep
    · obtain rfl := Option.some.inj hstep
      exact hload true r rfl

theorem Ruled.inTime_of_fresh {replica : Nat} {a : RuledAct} (h : s.store.Fresh replica)
    (hone : ∀ r, a.by? = some r → r.replica = replica) : s.InTime env a := by
  have hsame : ∀ r, a.by? = some r → SameRules s.store.saved (s.store.load r).1 := by
    intro r hr
    obtain rfl := hone r hr
    rw [h.load.1]
    exact ⟨rfl, rfl, rfl⟩
  cases a with
  | read r => trivial
  | request a => trivial
  | push r name ident reference body contentType => exact fun _ => hsame r rfl
  | scan r a =>
    cases a with
    | result jobId worker report sbom now => exact fun _ => hsame r rfl
    | _ => trivial
  | save r policy => trivial
  | refreshKev r entries => exact fun _ => hsame r rfl

theorem reach_one_replica {replica : Nat} (h : (ruled env routes).Reach
      (fun _ a => ∀ r, a.by? = some r → r.replica = replica ∧ r.reachable = true) s) :
    (ruled env routes).Reach (fun s a => s.InTime env a) s ∧ s.store.Fresh replica := by
  induction h with
  | init hinit =>
    obtain ⟨-, -, -, hshared, hlocals⟩ := id hinit
    refine ⟨.init hinit, fun copy hcopy => ?_, fun copy hcopy => ?_⟩
    · rw [hlocals] at hcopy
      cases hcopy
    · rw [hshared] at hcopy
      cases hcopy
  | step _ hone hstep ih =>
    obtain ⟨hreach, hfresh⟩ := ih
    exact ⟨.step hreach (Ruled.inTime_of_fresh hfresh fun r hr => (hone r hr).1) hstep,
      Ruled.step_fresh hfresh hone hstep⟩

/-- **One replica** that reaches the shared cache always applies the rules that are saved. -/
theorem marks_track_one_replica {replica : Nat} (h : (ruled env routes).Reach
      (fun _ a => ∀ r, a.by? = some r → r.replica = replica ∧ r.reachable = true) s) :
    MarksTrack s.store.saved s.db := marks_track (reach_one_replica h).1

end Runs

/-! ### Two replicas -/

/-- A scanner whose reports all list one vulnerability, which is fixed. -/
def criticalEnv : ScanEnv where
  toRegistryEnv := leakEnv
  orjson _ := some (.obj [("Results", .arr [.obj [("Vulnerabilities", .arr [.obj
    [("VulnerabilityID", .str "CVE-2024-3094"), ("PkgName", .str "xz"),
     ("FixedVersion", .str "5.6.2"), ("Severity", .str "CRITICAL")]])]])])
  caseMap := .ascii

/-- An image is pushed, and a worker takes it; the replica that hands it out loads the policy. -/
def pushedAndClaimed : List RuledAct :=
  [.request uploadConfig, .push { replica := 1, now := 0 } "local/private" pusher "v1" [] none,
   .scan { replica := 1, now := 0 } (.enqueue otherDigest "local/private" .push priorityPush none),
   .scan { replica := 1, now := 0 } (.claim "w1" 0)]

def scannedAt (now : Time) : RuledAct :=
  .scan { replica := 1, now := now } (.result 3 "w1" [3] none now)

/-- Another replica lifts the push rules a second later. -/
def liftRules : RuledAct := .save { replica := 0, now := 1000000 } { push := {} }

instance (policy : ImagePolicy) (db : Db) : Decidable (MarksTrack policy db) :=
  inferInstanceAs (Decidable (∀ m ∈ db.manifests.rows, _ → _ → ∀ l ∈ db.repoManifests, _ → _ → _))

/-- A run from an empty registry. -/
def runRules (acts : List RuledAct) : Option Ruled :=
  acts.foldlM (Ruled.step criticalEnv leakRoutes) {}

theorem emptyRuled_init : (ruled criticalEnv leakRoutes).init {} :=
  ⟨⟨rfl, rfl, rfl⟩, rfl, rfl, rfl, rfl⟩

/-- A scan that comes in with the old rules blocks the image for good. -/
theorem marks_not_tracked : ¬ ∀ s, (ruled criticalEnv leakRoutes).Reach (fun _ _ => True) s →
    MarksTrack s.store.saved s.db := by
  intro h
  have hrun : (runRules (pushedAndClaimed ++ [liftRules, scannedAt 2000000])).map
      (fun s => decide (MarksTrack s.store.saved s.db)) = some false := by
    decide +kernel
  obtain ⟨s, hs, hbad⟩ := Option.map_eq_some_iff.mp hrun
  have hreach : (ruled criticalEnv leakRoutes).Reach (fun _ _ => True) s :=
    (System.Reach.init emptyRuled_init).exec (fun _ _ _ hstep => ⟨trivial, hstep⟩) hs
  exact of_decide_eq_false hbad (h s hreach)

/-- Without the other replica the scan blocks the image by the rules that are saved. -/
theorem marks_track_blocked : ∃ s : Ruled, MarksTrack s.store.saved s.db ∧
    (s.db.repoManifests.map fun l => l.pushBlockReason.isSome) = [true] := by
  have hrun : (runRules (pushedAndClaimed ++ [scannedAt 2000000])).map
      (fun s => s.db.repoManifests.map fun l => l.pushBlockReason.isSome) = some [true] := by
    decide +kernel
  obtain ⟨s, hs, hmarks⟩ := Option.map_eq_some_iff.mp hrun
  have hreach : (ruled criticalEnv leakRoutes).Reach
      (fun _ a => ∀ r, a.by? = some r → r.replica = 1 ∧ r.reachable = true) s := by
    refine (System.Reach.init emptyRuled_init).exec_mem (fun a ha s s' hstep => ⟨?_, hstep⟩) hs
    intro r hr
    simp only [pushedAndClaimed, scannedAt, List.cons_append, List.nil_append, List.mem_cons,
      List.not_mem_nil, or_false] at ha
    rcases ha with rfl | rfl | rfl | rfl | rfl
    · cases hr
    all_goals
      obtain rfl := Option.some.inj hr
      exact ⟨rfl, rfl⟩
  exact ⟨s, marks_track (reach_one_replica hreach).1, hmarks⟩

end Minireg.Docker
