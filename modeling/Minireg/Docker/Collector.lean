import Minireg.Docker.Housekeeping
import Minireg.Docker.Isolation

/-!
# Pushes while the collector runs

A push writes its file, looks up its rows and commits; a collection deletes files
while its own rows wait for their commit. `Push.turn` and `Pass.turn` are the
single steps, `finishUpload_turns`, `putManifest_turns` and `gc_turns` say that
each side alone does what the whole function does, and `Floor` has them side by
side. `collector_keeps`: a push that was answered keeps its reference and its
file, as long as no push comes upon what the pass has marked, and the pass marks
nothing that a push in progress or another row relies on.
-/

namespace Minireg.Docker

open Py Lib

/-! ## A push in steps -/

inductive Pushed where
  | blob (digest : Digest) (content : List UInt8)
  | manifest (target : Target) (reference : String) (body : List UInt8)
      (contentType : Option String) (ident : RegistryIdentity) (policy : ImagePolicy)

/-- What a push found of its row, or is about to insert. -/
inductive Recorded where
  | blob (size : Nat) (found : Option DockerBlob)
  | manifest (parsed : ParsedManifest) (row : DockerManifest) (found : Option DockerManifest)

inductive Phase where
  | begun | stored | recorded (rows : Recorded) | answered | refused

/-- Past its file step, not yet answered. -/
def Phase.inProgress : Phase → Bool
  | .stored | .recorded _ => true
  | _ => false

def Phase.isRecorded : Phase → Bool
  | .recorded _ => true
  | _ => false

structure Push where
  repo : DockerRepository
  pushed : Pushed
  phase : Phase := .begun

/-- The digest a PUT of this reference insists on. -/
def expectedDigest (reference : String) : Option Digest :=
  if isDigest reference then some reference else none

section Steps

variable (env : RegistryEnv) (repo : DockerRepository) (now : Time) (db : Db)

def Pushed.digest : Pushed → Digest
  | .blob digest _ => digest
  | .manifest _ _ body _ _ _ => env.sha256 body

/-- The file, written or found in place, unless the push is refused. -/
def Pushed.store : Pushed → Option Db
  | .blob digest content =>
    if isDigest digest then (uploadCommit digest db env content).toOption.map Prod.fst else none
  | .manifest target reference body contentType _ _ =>
    match putCheck env target repo db reference body contentType with
    | .error _ => none
    | .ok () =>
      (accepted env body contentType (expectedDigest reference)).map fun _ =>
        db.putFile (env.sha256 body)

/-- The rows that are there, read before the commit. -/
def Pushed.record : Pushed → Option Recorded
  | .blob digest content => some (.blob content.length (db.blobs.find? digest))
  | .manifest _ reference body contentType ident _ =>
    (accepted env body contentType (expectedDigest reference)).map fun parsed =>
      .manifest parsed
        (newManifest db parsed (env.sha256 body) body.length none ident.userId now)
        (db.manifestRow (env.sha256 body))

/-- `record_local_blob` committed. An insert gives way to a row that came first; an
update fails when its row is gone. -/
def commitBlobRow (digest : Digest) (size : Nat) (found : Option DockerBlob) : Option Db :=
  match found, db.blobs.find? digest with
  | none, none => some (recordLocalBlob digest now db size)
  | none, some _ => some db
  | some blob, current =>
    if blob.isLocal then some db else current.map fun _ => recordLocalBlob digest now db size

/-- The manifest row a push goes on with, inserted unless one came first. -/
def manifestAtCommit (parsed : ParsedManifest) (row : DockerManifest)
    (found : Option DockerManifest) : Db × DockerManifest :=
  match found with
  | some manifest => (db, manifest)
  | none =>
    match db.manifestRow row.digest with
    | some manifest => (db, manifest)
    | none =>
      let row := { row with id := db.nextId }
      (insertManifest parsed row db, row)

/-- The rest of `put_manifest` committed. To a row that is gone a link fails in
silence and a tag does not. -/
def commitManifest (reference : String) (policy : ImagePolicy) (parsed : ParsedManifest)
    (row : DockerManifest) (found : Option DockerManifest) : Option Db :=
  let (db, manifest) := manifestAtCommit db parsed row found
  if (db.manifests.find? manifest.id).isSome then
    let db := db.link repo manifest
    let db := if manifest.scanStatus = .scanned then applyPushPolicy manifest policy db else db
    some (if isDigest reference then db else setTag repo reference manifest now db)
  else if isDigest reference then some db
  else none

def Pushed.commit : Pushed → Recorded → Option Db
  | .blob digest _, .blob size found =>
    (commitBlobRow now db digest size found).map (addRepoBlob repo digest)
  | .manifest _ reference _ _ _ policy, .manifest parsed row found =>
    commitManifest repo now db reference policy parsed row found
  | _, _ => none

/-- The next step of a push. -/
def Push.turn (p : Push) : Db × Phase :=
  match p.phase with
  | .begun =>
    match p.pushed.store env p.repo db with
    | some db => (db, .stored)
    | none => (db, .refused)
  | .stored =>
    match p.pushed.record env now db with
    | some rows => (db, .recorded rows)
    | none => (db, .refused)
  | .recorded rows =>
    match p.pushed.commit p.repo now db rows with
    | some db => (db, .answered)
    | none => (db, .refused)
  | .answered => (db, .answered)
  | .refused => (db, .refused)

end Steps

/-! ## A collection in steps -/

/-- The rows of these manifests deleted; their links go with them. -/
def dropManifests (dead : List DockerManifest) (db : Db) : Db :=
  let kept := fun (manifestId : Nat) => !dead.any fun m => m.id = manifestId
  { db with
    manifests := db.manifests.filter fun m => kept m.id
    refs := db.refs.filter fun r => kept r.manifestId
    findings := db.findings.filter fun f => kept f.manifestId
    scans := db.scans.filter fun s => kept s.manifestId
    jobs := db.jobs.filter fun j => kept j.manifestId
    tags := db.tags.filter fun t => kept t.manifestId
    repoManifests := db.repoManifests.filter fun l => kept l.manifestId }

/-- The rows of these blobs deleted. -/
def dropBlobs (orphans : List DockerBlob) (db : Db) : Db :=
  { db with blobs := db.blobs.filter fun b => !orphans.any fun o => o.digest = b.digest }

/-- A collection in progress. Files go at once, the rows of `visited` and `orphans`
with the commit. -/
structure Pass where
  now : Time
  dead : List DockerManifest
  visited : List DockerManifest := []
  orphans : Option (List DockerBlob) := none
  /-- The files to delete next. -/
  doomed : List Digest := []

def Pass.start (now : Time) (db : Db) : Pass :=
  { now := now, dead := db.manifests.rows.filter (isDead now db) }

/-- The orphans the pass sees: it reads its own deletions. -/
def Pass.orphaned (db : Db) (p : Pass) : List DockerBlob :=
  (dropManifests p.visited db).blobs.rows.filter (isOrphan p.now (dropManifests p.visited db))

/-- The next step of a collection. -/
def Pass.turn (db : Db) (p : Pass) : Db × Option Pass :=
  match p.doomed, p.dead, p.orphans with
  | digest :: doomed, _, _ => (db.deleteFile digest, some { p with doomed := doomed })
  | [], m :: dead, _ =>
    (db, some { p with
      dead := dead, visited := p.visited ++ [m], doomed := manifestFiles db m })
  | [], [], none =>
    (db, some { p with
      orphans := some (p.orphaned db), doomed := (p.orphaned db).map DockerBlob.digest })
  | [], [], some orphans => (dropBlobs orphans (dropManifests p.visited db), none)

/-! ## Each side alone -/

section Alone

variable {env : RegistryEnv} {repo : DockerRepository} {now : Time} {db : Db}

variable (env now db) in
/-- A push with nothing in between. -/
def Push.alone (p : Push) : Db × Phase :=
  let stored := p.turn env now db
  let recorded := { p with phase := stored.2 }.turn env now stored.1
  { p with phase := recorded.2 }.turn env now recorded.1

/-- The row that was just looked up is still as it was. -/
theorem commitBlobRow_found (digest : Digest) (size : Nat) :
    commitBlobRow now db digest size (db.blobs.find? digest) =
      some (recordLocalBlob digest now db size) := by
  unfold commitBlobRow
  rcases hfind : db.blobs.find? digest with _ | blob
  · rfl
  · dsimp only [Option.map_some]
    split
    · next hlocal =>
      unfold recordLocalBlob
      rw [hfind]
      dsimp only
      rw [if_pos hlocal]
    · rfl

/-- **An upload alone** is `finishUpload`. -/
theorem finishUpload_turns (digest : Digest) (content : List UInt8) :
    Push.alone env now db { repo := repo, pushed := .blob digest content } =
      match finishUpload repo digest now db env content with
      | .ok (db', _) => (db', .answered)
      | .error _ => (db, .refused) := by
  unfold Push.alone Push.turn Pushed.store finishUpload
  by_cases hdigest : isDigest digest = true
  · rcases hcommit : uploadCommit digest db env content with e | ⟨db₁, size⟩
    · simp [hdigest, hcommit, Except.toOption]
    · have hsize : content.length = size := by
        unfold uploadCommit at hcommit
        dsimp only at hcommit
        split at hcommit
        · cases hcommit
        · exact (Prod.mk.inj (Except.ok.inj hcommit)).2
      simp [hdigest, hcommit, Except.toOption, Pushed.record, Pushed.commit, hsize,
        commitBlobRow_found]
  · simp [hdigest]

theorem isSome_find?_iff {i : Nat} :
    (db.manifests.find? i).isSome = true ↔ ∃ d, (i, d) ∈ db.content.manifests := by
  constructor
  · intro h
    obtain ⟨m, hfind⟩ := Option.isSome_iff_exists.mp h
    obtain ⟨hm, rfl⟩ := Table.find?_eq_some_iff.mp hfind
    exact ⟨m.digest, List.mem_map.mpr ⟨m, hm, rfl⟩⟩
  · rintro ⟨d, hd⟩
    obtain ⟨m, hm, heq⟩ := List.mem_map.mp hd
    obtain ⟨rfl, rfl⟩ := Prod.mk.inj heq
    rw [Table.find?_of_mem hm]
    rfl

/-- **A manifest PUT alone** is `putManifest`. -/
theorem putManifest_turns (hfresh : ∀ m ∈ db.manifests, m.id < db.nextId) {target : Target}
    {reference : String} {body : List UInt8} {contentType : Option String}
    {ident : RegistryIdentity} {policy : ImagePolicy} {db' : Db} {row : DockerManifest}
    (h : putManifest env target repo db reference body contentType ident policy now =
      .ok (db', row)) :
    Push.alone env now db
        { repo := repo
          pushed := .manifest target reference body contentType ident policy } =
      (db', .answered) := by
  obtain ⟨hcheck, db₁, hstore, rfl⟩ := putManifest_ok h
  obtain ⟨-, hrow, -⟩ := storeManifest_content hfresh hstore
  have heq := storeManifest_eq env body contentType (expectedDigest reference) none ident.userId
    now db
  rw [show storeManifest env body contentType (expectedDigest reference) none ident.userId now db =
    .ok (db₁, row) from hstore] at heq
  rcases hacc : accepted env body contentType (expectedDigest reference) with _ | parsed
  · rw [hacc] at heq
    cases heq
  have hput : (db.putFile (env.sha256 body)).manifestRow (env.sha256 body) =
      db.manifestRow (env.sha256 body) := by
    unfold Db.putFile
    split <;> rfl
  have hnew : newManifest (db.putFile (env.sha256 body)) parsed (env.sha256 body) body.length none
      ident.userId now =
        newManifest db parsed (env.sha256 body) body.length none ident.userId now := by
    unfold Db.putFile
    split <;> rfl
  have hid : (db.putFile (env.sha256 body)).nextId = db.nextId :=
    congrArg Content.nextId (putFile_content db _)
  -- the row that the commit goes on with is the stored one
  have hcommit : manifestAtCommit (db.putFile (env.sha256 body)) parsed
      (newManifest (db.putFile (env.sha256 body)) parsed (env.sha256 body) body.length none
        ident.userId now)
      ((db.putFile (env.sha256 body)).manifestRow (env.sha256 body)) = (db₁, row) := by
    rw [hacc] at heq
    unfold manifestAtCommit
    rw [hput, hnew]
    rcases hfound : db.manifestRow (env.sha256 body) with _ | existing
    · rw [hfound] at heq
      have hnone : (db.putFile (env.sha256 body)).manifestRow
          (newManifest db parsed (env.sha256 body) body.length none ident.userId now).digest =
            none := hput.trans hfound
      dsimp only
      rw [hnone, hid]
      exact (Option.some.inj heq).symm
    · rw [hfound] at heq
      exact (Option.some.inj heq).symm
  have hthere : (db₁.manifests.find? row.id).isSome = true := isSome_find?_iff.mpr ⟨_, hrow⟩
  simp only [Push.alone, Push.turn, Pushed.store, hcheck, hacc, Option.map_some, Pushed.record,
    Pushed.commit, commitManifest, hcommit, hthere, if_true]

/-- One step of a collection that is in progress. -/
def Pass.Step (s s' : Db × Option Pass) : Prop := ∃ p, s.2 = some p ∧ p.turn s.1 = s'

def Db.deleteFiles (digests : List Digest) (db : Db) : Db :=
  { db with files := db.files.filter (· ∉ digests) }

@[simp] theorem deleteFiles_nil : db.deleteFiles [] = db := by
  unfold Db.deleteFiles
  simp

theorem deleteFiles_deleteFile (digest : Digest) (digests : List Digest) :
    (db.deleteFile digest).deleteFiles digests = db.deleteFiles (digest :: digests) := by
  unfold Db.deleteFile Db.deleteFiles
  simp only [List.filter_filter, List.mem_cons, not_or, Bool.decide_and, Bool.and_comm]

theorem deleteFiles_deleteFiles (l l' : List Digest) :
    (db.deleteFiles l).deleteFiles l' = db.deleteFiles (l ++ l') := by
  unfold Db.deleteFiles
  simp only [List.filter_filter, List.mem_append, not_or, Bool.decide_and, Bool.and_comm]

open Relation in
theorem Pass.delete_all {p : Pass} :
    ReflTransGen Pass.Step (db, some p) (db.deleteFiles p.doomed, some { p with doomed := [] }) := by
  obtain ⟨now, dead, visited, orphans, doomed⟩ := p
  induction doomed generalizing db with
  | nil => rw [deleteFiles_nil]
  | cons digest doomed ih =>
    dsimp only
    rw [← deleteFiles_deleteFile]
    exact .head ⟨_, rfl, rfl⟩ ih

open Relation in
theorem Pass.visit_all (now : Time) (dead visited : List DockerManifest) :
    ReflTransGen Pass.Step
      (db, some { now := now, dead := dead, visited := visited, orphans := none, doomed := [] })
      (db.deleteFiles (dead.flatMap (manifestFiles db)),
        some { now := now, dead := [], visited := visited ++ dead, orphans := none,
               doomed := [] }) := by
  induction dead generalizing db visited with
  | nil =>
    rw [List.flatMap_nil, deleteFiles_nil, List.append_nil]
  | cons m dead ih =>
    refine .head ⟨_, rfl, rfl⟩ (.trans Pass.delete_all ?_)
    have h := @ih (db.deleteFiles (manifestFiles db m)) (visited ++ [m])
    rw [deleteFiles_deleteFiles, List.append_assoc] at h
    exact h

/-- The rows of dead manifests deleted, with their files, are `collectManifests`. -/
theorem collectManifests_eq : collectManifests now db =
    dropManifests (db.manifests.rows.filter (isDead now db))
      (db.deleteFiles ((db.manifests.rows.filter (isDead now db)).flatMap (manifestFiles db))) := by
  have hrows : (db.manifests.filter fun m => !isDead now db m) = db.manifests.filter fun m =>
      !(db.manifests.rows.filter (isDead now db)).any fun n => n.id = m.id := by
    refine Table.ext_rows (List.filter_congr fun m hm => congrArg (!·) ?_)
    rw [Bool.eq_iff_iff, List.any_eq_true]
    constructor
    · exact fun hdead => ⟨m, List.mem_filter.mpr ⟨hm, hdead⟩, decide_eq_true rfl⟩
    · rintro ⟨n, hn, hid⟩
      obtain ⟨hn, hdead⟩ := List.mem_filter.mp hn
      rwa [Table.eq_of_key hn hm (of_decide_eq_true hid)] at hdead
  have hlinks : db.repoManifests = db.repoManifests.filter fun l =>
      !(db.manifests.rows.filter (isDead now db)).any fun m => m.id = l.manifestId := by
    refine (List.filter_eq_self.mpr fun l hl => ?_).symm
    rw [Bool.not_eq_true', List.any_eq_false]
    intro m hm hid
    have hdead := (List.mem_filter.mp hm).2
    unfold isDead at hdead
    simp only [Bool.and_eq_true, decide_eq_true_eq] at hdead
    exact hdead.1.1.1 (of_decide_eq_true hid ▸ List.mem_map_of_mem hl)
  unfold collectManifests dropManifests Db.deleteFiles
  dsimp only
  rw [hrows, ← hlinks]

/-- The rows of orphans deleted, with their files, are `collectBlobs`. -/
theorem collectBlobs_eq : collectBlobs now db =
    dropBlobs (db.blobs.rows.filter (isOrphan now db))
      (db.deleteFiles ((db.blobs.rows.filter (isOrphan now db)).map DockerBlob.digest)) := by
  have hrows : (db.blobs.filter fun b => !isOrphan now db b) = db.blobs.filter fun b =>
      !(db.blobs.rows.filter (isOrphan now db)).any fun o => o.digest = b.digest := by
    refine Table.ext_rows (List.filter_congr fun b hb => congrArg (!·) ?_)
    rw [Bool.eq_iff_iff, List.any_eq_true]
    constructor
    · exact fun horphan => ⟨b, List.mem_filter.mpr ⟨hb, horphan⟩, decide_eq_true rfl⟩
    · rintro ⟨o, ho, hdigest⟩
      obtain ⟨ho, horphan⟩ := List.mem_filter.mp ho
      rwa [Table.eq_of_key ho hb (of_decide_eq_true hdigest)] at horphan
  have hfiles : (db.files.filter fun d =>
      !db.blobs.rows.any fun b => b.digest = d && isOrphan now db b) = db.files.filter fun d =>
        d ∉ (db.blobs.rows.filter (isOrphan now db)).map DockerBlob.digest := by
    refine List.filter_congr fun d _ => ?_
    rw [decide_not]
    refine congrArg (!·) (Bool.eq_iff_iff.mpr ?_)
    simp only [List.any_eq_true, Bool.and_eq_true, decide_eq_true_eq, List.mem_map,
      List.mem_filter]
    exact exists_congr fun b => by tauto
  unfold collectBlobs dropBlobs Db.deleteFiles
  dsimp only
  rw [hrows, hfiles]

open Relation in
/-- **A collection alone** is `gc`. -/
theorem gc_turns (now : Time) (db : Db) :
    ReflTransGen Pass.Step (db, some (Pass.start now db)) ((gc now db).1, none) := by
  let dead := db.manifests.rows.filter (isDead now db)
  let visited : Pass := { now := now, dead := [], visited := dead }
  let after := db.deleteFiles (dead.flatMap (manifestFiles db))
  have horphans : visited.orphaned after =
      (collectManifests now db).blobs.rows.filter (isOrphan now (collectManifests now db)) := by
    rw [collectManifests_eq]
    rfl
  have hgc : (gc now db).1 = dropBlobs (visited.orphaned after)
      (dropManifests dead (after.deleteFiles ((visited.orphaned after).map DockerBlob.digest))) := by
    rw [horphans]
    refine (show (gc now db).1 = collectBlobs now (collectManifests now db) from rfl).trans ?_
    rw [collectBlobs_eq, collectManifests_eq]
    rfl
  rw [hgc]
  calc ReflTransGen Pass.Step (db, some (Pass.start now db)) (after, some visited) :=
        Pass.visit_all now dead []
    ReflTransGen Pass.Step _ (after, some { visited with
        orphans := some (visited.orphaned after)
        doomed := (visited.orphaned after).map DockerBlob.digest }) := .single ⟨_, rfl, rfl⟩
    ReflTransGen Pass.Step _ _ := Pass.delete_all
    ReflTransGen Pass.Step _ _ := .single ⟨_, rfl, rfl⟩

end Alone

/-! ## Side by side -/

/-- The tables and files, the pushes that were begun and the collection in progress. -/
structure Floor where
  db : Db
  pushes : List Push := []
  pass : Option Pass := none

inductive Act where
  | begin (repo : DockerRepository) (pushed : Pushed)
  /-- A push takes its next step. -/
  | push (i : Nat) (now : Time)
  /-- A push that was not answered is rolled back. -/
  | fail (i : Nat)
  | select (now : Time)
  /-- The collection takes its next step. -/
  | collect
  | abort

section Floor

variable (env : RegistryEnv)

def Floor.setPhase (f : Floor) (i : Nat) (p : Push) (phase : Phase) : Floor :=
  { f with pushes := f.pushes.set i { p with phase := phase } }

def Floor.step (f : Floor) : Act → Option Floor
  | .begin repo pushed => some { f with pushes := f.pushes ++ [{ repo := repo, pushed := pushed }] }
  | .push i now =>
    f.pushes[i]?.map fun p =>
      { f.setPhase i p (p.turn env now f.db).2 with db := (p.turn env now f.db).1 }
  | .fail i =>
    f.pushes[i]?.bind fun p =>
      match p.phase with
      | .answered => none
      | _ => some (f.setPhase i p .refused)
  | .select now =>
    match f.pass with
    | none => some { f with pass := some (Pass.start now f.db) }
    | some _ => none
  | .collect => f.pass.map fun p => { f with db := (p.turn f.db).1, pass := (p.turn f.db).2 }
  | .abort => some { f with pass := none }

/-- Manifests have ids that were given out, and one row for a digest. -/
structure Content.Keyed (c : Content) : Prop where
  fresh : ∀ x ∈ c.manifests, x.1 < c.nextId
  unique : ∀ x ∈ c.manifests, ∀ y ∈ c.manifests, x.2 = y.2 → x = y

/-- Pushes and collections in any order, over any registry. -/
def collector : System Floor Act where
  init f := f.pushes = [] ∧ f.pass = none ∧ f.db.content.Keyed
  Step f a f' := f.step env a = some f'

/-- What a push was for is committed, and its file is there. -/
def Push.Kept (db : Db) (p : Push) : Prop :=
  db.exists? (p.pushed.digest env) = true ∧
    match p.pushed with
    | .blob digest _ => { repositoryId := p.repo.id, digest := digest } ∈ db.repoBlobs
    | .manifest .. =>
      ∃ m ∈ db.manifests, m.digest = p.pushed.digest env ∧ db.linked p.repo m = true

/-- Every push that was answered kept what it was for. -/
def Floor.Kept (f : Floor) : Prop := ∀ p ∈ f.pushes, p.phase = .answered → p.Kept env f.db

/-! ### When the two stay apart -/

/-- A push in progress relies on the file of this digest. -/
def Push.Relies (digest : Digest) (p : Push) : Prop :=
  p.pushed.digest env = digest ∧ p.phase.inProgress = true

/-- The files a pass is about to delete. -/
def Pass.marked (db : Db) (p : Pass) : List Digest :=
  p.doomed ++ p.dead.flatMap (manifestFiles db)

/-- The manifests whose rows a pass is about to delete. -/
def Pass.chosen (p : Pass) : List DockerManifest := p.dead ++ p.visited

/-- A repository has a manifest of this digest. -/
def servesManifest (db : Db) (digest : Digest) : Bool :=
  db.manifests.rows.any fun m => m.digest = digest && m.id ∈ allLinkedIds db

/-- No push comes upon a file that the pass has marked or a manifest row that it has
chosen; the pass marks no file that a push in progress relies on, and no file of an
unreferenced row that is also the file of a referenced one. -/
def Apart (f : Floor) : Act → Prop
  | .push i _ => ∀ p ∈ f.pushes[i]?, ∀ pass ∈ f.pass,
    match p.phase, p.pushed with
    | .begun, pushed =>
      (pushed.store env p.repo f.db).isSome = true → pushed.digest env ∉ pass.marked f.db
    | .stored, .manifest _ _ body _ _ _ => ∀ m ∈ pass.chosen, m.digest ≠ env.sha256 body
    | _, _ => True
  | .select now => ∀ m ∈ (Pass.start now f.db).dead, ∀ d ∈ manifestFiles f.db m,
    (∀ p ∈ f.pushes, ¬ p.Relies env d) ∧ heldByPush f.db d = false ∧
      (d ≠ m.digest → servesManifest f.db d = false)
  | .collect => ∀ pass ∈ f.pass, pass.doomed = [] → pass.dead = [] → pass.orphans = none →
    ∀ o ∈ pass.orphaned f.db,
      (∀ p ∈ f.pushes, ¬ p.Relies env o.digest) ∧ servesManifest f.db o.digest = false
  | _ => True

instance (digest : Digest) (p : Push) : Decidable (p.Relies env digest) :=
  inferInstanceAs (Decidable (_ ∧ _))

instance (f : Floor) (a : Act) : Decidable (Apart env f a) :=
  match a with
  | .begin _ _ | .fail _ | .abort => inferInstanceAs (Decidable True)
  | .push _ _ => @Option.decidableForallMem _ _ (fun p => @Option.decidableForallMem _ _ (fun pass =>
      match p.phase, p.pushed with
      | .begun, _ => inferInstanceAs (Decidable (_ → _))
      | .stored, .manifest _ _ _ _ _ _ => inferInstanceAs (Decidable (∀ m ∈ pass.chosen, _))
      | .stored, .blob _ _ => inferInstanceAs (Decidable True)
      | .recorded _, _ | .answered, _ | .refused, _ => inferInstanceAs (Decidable True)) _) _
  | .select _ => inferInstanceAs (Decidable (∀ m ∈ _, ∀ d ∈ _, _))
  | .collect => inferInstanceAs (Decidable (∀ pass ∈ f.pass, _))

/-! ### What a commit adds -/

/-- All that a commit adds names one digest. -/
structure Content.Adds (digest : Digest) (c c' : Content) : Prop where
  rows : ∀ x ∈ c'.manifests, x ∈ c.manifests ∨
    x = (c.nextId, digest) ∧ c'.nextId = c.nextId + 1 ∧ ∀ y ∈ c.manifests, y.2 ≠ digest
  links : ∀ l ∈ c'.links, l ∈ c.links ∨ (l.2, digest) ∈ c'.manifests
  blobs : ∀ b ∈ c'.repoBlobs, b ∈ c.repoBlobs ∨ b.digest = digest
  keepsRows : c.manifests ⊆ c'.manifests
  keepsLinks : c.links ⊆ c'.links
  keepsBlobs : c.repoBlobs ⊆ c'.repoBlobs
  nextId : c.nextId ≤ c'.nextId

namespace Content

variable {c c' : Content} {digest : Digest}

theorem Adds.refl (digest : Digest) (c : Content) : c.Adds digest c where
  rows _ hx := .inl hx
  links _ hl := .inl hl
  blobs _ hb := .inl hb
  keepsRows _ hx := hx
  keepsLinks _ hl := hl
  keepsBlobs _ hb := hb
  nextId := Nat.le_refl _

theorem Adds.addBlob (h : c.Adds digest c') (repositoryId : Nat) :
    c.Adds digest (c'.addBlob { repositoryId := repositoryId, digest := digest }) :=
  { h with
    blobs := fun b hb => by
      rcases List.mem_append.mp hb with hb | hb
      · exact h.blobs b hb
      · exact .inr (congrArg DockerRepoBlob.digest (List.mem_singleton.mp hb))
    keepsBlobs := fun _ hb => List.mem_append_left _ (h.keepsBlobs hb) }

theorem Adds.addLink (h : c.Adds digest c') {repositoryId manifestId : Nat}
    (hm : (manifestId, digest) ∈ c'.manifests) :
    c.Adds digest (c'.addLink repositoryId manifestId) :=
  { h with
    links := fun l hl => by
      rcases List.mem_append.mp hl with hl | hl
      · exact h.links l hl
      · rw [List.mem_singleton.mp hl]
        exact .inr hm
    keepsLinks := fun _ hl => List.mem_append_left _ (h.keepsLinks hl) }

theorem adds_addManifest (hnew : ∀ y ∈ c.manifests, y.2 ≠ digest) (refs : List Ref) :
    c.Adds digest (c.addManifest digest refs) :=
  { Adds.refl digest c with
    rows := fun x hx => by
      rcases List.mem_append.mp hx with hx | hx
      · exact .inl hx
      · exact .inr ⟨List.mem_singleton.mp hx, rfl, hnew⟩
    links := fun _ hl => .inl hl
    blobs := fun _ hb => .inl hb
    keepsRows := fun _ hx => List.mem_append_left _ hx
    keepsLinks := fun _ hl => hl
    keepsBlobs := fun _ hb => hb
    nextId := Nat.le_succ _ }

theorem Keyed.adds (h : c.Keyed) (hadds : c.Adds digest c') : c'.Keyed where
  fresh x hx := by
    rcases hadds.rows x hx with hx | ⟨rfl, hnext, -⟩
    · exact Nat.lt_of_lt_of_le (h.fresh x hx) hadds.nextId
    · rw [hnext]
      exact Nat.lt_succ_self _
  unique x hx y hy heq := by
    rcases hadds.rows x hx with hx | ⟨rfl, -, hnew⟩ <;>
      rcases hadds.rows y hy with hy | ⟨rfl, -, hnew'⟩
    · exact h.unique x hx y hy heq
    · exact absurd heq (hnew' x hx)
    · exact absurd heq.symm (hnew y hy)
    · rfl

/-- A repository has a blob or a manifest of the digest. -/
def Holds (c : Content) (digest : Digest) : Prop :=
  (∃ b ∈ c.repoBlobs, b.digest = digest) ∨ ∃ l ∈ c.links, (l.2, digest) ∈ c.manifests

/-- What a commit adds is held under its own digest. -/
theorem Adds.holds (h : c.Adds digest c')
    (hids : ∀ i d d', (i, d) ∈ c'.manifests → (i, d') ∈ c'.manifests → d = d') {d : Digest}
    (hd : c'.Holds d) : c.Holds d ∨ d = digest := by
  rcases hd with ⟨b, hb, rfl⟩ | ⟨l, hl, hi⟩
  · exact (h.blobs b hb).imp (fun hb => .inl ⟨b, hb, rfl⟩) id
  · rcases h.links l hl with hl | hl
    · rcases h.rows _ hi with hi | ⟨heq, -, -⟩
      · exact .inl (.inr ⟨l, hl, hi⟩)
      · exact .inr (congrArg Prod.snd heq)
    · exact .inr (hids _ _ _ hi hl)

end Content

theorem content_ids {db : Db} {i : Nat} {d d' : Digest} (h : (i, d) ∈ db.content.manifests)
    (h' : (i, d') ∈ db.content.manifests) : d = d' := by
  obtain ⟨m, hm, heq⟩ := List.mem_map.mp h
  obtain ⟨m', hm', heq'⟩ := List.mem_map.mp h'
  obtain ⟨hid, rfl⟩ := Prod.mk.inj heq
  obtain ⟨hid', rfl⟩ := Prod.mk.inj heq'
  rw [Table.eq_of_key hm hm' (hid.trans hid'.symm)]

/-- The digest of the manifest row a push is for. -/
def Pushed.rowDigest : Pushed → Option Digest
  | .blob _ _ => none
  | .manifest _ _ body _ _ _ => some (env.sha256 body)

/-- The reference a push is for. -/
def Pushed.Refers (repositoryId : Nat) (c : Content) : Pushed → Prop
  | .blob digest _ => { repositoryId := repositoryId, digest := digest } ∈ c.repoBlobs
  | .manifest _ _ body _ _ _ =>
    ∃ i, (i, env.sha256 body) ∈ c.manifests ∧ (repositoryId, i) ∈ c.links

/-- The rows a push recorded are for its digest, and still there. -/
def Pushed.Found (c : Content) : Pushed → Recorded → Prop
  | .manifest _ _ body _ _ _, .manifest _ row found =>
    row.digest = env.sha256 body ∧ ∀ m ∈ found, (m.id, env.sha256 body) ∈ c.manifests
  | _, _ => True

theorem Pushed.Refers.holds {env : RegistryEnv} {pushed : Pushed} {repositoryId : Nat} {c : Content}
    (h : pushed.Refers env repositoryId c) : c.Holds (pushed.digest env) := by
  cases pushed with
  | blob digest content => exact .inl ⟨_, h, rfl⟩
  | manifest target reference body contentType ident policy =>
    obtain ⟨i, hi, hlink⟩ := h
    exact .inr ⟨_, hlink, hi⟩

section Commit

variable {env} {repo : DockerRepository} {now : Time} {db db' : Db}

/-- The files, and the reports that name some of them. -/
def Db.filed (db : Db) : List Digest × Table DockerScan.id := (db.files, db.scans)

@[simp] theorem recordLocalBlob_filed (digest : Digest) (size : Nat) :
    (recordLocalBlob digest now db size).filed = db.filed := by
  unfold recordLocalBlob
  split
  · rfl
  · split <;> rfl

@[simp] theorem addRepoBlob_filed (digest : Digest) :
    (addRepoBlob repo digest db).filed = db.filed := by
  unfold addRepoBlob
  dsimp only
  split <;> rfl

@[simp] theorem link_filed (m : DockerManifest) : (db.link repo m).filed = db.filed := by
  unfold Db.link
  split <;> rfl

@[simp] theorem applyPushPolicy_filed (m : DockerManifest) (policy : ImagePolicy) :
    (applyPushPolicy m policy db).filed = db.filed := by
  unfold applyPushPolicy
  split
  · rfl
  · split <;> rfl

@[simp] theorem setTag_filed (tag : String) (m : DockerManifest) :
    (setTag repo tag m now db).filed = db.filed := rfl

theorem link_refers (m : DockerManifest) : (repo.id, m.id) ∈ (db.link repo m).content.links := by
  unfold Db.link
  split
  · next h =>
    obtain ⟨l, hl, heq⟩ := List.any_eq_true.mp h
    simp only [Bool.and_eq_true, decide_eq_true_eq] at heq
    exact List.mem_map.mpr ⟨l, hl, Prod.ext heq.1 heq.2⟩
  · exact List.mem_map.mpr ⟨_, List.mem_append_right _ (List.mem_singleton.mpr rfl), rfl⟩

theorem addRepoBlob_refers (digest : Digest) :
    ({ repositoryId := repo.id, digest := digest } : DockerRepoBlob) ∈
      (addRepoBlob repo digest db).repoBlobs := by
  unfold addRepoBlob
  dsimp only
  split
  · next h => exact h
  · exact List.mem_append_right _ (List.mem_singleton.mpr rfl)

/-- **What an upload commits**: at most its own blob. -/
theorem commitBlob_spec {digest : Digest} {size : Nat} {found : Option DockerBlob}
    (h : (commitBlobRow now db digest size found).map (addRepoBlob repo digest) = some db') :
    db'.filed = db.filed ∧ db.content.Adds digest db'.content ∧
      db'.content.links = db.content.links ∧
      { repositoryId := repo.id, digest := digest } ∈ db'.repoBlobs := by
  obtain ⟨db₁, hrow, rfl⟩ := Option.map_eq_some_iff.mp h
  have hsame : db₁.filed = db.filed ∧ db₁.content = db.content := by
    unfold commitBlobRow at hrow
    split at hrow
    · obtain rfl := Option.some.inj hrow
      exact ⟨recordLocalBlob_filed .., recordLocalBlob_content ..⟩
    · obtain rfl := Option.some.inj hrow
      exact ⟨rfl, rfl⟩
    · split at hrow
      · obtain rfl := Option.some.inj hrow
        exact ⟨rfl, rfl⟩
      · obtain ⟨-, -, rfl⟩ := Option.map_eq_some_iff.mp hrow
        exact ⟨recordLocalBlob_filed .., recordLocalBlob_content ..⟩
  refine ⟨by rw [addRepoBlob_filed, hsame.1], ?_, ?_, addRepoBlob_refers digest⟩
  · rcases addRepoBlob_content db₁ repo digest with heq | heq <;> rw [heq, hsame.2]
    · exact .refl ..
    · exact (Content.Adds.refl digest _).addBlob _
  · rcases addRepoBlob_content db₁ repo digest with heq | heq <;> rw [heq, hsame.2]
    rfl

/-- The row a push goes on with is one of its digest, found or inserted. -/
theorem manifestAtCommit_spec (hkeyed : db.content.Keyed) (parsed : ParsedManifest)
    {row : DockerManifest} {found : Option DockerManifest}
    (hfound : ∀ m ∈ found, (m.id, row.digest) ∈ db.content.manifests) :
    (manifestAtCommit db parsed row found).1.filed = db.filed ∧
      db.content.Adds row.digest (manifestAtCommit db parsed row found).1.content ∧
      ((manifestAtCommit db parsed row found).2.id, row.digest) ∈
        (manifestAtCommit db parsed row found).1.content.manifests := by
  unfold manifestAtCommit
  rcases found with _ | m
  · dsimp only
    rcases hrow : db.manifestRow row.digest with _ | m
    · have hnew : ∀ y ∈ db.content.manifests, y.2 ≠ row.digest := by
        intro y hy heq
        obtain ⟨n, hn, rfl⟩ := List.mem_map.mp hy
        exact List.find?_eq_none.mp hrow n hn (decide_eq_true heq)
      have hfresh : ∀ m ∈ db.manifests, m.id < db.nextId := fun m hm =>
        hkeyed.fresh (m.id, m.digest) (List.mem_map.mpr ⟨m, hm, rfl⟩)
      have hcontent := insertManifest_content parsed { row with id := db.nextId } rfl hfresh
      dsimp only
      rw [hcontent]
      exact ⟨rfl, Content.adds_addManifest hnew parsed.refs,
        List.mem_append_right _ (List.mem_singleton.mpr rfl)⟩
    · have hdigest : m.digest = row.digest := by simpa using List.find?_some hrow
      refine ⟨rfl, .refl .., ?_⟩
      rw [← hdigest]
      exact List.mem_map.mpr ⟨m, List.mem_of_find?_eq_some hrow, rfl⟩
  · exact ⟨rfl, .refl .., hfound m rfl⟩

/-- **What a manifest PUT commits**: at most its own manifest and its link. -/
theorem commitManifest_spec (hkeyed : db.content.Keyed) {reference : String} {policy : ImagePolicy}
    {parsed : ParsedManifest} {row : DockerManifest} {found : Option DockerManifest}
    (hfound : ∀ m ∈ found, (m.id, row.digest) ∈ db.content.manifests)
    (h : commitManifest repo now db reference policy parsed row found = some db') :
    db'.filed = db.filed ∧ db.content.Adds row.digest db'.content ∧
      ∃ i, (i, row.digest) ∈ db'.content.manifests ∧ (repo.id, i) ∈ db'.content.links := by
  obtain ⟨hfiled, hadds, hmem⟩ := manifestAtCommit_spec hkeyed parsed hfound
  unfold commitManifest at h
  rcases hcommit : manifestAtCommit db parsed row found with ⟨db₁, m⟩
  rw [hcommit] at h hfiled hadds hmem
  dsimp only at h hfiled hadds hmem
  rw [if_pos (isSome_find?_iff.mpr ⟨_, hmem⟩)] at h
  -- beyond the link, the commit changes neither content nor files
  have hlinked : db'.filed = (db₁.link repo m).filed ∧
      db'.content = (db₁.link repo m).content := by
    obtain rfl := Option.some.inj h
    constructor
    all_goals split <;> split <;> simp
  rw [hlinked.1, hlinked.2, link_filed]
  refine ⟨hfiled, ?_, m.id, ?_, link_refers m⟩
  · rcases link_content db₁ repo m with heq | heq <;> rw [heq]
    · exact hadds
    · exact hadds.addLink hmem
  · rcases link_content db₁ repo m with heq | heq <;> rw [heq] <;> exact hmem

/-- **What a push commits** names its digest, and has the reference it is for. -/
theorem Pushed.commit_spec (hkeyed : db.content.Keyed) {pushed : Pushed} {rows : Recorded}
    (hfound : pushed.Found env db.content rows)
    (h : pushed.commit repo now db rows = some db') :
    db'.filed = db.filed ∧ db.content.Adds (pushed.digest env) db'.content ∧
      (∀ l ∈ db'.content.links, l ∈ db.content.links ∨
        ∃ d ∈ pushed.rowDigest env, (l.2, d) ∈ db'.content.manifests) ∧
      pushed.Refers env repo.id db'.content := by
  cases pushed with
  | blob digest content =>
    cases rows with
    | blob size found =>
      obtain ⟨hfiled, hadds, hlinks, hrefers⟩ := commitBlob_spec h
      exact ⟨hfiled, hadds, fun l hl => .inl (hlinks ▸ hl), hrefers⟩
    | manifest parsed row found => cases h
  | manifest target reference body contentType ident policy =>
    cases rows with
    | blob size found => cases h
    | manifest parsed row found =>
      obtain ⟨hdigest, hfound⟩ := hfound
      rw [← hdigest] at hfound
      obtain ⟨hfiled, hadds, hrefers⟩ := commitManifest_spec hkeyed hfound h
      rw [hdigest] at hadds hrefers
      exact ⟨hfiled, hadds, fun l hl => (hadds.links l hl).imp_right fun hm => ⟨_, rfl, hm⟩,
        hrefers⟩

/-- **What the file step of a push does**: at most its own file. -/
theorem Pushed.store_spec {pushed : Pushed} (h : pushed.store env repo db = some db') :
    db' = db.putFile (pushed.digest env) := by
  cases pushed with
  | blob digest content =>
    dsimp only [Pushed.store] at h
    split at h
    · unfold uploadCommit at h
      dsimp only at h
      split at h
      · cases h
      · exact (Option.some.inj h).symm
    · cases h
  | manifest target reference body contentType ident policy =>
    dsimp only [Pushed.store] at h
    split at h
    · cases h
    · obtain ⟨-, -, rfl⟩ := Option.map_eq_some_iff.mp h
      rfl

/-- The rows a push records are there. -/
theorem Pushed.record_spec {pushed : Pushed} {rows : Recorded}
    (h : pushed.record env now db = some rows) : pushed.Found env db.content rows := by
  cases pushed with
  | blob digest content =>
    obtain rfl := Option.some.inj h
    trivial
  | manifest target reference body contentType ident policy =>
    obtain ⟨parsed, -, rfl⟩ := Option.map_eq_some_iff.mp h
    refine ⟨rfl, fun m hm => ?_⟩
    have hdigest : m.digest = env.sha256 body := by simpa using List.find?_some hm
    rw [← hdigest]
    exact List.mem_map.mpr ⟨m, List.mem_of_find?_eq_some hm, rfl⟩

end Commit

/-! ### The invariant -/

/-- What holds of a push: its file is there once it took its file step, its rows
once it recorded them, its reference once it was answered. -/
def Push.Good (db : Db) (p : Push) : Prop :=
  match p.phase with
  | .begun | .refused => True
  | .stored => p.pushed.digest env ∈ db.files
  | .recorded rows => p.pushed.digest env ∈ db.files ∧ p.pushed.Found env db.content rows
  | .answered => p.pushed.digest env ∈ db.files ∧ p.pushed.Refers env p.repo.id db.content

/-- No push in progress relies on the file, and no repository has it. -/
def Floor.Spare (f : Floor) (digest : Digest) : Prop :=
  (∀ p ∈ f.pushes, ¬ p.Relies env digest) ∧ ¬ f.db.content.Holds digest

/-- A push goes on with the manifest row of this digest. -/
def Push.TakesRow (digest : Digest) (p : Push) : Prop :=
  p.pushed.rowDigest env = some digest ∧ p.phase.isRecorded = true

/-- What a pass is about to delete is spare: files, and manifest rows. -/
structure Pass.Clear (f : Floor) (pass : Pass) : Prop where
  files : ∀ d ∈ pass.marked f.db, f.Spare env d
  rows : ∀ m ∈ pass.chosen, (m.id, m.digest) ∈ f.db.content.manifests ∧
    (∀ l ∈ f.db.content.links, l.2 ≠ m.id) ∧ ∀ p ∈ f.pushes, ¬ p.TakesRow env m.digest

structure Floor.Sound (f : Floor) : Prop where
  keyed : f.db.content.Keyed
  pushes : ∀ p ∈ f.pushes, p.Good env f.db
  pass : ∀ pass ∈ f.pass, pass.Clear env f

section Invariant

variable {env} {f : Floor} {db' : Db} {p : Push}

theorem Push.Good.mono (h : p.Good env f.db) (hfiles : f.db.files ⊆ db'.files) {digest : Digest}
    (hadds : f.db.content.Adds digest db'.content) : p.Good env db' := by
  obtain ⟨repo, pushed, phase⟩ := p
  cases phase with
  | begun => trivial
  | stored => exact hfiles h
  | recorded rows =>
    refine ⟨hfiles h.1, ?_⟩
    cases pushed <;> cases rows <;> try trivial
    exact ⟨h.2.1, fun m hm => hadds.keepsRows (h.2.2 m hm)⟩
  | answered =>
    refine ⟨hfiles h.1, ?_⟩
    cases pushed with
    | blob digest content => exact hadds.keepsBlobs h.2
    | manifest => exact h.2.imp fun i hi => ⟨hadds.keepsRows hi.1, hadds.keepsLinks hi.2⟩
  | refused => trivial

theorem Push.Good.stored (h : p.Good env f.db) (hrelies : p.Relies env (p.pushed.digest env)) :
    p.pushed.digest env ∈ f.db.files := by
  obtain ⟨repo, pushed, phase⟩ := p
  cases phase with
  | begun | answered | refused => exact nomatch hrelies.2
  | stored => exact h
  | recorded rows => exact h.1

/-- **A push takes a step**: it adds what names its digest, which the pass has not
marked, and takes no row that the pass has chosen. -/
theorem Floor.Sound.turn (h : f.Sound env) {i : Nat} {phase : Phase}
    (hfiles : f.db.files ⊆ db'.files) (hscans : db'.scans = f.db.scans)
    (hadds : f.db.content.Adds (p.pushed.digest env) db'.content)
    (hgood : Push.Good env db' { p with phase := phase })
    (hmarked : ∀ pass ∈ f.pass, p.pushed.digest env ∉ pass.marked f.db)
    (hlinks : ∀ pass ∈ f.pass, ∀ m ∈ pass.chosen, ∀ l ∈ db'.content.links,
      l ∈ f.db.content.links ∨ l.2 ≠ m.id)
    (htakes : ∀ pass ∈ f.pass, ∀ m ∈ pass.chosen,
      ¬ Push.TakesRow env m.digest { p with phase := phase }) :
    Floor.Sound env { f.setPhase i p phase with db := db' } where
  keyed := h.keyed.adds hadds
  pushes q hq := by
    rcases List.mem_or_eq_of_mem_set hq with hq | rfl
    · exact (h.pushes q hq).mono hfiles hadds
    · exact hgood
  pass pass hpass := by
    have hclear := h.pass pass hpass
    have hfilesOf : manifestFiles db' = manifestFiles f.db := by
      unfold manifestFiles
      rw [hscans]
    refine ⟨fun d hd => ?_, fun m hm => ⟨?_, fun l hl => ?_, fun q hq => ?_⟩⟩
    · have hd : d ∈ pass.marked f.db := by
        unfold Pass.marked at hd ⊢
        rwa [← hfilesOf]
      have hspare := hclear.files d hd
      have hne : d ≠ p.pushed.digest env := fun heq => hmarked pass hpass (heq ▸ hd)
      refine ⟨fun q hq hrelies => ?_, fun hholds => ?_⟩
      · rcases List.mem_or_eq_of_mem_set hq with hq | rfl
        · exact hspare.1 q hq hrelies
        · exact hne hrelies.1.symm
      · rcases hadds.holds (fun _ _ _ => content_ids) hholds with hholds | heq
        · exact hspare.2 hholds
        · exact hne heq
    · exact hadds.keepsRows (hclear.rows m hm).1
    · rcases hlinks pass hpass m hm l hl with hl | hne
      · exact (hclear.rows m hm).2.1 l hl
      · exact hne
    · rcases List.mem_or_eq_of_mem_set hq with hq | rfl
      · exact (hclear.rows m hm).2.2 q hq
      · exact htakes pass hpass m hm

/-- A push that is over, or was refused. -/
theorem Floor.Sound.settle (h : f.Sound env) {i : Nat} {phase : Phase}
    (hgood : Push.Good env f.db { p with phase := phase })
    (hphase : phase = .answered ∨ phase = .refused) : Floor.Sound env (f.setPhase i p phase) where
  keyed := h.keyed
  pushes q hq := by
    rcases List.mem_or_eq_of_mem_set hq with hq | rfl
    · exact h.pushes q hq
    · exact hgood
  pass pass hpass := by
    have hclear := h.pass pass hpass
    refine ⟨fun d hd => ⟨fun q hq hrelies => ?_, (hclear.files d hd).2⟩, fun m hm =>
      ⟨(hclear.rows m hm).1, (hclear.rows m hm).2.1, fun q hq htakes => ?_⟩⟩
    · rcases List.mem_or_eq_of_mem_set hq with hq | rfl
      · exact (hclear.files d hd).1 q hq hrelies
      · rcases hphase with rfl | rfl <;> exact nomatch hrelies.2
    · rcases List.mem_or_eq_of_mem_set hq with hq | rfl
      · exact (hclear.rows m hm).2.2 q hq htakes
      · rcases hphase with rfl | rfl <;> exact nomatch htakes.2

theorem mem_putFile {db : Db} {d e : Digest} : e ∈ (db.putFile d).files ↔ e ∈ db.files ∨ e = d := by
  unfold Db.putFile
  split
  · next hd => exact ⟨.inl, fun h => h.elim id fun heq => heq ▸ hd⟩
  · simp

theorem Floor.Sound.push (h : f.Sound env) {i : Nat} {now : Time} (hp : f.pushes[i]? = some p)
    (hapart : Apart env f (.push i now)) :
    Floor.Sound env
      { f.setPhase i p (p.turn env now f.db).2 with db := (p.turn env now f.db).1 } := by
  have hgood := h.pushes p (List.mem_of_getElem? hp)
  have hapart := hapart p hp
  -- a push in progress relies on its file, so the pass has not marked it
  have hfree : p.Relies env (p.pushed.digest env) → ∀ pass ∈ f.pass,
      p.pushed.digest env ∉ pass.marked f.db := fun hrelies pass hpass hd =>
    ((h.pass pass hpass).files _ hd).1 p (List.mem_of_getElem? hp) hrelies
  have htaken : ∀ d, p.TakesRow env d → ∀ pass ∈ f.pass, ∀ m ∈ pass.chosen, m.digest ≠ d :=
    fun d htakes pass hpass m hm heq =>
      ((h.pass pass hpass).rows m hm).2.2 p (List.mem_of_getElem? hp) (heq ▸ htakes)
  obtain ⟨repo, pushed, phase⟩ := p
  cases phase with
  | begun =>
    dsimp only [Push.turn]
    rcases hstore : pushed.store env repo f.db with _ | db'
    · exact h.settle trivial (.inr rfl)
    · obtain rfl := Pushed.store_spec hstore
      refine h.turn (fun e he => mem_putFile.mpr (.inl he)) ?_ ?_ ?_ ?_ ?_ ?_
      · unfold Db.putFile
        dsimp only
        split <;> rfl
      · dsimp only
        rw [putFile_content]
        exact .refl ..
      · exact mem_putFile.mpr (.inr rfl)
      · exact fun pass hpass => hapart pass hpass (Option.isSome_iff_exists.mpr ⟨_, hstore⟩)
      · intro pass hpass m hm l hl
        dsimp only at hl
        rw [putFile_content] at hl
        exact .inl hl
      · exact fun _ _ _ _ htakes => nomatch htakes.2
  | stored =>
    dsimp only [Push.turn]
    rcases hrecord : pushed.record env now f.db with _ | rows
    · exact h.settle trivial (.inr rfl)
    · refine h.turn (fun _ he => he) rfl (.refl ..) ⟨hgood, Pushed.record_spec hrecord⟩
        (hfree ⟨rfl, rfl⟩) (fun _ _ _ _ l hl => .inl hl) ?_
      intro pass hpass m hm htakes
      cases pushed with
      | blob => cases htakes.1
      | manifest => exact hapart pass hpass m hm (Option.some.inj htakes.1).symm
  | recorded rows =>
    dsimp only [Push.turn]
    rcases hcommit : pushed.commit repo now f.db rows with _ | db'
    · exact h.settle trivial (.inr rfl)
    · obtain ⟨hfiled, hadds, hlinks, hrefers⟩ := Pushed.commit_spec h.keyed hgood.2 hcommit
      obtain ⟨hfiles, hscans⟩ := Prod.mk.inj hfiled
      refine h.turn (fun _ he => hfiles ▸ he) hscans hadds ⟨hfiles ▸ hgood.1, hrefers⟩
        (hfree ⟨rfl, rfl⟩) ?_ fun _ _ _ _ htakes => nomatch htakes.2
      intro pass hpass m hm l hl
      refine (hlinks l hl).imp_right ?_
      rintro ⟨d, hd, hrow⟩ hid
      have hrow' := hadds.keepsRows ((h.pass pass hpass).rows m hm).1
      rw [← hid] at hrow'
      exact htaken d ⟨hd, rfl⟩ pass hpass m hm (content_ids hrow' hrow)
  | answered => exact h.settle hgood (.inl rfl)
  | refused => exact h.settle trivial (.inr rfl)

/-! ### The collection takes a step -/

/-- A spare file goes. -/
theorem Push.Good.deleteFile (h : p.Good env f.db) (hp : p ∈ f.pushes) {digest : Digest}
    (hspare : f.Spare env digest) : p.Good env (f.db.deleteFile digest) := by
  have hkeep : ∀ {d}, d ∈ f.db.files → d ≠ digest → d ∈ (f.db.deleteFile digest).files :=
    fun hd hne => List.mem_filter.mpr ⟨hd, decide_eq_true hne⟩
  obtain ⟨repo, pushed, phase⟩ := p
  cases phase with
  | begun | refused => trivial
  | stored => exact hkeep h fun heq => hspare.1 _ hp ⟨heq, rfl⟩
  | recorded rows => exact ⟨hkeep h.1 fun heq => hspare.1 _ hp ⟨heq, rfl⟩, h.2⟩
  | answered =>
    refine ⟨hkeep h.1 fun heq => hspare.2 ?_, h.2⟩
    exact heq ▸ Pushed.Refers.holds h.2

theorem mem_dropManifests {dead : List DockerManifest} {db : Db} {i : Nat} {d : Digest} :
    (i, d) ∈ (dropManifests dead db).content.manifests ↔
      (i, d) ∈ db.content.manifests ∧ ∀ m ∈ dead, m.id ≠ i := by
  simp only [Db.content, List.mem_map, dropManifests, Table.filter, List.mem_filter, Prod.mk.injEq,
    Bool.not_eq_true', List.any_eq_false, decide_eq_true_eq]
  constructor
  · rintro ⟨m, ⟨hm, hkept⟩, rfl, rfl⟩
    exact ⟨⟨m, hm, rfl, rfl⟩, hkept⟩
  · rintro ⟨⟨m, hm, rfl, rfl⟩, hkept⟩
    exact ⟨m, ⟨hm, hkept⟩, rfl, rfl⟩

/-- The rows that the commit deletes are not a push's. -/
theorem Push.Good.drop (h : p.Good env f.db) (hp : p ∈ f.pushes) {pass : Pass}
    (hclear : pass.Clear env f) (orphans : List DockerBlob) :
    p.Good env (dropBlobs orphans (dropManifests pass.visited f.db)) := by
  have hvisited : ∀ m ∈ pass.visited, m ∈ pass.chosen := fun m hm => List.mem_append_right _ hm
  obtain ⟨repo, pushed, phase⟩ := p
  cases phase with
  | begun | refused => trivial
  | stored => exact h
  | recorded rows =>
    refine ⟨h.1, ?_⟩
    cases pushed <;> cases rows <;> try trivial
    refine ⟨h.2.1, fun m hm => mem_dropManifests.mpr ⟨h.2.2 m hm, fun v hv hid => ?_⟩⟩
    obtain ⟨hrow, -, htaken⟩ := hclear.rows v (hvisited v hv)
    rw [hid] at hrow
    exact htaken _ hp ⟨congrArg some (content_ids (h.2.2 m hm) hrow), rfl⟩
  | answered =>
    refine ⟨h.1, ?_⟩
    cases pushed with
    | blob => exact h.2
    | manifest =>
      obtain ⟨i, hi, hlink⟩ := h.2
      have hkept : ∀ v ∈ pass.visited, v.id ≠ i := fun v hv heq =>
        (hclear.rows v (hvisited v hv)).2.1 _ hlink heq.symm
      refine ⟨i, mem_dropManifests.mpr ⟨hi, hkept⟩, ?_⟩
      obtain ⟨l, hl, heq⟩ := List.mem_map.mp hlink
      refine List.mem_map.mpr ⟨l, List.mem_filter.mpr ⟨hl, ?_⟩, heq⟩
      rw [Bool.not_eq_true', List.any_eq_false]
      intro v hv hid
      exact hkept v hv ((of_decide_eq_true hid).trans (congrArg Prod.snd heq))

theorem servesManifest_iff {db : Db} {d : Digest} : servesManifest db d = true ↔
    ∃ l ∈ db.content.links, (l.2, d) ∈ db.content.manifests := by
  simp only [servesManifest, allLinkedIds, List.any_eq_true, Bool.and_eq_true, decide_eq_true_eq,
    List.mem_map, Db.content, Prod.mk.injEq]
  constructor
  · rintro ⟨m, hm, rfl, l, hl, hid⟩
    exact ⟨_, ⟨l, hl, rfl⟩, m, hm, hid.symm, rfl⟩
  · rintro ⟨_, ⟨l, hl, rfl⟩, m, hm, hid, rfl⟩
    exact ⟨m, hm, rfl, l, hl, hid.symm⟩

theorem heldByPush_iff {db : Db} {d : Digest} :
    heldByPush db d = true ↔ ∃ b ∈ db.content.repoBlobs, b.digest = d := by
  simp [heldByPush, Db.content]

/-- Neither a blob nor a manifest of a repository has the digest. -/
theorem not_holds {db : Db} {d : Digest} (hblob : heldByPush db d = false)
    (hmanifest : servesManifest db d = false) : ¬ db.content.Holds d := by
  rintro (hb | hm)
  · exact Bool.false_ne_true (hblob.symm.trans (heldByPush_iff.mpr hb))
  · exact Bool.false_ne_true (hmanifest.symm.trans (servesManifest_iff.mpr hm))

/-- A dead manifest has no link, and its digest no other row. -/
theorem isDead_spare (hkeyed : f.db.content.Keyed) {now : Time} {m : DockerManifest}
    (hm : m ∈ f.db.manifests) (hdead : isDead now f.db m = true) :
    (∀ l ∈ f.db.content.links, l.2 ≠ m.id) ∧ servesManifest f.db m.digest = false := by
  have hlinks : ∀ l ∈ f.db.content.links, l.2 ≠ m.id := by
    intro l hl hid
    obtain ⟨row, hrow, rfl⟩ := List.mem_map.mp hl
    unfold isDead at hdead
    simp only [Bool.and_eq_true, decide_eq_true_eq] at hdead
    exact hdead.1.1.1 (List.mem_map.mpr ⟨row, hrow, hid⟩)
  refine ⟨hlinks, Bool.eq_false_iff.mpr fun hserves => ?_⟩
  obtain ⟨l, hl, hrow⟩ := servesManifest_iff.mp hserves
  have hm' : (m.id, m.digest) ∈ f.db.content.manifests := List.mem_map.mpr ⟨m, hm, rfl⟩
  exact hlinks l hl (congrArg Prod.fst (hkeyed.unique _ hrow _ hm' rfl))

/-- **A collection starts** on what is spare. -/
theorem Floor.Sound.select (h : f.Sound env) {now : Time} (hapart : Apart env f (.select now)) :
    Floor.Sound env { f with pass := some (Pass.start now f.db) } where
  keyed := h.keyed
  pushes := h.pushes
  pass pass hpass := by
    obtain rfl := Option.some.inj hpass
    refine ⟨fun d hd => ?_, fun m hm => ?_⟩
    · obtain ⟨m, hm, hd⟩ := List.mem_flatMap.mp hd
      obtain ⟨hfree, hblob, hmanifest⟩ := hapart m hm d hd
      obtain ⟨hrow, hdead⟩ := List.mem_filter.mp hm
      refine ⟨hfree, not_holds hblob ?_⟩
      by_cases heq : d = m.digest
      · rw [heq]
        exact (isDead_spare h.keyed hrow hdead).2
      · exact hmanifest heq
    · rw [show (Pass.start now f.db).chosen = (Pass.start now f.db).dead from List.append_nil _] at hm
      obtain ⟨hrow, hdead⟩ := List.mem_filter.mp hm
      refine ⟨List.mem_map.mpr ⟨m, hrow, rfl⟩, (isDead_spare h.keyed hrow hdead).1, ?_⟩
      intro p hp htakes
      refine (hapart m hm m.digest List.mem_cons_self).1 p hp ?_
      obtain ⟨repo, pushed, phase⟩ := p
      cases pushed with
      | blob => cases htakes.1
      | manifest =>
        refine ⟨Option.some.inj htakes.1, ?_⟩
        cases phase <;> first | rfl | exact nomatch htakes.2

/-- **A collection takes a step.** -/
theorem Floor.Sound.collect (h : f.Sound env) {pass : Pass} (hpass : f.pass = some pass)
    (hapart : Apart env f .collect) :
    Floor.Sound env { f with db := (pass.turn f.db).1, pass := (pass.turn f.db).2 } := by
  have hclear := h.pass pass hpass
  have hapart := hapart pass hpass
  obtain ⟨now, dead, visited, orphans, doomed⟩ := pass
  match doomed, dead, orphans with
  | digest :: doomed, dead, orphans =>
    have hspare := hclear.files digest List.mem_cons_self
    refine ⟨h.keyed, fun p hp => (h.pushes p hp).deleteFile hp hspare, ?_⟩
    intro next hnext
    obtain rfl := Option.some.inj hnext
    exact ⟨fun d hd => hclear.files d (List.mem_cons_of_mem _ hd), hclear.rows⟩
  | [], m :: dead, orphans =>
    refine ⟨h.keyed, h.pushes, ?_⟩
    intro next hnext
    obtain rfl := Option.some.inj hnext
    refine ⟨hclear.files, fun n hn => hclear.rows n ?_⟩
    simp only [Pass.chosen, List.mem_append, List.mem_cons] at hn ⊢
    tauto
  | [], [], none =>
    refine ⟨h.keyed, h.pushes, ?_⟩
    intro next hnext
    obtain rfl := Option.some.inj hnext
    refine ⟨fun d hd => ?_, hclear.rows⟩
    obtain ⟨o, ho, rfl⟩ := List.mem_map.mp ((List.mem_append.mp hd).resolve_right (nomatch ·))
    obtain ⟨hfree, hmanifest⟩ := hapart rfl rfl rfl o ho
    have horphan := (List.mem_filter.mp ho).2
    unfold isOrphan at horphan
    simp only [Bool.and_eq_true, Bool.not_eq_true'] at horphan
    exact ⟨hfree, not_holds horphan.1.2 hmanifest⟩
  | [], [], some orphans =>
    refine ⟨⟨fun x hx => ?_, fun x hx y hy => ?_⟩, fun p hp => (h.pushes p hp).drop hp hclear _, nofun⟩
    · exact h.keyed.fresh x (mem_dropManifests.mp hx).1
    · exact h.keyed.unique x (mem_dropManifests.mp hx).1 y (mem_dropManifests.mp hy).1

/-- Every step keeps the invariant, if the two sides stay apart. -/
theorem Floor.Sound.step (h : f.Sound env) {a : Act} {f' : Floor} (hapart : Apart env f a)
    (hstep : f.step env a = some f') : f'.Sound env := by
  cases a with
  | begin repo pushed =>
    obtain rfl := Option.some.inj hstep
    refine ⟨h.keyed, fun p hp => ?_, fun pass hpass => ?_⟩
    · rcases List.mem_append.mp hp with hp | hp
      · exact h.pushes p hp
      · rw [List.mem_singleton.mp hp]
        trivial
    · have hclear := h.pass pass hpass
      refine ⟨fun d hd => ⟨fun p hp hrelies => ?_, (hclear.files d hd).2⟩, fun m hm =>
        ⟨(hclear.rows m hm).1, (hclear.rows m hm).2.1, fun p hp htakes => ?_⟩⟩
      · rcases List.mem_append.mp hp with hp | hp
        · exact (hclear.files d hd).1 p hp hrelies
        · exact nomatch List.mem_singleton.mp hp ▸ hrelies.2
      · rcases List.mem_append.mp hp with hp | hp
        · exact (hclear.rows m hm).2.2 p hp htakes
        · exact nomatch List.mem_singleton.mp hp ▸ htakes.2
  | push i now =>
    obtain ⟨p, hp, rfl⟩ := Option.map_eq_some_iff.mp hstep
    exact h.push hp hapart
  | fail i =>
    obtain ⟨p, hp, hfail⟩ := Option.bind_eq_some_iff.mp hstep
    split at hfail
    · cases hfail
    · obtain rfl := Option.some.inj hfail
      exact h.settle trivial (.inr rfl)
  | select now =>
    dsimp only [Floor.step] at hstep
    split at hstep
    · obtain rfl := Option.some.inj hstep
      exact h.select hapart
    · cases hstep
  | collect =>
    obtain ⟨pass, hpass, rfl⟩ := Option.map_eq_some_iff.mp hstep
    exact h.collect hpass hapart
  | abort =>
    obtain rfl := Option.some.inj hstep
    exact ⟨h.keyed, h.pushes, nofun⟩

theorem Floor.Sound.kept (h : f.Sound env) : f.Kept env := by
  intro p hp hanswered
  have hgood := h.pushes p hp
  obtain ⟨repo, pushed, phase⟩ := p
  obtain rfl : phase = .answered := hanswered
  refine ⟨decide_eq_true hgood.1, ?_⟩
  cases pushed with
  | blob => exact hgood.2
  | manifest =>
    obtain ⟨i, hi, hlink⟩ := hgood.2
    obtain ⟨m, hm, heq⟩ := List.mem_map.mp hi
    obtain ⟨rfl, hdigest⟩ := Prod.mk.inj heq
    obtain ⟨l, hl, heq⟩ := List.mem_map.mp hlink
    refine ⟨m, hm, hdigest, List.any_eq_true.mpr ⟨l, hl, ?_⟩⟩
    rw [Bool.and_eq_true]
    exact ⟨decide_eq_true (congrArg Prod.fst heq), decide_eq_true (congrArg Prod.snd heq)⟩

end Invariant

/-- **Pushes and collections.** As long as the two stay apart, a push that was
answered has its reference and its file. -/
theorem collector_keeps (f : Floor) (h : (collector env).Reach (Apart env) f) : f.Kept env := by
  refine (h.invariant (I := Floor.Sound env) ?_ ?_).kept
  · rintro s ⟨hpushes, hpass, hkeyed⟩
    exact ⟨hkeyed, by simp [hpushes], by simp [hpass]⟩
  · exact fun s a s' hs hapart hstep => hs.step hapart hstep

end Floor

/-! ## An upload of abandoned bytes -/

/-- A config that was uploaded and let go of. -/
def unlinkConfig : RepoAction := .deleteBlob "local/private" pusher zeroDigest

def abandoned : Floor := { db := (unlinkConfig.apply leakEnv leakRoutes uploadedWorld).db }

theorem abandoned_init : (collector leakEnv).init abandoned :=
  ⟨rfl, rfl, by constructor <;> decide +kernel⟩

/-- It is uploaded again while a collection has just found it an orphan: the upload
finds the file in place, and the collection deletes it. -/
def uploadAbandoned : List Act :=
  [.select (2 * hour), .collect, .begin privateRepo (.blob zeroDigest [2]),
   .push 0 (2 * hour), .push 0 (2 * hour), .push 0 (2 * hour), .collect]

/-- An answered push whose file is there, or is not. -/
def Floor.answeredWith (env : RegistryEnv) (there : Bool) (f : Floor) : Bool :=
  f.pushes.any fun p => p.phase matches .answered && f.db.exists? (p.pushed.digest env) == there

theorem answeredWith_iff {env : RegistryEnv} {there : Bool} {f : Floor} :
    f.answeredWith env there = true ↔ ∃ p ∈ f.pushes, p.phase = .answered ∧
      f.db.exists? (p.pushed.digest env) = there := by
  unfold Floor.answeredWith
  rw [List.any_eq_true]
  refine exists_congr fun p => and_congr_right fun _ => ?_
  rw [Bool.and_eq_true, beq_iff_eq]
  refine and_congr_left fun _ => ?_
  rcases p.phase <;> simp

/-- The upload was answered, and its file is gone. -/
theorem collector_loses : ∃ f, (collector leakEnv).Reach (fun _ _ => True) f ∧
    ¬ f.Kept leakEnv := by
  have hrun : (uploadAbandoned.foldlM (Floor.step leakEnv) abandoned).any
      (Floor.answeredWith leakEnv false) = true := by
    decide +kernel
  obtain ⟨f, hf, hlost⟩ := (Option.any_eq_true ..).mp hrun
  refine ⟨f, .exec (fun _ _ _ h => ⟨trivial, h⟩) (.init abandoned_init) hf, fun hkept => ?_⟩
  obtain ⟨p, hp, hanswered, hgone⟩ := answeredWith_iff.mp hlost
  exact Bool.false_ne_true (hgone.symm.trans (hkept p hp hanswered).1)

/-- Uploaded again once the file is deleted: it is written anew. -/
def uploadAfter : List Act :=
  [.select (2 * hour), .collect, .collect, .begin privateRepo (.blob zeroDigest [2]),
   .push 0 (2 * hour), .push 0 (2 * hour), .collect, .push 0 (2 * hour)]

def Floor.apartStep (env : RegistryEnv) (f : Floor) (a : Act) : Option Floor :=
  if Apart env f a then f.step env a else none

theorem collector_keeps_uploadAfter : ∃ f, (collector leakEnv).Reach (Apart leakEnv) f ∧
    (∃ p ∈ f.pushes, p.phase = .answered) ∧ f.Kept leakEnv := by
  have hrun : (uploadAfter.foldlM (Floor.apartStep leakEnv) abandoned).any
      (Floor.answeredWith leakEnv true) = true := by
    decide +kernel
  obtain ⟨f, hf, hanswered⟩ := (Option.any_eq_true ..).mp hrun
  have hreach : (collector leakEnv).Reach (Apart leakEnv) f := by
    refine .exec (fun s a s' h => ?_) (.init abandoned_init) hf
    unfold Floor.apartStep at h
    split at h
    · next hapart => exact ⟨hapart, h⟩
    · cases h
  obtain ⟨p, hp, hphase, -⟩ := answeredWith_iff.mp hanswered
  exact ⟨f, hreach, ⟨p, hp, hphase⟩, collector_keeps leakEnv f hreach⟩

end Minireg.Docker
