import Minireg.Lib.Table
import Minireg.Upstreams.Base

/-!
# The package blob store

Artifact files are kept by their sha256 and shared: a `Blob` row counts the file
rows that point at it. Publishes, downloads, purges, evictions and the two
collectors change files and rows in steps of their own (`Thread.turn`); a step
that needs a row lock another thread holds has to wait. What a statement reads is
what is committed when it has its locks.
-/

namespace Minireg.Artifacts

open Lib

abbrev Sha := String

structure Blob where
  sha256 : Sha
  refcount : Int := 1
  lastAccessedAt : Time := 0
  deriving DecidableEq, Repr

/-- A row of `package_files`, as far as its bytes go. A file published here has no
upstream URL. -/
structure FileRow where
  id : Nat
  blobSha256 : Option Sha := none
  upstreamUrl : Option String := none
  upstreamId : Option Nat := none
  deriving DecidableEq, Repr

/-- The row `fileId` points at a blob, or at none. -/
def FileRow.withPointer (fileId : Nat) (pointer : Option Sha) (r : FileRow) : FileRow :=
  if r.id = fileId then { r with blobSha256 := pointer } else r

@[simp] theorem FileRow.withPointer_id (fileId : Nat) (pointer : Option Sha) (r : FileRow) :
    (r.withPointer fileId pointer).id = r.id := by
  unfold withPointer
  split <;> rfl

/-- A row lets go of these blobs. -/
def FileRow.evicted (shas : List Sha) (r : FileRow) : FileRow :=
  if r.blobSha256.any (· ∈ shas) then { r with blobSha256 := none } else r

@[simp] theorem FileRow.evicted_id (shas : List Sha) (r : FileRow) : (r.evicted shas).id = r.id := by
  unfold evicted
  split <;> rfl

structure StoredFile where
  sha256 : Sha
  modified : Time
  deriving DecidableEq, Repr

structure Store where
  blobs : Table Blob.sha256 := .empty _
  rows : Table FileRow.id := .empty _
  disk : Table StoredFile.sha256 := .empty _
  /-- The ids of the disabled upstreams. -/
  disabled : List Nat := []
  nextId : Nat := 1

namespace Store

variable (store : Store) (sha : Sha) (clock : Time)

/-- `store.exists(sha256)`. -/
def exists? : Bool := (store.disk.find? sha).isSome

/-- `put_stream`, or `adopt`: the file is there and was just modified. -/
def putFile : Store := { store with disk := store.disk.put { sha256 := sha, modified := clock } }

/-- `store.delete(sha256)`. -/
def deleteFile : Store := { store with disk := store.disk.filter (·.sha256 ≠ sha) }

/-- `delete_if_older`. -/
def deleteIfOlder (cutoff : Time) : Store :=
  if (store.disk.find? sha).any (·.modified < cutoff) then store.deleteFile sha else store

/-- The file rows that point at a blob. -/
def refs : Nat := store.rows.rows.countP fun r => r.blobSha256 = some sha

def dropBlobs (shas : List Sha) : Store :=
  { store with blobs := store.blobs.filter (·.sha256 ∉ shas) }

/-- `_has_local_reference`: a file that could not be fetched again. -/
def hasLocalReference : Bool :=
  store.rows.rows.any fun r => r.blobSha256 = some sha &&
    (r.upstreamUrl.isNone || r.upstreamId.any (· ∈ store.disabled))

/-- `blob.refcount -= 1`, and the row goes with the last one. -/
def release : Store :=
  match store.blobs.find? sha with
  | none => store
  | some blob =>
    if blob.refcount - 1 ≤ 0 then store.dropBlobs [sha]
    else { store with blobs := store.blobs.put { blob with refcount := blob.refcount - 1 } }

/-- A new row with one reference, or one reference more. -/
def retain : Store :=
  match store.blobs.find? sha with
  | none => { store with blobs := store.blobs.put { sha256 := sha, lastAccessedAt := clock } }
  | some blob =>
    let blob := { blob with refcount := blob.refcount + 1, lastAccessedAt := clock }
    { store with blobs := store.blobs.put blob }

/-- Rewrite the blob pointer of one row. -/
def setPointer (fileId : Nat) (pointer : Option Sha) : Store :=
  { store with rows :=
      store.rows.modify (FileRow.withPointer fileId pointer) (FileRow.withPointer_id fileId pointer) }

/-- `_record` of a row: it lets go of a stale pointer. -/
def point (row : FileRow) : Store :=
  if row.blobSha256 = some sha then
    match store.blobs.find? sha with
    | none => store.retain sha clock
    | some _ => store
  else
    let store := match row.blobSha256 with
      | some old => store.release old
      | none => store
    (store.retain sha clock).setPointer row.id (some sha)

/-- The row without its bytes, or no row. -/
def clearRow (fileId : Nat) (keepRow : Bool) : Store :=
  if keepRow then store.setPointer fileId none
  else { store with rows := store.rows.filter (·.id ≠ fileId) }

/-- Eviction of these blobs: their rows stay and can be fetched again. -/
def evictRows (shas : List Sha) : Store :=
  { store.dropBlobs shas with
    rows := store.rows.modify (FileRow.evicted shas) (FileRow.evicted_id shas) }

end Store

/-! ## Publishing -/

inductive PublishStep where
  | store (sha : Sha)
  /-- The row of the blob is read; what is written back waits for the commit. -/
  | claim (sha : Sha)
  deriving DecidableEq, Repr

inductive PublishPhase where
  | running
  /-- The commit failed, and the file this request wrote may be unreferenced. -/
  | discard (sha : Sha)
  | discarding (sha : Sha)
  /-- The ids of the committed file rows, with their blobs. -/
  | answered (rows : List (Nat × Sha))
  | refused
  deriving DecidableEq, Repr

structure Publish where
  /-- A PyPI upload discards its file when its commit fails. -/
  pypi : Bool := false
  steps : List PublishStep
  stored : List Sha := []
  wrote : Option Sha := none
  /-- The count each blob row was read with, none when there was no row. -/
  claims : List (Sha × Option Int) := []
  phase : PublishPhase := .running
  deriving DecidableEq, Repr

/-- `_handle_publish`: the bytes of a version land before its rows. -/
def npmPublish (shas : List Sha) : Publish :=
  { steps := shas.flatMap fun sha => [.store sha, .claim sha] }

/-- `upload`: the bytes land last. -/
def pypiUpload (sha : Sha) : Publish := { pypi := true, steps := [.claim sha, .store sha] }

/-- The count a publish sees: its own, or the committed one. -/
def Publish.seen (p : Publish) (store : Store) (sha : Sha) : Option Int :=
  match (p.claims.filter fun c => c.1 = sha).getLast? with
  | some claim => some (claim.2.getD 0 + 1)
  | none => (store.blobs.find? sha).map Blob.refcount

/-- One claim committed: the count that was read plus one, and a file row. A row
that came or went since fails the commit. -/
def applyClaim (clock : Time) (s : Store × List (Nat × Sha)) (claim : Sha × Option Int) :
    Option (Store × List (Nat × Sha)) :=
  let insertRow := fun (blob : Blob) =>
    ({ s.1 with
        blobs := s.1.blobs.put blob
        rows := s.1.rows.put { id := s.1.nextId, blobSha256 := some claim.1 }
        nextId := s.1.nextId + 1 },
      s.2 ++ [(s.1.nextId, claim.1)])
  match claim.2, s.1.blobs.find? claim.1 with
  | none, none => some (insertRow { sha256 := claim.1, lastAccessedAt := clock })
  | some n, some blob => some (insertRow { blob with refcount := n + 1 })
  | _, _ => none

/-- A commit that failed: the file that this upload wrote is looked at again. -/
def Publish.fail (p : Publish) : Publish :=
  match p.pypi, p.steps, p.wrote with
  | true, [], some sha => { p with phase := .discard sha }
  | _, _, _ => { p with phase := .refused }

/-- The next step of a publish; `held` says which blob rows others have locked. -/
def Publish.turn (clock : Time) (held : Sha → Bool) (store : Store) (p : Publish) :
    Option (Store × Publish) :=
  match p.phase with
  | .running =>
    match p.steps with
    | .store sha :: steps =>
      some (store.putFile sha clock,
        { p with
          steps := steps, stored := sha :: p.stored
          wrote := if store.exists? sha then p.wrote else some sha })
    | .claim sha :: steps =>
      some (store, { p with steps := steps, claims := p.claims ++ [(sha, p.seen store sha)] })
    | [] =>
      if p.claims.any fun c => held c.1 then none
      else match p.claims.foldlM (applyClaim clock) (store, []) with
        | some (store, rows) => some (store, { p with phase := .answered rows })
        | none => some (store, p.fail)
  | .discard sha =>
    some (store, { p with
      phase := if (store.blobs.find? sha).isNone then .discarding sha else .refused })
  | .discarding sha => some (store.deleteFile sha, { p with phase := .refused })
  | .answered _ | .refused => none

/-! ## Downloads -/

inductive RecordPhase where
  | begun | adopted | over
  deriving DecidableEq, Repr

/-- A download of a file row, recorded under its own lock. -/
structure Recording where
  fileId : Nat
  sha : Sha
  phase : RecordPhase := .begun
  deriving DecidableEq, Repr

def Recording.turn (clock : Time) (held : Sha → Bool) (heldRow : Nat → Bool) (store : Store)
    (r : Recording) : Option (Store × Recording) :=
  match r.phase with
  | .begun =>
    -- only a row with an upstream URL is ever fetched
    if (store.rows.find? r.fileId).any fun row => row.upstreamUrl.isSome then
      some (store.putFile r.sha clock, { r with phase := .adopted })
    else some (store, { r with phase := .over })
  | .adopted =>
    match store.rows.find? r.fileId with
    | none => some (store, { r with phase := .over })
    | some row =>
      if held r.sha || heldRow r.fileId || row.blobSha256.any held then none
      else if !store.exists? r.sha then some (store, { r with phase := .over })
      else some (store.point r.sha clock row, { r with phase := .over })
  | .over => none

/-! ## Purges -/

inductive PurgePhase where
  | begun
  | read (sha : Sha)
  /-- Locked, with references left. -/
  | counted (sha : Sha) (refcount : Int)
  /-- Locked and without references: the file goes before the commit. -/
  | doomed (sha : Sha)
  | deleted (sha : Sha)
  /-- There was no blob row. -/
  | unpointing
  | over
  deriving DecidableEq, Repr

/-- `purge_file`, of a row that stays or is deleted in the same transaction. -/
structure Purge where
  fileId : Nat
  keepRow : Bool
  phase : PurgePhase := .begun
  deriving DecidableEq, Repr

def Purge.turn (held : Sha → Bool) (heldRow : Nat → Bool) (store : Store) (p : Purge) :
    Option (Store × Purge) :=
  match p.phase with
  | .begun =>
    match store.rows.find? p.fileId with
    | none => some (store, { p with phase := .over })
    | some row =>
      match row.blobSha256 with
      | some sha => some (store, { p with phase := .read sha })
      | none =>
        if heldRow p.fileId then none
        else some (store, { p with phase := if p.keepRow then .over else .unpointing })
  | .read sha =>
    if held sha || heldRow p.fileId then none
    else match store.blobs.find? sha with
      | none => some (store, { p with phase := .unpointing })
      | some blob =>
        some (store, { p with phase :=
          if blob.refcount - 1 ≤ 0 then .doomed sha else .counted sha (blob.refcount - 1) })
  | .doomed sha => some (store.deleteFile sha, { p with phase := .deleted sha })
  | .deleted sha =>
    some ((store.dropBlobs [sha]).clearRow p.fileId p.keepRow, { p with phase := .over })
  | .counted sha refcount =>
    let blobs := match store.blobs.find? sha with
      | some blob => store.blobs.put { blob with refcount := refcount }
      | none => store.blobs
    some ({ store with blobs := blobs }.clearRow p.fileId p.keepRow, { p with phase := .over })
  | .unpointing => some (store.clearRow p.fileId p.keepRow, { p with phase := .over })
  | .over => none

/-! ## Eviction and collection -/

/-- A batch of `evict_to`: its candidates are checked again one by one, and the
files of the victims go after the commit. -/
structure Eviction where
  cutoff : Time
  candidates : List Sha
  victims : List Sha := []
  committed : Bool := false
  deriving DecidableEq, Repr

/-- The check under the lock: still there, not read lately, not needed here. -/
def Eviction.takes (e : Eviction) (store : Store) (sha : Sha) : Bool :=
  (store.blobs.find? sha).any (·.lastAccessedAt < e.cutoff) && !store.hasLocalReference sha &&
    sha ∉ e.victims

def Eviction.turn (held : Sha → Bool) (store : Store) (e : Eviction) :
    Option (Store × Eviction) :=
  match e.committed, e.candidates, e.victims with
  | false, sha :: candidates, victims =>
    if held sha then none
    else some (store, { e with
      candidates := candidates
      victims := if e.takes store sha then victims ++ [sha] else victims })
  | false, [], victims => some (store.evictRows victims, { e with committed := true })
  | true, _, sha :: victims => some (store.deleteFile sha, { e with victims := victims })
  | true, _, [] => none

/-- `collect_orphan_blobs`: a row that nothing points at goes, then its file. -/
structure Collection where
  candidates : List Sha
  dropped : List Sha := []
  doomed : Option Sha := none
  committed : Bool := false
  deriving DecidableEq, Repr

/-- The row is there and nothing points at it. -/
def Collection.takes (c : Collection) (store : Store) (sha : Sha) : Bool :=
  (store.blobs.find? sha).isSome && store.refs sha = 0 && sha ∉ c.dropped

def Collection.turn (held : Sha → Bool) (store : Store) (c : Collection) :
    Option (Store × Collection) :=
  match c.committed, c.doomed, c.candidates with
  | false, some sha, _ => some (store.deleteFile sha, { c with doomed := none })
  | false, none, sha :: candidates =>
    if held sha then none
    else if c.takes store sha then
      some (store,
        { c with candidates := candidates, dropped := c.dropped ++ [sha], doomed := some sha })
    else some (store, { c with candidates := candidates })
  | false, none, [] => some (store.dropBlobs c.dropped, { c with committed := true })
  | true, _, _ => none

/-- `ORPHAN_FILE_GRACE_SECONDS`. -/
def orphanFileGrace : Time := 24 * 3600 * 1000000

/-- A batch of `sweep_orphan_files`: the files that no blob row records go if they
are old enough. -/
structure Sweep where
  cutoff : Time
  candidates : List Sha
  unknown : Option (List Sha) := none
  deriving DecidableEq, Repr

def Sweep.turn (store : Store) (w : Sweep) : Option (Store × Sweep) :=
  match w.unknown with
  | none =>
    some (store, { w with
      unknown := some (w.candidates.filter fun sha => (store.blobs.find? sha).isNone) })
  | some (sha :: unknown) =>
    some (store.deleteIfOlder sha w.cutoff, { w with unknown := some unknown })
  | some [] => none

/-! ## Threads -/

inductive Thread where
  | publish (p : Publish)
  | record (r : Recording)
  | purge (p : Purge)
  | evict (e : Eviction)
  | collect (c : Collection)
  | sweep (w : Sweep)
  deriving DecidableEq, Repr

namespace Thread

/-- The blob rows a thread has locked until its commit. -/
def locks : Thread → List Sha
  | purge p =>
    match p.phase with
    | .counted sha _ | .doomed sha | .deleted sha => [sha]
    | _ => []
  | evict e => if e.committed then [] else e.victims
  | collect c => if c.committed then [] else c.dropped
  | _ => []

/-- The file row a thread has locked until its commit. -/
def lockedRow : Thread → Option Nat
  | purge p =>
    match p.phase with
    | .counted _ _ | .doomed _ | .deleted _ | .unpointing => some p.fileId
    | _ => none
  | _ => none

/-- The next step of a thread beside `others`. -/
def turn (clock : Time) (others : List Thread) (store : Store) (t : Thread) :
    Option (Store × Thread) :=
  let held := fun (sha : Sha) => others.any fun u => sha ∈ u.locks
  let heldRow := fun (fileId : Nat) => others.any fun u => u.lockedRow = some fileId
  match t with
  | publish p => (p.turn clock held store).map (Prod.map id publish)
  | record r => (r.turn clock held heldRow store).map (Prod.map id record)
  | purge p => (p.turn held heldRow store).map (Prod.map id purge)
  | evict e => (e.turn held store).map (Prod.map id evict)
  | collect c => (c.turn held store).map (Prod.map id collect)
  | sweep w => (w.turn store).map (Prod.map id sweep)

/-- A thread that is rolled back; one that was answered is over. -/
def abort : Thread → Option Thread
  | publish p =>
    match p.phase with
    | .running => some (publish p.fail)
    | .discard _ | .discarding _ => some (publish { p with phase := .refused })
    | .answered _ | .refused => none
  | record r => some (record { r with phase := .over })
  | purge p => some (purge { p with phase := .over })
  | evict e => some (evict { e with committed := true, victims := [] })
  | collect c => some (collect { c with committed := true })
  | sweep w => some (sweep { w with unknown := some [] })

end Thread

end Minireg.Artifacts
