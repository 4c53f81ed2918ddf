import Minireg.Docker.Push

/-!
# Housekeeping of the image store

`gc` deletes manifests that no repository has and blobs that nothing names, with
their files. `orphanFiles` reconciles the files with the tables. Rows are deleted
one by one in the source; no deletion looks at what another one removed, so here
they go at once.
-/

namespace Minireg.Docker

open Py Lib

def hour : Time := 3600 * 1000000

section Gc

variable (now : Time) (db : Db)

/-- The ids of all linked manifests. -/
def allLinkedIds : List Nat := db.repoManifests.map DockerRepoManifest.manifestId

/-- No repository has the manifest, no linked index names it and it refers to no
linked manifest; and it is over an hour old. -/
def isDead (m : DockerManifest) : Bool :=
  m.id ∉ allLinkedIds db && m.digest ∉ db.childDigests (allLinkedIds db) &&
    m.subjectDigest.all (fun subject =>
      !db.manifests.rows.any fun n => n.id ∈ allLinkedIds db && n.digest = subject) &&
    m.createdAt < now - hour

/-- The files that go with a manifest: its own, its SBOM, its scan reports. -/
def manifestFiles (m : DockerManifest) : List Digest :=
  m.digest :: (m.sbomDigest.toList.filter (· ≠ "")) ++
    (db.scans.rows.filter fun s => s.manifestId = m.id).filterMap DockerScan.reportDigest

/-- Delete the dead manifests, their rows and their files. -/
def collectManifests : Db :=
  let dead := db.manifests.rows.filter (isDead now db)
  let kept := fun (manifestId : Nat) => !dead.any fun m => m.id = manifestId
  { db with
    manifests := db.manifests.filter fun m => !isDead now db m
    refs := db.refs.filter fun r => kept r.manifestId
    findings := db.findings.filter fun f => kept f.manifestId
    scans := db.scans.filter fun s => kept s.manifestId
    jobs := db.jobs.filter fun j => kept j.manifestId
    tags := db.tags.filter fun t => kept t.manifestId
    files := db.files.filter fun d => d ∉ dead.flatMap (manifestFiles db) }

/-- No manifest names the blob as a layer or config, no repository holds it. -/
def isOrphan (blob : DockerBlob) : Bool :=
  !(db.refs.any fun r => r.digest = blob.digest && r.refType ≠ .manifest) &&
    !(db.repoBlobs.any fun b => b.digest = blob.digest) && blob.createdAt < now - hour

/-- Delete the blobs that nothing names, and their files. -/
def collectBlobs : Db :=
  { db with
    blobs := db.blobs.filter fun b => !isOrphan now db b
    files := db.files.filter fun d => !db.blobs.rows.any fun b => b.digest = d && isOrphan now db b }

structure GcReport where
  manifests : Nat
  blobs : Nat
  freedBytes : Nat
  deriving DecidableEq, Repr

/-- `_gc`. -/
def gc : Db × GcReport :=
  let dead := db.manifests.rows.filter (isDead now db)
  let db' := collectManifests now db
  let orphans := db'.blobs.rows.filter (isOrphan now db')
  (collectBlobs now db',
    { manifests := dead.length, blobs := orphans.length
      freedBytes := (dead.map DockerManifest.size).sum + (orphans.map DockerBlob.size).sum })

end Gc

/-! ## Files without a row -/

structure FileStat where
  size : Nat
  modified : Time

/-- `_stored_files`: the files of digests last modified before `olderThan`. -/
def storedFiles (stat : Digest → FileStat) (olderThan : Time) (db : Db) : List Digest :=
  db.files.filter fun d => (d.toList.drop 7).length = 64 && (stat d).modified < olderThan

/-- A table knows the digest. -/
def known (db : Db) (digest : Digest) : Bool :=
  db.blobs.rows.any (fun b => b.digest = digest) ||
    db.manifests.rows.any (fun m => m.digest = digest || m.sbomDigest = some digest) ||
    db.scans.rows.any fun s => s.reportDigest = some digest

/-- What the manifests that have the digest as a layer or config say of it, the last one counting. -/
def named (db : Db) (digest : Digest) : Option (Option String × Option Nat) :=
  (db.refs.filterMap fun r =>
    if r.digest = digest && r.refType ≠ .manifest then
      (db.manifests.find? r.manifestId).map fun m => (r.mediaType, m.upstreamId)
    else none).getLast?

def heldByPush (db : Db) (digest : Digest) : Bool := db.repoBlobs.any fun b => b.digest = digest

/-- One file of the sweep: known, adopted as a blob, or deleted. -/
def sweepFile (stat : Digest → FileStat) (now : Time) (db : Db) (digest : Digest) : Db :=
  if known db digest then db
  else if (named db digest).isSome || heldByPush db digest then
    let (mediaType, upstreamId) := (named db digest).getD (none, none)
    let row : DockerBlob :=
      { digest := digest, size := (stat digest).size, mediaType := mediaType
        upstreamId := upstreamId
        isLocal := heldByPush db digest || (named db digest).isSome && upstreamId = none
        createdAt := now }
    { db with blobs := db.blobs.put row }
  else db.deleteFile digest

/-- `_orphan_files`. The batches of the source only group the queries. -/
def orphanFiles (stat : Digest → FileStat) (now : Time) (db : Db) : Db :=
  (storedFiles stat (now - 6 * hour) db).foldl (sweepFile stat now) db

end Minireg.Docker
