import Minireg.Docker.Manifest
import Minireg.Lib.Table
import Minireg.Upstreams.Base

/-!
# The image tables and the blob store

The rows the image registry keeps (`Db`), with the set of files in the
content-addressed store beside them: a file is known by its digest. Row ids come
from `nextId`.
-/

namespace Minireg.Docker

open Py Lib

abbrev Digest := String

structure DockerRepository where
  id : Nat
  name : String
  upstreamId : Option Nat := none
  isLocal : Bool := false
  ownerUserId : Option Nat := none
  quarantined : Bool := false
  quarantineReason : Option String := none
  deriving DecidableEq, Repr

inductive ScanStatus where
  | unscanned | queued | scanning | scanned | failed | notApplicable
  deriving DecidableEq, Repr

structure DockerManifest where
  id : Nat
  digest : Digest
  mediaType : String := ociManifest
  size : Nat := 0
  isIndex : Bool := false
  kind : Kind := .image
  artifactType : Option String := none
  configDigest : Option Digest := none
  configMediaType : Option String := none
  platform : Option String := none
  totalSize : Nat := 0
  layerCount : Nat := 0
  subjectDigest : Option Digest := none
  annotations : List (String × Json) := []
  upstreamId : Option Nat := none
  pushedByUserId : Option Nat := none
  scanStatus : ScanStatus := .unscanned
  scannedAt : Option Time := none
  latestScanId : Option Nat := none
  sbomDigest : Option Digest := none
  createdAt : Time := 0
  lastAccessedAt : Option Time := none
  deriving DecidableEq

structure DockerManifestRef where
  manifestId : Nat
  refType : RefType
  digest : Digest
  mediaType : Option String := none
  size : Nat := 0
  position : Nat := 0
  platform : Option String := none
  annotations : List (String × Json) := []
  deriving DecidableEq

structure DockerRepoManifest where
  repositoryId : Nat
  manifestId : Nat
  pushBlockReason : Option String := none
  deriving DecidableEq, Repr

structure DockerTag where
  repositoryId : Nat
  tag : String
  manifestId : Nat
  checkedAt : Time := 0
  deriving DecidableEq, Repr

structure DockerBlob where
  digest : Digest
  size : Nat := 0
  mediaType : Option String := none
  upstreamId : Option Nat := none
  isLocal : Bool := false
  createdAt : Time := 0
  deriving DecidableEq, Repr

structure DockerRepoBlob where
  repositoryId : Nat
  digest : Digest
  deriving DecidableEq, Repr

inductive ScanMode where
  | image | sbom
  deriving DecidableEq, Repr

inductive ScanReason where
  | pull | push | schedule | manual | watch
  deriving DecidableEq, Repr

inductive JobStatus where
  | queued | running | done | failed
  deriving DecidableEq, Repr

structure DockerScanJob where
  id : Nat
  manifestId : Nat
  repository : String
  mode : ScanMode := .image
  reason : ScanReason := .pull
  priority : Nat := 100
  status : JobStatus := .queued
  attempts : Nat := 0
  worker : Option String := none
  leaseUntil : Option Time := none
  error : Option String := none
  startedAt : Option Time := none
  finishedAt : Option Time := none
  deriving DecidableEq, Repr

structure DockerScan where
  id : Nat
  manifestId : Nat
  mode : ScanMode := .image
  reportDigest : Option Digest := none
  deriving DecidableEq, Repr

/-- `SEVERITIES`, in order. -/
inductive Severity where
  | unknown | low | medium | high | critical
  deriving DecidableEq, Repr

structure DockerFinding where
  manifestId : Nat
  scanId : Nat
  vulnId : String
  pkgName : String := "?"
  installedVersion : Option String := none
  fixedVersion : Option String := none
  severity : Severity := .unknown
  kev : Bool := false
  deriving DecidableEq, Repr

structure Db where
  repositories : Table DockerRepository.id := .empty _
  manifests : Table DockerManifest.id := .empty _
  refs : List DockerManifestRef := []
  repoManifests : List DockerRepoManifest := []
  tags : List DockerTag := []
  blobs : Table DockerBlob.digest := .empty _
  repoBlobs : List DockerRepoBlob := []
  jobs : Table DockerScanJob.id := .empty _
  scans : Table DockerScan.id := .empty _
  findings : List DockerFinding := []
  /-- `KevEntry.cve_id`. -/
  kevEntries : List String := []
  /-- The digests whose file is in the store. -/
  files : List Digest := []
  nextId : Nat := 1

namespace Db

variable (db : Db)

/-- `_manifest_row`. -/
def manifestRow (digest : Digest) : Option DockerManifest :=
  db.manifests.rows.find? fun m => m.digest = digest

/-- The link of a manifest in a repository. -/
def linkOf (repo : DockerRepository) (manifestId : Nat) : Option DockerRepoManifest :=
  db.repoManifests.find? fun l => l.repositoryId = repo.id && l.manifestId = manifestId

/-- `_linked`. -/
def linked (repo : DockerRepository) (manifest : DockerManifest) : Bool :=
  db.repoManifests.any fun l => l.repositoryId = repo.id && l.manifestId = manifest.id

def link (repo : DockerRepository) (manifest : DockerManifest) : Db :=
  if db.linked repo manifest then db
  else
    { db with repoManifests :=
        db.repoManifests ++ [{ repositoryId := repo.id, manifestId := manifest.id }] }

/-- The digests an index of these ids names. -/
def childDigests (manifestIds : List Nat) : List Digest :=
  (db.refs.filter fun r => r.manifestId ∈ manifestIds && r.refType = .manifest).map
    DockerManifestRef.digest

/-- `store.exists(digest)`. -/
def exists? (digest : Digest) : Bool := digest ∈ db.files

/-- `store.put_bytes`: the file of a digest. -/
def putFile (digest : Digest) : Db :=
  if digest ∈ db.files then db else { db with files := db.files ++ [digest] }

/-- `store.delete(digest)`. -/
def deleteFile (digest : Digest) : Db := { db with files := db.files.filter (· ≠ digest) }

/-- Rewrite the row of one manifest; its id stays. -/
def updateManifest (manifestId : Nat) (f : DockerManifest → DockerManifest) : Db :=
  { db with manifests := db.manifests.modify (fun m =>
      if m.id = manifestId then { f m with id := m.id } else m) (by
      intro m
      split <;> rfl) }

end Db

end Minireg.Docker
