import Minireg.Services.Artifacts
import Minireg.Services.Packages

/-!
# The package tables of a request

`Database` is what publishes and unpublishes read and write: packages with their
versions, files and tags, tombstones, blob counts and the audit log. A request
works on a `Session`: what it changes stays pending until it commits, and what it
leaves pending is lost.
-/

namespace Minireg

open Lib

/-- A row of `retired_versions`: a version that was published here and withdrawn. -/
structure RetiredVersion where
  ecosystem : Ecosystem
  normalizedName : String
  version : String
  normalizedVersion : String
  sha256 : Option String := none
  integrity : Option String := none
  deriving DecidableEq

def RetiredVersion.key (r : RetiredVersion) : Ecosystem × String × String :=
  (r.ecosystem, r.normalizedName, r.normalizedVersion)

def Package.key (p : Package) : Ecosystem × String := (p.ecosystem, p.normalizedName)

/-- A row of the audit log, as far as publishing writes it. -/
structure AuditEntry where
  action : String
  actorUserId : Option Nat
  targetId : String
  success : Bool := true
  reason : Option String := none
  deriving DecidableEq

structure Database where
  packages : Table Package.key := .empty _
  retired : Table RetiredVersion.key := .empty _
  blobs : Table Artifacts.Blob.sha256 := .empty _
  audit : List AuditEntry := []
  deriving DecidableEq

namespace Database

variable (db : Database)

def package? (ecosystem : Ecosystem) (normalized : String) : Option Package :=
  db.packages.find? (ecosystem, normalized)

def putPackage (p : Package) : Database := { db with packages := db.packages.put p }

/-- The rows of a package go with it. -/
def deletePackage (p : Package) : Database :=
  { db with packages := db.packages.filter (·.key ≠ p.key) }

/-- `retire_version`: a version has one tombstone. -/
def retire (r : RetiredVersion) : Database :=
  if (db.retired.find? r.key).isSome then db else { db with retired := db.retired.put r }

/-- One file row more has these bytes. -/
def retainBlob (sha256 : String) : Database :=
  match db.blobs.find? sha256 with
  | none => { db with blobs := db.blobs.put { sha256 := sha256 } }
  | some blob => { db with blobs := db.blobs.put { blob with refcount := blob.refcount + 1 } }

/-- `purge_file`, of a file row that goes. -/
def purgeFile (f : PackageFile) : Database :=
  match f.blobSha256.bind db.blobs.find? with
  | none => db
  | some blob =>
    if blob.refcount - 1 ≤ 0 then
      { db with blobs := db.blobs.filter (·.sha256 ≠ blob.sha256) }
    else { db with blobs := db.blobs.put { blob with refcount := blob.refcount - 1 } }

/-- `record_audit`. -/
def recordAudit (e : AuditEntry) : Database := { db with audit := db.audit ++ [e] }

/-- Everything but the audit log. -/
def content : Database := { db with audit := [] }

@[simp] theorem content_recordAudit (e : AuditEntry) : (db.recordAudit e).content = db.content := rfl

section Frames

variable {db}

@[simp] theorem retire_packages (r : RetiredVersion) : (db.retire r).packages = db.packages := by
  unfold retire
  split <;> rfl

@[simp] theorem purgeFile_packages (f : PackageFile) :
    (db.purgeFile f).packages = db.packages := by
  unfold purgeFile
  split
  · rfl
  · split <;> rfl

@[simp] theorem purgeFile_retired (f : PackageFile) : (db.purgeFile f).retired = db.retired := by
  unfold purgeFile
  split
  · rfl
  · split <;> rfl

@[simp] theorem retainBlob_packages (sha256 : String) :
    (db.retainBlob sha256).packages = db.packages := by
  unfold retainBlob
  split <;> rfl

@[simp] theorem retainBlob_retired (sha256 : String) :
    (db.retainBlob sha256).retired = db.retired := by
  unfold retainBlob
  split <;> rfl

/-- A tombstone stays, and the new one is there. -/
theorem mem_retire {r t : RetiredVersion} (h : t ∈ db.retired) : t ∈ (db.retire r).retired := by
  unfold retire
  split
  · exact h
  · next hnone =>
    refine Table.mem_put.mpr (.inr ⟨h, fun heq => hnone ?_⟩)
    rw [← heq, Table.find?_of_mem h]
    rfl

theorem retire_mem (r : RetiredVersion) :
    ∃ t ∈ (db.retire r).retired, t.key = r.key := by
  unfold retire
  split
  · next hsome =>
    obtain ⟨t, ht⟩ := Option.isSome_iff_exists.mp hsome
    obtain ⟨hmem, hkey⟩ := Table.find?_eq_some_iff.mp ht
    exact ⟨t, hmem, hkey⟩
  · exact ⟨r, Table.mem_put.mpr (.inl rfl), rfl⟩

end Frames

end Database

/-! ## Sessions -/

/-- What a request sees and has changed, over what is committed. -/
structure Session where
  committed : Database
  pending : Database

namespace Session

variable (s : Session)

def start (db : Database) : Session := { committed := db, pending := db }

def commit : Session := { s with committed := s.pending }

def rollback : Session := { s with pending := s.committed }

/-- A change that waits for the commit. -/
def change (f : Database → Database) : Session := { s with pending := f s.pending }

end Session

/-- What a client is told. `raised` is an exception: the session is rolled back. -/
inductive Reply where
  | ok
  | refused (status : Nat) (message : String)
  | raised
  deriving DecidableEq, Repr

end Minireg
