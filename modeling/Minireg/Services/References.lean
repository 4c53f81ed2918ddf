import Minireg.Services.NpmPublish
import Minireg.Services.Retire

/-!
# References to package blobs

File rows point at blobs, and blob rows count them. `Database.Covered` says that no count falls
short, `Balanced` that a change adds no pointer that it does not count. Each statement on the
tables of files and blobs has a lemma that says one or the other.
-/

namespace Minireg

open Py Lib Artifacts

/-! ## Pointers and counts -/

/-- Whether a file row points at a blob, as a number. -/
def PackageFile.pointsAt (sha : Sha) (f : PackageFile) : Nat := if f.blobSha256 = some sha then 1 else 0

/-- The file rows of a version that point at a blob. -/
def PackageVersion.pointers (sha : Sha) (v : PackageVersion) : Nat := v.files.sum (·.pointsAt sha)

def Package.pointers (sha : Sha) (p : Package) : Nat := p.versions.sum (·.pointers sha)

/-- The file rows of some package that point at a blob. -/
def packagePointers (sha : Sha) (p : Option Package) : Nat := p.elim 0 (·.pointers sha)

namespace Database

variable (db : Database) (sha : Sha)

/-- The file rows that point at a blob. -/
def pointers : Nat := db.packages.sum (·.pointers sha)

/-- The count of a blob, zero without a row. -/
def count : Int := (db.blobs.find? sha).elim 0 Blob.refcount

/-- No count falls short. -/
def Covered : Prop := ∀ sha, (db.pointers sha : Int) ≤ db.count sha

/-- The rows of `package_files`. -/
def fileRows : List PackageFile :=
  db.packages.rows.flatMap fun p => p.versions.rows.flatMap fun v => v.files.rows

theorem pointers_eq_countP : db.pointers sha = db.fileRows.countP (·.blobSha256 = some sha) := by
  have hfiles : ∀ v : PackageVersion,
      v.pointers sha = v.files.rows.countP (·.blobSha256 = some sha) := by
    intro v
    unfold PackageVersion.pointers Table.sum
    induction v.files.rows with
    | nil => rfl
    | cons f files ih =>
      rw [List.map_cons, List.sum_cons, ih, List.countP_cons, Nat.add_comm]
      simp only [PackageFile.pointsAt, decide_eq_true_eq]
  unfold fileRows
  rw [List.countP_flatMap]
  refine congrArg List.sum (List.map_congr_left fun p _ => ?_)
  rw [Function.comp_apply, List.countP_flatMap]
  exact congrArg List.sum (List.map_congr_left fun v _ => hfiles v)

end Database

/-- A change adds no pointer that it does not count. -/
def Balanced (db db' : Database) : Prop :=
  ∀ sha, (db'.pointers sha : Int) + db.count sha ≤ db.pointers sha + db'.count sha

theorem Balanced.refl (db : Database) : Balanced db db := fun _ => Int.le_refl _

theorem Balanced.trans {db db' db'' : Database} (h : Balanced db db') (h' : Balanced db' db'') :
    Balanced db db'' := fun sha => by
  have := h sha
  have := h' sha
  omega

theorem Database.Covered.balanced {db db' : Database} (hc : db.Covered) (h : Balanced db db') :
    db'.Covered := fun sha => by
  have := hc sha
  have := h sha
  omega

/-! ## Counting -/

section Counting

variable {db : Database} {sha : Sha}

theorem count_put (blob : Blob) : ({ db with blobs := db.blobs.put blob } : Database).count sha =
    if sha = blob.sha256 then blob.refcount else db.count sha := by
  unfold Database.count
  split
  · next heq => rw [heq, Table.find?_put_self, Option.elim_some]
  · next hne => rw [Table.find?_put_of_ne hne]

theorem count_filter (db : Database) {p : Blob → Bool}
    (h : ∀ blob ∈ db.blobs, blob.sha256 = sha → p blob = true) :
    ({ db with blobs := db.blobs.filter p } : Database).count sha = db.count sha := by
  unfold Database.count
  rw [Table.find?_filter h]

theorem count_filter_none (db : Database) {p : Blob → Bool}
    (h : ∀ blob ∈ db.blobs, blob.sha256 = sha → p blob = false) :
    ({ db with blobs := db.blobs.filter p } : Database).count sha = 0 := by
  unfold Database.count
  rw [Table.find?_filter_none h, Option.elim_none]

/-- One reference more. -/
theorem count_retain (new : Sha) :
    (db.retainBlob new).count sha = db.count sha + if sha = new then 1 else 0 := by
  unfold Database.retainBlob
  split
  · next hnone =>
    rw [count_put]
    split
    · next heq =>
      subst heq
      simp [Database.count, hnone]
    · rw [Int.add_zero]
  · next blob hblob =>
    have hkey : blob.sha256 = new := Table.find?_key hblob
    rw [count_put]
    dsimp only
    rw [hkey]
    split
    · next heq =>
      subst heq
      simp [Database.count, hblob]
    · rw [Int.add_zero]

/-- A purge takes one reference away at most. -/
theorem count_purge (f : PackageFile) :
    db.count sha ≤ (db.purgeFile f).count sha + f.pointsAt sha := by
  unfold Database.purgeFile
  split
  · omega
  · next blob hblob =>
    obtain ⟨old, hold, hfound⟩ := Option.bind_eq_some_iff.mp hblob
    obtain rfl : blob.sha256 = old := Table.find?_key hfound
    by_cases heq : sha = blob.sha256
    · subst heq
      have hcount : db.count blob.sha256 = blob.refcount := by simp [Database.count, hfound]
      rw [hcount, PackageFile.pointsAt, if_pos hold]
      split
      · next hle =>
        -- the row that goes counted one reference at most
        rw [count_filter_none db fun b _ hb => by simp [hb]]
        omega
      · rw [count_put, if_pos rfl]
        dsimp only
        omega
    · split
      · rw [count_filter db fun b _ hb => by simp [hb, heq]]
        omega
      · rw [count_put, if_neg heq]
        omega

/-- Purges take no more references away than the rows had. -/
theorem count_purges (files : List PackageFile) (db : Database) :
    db.count sha ≤ (files.foldl Database.purgeFile db).count sha +
      (files.map (·.pointsAt sha)).sum := by
  induction files generalizing db with
  | nil => simp
  | cons f files ih =>
    have hone := @count_purge db sha f
    have hrest := ih (db.purgeFile f)
    rw [List.foldl_cons, List.map_cons, List.sum_cons]
    omega

end Counting

/-! ## Writing a package -/

section Writing

variable {db mid : Database} {p : Package}

theorem pointers_put (db : Database) (p : Package) (sha : Sha) :
    (db.putPackage p).pointers sha + packagePointers sha (db.packages.find? p.key) =
      db.pointers sha + p.pointers sha := Table.sum_put _ _ _

/-- A package may be written if what it gains is counted. -/
theorem Balanced.put (hpackages : mid.packages = db.packages)
    (h : ∀ sha, (p.pointers sha : Int) + db.count sha ≤
      packagePointers sha (db.packages.find? p.key) + mid.count sha) :
    Balanced db (mid.putPackage p) := fun sha => by
  have hput := pointers_put mid p sha
  have hsame : mid.pointers sha = db.pointers sha := by simp only [Database.pointers, hpackages]
  have hcount : (mid.putPackage p).count sha = mid.count sha := rfl
  have := h sha
  rw [hpackages] at hput
  omega

/-- A stored package may be rewritten without new pointers. -/
theorem Balanced.rewrite {stored : Package} (hstored : stored ∈ db.packages)
    (hkey : p.key = stored.key) (h : ∀ sha, p.pointers sha ≤ stored.pointers sha) :
    Balanced db (db.putPackage p) := by
  refine .put rfl fun sha => ?_
  have := h sha
  rw [hkey, Table.find?_of_mem hstored, packagePointers, Option.elim_some]
  omega

/-- The audit log holds no references. -/
theorem Balanced.audited {db' : Database} (h : Balanced db db') (e : AuditEntry) :
    Balanced db (db'.recordAudit e) := h

/-- Purges for the loss of these pointers. -/
structure Purges (lost : Sha → Nat) (db db' : Database) : Prop where
  packages : db'.packages = db.packages
  counted : ∀ sha, db.count sha ≤ db'.count sha + lost sha

namespace Purges

variable {lost lost' : Sha → Nat}

theorem trans {db' db'' : Database} (h : Purges lost db db') (h' : Purges lost' db' db'') :
    Purges (fun sha => lost sha + lost' sha) db db'' where
  packages := h'.packages.trans h.packages
  counted sha := by
    have := h.counted sha
    have := h'.counted sha
    omega

theorem files (files : List PackageFile) :
    Purges (fun sha => (files.map (·.pointsAt sha)).sum) db
      (files.foldl Database.purgeFile db) where
  packages := by
    induction files generalizing db with
    | nil => rfl
    | cons f files ih => exact ih.trans (Database.purgeFile_packages f)
  counted _ := count_purges files db

theorem le (h : Purges lost db mid) (hle : ∀ sha, lost sha ≤ lost' sha) : Purges lost' db mid where
  packages := h.packages
  counted sha := by
    have := h.counted sha
    have := hle sha
    omega

/-- **What a package loses** is purged. -/
theorem put (h : Purges lost db mid)
    (hloses : ∀ sha, p.pointers sha + lost sha ≤ packagePointers sha (db.packages.find? p.key)) :
    Balanced db (mid.putPackage p) := by
  refine .put h.packages fun sha => ?_
  have := hloses sha
  have := h.counted sha
  omega

end Purges

end Writing

/-! ## Refreshes -/

section Persisting

variable {nm : Naming} {ecosystem : Ecosystem} {defaultSource : Option Nat} {sha : Sha}

theorem assignHash_pointer (s : PackageFile × Bool) (hash : String × String) :
    (assignHash s hash).1.filename = s.1.filename ∧
      (assignHash s hash).1.blobSha256 = s.1.blobSha256 := by
  unfold assignHash
  split <;> simp [assign_fst]

theorem assignHashes_pointer (hashes : List (String × String)) (s : PackageFile × Bool) :
    (hashes.foldl assignHash s).1.filename = s.1.filename ∧
      (hashes.foldl assignHash s).1.blobSha256 = s.1.blobSha256 := by
  induction hashes generalizing s with
  | nil => exact ⟨rfl, rfl⟩
  | cons h hs ih =>
    obtain ⟨hname, hblob⟩ := assignHash_pointer s h
    exact ⟨(ih _).1.trans hname, (ih _).2.trans hblob⟩

/-- The fields of an upstream's file leave the pointer of its row alone. -/
theorem applyFile_pointer (row : PackageFile) (remote : RemoteFile) (upstreamId : Option Nat) :
    (applyFile row remote upstreamId).1.filename = row.filename ∧
      (applyFile row remote upstreamId).1.blobSha256 = row.blobSha256 := by
  unfold applyFile
  dsimp only
  split
  · split <;> simp [assign_fst]
  · rw [(assignHashes_pointer _ _).1, (assignHashes_pointer _ _).2]
    rcases remote.yanked with b | reason <;> rcases remote.coreMetadata with _ | ⟨_ | _⟩ | fields <;>
      simp [assign_fst]

theorem persistFile_pointers (s : PackageVersion × Bool) (remote : RemoteFile) :
    (persistFile defaultSource s remote).1.pointers sha = s.1.pointers sha := by
  unfold persistFile
  split
  · next row hrow =>
    obtain ⟨hname, hblob⟩ := applyFile_pointer row remote defaultSource
    have hput := Table.sum_put (·.pointsAt sha) s.1.files (applyFile row remote defaultSource).1
    have hsame : (applyFile row remote defaultSource).1.pointsAt sha = row.pointsAt sha := by
      simp only [PackageFile.pointsAt, hblob]
    rw [hname, Table.find?_key hrow, hrow, Option.elim_some, hsame] at hput
    exact Nat.add_right_cancel hput
  · next hnone =>
    obtain ⟨hname, hblob⟩ := applyFile_pointer { filename := remote.filename } remote defaultSource
    have hput := Table.sum_put (·.pointsAt sha) s.1.files
      (applyFile { filename := remote.filename } remote defaultSource).1
    rw [hname, hnone, Option.elim_none] at hput
    refine hput.trans ?_
    rw [PackageFile.pointsAt, hblob]
    rfl

theorem persistFields_pointers (remote : RemoteVersion) (isNew : Bool) (v : PackageVersion) :
    (persistFields defaultSource remote isNew v).1.pointers sha = v.pointers sha := by
  have hfiles : ∀ (files : List RemoteFile) (s : PackageVersion × Bool),
      (files.foldl (persistFile defaultSource) s).1.pointers sha = s.1.pointers sha := by
    intro files
    induction files with
    | nil => exact fun s => rfl
    | cons f files ih => exact fun s => (ih _).trans (persistFile_pointers s f)
  unfold persistFields
  dsimp only
  rw [hfiles]
  refine congrArg (Table.sum (PackageFile.pointsAt sha)) ?_
  rcases remote.yanked with b | reason <;> simp only [assign_fst, implies_true] <;>
    split <;> simp only [assign_fst, implies_true]

/-- Persisting one version of the answer adds no pointer. -/
theorem persistVersion_pointers (versions : Table PackageVersion.normalizedVersion)
    (remote : RemoteVersion) :
    (persistVersion nm ecosystem defaultSource versions remote).sum (·.pointers sha) ≤
      versions.sum (·.pointers sha) := by
  unfold persistVersion
  dsimp only
  split
  · refine (Table.sum_put_le _ _ _).trans_eq ?_
    rw [persistFields_pointers]
    rfl
  · next row hrow =>
    split
    · exact Nat.le_refl _
    · have hwritten : ∀ written : PackageVersion, written.normalizedVersion = row.normalizedVersion →
          written.pointers sha = row.pointers sha →
          (versions.put written).sum (·.pointers sha) ≤ versions.sum (·.pointers sha) := by
        intro written hkey hsame
        have hput := Table.sum_put (·.pointers sha) versions written
        rw [hkey, Table.find?_key hrow, hrow, Option.elim_some, hsame] at hput
        exact (Nat.add_right_cancel hput).le
      have hkey : (persistFields defaultSource remote false row).1.normalizedVersion =
          row.normalizedVersion := (persistFields_sameRow remote false row).normalizedVersion
      split
      · exact hwritten _ hkey (persistFields_pointers remote false row)
      · exact hwritten _ hkey (persistFields_pointers remote false row)

/-- **Persisting an answer** adds no pointer. -/
theorem persist_pointers {stored : Option Package} {remote : RemotePackage}
    {upstream : Option Upstream} {requestedName : Option String} {validators : Option Validators}
    {now : Time} {p : Package}
    (h : persistRemotePackage nm ecosystem stored remote upstream requestedName validators now =
      .ok p) : p.pointers sha ≤ packagePointers sha stored := by
  have hfold : ∀ (remotes : List RemoteVersion) (versions : Table PackageVersion.normalizedVersion),
      (remotes.foldl (persistVersion nm ecosystem (upstream.map Upstream.id)) versions).sum
        (·.pointers sha) ≤ versions.sum (·.pointers sha) := by
    intro remotes
    induction remotes with
    | nil => exact fun versions => Nat.le_refl _
    | cons r remotes ih => exact fun versions => (ih _).trans (persistVersion_pointers versions r)
  unfold Package.pointers
  rw [persist_versions h]
  refine (hfold _ _).trans_eq ?_
  rcases stored with _ | p <;> rfl

end Persisting

section Pruning

variable {live : Dict Nat Int} {answer : Option Present} {sha : Sha} {v : PackageVersion}

/-- Of a version that stays, the files that stay and those that are purged. -/
theorem dropFiles_pointers (hd : doomedVersion live answer v = false) :
    (dropFiles live answer v).pointers sha +
      ((doomedFiles live answer v).map (·.pointsAt sha)).sum = v.pointers sha := by
  by_cases hl : v.isLocal = true
  · have hnone : doomedFiles live answer v = [] := by simp [doomedFiles, hl]
    rw [dropFiles_local hl, hnone, List.map_nil, List.sum_nil, Nat.add_zero]
  · have hl : v.isLocal = false := by simpa using hl
    have hkept : (dropFiles live answer v).files =
        v.files.filter fun f => !displacedFile live answer f :=
      Table.ext_rows (dropFiles_files hl hd)
    have hlost : doomedFiles live answer v =
        (v.files.filter (displacedFile live answer)).rows := by
      simp [doomedFiles, hl, hd, Table.filter]
    rw [PackageVersion.pointers, hkept, hlost]
    exact (Nat.add_comm _ _).trans (Table.sum_filter_add _ _ _)

/-- Of versions, what stays and what is purged: files alone, or with their version. -/
theorem purged_pointers (rows : List PackageVersion) :
    (rows.map fun v => if !doomedVersion live answer v then (dropFiles live answer v).pointers sha
        else 0).sum +
      ((rows.flatMap (doomedFiles live answer)).map (·.pointsAt sha)).sum +
      (((rows.filter (doomedVersion live answer)).flatMap fun v => v.files.rows).map
        (·.pointsAt sha)).sum = (rows.map (·.pointers sha)).sum := by
  induction rows with
  | nil => rfl
  | cons v rows ih =>
    rcases hd : doomedVersion live answer v with _ | _
    · have hv := @dropFiles_pointers live answer sha v hd
      simp only [hd, Bool.not_false, Bool.false_eq_true, if_true, if_false, List.map_cons,
        List.sum_cons, List.flatMap_cons, List.filter_cons, List.map_append, List.sum_append]
      omega
    · have hnone : doomedFiles live answer v = [] := by simp [doomedFiles, hd]
      have hv : (v.files.rows.map (·.pointsAt sha)).sum = v.pointers sha := rfl
      simp only [hd, hnone, Bool.not_true, Bool.false_eq_true, if_false, if_true, List.map_cons,
        List.sum_cons, List.flatMap_cons, List.nil_append, List.filter_cons, List.map_append,
        List.sum_append]
      omega

/-- **Pruning**: what the package loses is purged. -/
theorem prune_pointers (nm : Naming) (table : UpstreamTable) (ecosystem : Ecosystem) (p : Package)
    (answer : Option (RemotePackage × Int)) :
    (pruneUnsourced nm table ecosystem p answer).1.pointers sha +
      ((pruneUnsourced nm table ecosystem p answer).2.1.map (·.pointsAt sha)).sum =
        p.pointers sha := by
  unfold pruneUnsourced
  dsimp only
  generalize liveSources nm.caseMap table ecosystem p.normalizedName = live
  generalize presentIn nm ecosystem answer = present
  split
  · rfl
  · dsimp only [Package.pointers]
    rw [Table.sum_modify, Table.sum_filter, List.map_append, List.sum_append, ← Nat.add_assoc]
    exact purged_pointers p.versions.rows

end Pruning

/-! ## Deleting an upstream -/

section Retiring

variable {uid : Nat} {sha : Sha}

theorem detachVersion_pointers (v : PackageVersion) :
    (detachVersion uid v).pointers sha ≤ v.pointers sha := by
  unfold detachVersion
  split
  · exact Nat.le_refl _
  · exact Nat.le.intro (Table.sum_filter_add _ _ v.files)

theorem retirePackage_pointers (p : Package) :
    (retirePackage uid p).pointers sha ≤ p.pointers sha := by
  have hrows : (retirePackage uid p).versions =
      (p.versions.filter fun v => !retiredVersion uid v).modify (detachVersion uid)
        (detachVersion_normalizedVersion uid) := Table.ext_rows retirePackage_versions
  rw [Package.pointers, hrows, Table.sum_modify]
  exact (Table.sum_le_sum fun v _ => detachVersion_pointers v).trans
    (Nat.le.intro (Table.sum_filter_add _ _ p.versions))

/-- **Deleting an upstream** leaves the counts of what it removes. -/
theorem retireUpstreamContent_balanced (db : Database) (u : Upstream) :
    Balanced db (db.retireUpstreamContent u).1 := by
  unfold Database.retireUpstreamContent
  split
  · exact .refl db
  · intro sha
    have hpackages : (db.packages.modify (retirePackage u.id) (retirePackage_key u.id)).sum
        (·.pointers sha) ≤ db.packages.sum (·.pointers sha) :=
      (Table.sum_modify _ _).trans_le (Table.sum_le_sum fun p _ => retirePackage_pointers p)
    simp only [Database.pointers, Database.count]
    omega

end Retiring

/-! ## Single files -/

/-- The key of a file row: of its package and its version, and its name. -/
structure FileRef where
  package : Ecosystem × String
  version : String
  filename : String
  deriving DecidableEq

/-- The columns that `_record` writes. -/
def recordedRow (row : PackageFile) (stored : NpmPublish.Digests) : PackageFile :=
  { row with
    blobSha256 := some stored.sha256
    size := some stored.size
    sha256 := row.sha256.filter (· ≠ "") <|> some stored.sha256
    sha1 := row.sha1.filter (· ≠ "") <|> some stored.sha1
    md5 := row.md5.filter (· ≠ "") <|> some stored.md5
    blake2b256 := row.blake2b256.filter (· ≠ "") <|> some stored.blake2b256
    integrity := row.integrity.filter (· ≠ "") <|> some stored.integrity }

namespace Database

variable (db : Database)

/-- A file row, with its package and its version. -/
def file? (r : FileRef) : Option (Package × PackageVersion × PackageFile) := do
  let p ← db.packages.find? r.package
  let v ← p.versions.find? r.version
  let f ← v.files.find? r.filename
  return (p, v, f)

def putFile (p : Package) (v : PackageVersion) (f : PackageFile) : Database :=
  db.putPackage { p with versions := p.versions.put { v with files := v.files.put f } }

/-- What `_record` does to the counts: the row lets go of a stale pointer. -/
def recount (row : PackageFile) (sha : Sha) : Database :=
  if row.blobSha256 = some sha then
    if (db.blobs.find? sha).isNone then db.retainBlob sha else db
  else (if row.blobSha256.getD "" ≠ "" then db.purgeFile row else db).retainBlob sha

/-- `_record` of a download; `stands` is `store.exists`, and `none` an `ArtifactError`. -/
def record (r : FileRef) (stored : NpmPublish.Digests) (stands : Bool) : Option Database :=
  match db.file? r with
  | none => none
  | some (p, v, row) =>
    if !stands then none
    else some ((db.recount row stored.sha256).putFile p v (recordedRow row stored))

/-- `purge_file`, of a row that stays. -/
def purgeRow (r : FileRef) : Database :=
  match db.file? r with
  | none => db
  | some (p, v, row) =>
    if row.blobSha256.getD "" = "" then db
    else (db.purgeFile row).putFile p v { row with blobSha256 := none }

/-- `_has_local_reference`: a file that could not be fetched again. -/
def hasLocalReference (table : UpstreamTable) (sha : Sha) : Bool :=
  db.fileRows.any fun f => f.blobSha256 = some sha &&
    (f.upstreamUrl.isNone || f.upstreamId.any fun u => (table.find? u).any (!·.enabled))

/-- `collect_orphan_blobs`: the blobs go that no file row points at. -/
def collectOrphanBlobs : Database :=
  { db with blobs := db.blobs.filter fun blob =>
      db.fileRows.any (·.blobSha256 = some blob.sha256) }

end Database

/-! ### Eviction -/

/-- The row lets go of a blob, and can be fetched again. -/
def PackageFile.evicted (sha : Sha) (f : PackageFile) : PackageFile :=
  if f.blobSha256 = some sha then { f with blobSha256 := none } else f

@[simp] theorem PackageFile.evicted_filename (sha : Sha) (f : PackageFile) :
    (f.evicted sha).filename = f.filename := by
  unfold evicted
  split <;> rfl

def PackageVersion.evicted (sha : Sha) (v : PackageVersion) : PackageVersion :=
  { v with files := v.files.modify (·.evicted sha) (PackageFile.evicted_filename sha) }

theorem PackageVersion.evicted_normalizedVersion (sha : Sha) (v : PackageVersion) :
    (v.evicted sha).normalizedVersion = v.normalizedVersion := rfl

def Package.evicted (sha : Sha) (p : Package) : Package :=
  { p with versions :=
      p.versions.modify (·.evicted sha) (PackageVersion.evicted_normalizedVersion sha) }

theorem Package.evicted_key (sha : Sha) (p : Package) : (p.evicted sha).key = p.key := rfl

/-- A blob goes, and every pointer at it. -/
def Database.evict (db : Database) (sha : Sha) : Database :=
  { db with
    packages := db.packages.modify (·.evicted sha) (Package.evicted_key sha)
    blobs := db.blobs.filter (·.sha256 ≠ sha) }

/-- What `evict_to` knows: the total it started from, and its target. -/
structure Eviction where
  table : UpstreamTable
  used : Nat
  target : Nat
  /-- `Blob.size`. -/
  size : Sha → Nat
  /-- The blob was last read before the cutoff. -/
  idle : Sha → Bool

/-- One batch of `evict_to`, with the bytes that are freed. Each blob is looked at again. -/
def Eviction.batch (e : Eviction) : List Sha → Database × Nat → Database × Nat
  | [], s => s
  | sha :: shas, (db, freed) =>
    if e.used - freed ≤ e.target then (db, freed)
    else if (db.blobs.find? sha).isSome && e.idle sha && !db.hasLocalReference e.table sha then
      e.batch shas (db.evict sha, freed + e.size sha)
    else e.batch shas (db, freed)

section Files

variable {db : Database} {r : FileRef} {p : Package} {v : PackageVersion} {row : PackageFile}
  {sha : Sha}

theorem file?_some (h : db.file? r = some (p, v, row)) :
    db.packages.find? p.key = some p ∧ p.versions.find? v.normalizedVersion = some v ∧
      v.files.find? row.filename = some row := by
  obtain ⟨p', hp, h⟩ := Option.bind_eq_some_iff.mp h
  obtain ⟨v', hv, h⟩ := Option.bind_eq_some_iff.mp h
  obtain ⟨f', hf, h⟩ := Option.bind_eq_some_iff.mp h
  obtain ⟨rfl, rfl, rfl⟩ : p' = p ∧ v' = v ∧ f' = row := by simpa using h
  exact ⟨by rw [Table.find?_key hp, hp], by rw [Table.find?_key hv, hv],
    by rw [Table.find?_key hf, hf]⟩

/-- A file row may be rewritten if what its pointer changes is counted. -/
theorem Balanced.putFile {mid : Database} {f : PackageFile} (h : db.file? r = some (p, v, row))
    (hname : f.filename = row.filename) (hpackages : mid.packages = db.packages)
    (hcounted : ∀ sha, (f.pointsAt sha : Int) + db.count sha ≤ row.pointsAt sha + mid.count sha) :
    Balanced db (mid.putFile p v f) := by
  obtain ⟨hp, hv, hrow⟩ := file?_some h
  refine .put hpackages fun sha => ?_
  have hfiles := Table.sum_put (·.pointsAt sha) v.files f
  rw [hname, hrow, Option.elim_some] at hfiles
  have hversions := Table.sum_put (·.pointers sha) p.versions { v with files := v.files.put f }
  rw [hv, Option.elim_some] at hversions
  have hwritten : ({ v with files := v.files.put f } : PackageVersion).pointers sha =
      (v.files.put f).sum (·.pointsAt sha) := rfl
  have hold : v.pointers sha = v.files.sum (·.pointsAt sha) := rfl
  have hfound : packagePointers sha (db.packages.find? p.key) = p.versions.sum (·.pointers sha) := by
    rw [hp]
    rfl
  have := hcounted sha
  refine Int.le_trans ?_ (Int.add_le_add_right (Int.ofNat_le.mpr hfound.ge) _)
  simp only [Package.pointers]
  omega

theorem pointsAt_of_some {f : PackageFile} {new : Sha} (h : f.blobSha256 = some new) :
    (f.pointsAt sha : Int) = if sha = new then 1 else 0 := by
  by_cases heq : sha = new
  · simp [PackageFile.pointsAt, h, heq]
  · simp [PackageFile.pointsAt, h, heq, Ne.symm heq]

/-- A pointer that is moved is counted where it goes. -/
theorem recount_counts (row : PackageFile) (new : Sha) :
    (if sha = new then 1 else 0) + db.count sha ≤
      row.pointsAt sha + (db.recount row new).count sha := by
  unfold Database.recount
  by_cases hsame : row.blobSha256 = some new
  · rw [if_pos hsame, pointsAt_of_some hsame]
    by_cases hnone : (db.blobs.find? new).isNone = true
    · rw [if_pos hnone, count_retain]
      split <;> omega
    · rw [if_neg hnone]
  · rw [if_neg hsame, count_retain]
    by_cases hstale : row.blobSha256.getD "" ≠ ""
    · have := @count_purge db sha row
      rw [if_pos hstale]
      omega
    · rw [if_neg hstale]
      omega

/-- **A download** lets go of one pointer at most, and counts its own. -/
theorem record_balanced {stored : NpmPublish.Digests} {stands : Bool} {db' : Database}
    (h : db.record r stored stands = some db') : Balanced db db' := by
  unfold Database.record at h
  split at h
  · cases h
  · next p v row hfound =>
    split at h
    · cases h
    · obtain rfl := Option.some.inj h
      refine .putFile hfound rfl ?_ fun sha => ?_
      · unfold Database.recount
        split
        · split
          · exact Database.retainBlob_packages _
          · rfl
        · refine (Database.retainBlob_packages _).trans ?_
          split
          · exact Database.purgeFile_packages row
          · rfl
      · rw [pointsAt_of_some (f := recordedRow row stored) rfl]
        exact recount_counts row stored.sha256

theorem purgeRow_balanced (r : FileRef) : Balanced db (db.purgeRow r) := by
  unfold Database.purgeRow
  split
  · exact .refl db
  · next p v row hfound =>
    split
    · exact .refl db
    · refine .putFile hfound rfl (Database.purgeFile_packages row) fun sha => ?_
      have hnone : PackageFile.pointsAt sha { row with blobSha256 := none } = 0 := rfl
      have := @count_purge db sha row
      rw [hnone]
      omega

/-- What an eviction leaves of the pointers. -/
theorem evicted_pointers (gone : Sha) (p : Package) :
    (p.evicted gone).pointers sha = if sha = gone then 0 else p.pointers sha := by
  have hfile : ∀ f : PackageFile,
      (f.evicted gone).pointsAt sha = if sha = gone then 0 else f.pointsAt sha := by
    intro f
    unfold PackageFile.evicted PackageFile.pointsAt
    by_cases hf : f.blobSha256 = some gone
    · by_cases heq : sha = gone
      · simp [hf, heq]
      · simp [hf, heq, Ne.symm heq]
    · rw [if_neg hf]
      by_cases heq : sha = gone
      · rw [heq, if_neg hf, if_pos rfl]
      · rw [if_neg heq]
  have hversion : ∀ v : PackageVersion,
      (v.evicted gone).pointers sha = if sha = gone then 0 else v.pointers sha := by
    intro v
    unfold PackageVersion.pointers PackageVersion.evicted
    dsimp only
    rw [Table.sum_modify_clear fun f _ => hfile f]
  unfold Package.pointers Package.evicted
  dsimp only
  rw [Table.sum_modify_clear fun v _ => hversion v]

/-- **Eviction** clears what it deletes. -/
theorem Database.Covered.evict (hc : db.Covered) (gone : Sha) : (db.evict gone).Covered := by
  intro sha
  have hpointers : (db.evict gone).pointers sha = if sha = gone then 0 else db.pointers sha := by
    unfold Database.pointers Database.evict
    dsimp only
    rw [Table.sum_modify_clear fun p _ => evicted_pointers gone p]
  have hcount : (db.evict gone).count sha = if sha = gone then 0 else db.count sha := by
    split
    · next heq => exact count_filter_none db fun b _ hb => by simp [hb, heq]
    · next hne => exact count_filter db fun b _ hb => by simp [hb, hne]
  rw [hpointers, hcount]
  split
  · exact Int.le_refl _
  · exact hc sha

theorem Database.Covered.batch (e : Eviction) (shas : List Sha) (s : Database × Nat)
    (hc : s.1.Covered) : (e.batch shas s).1.Covered := by
  induction shas generalizing s with
  | nil => exact hc
  | cons sha shas ih =>
    unfold Eviction.batch
    split
    · exact hc
    · split
      · exact ih _ (hc.evict sha)
      · exact ih _ hc

/-- **Collection** deletes what nothing points at. -/
theorem Database.Covered.collect (hc : db.Covered) : db.collectOrphanBlobs.Covered := by
  intro sha
  have hpointers : db.collectOrphanBlobs.pointers sha = db.pointers sha := rfl
  rw [hpointers]
  by_cases href : db.fileRows.any (·.blobSha256 = some sha) = true
  · have hcount : db.collectOrphanBlobs.count sha = db.count sha :=
      count_filter db fun b _ hb => by rw [hb, href]
    rw [hcount]
    exact hc sha
  · have hcount : db.collectOrphanBlobs.count sha = 0 :=
      count_filter_none db fun b _ hb => by
        rw [hb]
        simpa using href
    have hnone : db.pointers sha = 0 := by
      rw [Database.pointers_eq_countP, List.countP_eq_zero]
      intro f hf hpoints
      exact href (List.any_eq_true.mpr ⟨f, hf, hpoints⟩)
    rw [hcount, hnone]
    exact Int.le_refl _

end Files

end Minireg
