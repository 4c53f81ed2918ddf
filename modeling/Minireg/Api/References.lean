import Minireg.Api.Requests
import Minireg.Services.References

/-!
# Blob references over whole runs

Requests, downloads, evictions, deleted upstreams and the purges of an administrator change the
tables of files and blobs. Every one of them is `Balanced`, or clears what it deletes, so no
sequence of them leaves a count that falls short.
-/

namespace Minireg

open Py Lib Artifacts

/-! ## Versions that are purged -/

section Purges

variable {db : Database} {package : Package}

theorem retire_purges (r : RetiredVersion) : Purges (fun _ => 0) db (db.retire r) where
  packages := Database.retire_packages r
  counted sha := by
    have hblobs : (db.retire r).blobs = db.blobs := by
      unfold Database.retire
      split <;> rfl
    simp only [Database.count, hblobs]
    omega

theorem purgeFiles_purges (v : PackageVersion) :
    Purges (fun sha => v.pointers sha) db (Npm.purgeFiles db v) := Purges.files v.files.rows

theorem retireVersionRow_purges (v : PackageVersion) :
    Purges (fun sha => v.pointers sha) db (Npm.retireVersionRow package db v) :=
  ((retire_purges _).trans (purgeFiles_purges v)).le fun _ => (Nat.zero_add _).le

theorem retireVersionRows_purges (package : Package) (vs : List PackageVersion) :
    Purges (fun sha => (vs.map (·.pointers sha)).sum) db
      (vs.foldl (Npm.retireVersionRow package) db) := by
  induction vs generalizing db with
  | nil => exact ⟨rfl, fun sha => by simp⟩
  | cons v vs ih => exact (retireVersionRow_purges v).trans ih

/-- `unpublish_package` purges every version, with a tombstone or without. -/
theorem unpublishRows_purges (package : Package) (vs : List PackageVersion) :
    Purges (fun sha => (vs.map (·.pointers sha)).sum) db (vs.foldl (fun db v =>
      let db := if v.isLocal then
        db.retire (Npm.tombstone package v (Npm.primaryFile v)) else db
      Npm.purgeFiles db v) db) := by
  induction vs generalizing db with
  | nil => exact ⟨rfl, fun sha => by simp⟩
  | cons v vs ih =>
    rw [List.foldl_cons]
    split
    · exact (retireVersionRow_purges v).trans ih
    · exact (purgeFiles_purges v).trans ih

end Purges

/-! ## One lemma for each endpoint -/

section Endpoints

variable {r : Request} {db : Database}

theorem pointers_of_versions {p p' : Package} (h : p'.versions = p.versions) (sha : Sha) :
    p'.pointers sha = p.pointers sha := congrArg (Table.sum (PackageVersion.pointers sha)) h

theorem setDistTag_balanced (name tag body : String) :
    Balanced db (Npm.setDistTag r.env r.identity name tag body (.start db)).1.committed := by
  unfold Npm.setDistTag
  dsimp only
  split
  · exact .refl db
  · split
    · exact .refl db
    · exact .refl db
    · split
      · exact .refl db
      · next package hfound =>
        split
        · exact .refl db
        · split
          · exact .refl db
          · have hwrite : Balanced db (db.putPackage
                (Npm.applyTag package (tag, strip (Npm.stripQuotes (strip body))))) :=
              .rewrite (found_npm hfound).1 rfl fun sha => (pointers_of_versions rfl sha).le
            exact hwrite.audited _

theorem deleteDistTag_balanced (name tag : String) :
    Balanced db (Npm.deleteDistTag r.env r.identity name tag (.start db)).1.committed := by
  unfold Npm.deleteDistTag
  dsimp only
  split
  · exact .refl db
  · split
    · exact .refl db
    · next package hfound =>
      split
      · exact .refl db
      · split
        · exact .refl db
        · have hwrite : Balanced db (db.putPackage
              { package with distTags := package.distTags.filter (·.tag ≠ tag) }) :=
            .rewrite (found_npm hfound).1 rfl fun sha => (pointers_of_versions rfl sha).le
          exact hwrite.audited _

theorem unpublishVersion_balanced (name filename : String) :
    Balanced db (Npm.unpublishVersion r.env r.identity name filename (.start db)).1.committed := by
  unfold Npm.unpublishVersion
  split
  · exact .refl db
  · next package hfound =>
    split
    · split
      · split
        · exact .refl db
        · exact .refl db
      · exact .refl db
    · next v file htarget =>
      split
      · exact .refl db
      · split
        · exact .refl db
        · have hpurges : Purges (fun sha => v.pointers sha) db
              (Npm.retireVersionRow package (db.retire (Npm.tombstone package v (some file))) v) :=
            ((retire_purges _).trans (retireVersionRow_purges v)).le fun _ => (Nat.zero_add _).le
          refine (hpurges.put (p := Npm.dropVersion package v) fun sha => ?_).audited _
          have hkey : db.packages.find? (Npm.dropVersion package v).key = some package :=
            Table.find?_of_mem (found_npm hfound).1
          rw [hkey]
          exact (Table.sum_filter_ne (·.pointers sha) (fileTarget_mem htarget)).le

/-- A package may go when all of its versions are purged. -/
theorem Purges.deletePackage {mid : Database} {package : Package} (hmem : package ∈ db.packages)
    (h : Purges (fun sha => package.pointers sha) db mid) :
    Balanced db (mid.deletePackage package) := by
  intro sha
  have hgone : (mid.deletePackage package).pointers sha + package.pointers sha =
      mid.pointers sha := Table.sum_filter_ne _ (h.packages ▸ hmem)
  have hsame : mid.pointers sha = db.pointers sha := by simp only [Database.pointers, h.packages]
  have hcount : (mid.deletePackage package).count sha = mid.count sha := rfl
  have := h.counted sha
  omega

theorem unpublishPackage_balanced (name : String) :
    Balanced db (Npm.unpublishPackage r.env r.identity name (.start db)).1.committed := by
  unfold Npm.unpublishPackage
  split
  · exact .refl db
  · next package hfound =>
    split
    · exact .refl db
    · have hpurges : Purges (fun sha => package.pointers sha) db _ :=
        unpublishRows_purges package package.versions.rows
      exact (hpurges.deletePackage (found_npm hfound).1).audited _

/-! ### Updates -/

theorem deprecateRow_pointers (submitted : List (String × Json)) (missing : Bool)
    (among : String → Bool) (v : PackageVersion) (sha : Sha) :
    (Npm.deprecateRow submitted missing among v).pointers sha = v.pointers sha := by
  unfold Npm.deprecateRow
  split
  · split <;> rfl
  · rfl

theorem applyDeprecations_pointers (submitted : List (String × Json)) (missing : Bool)
    (among : String → Bool) (package : Package) (sha : Sha) :
    (Npm.applyDeprecations submitted missing among package).pointers sha =
      package.pointers sha := by
  unfold Npm.applyDeprecations Package.pointers
  dsimp only
  rw [Table.sum_modify]
  exact Table.sum_congr fun v _ => deprecateRow_pointers submitted missing among v sha

theorem storeUpdate_balanced {package : Package} {update : Npm.PackumentUpdate}
    {hidden : List String} {db' : Database} (hmem : package ∈ db.packages)
    (h : Npm.storeUpdate r.identity update hidden package db = .ok db') : Balanced db db' := by
  unfold Npm.storeUpdate at h
  obtain ⟨updated, hupdated, h⟩ := bind_ok h
  obtain ⟨audited, -, h⟩ := bind_ok h
  obtain rfl := Except.ok.inj h
  have hframe := Npm.updatedPackage_frame hupdated
  have hpurges : Purges _ db _ := retireVersionRows_purges package
    (package.versions.rows.filter fun v => !Npm.survives update hidden v.version)
  have hwrite := hpurges.put (p := updated) fun sha => by
    have hkey : db.packages.find? updated.key = some package := by
      rw [hframe.key]
      exact Table.find?_of_mem hmem
    have hkept : updated.pointers sha =
        (package.versions.filter fun v => Npm.survives update hidden v.version).sum
          (·.pointers sha) :=
      (pointers_of_versions hframe.versions sha).trans (applyDeprecations_pointers _ _ _ _ sha)
    rw [hkey, hkept]
    exact (Table.sum_filter_add _ _ package.versions).le
  have haudited : ∀ (entries : List AuditEntry) (db' : Database), Balanced db db' →
      Balanced db (entries.foldl Database.recordAudit db') := by
    intro entries
    induction entries with
    | nil => exact fun db' hb => hb
    | cons e entries ih => exact fun db' hb => ih (db'.recordAudit e) (hb.audited e)
  exact haudited _ _ hwrite

theorem updatePackument_balanced (name : String) (body : Json) :
    Balanced db (Npm.updatePackument r.env r.identity name body (.start db)).1.committed := by
  unfold Npm.updatePackument
  dsimp only
  split
  · exact .refl db
  · split
    · exact .refl db
    · next package hfound =>
      split
      · exact .refl db
      · split
        · exact .refl db
        · split
          · exact .refl db
          · split
            · exact .refl db
            · split
              · exact .refl db
              · split
                · next db' hstore => exact storeUpdate_balanced (found_npm hfound).1 hstore
                · exact .refl db

/-! ### Publishes -/

theorem openPackage_pointers {ecosystem : Ecosystem} (name : String) {normalized : String}
    {grant : PublishGrant} (h : grant.package = db.package? ecosystem normalized) (sha : Sha) :
    (openPackage ecosystem name normalized grant).pointers sha =
      packagePointers sha (db.packages.find? (openPackage ecosystem name normalized grant).key) := by
  rw [openPackage_key name h]
  have hfound : grant.package = db.packages.find? (ecosystem, normalized) := h
  rw [← hfound]
  unfold openPackage
  rcases grant.package with _ | package <;> rfl

/-- A version that is stored adds one pointer, and counts it. -/
theorem storeVersion_counted {env : RegistryEnv} {name : String} {staged : Npm.Staged}
    {package package' : Package} {db' : Database}
    (h : Npm.storeVersion env name (package, db) staged = some (package', db')) :
    db'.packages = db.packages ∧ ∀ sha, (package'.pointers sha : Int) + db.count sha ≤
      package.pointers sha + db'.count sha := by
  unfold Npm.storeVersion at h
  split at h
  · next contentType _ =>
    obtain ⟨rfl, rfl⟩ := Prod.mk.inj (Option.some.inj h)
    refine ⟨Database.retainBlob_packages _, fun sha => ?_⟩
    have hversion := Table.sum_put_le (·.pointers sha) package.versions
      (Npm.storedVersion env staged (Npm.storedFile env name staged contentType))
    have hfile := Table.sum_put_le (·.pointsAt sha) (.empty PackageFile.filename)
      (Npm.storedFile env name staged contentType)
    have hnew := @pointsAt_of_some sha (Npm.storedFile env name staged contentType) _ rfl
    have hrow : (Npm.storedVersion env staged (Npm.storedFile env name staged contentType)).pointers
        sha = ((Table.empty PackageFile.filename).put
          (Npm.storedFile env name staged contentType)).sum (·.pointsAt sha) := rfl
    rw [Table.sum_empty] at hfile
    rw [count_retain]
    simp only [Package.pointers]
    omega
  · cases h

theorem storeVersions_counted {env : RegistryEnv} {name : String} {staged : List Npm.Staged}
    {package package' : Package} {db' : Database}
    (h : staged.foldlM (Npm.storeVersion env name) (package, db) = some (package', db')) :
    db'.packages = db.packages ∧ ∀ sha, (package'.pointers sha : Int) + db.count sha ≤
      package.pointers sha + db'.count sha := by
  induction staged generalizing package db with
  | nil =>
    obtain ⟨rfl, rfl⟩ := Prod.mk.inj (Option.some.inj h)
    exact ⟨rfl, fun _ => Int.le_refl _⟩
  | cons one staged ih =>
    rw [List.foldlM_cons] at h
    obtain ⟨⟨package₁, db₁⟩, hone, hrest⟩ := Option.bind_eq_some_iff.mp h
    obtain ⟨hpackages₁, hcounted₁⟩ := storeVersion_counted hone
    obtain ⟨hpackages, hcounted⟩ := ih hrest
    refine ⟨hpackages.trans hpackages₁, fun sha => ?_⟩
    have := hcounted₁ sha
    have := hcounted sha
    omega

theorem storePublish_balanced {normalized : String} {parsed : NpmPublish.PublishRequest}
    {grant : PublishGrant} {staged : List Npm.Staged} {db' : Database}
    (hgrant : grant.package = db.package? .npm normalized)
    (h : Npm.storePublish r.env r.identity normalized parsed grant staged db = some db') :
    Balanced db db' := by
  unfold Npm.storePublish at h
  extract_lets opened package at h
  obtain ⟨⟨filled, db₁⟩, hfill, h⟩ := Option.bind_eq_some_iff.mp h
  obtain ⟨tagged, htagged, h⟩ := Option.bind_eq_some_iff.mp h
  obtain rfl := Option.some.inj h
  obtain ⟨hpackages, hcounted⟩ := storeVersions_counted hfill
  have hframe := Npm.tagPackage_frame (toOption_ok htagged)
  obtain ⟨rows, -, -, hfilled, -, -⟩ := storeVersions_rows hfill
  have hopened : package.key = opened.key ∧ package.versions = opened.versions := by
    unfold package
    split <;> exact ⟨rfl, rfl⟩
  have hwrite : Balanced db (db₁.putPackage tagged) := .put hpackages fun sha => by
    have hkey : tagged.key = opened.key := by
      rw [hframe.key, hfilled]
      exact hopened.1
    have hsame := openPackage_pointers parsed.name hgrant sha
    rw [pointers_of_versions hframe.versions, hkey, ← hsame,
      ← pointers_of_versions hopened.2]
    exact hcounted sha
  exact hwrite.audited _

theorem publish_balanced (name : String) (body : Json) :
    Balanced db (Npm.publish r.env r.identity name body (.start db)).1.committed := by
  unfold Npm.publish
  split
  · exact .refl db
  · exact .refl db
  · next parsed _ =>
    split
    · exact .refl db
    · split
      · exact (Balanced.refl db).audited _
      · split
        · unfold Npm.handleDeprecate
          split
          · exact .refl db
          · next package hfound =>
            split
            · exact .refl db
            · have hwrite : Balanced db (db.putPackage (Npm.applyDeprecations
                  (parsed.versions.map fun e => (e.1, Json.obj e.2)) true (fun _ => true)
                    package)) :=
                .rewrite (found_npm hfound).1 rfl fun sha =>
                  (applyDeprecations_pointers _ _ _ _ sha).le
              exact hwrite.audited _
        · split
          · exact .refl db
          · unfold Npm.handlePublish
            dsimp only
            split
            · exact (Balanced.refl db).audited _
            · next grant hgrant =>
              split
              · exact .refl db
              · exact (Balanced.refl db).audited _
              · exact .refl db
              · split
                · next db' hstore =>
                  exact storePublish_balanced (authorizeVersions_ok hgrant).1 hstore
                · exact .refl db

/-! ### Uploads -/

/-- A file more in the row of a version. -/
theorem put_file_pointers {versions : Table PackageVersion.normalizedVersion}
    {row before written : PackageVersion} {f : PackageFile} {sha : Sha}
    (hkey : before.normalizedVersion = row.normalizedVersion) (hfiles : before.files = row.files)
    (hwritten : written = { before with files := before.files.put f })
    (hrow : row.pointers sha ≤
      (versions.find? row.normalizedVersion).elim 0 (·.pointers sha)) :
    (versions.put written).sum (·.pointers sha) ≤ versions.sum (·.pointers sha) + f.pointsAt sha := by
  have hput := Table.sum_put (·.pointers sha) versions written
  have hadded := Table.sum_put_le (·.pointsAt sha) row.files f
  have hpointers : written.pointers sha = (row.files.put f).sum (·.pointsAt sha) := by
    rw [hwritten, ← hfiles]
    rfl
  have hold : row.pointers sha = row.files.sum (·.pointsAt sha) := rfl
  have hsame : written.normalizedVersion = row.normalizedVersion := hwritten ▸ hkey
  rw [hsame] at hput
  omega

/-- An upload adds one pointer to its release. -/
theorem storeUpload_pointers (env : RegistryEnv) (request : PypiPublish.UploadRequest)
    (metadata : Option NpmPublish.Bytes) (scan : Scan) (package : Package) (sha : Sha) :
    (Pypi.storeUpload env request metadata scan package).pointers sha ≤
      package.pointers sha + (Pypi.uploadedFile env request metadata).pointsAt sha := by
  refine put_file_pointers (Pypi.rescanRow_frame env scan _).2.1 (Pypi.rescanRow_files env scan _)
    rfl ?_
  rcases htarget : Pypi.targetRow env package request.version with _ | v
  · exact Nat.zero_le _
  · have hmem : v ∈ package.versions := (List.mem_filter.mp (Pypi.targetRow_mem htarget)).1
    rw [Option.getD_some, Table.find?_of_mem hmem]
    exact Nat.le_refl _

theorem upload_balanced (form : Pypi.UploadForm) :
    Balanced db (Pypi.upload r.env r.identity form (.start db)).1.committed := by
  unfold Pypi.upload
  split
  · exact .refl db
  · next request metadata _ =>
    dsimp only
    split
    · exact .refl db
    · split
      · exact (Balanced.refl db).audited _
      · split
        · exact (Balanced.refl db).audited _
        · next grant hgrant =>
          have hopened := openPackage_pointers request.name (authorizeUpload_package hgrant)
          generalize openPackage .pypi request.name (r.env.normalizedFor .pypi request.name)
            grant = package at hopened
          -- what the checks refuse has opened the package, at most
          have hopens : Balanced db (db.putPackage package) := .put rfl fun sha => by
            have hsame : package.pointers sha =
                packagePointers sha (db.packages.find? package.key) := hopened sha
            omega
          unfold Pypi.fileUpload
          dsimp only
          split
          · exact hopens.audited _
          · split
            · exact .refl db
            · split
              · exact .refl db
              · split
                · exact .refl db
                · next verdict _ =>
                  split
                  · exact (Balanced.refl db).audited _
                  · refine (hopens.trans (.put (Database.retainBlob_packages _)
                      fun sha => ?_)).audited _
                    have hfound : (db.putPackage package).packages.find? package.key = some package :=
                      Table.find?_put_self db.packages package
                    have hadded := storeUpload_pointers r.env request metadata
                      (r.env.inlineScan .pypi request.name request.version) package sha
                    have hnew := @pointsAt_of_some sha (Pypi.uploadedFile r.env request metadata) _ rfl
                    have hkey : (db.putPackage package).packages.find? (Pypi.storeUpload r.env request
                        metadata (r.env.inlineScan .pypi request.name request.version)
                        package).key = some package := hfound
                    rw [hkey, packagePointers, Option.elim_some, count_retain]
                    omega

/-! ### Refreshes -/

theorem prune_balanced {env : RegistryEnv} {ecosystem : Ecosystem} {table : UpstreamTable}
    {package : Package} {answer : Option (RemotePackage × Int)} {db' : Database}
    (hpackage : ∀ sha, package.pointers sha ≤
      packagePointers sha (db.packages.find? package.key))
    (h : prune env ecosystem table package answer db = some db') : Balanced db db' := by
  have hkey := pruneUnsourced_key env.naming table ecosystem package answer
  have hpointers := fun sha => @prune_pointers sha env.naming table ecosystem package answer
  unfold prune at h
  rcases hpruned : pruneUnsourced env.naming table ecosystem package answer with
    ⟨pruned, purged, changed⟩
  rw [hpruned] at h hkey hpointers
  dsimp only at h hkey hpointers
  split at h
  · cases h
  · obtain rfl := Option.some.inj h
    refine (Purges.files purged).put fun sha => ?_
    rw [hkey, hpointers sha]
    exact hpackage sha

theorem settle_balanced {env : RegistryEnv} {ecosystem : Ecosystem} {table : UpstreamTable}
    {normalized : String} {db' : Database}
    (h : settle env ecosystem table normalized db = some db') : Balanced db db' := by
  unfold settle at h
  split at h
  · obtain rfl := Option.some.inj h
    exact .refl db
  · next package hfound =>
    refine prune_balanced (fun sha => ?_) h
    rw [Table.find?_of_mem (Table.find?_mem hfound)]
    exact Nat.le_refl _

theorem refresh_balanced {env : RegistryEnv} {ecosystem : Ecosystem} {table : UpstreamTable}
    {name : String} {resolution : Resolution} {db' : Database}
    (h : refresh env ecosystem table name resolution db = some db') : Balanced db db' := by
  unfold refresh at h
  dsimp only at h
  split at h
  · obtain rfl := Option.some.inj h
    exact .refl db
  · exact settle_balanced h
  · split at h
    · cases h
    · next package hfound =>
      have haged : Balanced db (db.putPackage { package with cachedAt := some env.now }) :=
        .rewrite (Table.find?_mem hfound) rfl fun sha => (pointers_of_versions rfl sha).le
      exact haged.trans (settle_balanced h)
  · next remote upstream validators tier =>
    split at h
    · obtain rfl := Option.some.inj h
      exact .refl db
    · next persisted hpersist =>
      split at h
      · cases h
      · refine prune_balanced (fun sha => ?_) h
        have hkey := persist_key rfl (fun p hp => Table.find?_key hp) hpersist
        rw [hkey]
        exact persist_pointers hpersist

end Endpoints

/-- **Requests** add no pointer that they do not count. -/
theorem Request.balanced (r : Request) (db : Database) : Balanced db (r.after db) := by
  unfold Request.after Request.handle
  split
  · exact publish_balanced _ _
  · exact upload_balanced _
  · exact setDistTag_balanced _ _ _
  · exact deleteDistTag_balanced _ _
  · exact updatePackument_balanced _ _
  · exact unpublishVersion_balanced _ _
  · exact unpublishPackage_balanced _
  · split
    · next hstored => exact refresh_balanced hstored
    · exact .refl db

/-! ## Purges of an administrator -/

namespace Admin

/-- The file rows of a version. -/
def fileRefs (p : Package) (v : PackageVersion) : List FileRef :=
  v.files.rows.map fun f =>
    { package := p.key, version := v.normalizedVersion, filename := f.filename }

/-- `delete_package`: the bytes of a package go, and its rows unless `purgeOnly`. -/
def deletePackage (identity : Identity) (key : Ecosystem × String) (purgeOnly : Bool)
    (db : Database) : Database :=
  match db.packages.find? key with
  | none => db
  | some p =>
    let db := (p.versions.rows.flatMap (fileRefs p)).foldl Database.purgeRow db
    let db := if purgeOnly then db else db.deletePackage p
    db.recordAudit
      { action := if purgeOnly then "admin.cache.purged" else "admin.package.deleted"
        actorUserId := identity.userId
        targetId := p.ecosystem.value ++ ":" ++ p.name }

/-- The rows that `purge_cache` selects; `chosen` is by age and by use. -/
def cachedRefs (ecosystem : Option Ecosystem) (chosen : FileRef → Bool) (db : Database) :
    List FileRef :=
  let packages := db.packages.rows.filter fun p => ecosystem.all (· = p.ecosystem)
  (packages.flatMap fun p => (p.versions.rows.filter (!·.isLocal)).flatMap fun v =>
    (fileRefs p v).filter fun r => chosen r &&
      ((v.files.find? r.filename).bind PackageFile.blobSha256).isSome).take 10000

/-- `purge_cache`; its audit entry has no target. -/
def purgeCache (identity : Identity) (ecosystem : Option Ecosystem) (chosen : FileRef → Bool)
    (db : Database) : Database :=
  let db := ((cachedRefs ecosystem chosen db).foldl Database.purgeRow db).collectOrphanBlobs
  db.recordAudit
    { action := "admin.cache.purged", actorUserId := identity.userId, targetId := "" }

end Admin

theorem purgeRows_balanced (refs : List FileRef) (db : Database) :
    Balanced db (refs.foldl Database.purgeRow db) := by
  induction refs generalizing db with
  | nil => exact .refl db
  | cons r refs ih => exact (purgeRow_balanced r).trans (ih _)

/-- A package that goes takes its pointers along. -/
theorem deletePackage_balanced (db : Database) (p : Package) : Balanced db (db.deletePackage p) := by
  intro sha
  have hgone : (db.deletePackage p).pointers sha ≤ db.pointers sha :=
    Nat.le.intro (Table.sum_filter_add _ _ db.packages)
  have hcount : (db.deletePackage p).count sha = db.count sha := rfl
  omega

theorem Admin.deletePackage_balanced (identity : Identity) (key : Ecosystem × String)
    (purgeOnly : Bool) (db : Database) :
    Balanced db (Admin.deletePackage identity key purgeOnly db) := by
  unfold Admin.deletePackage
  split
  · exact .refl db
  · next p _ =>
    have hpurged := purgeRows_balanced (p.versions.rows.flatMap (Admin.fileRefs p)) db
    dsimp only
    split
    · exact hpurged.audited _
    · exact (hpurged.trans (Minireg.deletePackage_balanced _ p)).audited _

/-! ## Runs -/

/-- What changes the tables of files and blobs, each as a whole. -/
inductive BlobAction where
  /-- A publish, an unpublish, a retag, or a refresh with its pruning. -/
  | request (r : Request)
  | record (file : FileRef) (stored : NpmPublish.Digests) (stands : Bool)
  | evict (e : Eviction) (candidates : List Sha) (freed : Nat)
  | retireUpstream (upstream : Upstream)
  | purgeCache (identity : Identity) (ecosystem : Option Ecosystem) (chosen : FileRef → Bool)
  | deletePackage (identity : Identity) (key : Ecosystem × String) (purgeOnly : Bool)
  | collectOrphans

def BlobAction.run (db : Database) : BlobAction → Database
  | .request r => r.after db
  | .record file stored stands => (db.record file stored stands).getD db
  | .evict e candidates freed => (e.batch candidates (db, freed)).1
  | .retireUpstream upstream => (db.retireUpstreamContent upstream).1
  | .purgeCache identity ecosystem chosen => Admin.purgeCache identity ecosystem chosen db
  | .deletePackage identity key purgeOnly => Admin.deletePackage identity key purgeOnly db
  | .collectOrphans => db.collectOrphanBlobs

/-- **One action** leaves no count short. -/
theorem Database.Covered.run {db : Database} (hc : db.Covered) (a : BlobAction) :
    (a.run db).Covered := by
  cases a with
  | request r => exact hc.balanced (r.balanced db)
  | record file stored stands =>
    rcases hrecord : db.record file stored stands with _ | db'
    · simpa [BlobAction.run, hrecord] using hc
    · simpa [BlobAction.run, hrecord] using hc.balanced (record_balanced hrecord)
  | evict e candidates freed => exact hc.batch e candidates (db, freed)
  | retireUpstream upstream => exact hc.balanced (retireUpstreamContent_balanced db upstream)
  | purgeCache identity ecosystem chosen => exact (hc.balanced (purgeRows_balanced _ db)).collect
  | deletePackage identity key purgeOnly =>
    exact hc.balanced (Admin.deletePackage_balanced identity key purgeOnly db)
  | collectOrphans => exact hc.collect

theorem Database.Covered.runs {db : Database} (hc : db.Covered) (actions : List BlobAction) :
    (actions.foldl BlobAction.run db).Covered := by
  induction actions generalizing db with
  | nil => exact hc
  | cons a actions ih => exact ih (hc.run a)

/-- Blob rows and the file rows that point at them. -/
structure Counted (db : Database) : Prop where
  stored : ∀ f ∈ db.fileRows, ∀ sha, f.blobSha256 = some sha →
    ∃ blob ∈ db.blobs, blob.sha256 = sha
  covered : ∀ blob ∈ db.blobs,
    (db.fileRows.countP (·.blobSha256 = some blob.sha256) : Int) ≤ blob.refcount
  unreferenced : ∀ blob ∈ db.blobs, blob.refcount ≤ 0 →
    ∀ f ∈ db.fileRows, f.blobSha256 ≠ some blob.sha256

theorem Database.Covered.counted {db : Database} (hc : db.Covered) : Counted db := by
  have hpoints : ∀ f ∈ db.fileRows, ∀ sha, f.blobSha256 = some sha → 0 < db.count sha := by
    intro f hf sha hsha
    have hpos : 0 < db.fileRows.countP (·.blobSha256 = some sha) :=
      List.countP_pos_iff.mpr ⟨f, hf, decide_eq_true hsha⟩
    have := hc sha
    rw [Database.pointers_eq_countP] at this
    omega
  have hcount : ∀ blob ∈ db.blobs, db.count blob.sha256 = blob.refcount := by
    intro blob hblob
    rw [Database.count, Table.find?_of_mem hblob, Option.elim_some]
  refine ⟨fun f hf sha hsha => ?_, fun blob hblob => ?_, fun blob hblob hzero f hf hsha => ?_⟩
  · have hpos := hpoints f hf sha hsha
    unfold Database.count at hpos
    rcases hfound : db.blobs.find? sha with _ | blob
    · rw [hfound, Option.elim_none] at hpos
      omega
    · exact ⟨blob, Table.find?_mem hfound, Table.find?_key hfound⟩
  · rw [← hcount blob hblob, ← Database.pointers_eq_countP]
    exact hc blob.sha256
  · have := hpoints f hf blob.sha256 hsha
    rw [hcount blob hblob] at this
    omega

/-- **Reference counts never fall short**: from empty tables, after any actions. -/
theorem references_counted (actions : List BlobAction) :
    Counted (actions.foldl BlobAction.run {}) :=
  Database.Covered.counted (.runs (fun _ => Int.le_refl _) actions)

end Minireg
