import Minireg.Api.Tombstones
import Minireg.Services.References
import Minireg.Upstreams.PypiProvider

/-!
# The releases of a PyPI project

A local release is the only one of its version, holds one sdist at most, and no filename is there
twice. An upload looks a release up by PEP 440 equality. A refresh looks it up by the normal form
alone, so an answer that was asked for before the project became local can put a release beside
its equal: `KeepsApart` is the condition on a refresh under which it does not.
-/

namespace Minireg

open Py Lib

/-- What is normalised is still the version it was. -/
def Pep440.ReadsBack (pep : Pep440) : Prop :=
  ∀ version, pep.key? (pep.normalize version) = pep.key? version

/-- Equality with a version that parses. -/
theorem Pep440.ReadsBack.equal_iff {pep : Pep440} (hpep : pep.ReadsBack) {a b k : String}
    (ha : pep.key? a = some k) : pep.equal a b = true ↔ pep.key? b = some k := by
  unfold Pep440.equal
  rw [ha]
  rcases hb : pep.key? b with _ | k'
  · refine iff_of_false (fun hsame => ?_) (by simp)
    have hkeys := congrArg pep.key? (of_decide_eq_true hsame)
    rw [hpep, hpep, ha, hb] at hkeys
    cases hkeys
  · simp [eq_comm]

/-! ## The releases of a project -/

variable (names : DistNames)

/-- A release under its normal form. The files of a local one are named for a version equal to it,
those of a mirrored one for its normal form. -/
structure PackageVersion.Filed (v : PackageVersion) : Prop where
  normal : v.normalizedVersion = names.pep440.normalize v.version
  parses : v.isLocal = true → (names.pep440.key? v.version).isSome = true
  uploaded : v.isLocal = true → ∀ f ∈ v.files,
    names.pep440.key? (names.versionOf f.filename) = names.pep440.key? v.version
  mirrored : v.isLocal = false → ∀ f ∈ v.files,
    v.normalizedVersion = names.pep440.normalize (names.versionOf f.filename)

def isSdist (f : PackageFile) : Bool := f.packagetype = some "sdist"

structure Released (versions : Table PackageVersion.normalizedVersion) : Prop where
  filed : ∀ v ∈ versions, v.Filed names
  apart : ∀ v ∈ versions, v.isLocal = true → ∀ w ∈ versions,
    names.pep440.equal v.version w.version = true → v = w
  sdists : ∀ v ∈ versions, v.isLocal = true → v.files.rows.countP isSdist ≤ 1

def Database.Released (db : Database) : Prop :=
  ∀ p ∈ db.packages, p.ecosystem = .pypi → Minireg.Released names p.versions

section Releases

variable {names} {versions : Table PackageVersion.normalizedVersion}

theorem Released.empty : Released names (.empty _) where
  filed _ hv := absurd hv Table.not_mem_empty
  apart _ hv := absurd hv Table.not_mem_empty
  sdists _ hv := absurd hv Table.not_mem_empty

/-- The key of a file's name is that of its release. -/
theorem PackageVersion.Filed.key (hpep : names.pep440.ReadsBack) {v : PackageVersion}
    (h : v.Filed names) {f : PackageFile} (hf : f ∈ v.files) :
    names.pep440.key? (names.versionOf f.filename) = names.pep440.key? v.version := by
  cases hlocal : v.isLocal with
  | true => exact h.uploaded hlocal f hf
  | false =>
    have hsame := congrArg names.pep440.key? ((h.normal).symm.trans (h.mirrored hlocal f hf))
    rw [hpep, hpep] at hsame
    exact hsame.symm

/-- **A filename is in one release.** -/
theorem Released.filename_unique (hpep : names.pep440.ReadsBack) (h : Released names versions)
    {v w : PackageVersion} (hv : v ∈ versions) (hw : w ∈ versions) {f g : PackageFile}
    (hf : f ∈ v.files) (hg : g ∈ w.files) (hname : f.filename = g.filename) :
    v = w ∧ f = g := by
  have hkeys : names.pep440.key? v.version = names.pep440.key? w.version := by
    rw [← (h.filed v hv).key hpep hf, ← (h.filed w hw).key hpep hg, hname]
  have hrow : v = w := by
    -- one of them is local, and equal to the other; or both are under the same normal form
    have hlocal : ∀ v ∈ versions, ∀ w ∈ versions, v.isLocal = true →
        names.pep440.key? v.version = names.pep440.key? w.version → v = w := by
      intro v hv w hw hl hsame
      obtain ⟨k, hk⟩ := Option.isSome_iff_exists.mp ((h.filed v hv).parses hl)
      exact h.apart v hv hl w hw ((hpep.equal_iff hk).mpr (hsame.symm.trans hk))
    cases hlv : v.isLocal with
    | true => exact hlocal v hv w hw hlv hkeys
    | false =>
      cases hlw : w.isLocal with
      | true => exact (hlocal w hw v hv hlw hkeys.symm).symm
      | false =>
        refine Table.eq_of_key hv hw ?_
        rw [(h.filed v hv).mirrored hlv f hf, (h.filed w hw).mirrored hlw g hg, hname]
  subst hrow
  exact ⟨rfl, Table.eq_of_key hf hg hname⟩

/-- A mirrored row that is put where no local one is. -/
theorem Released.put_mirrored (h : Released names versions) {v' : PackageVersion}
    (hfiled : v'.Filed names) (hmirrored : v'.isLocal = false)
    (hapart : ∀ v ∈ versions, v.isLocal = true → v.normalizedVersion ≠ v'.normalizedVersion →
      names.pep440.equal v.version v'.version = false) :
    Released names (versions.put v') where
  filed v hv := by
    rcases Table.mem_put.mp hv with rfl | ⟨hv, -⟩
    · exact hfiled
    · exact h.filed v hv
  apart v hv hl w hw heq := by
    rcases Table.mem_put.mp hv with rfl | ⟨hold, hne⟩
    · rw [hmirrored] at hl
      cases hl
    · rcases Table.mem_put.mp hw with rfl | ⟨hw, -⟩
      · rw [hapart v hold hl hne] at heq
        cases heq
      · exact h.apart v hold hl w hw heq
  sdists v hv hl := by
    rcases Table.mem_put.mp hv with rfl | ⟨hv, -⟩
    · rw [hmirrored] at hl
      cases hl
    · exact h.sdists v hv hl

/-! ## A refresh -/

section Refresh

variable {nm : Naming} {defaultSource : Option Nat}

theorem persistFiles_filename (files : List RemoteFile) (s : PackageVersion × Bool) :
    ∀ g ∈ (files.foldl (persistFile defaultSource) s).1.files,
      (∃ f ∈ s.1.files, f.filename = g.filename) ∨ ∃ rf ∈ files, rf.filename = g.filename := by
  induction files generalizing s with
  | nil => exact fun g hg => .inl ⟨g, hg, rfl⟩
  | cons remote files ih =>
    have hone : ∀ g ∈ (persistFile defaultSource s remote).1.files,
        (∃ f ∈ s.1.files, f.filename = g.filename) ∨ remote.filename = g.filename := by
      intro g hg
      unfold persistFile at hg
      split at hg
      · next row hrow =>
        rcases Table.mem_put.mp hg with rfl | ⟨hg, -⟩
        · exact .inr ((Table.find?_key hrow).symm.trans (applyFile_pointer _ _ _).1.symm)
        · exact .inl ⟨g, hg, rfl⟩
      · rcases Table.mem_put.mp hg with rfl | ⟨hg, -⟩
        · exact .inr (applyFile_pointer { filename := remote.filename } _ _).1.symm
        · exact .inl ⟨g, hg, rfl⟩
    intro g hg
    rcases ih _ g hg with ⟨f, hf, hname⟩ | ⟨rf, hrf, hname⟩
    · rcases hone f hf with ⟨f', hf', hname'⟩ | hname'
      · exact .inl ⟨f', hf', hname'.trans hname⟩
      · exact .inr ⟨remote, List.mem_cons_self, hname'.trans hname⟩
    · exact .inr ⟨rf, List.mem_cons_of_mem _ hrf, hname⟩

theorem persistFields_filename (remote : RemoteVersion) (isNew : Bool) (v : PackageVersion) :
    ∀ g ∈ (persistFields defaultSource remote isNew v).1.files,
      (∃ f ∈ v.files, f.filename = g.filename) ∨ ∃ rf ∈ remote.files, rf.filename = g.filename := by
  intro g hg
  unfold persistFields at hg
  dsimp only at hg
  have hfiles := persistFiles_filename _ _ g hg
  refine hfiles.imp_left fun ⟨f, hf, hname⟩ => ⟨f, ?_, hname⟩
  revert hf
  rcases remote.yanked with b | reason <;> simp only [assign_fst, implies_true] <;>
    split <;> simp only [assign_fst, implies_true, imp_self]

/-- A mirrored row stays filed when its version is persisted. -/
theorem PackageVersion.Filed.persisted {v v' : PackageVersion} (h : v.Filed names)
    (hmirrored : v.isLocal = false) {remote : RemoteVersion}
    (hnormal : v.normalizedVersion = names.pep440.normalize remote.version)
    (hplaced : ∀ f ∈ remote.files, remote.version = names.versionOf f.filename)
    (hsame : SameRow v v')
    (hfiles : ∀ g ∈ v'.files, (∃ f ∈ v.files, f.filename = g.filename) ∨
      ∃ rf ∈ remote.files, rf.filename = g.filename) : v'.Filed names where
  normal := by rw [hsame.normalizedVersion, hsame.version, h.normal]
  parses hl := by
    rw [hsame.isLocal, hmirrored] at hl
    cases hl
  uploaded hl := by
    rw [hsame.isLocal, hmirrored] at hl
    cases hl
  mirrored _ g hg := by
    rw [hsame.normalizedVersion]
    rcases hfiles g hg with ⟨f, hf, hname⟩ | ⟨rf, hrf, hname⟩
    · rw [← hname]
      exact h.mirrored hmirrored f hf
    · rw [← hname, ← hplaced rf hrf]
      exact hnormal

/-- A version of the answer equals no local release that it is not stored under. -/
def ApartFrom (names : DistNames) (versions : Table PackageVersion.normalizedVersion)
    (remotes : List RemoteVersion) : Prop :=
  ∀ remote ∈ remotes, ∀ v ∈ versions, v.isLocal = true →
    names.pep440.equal v.version remote.version = true →
      v.normalizedVersion = names.pep440.normalize remote.version

theorem Released.persistVersion (hnm : nm.normalizePypiVersion = names.pep440.normalize)
    (h : Released names versions) {remote : RemoteVersion}
    (hplaced : ∀ f ∈ remote.files, remote.version = names.versionOf f.filename)
    (hapart : ApartFrom names versions [remote]) :
    Released names (Minireg.persistVersion nm .pypi defaultSource versions remote) := by
  unfold Minireg.persistVersion
  have hnormal : normalizedVersion nm .pypi remote.version =
      names.pep440.normalize remote.version := congrFun hnm remote.version
  dsimp only
  rw [hnormal]
  rcases hfound : versions.find? (names.pep440.normalize remote.version) with _ | row
  · dsimp only
    have hsame : SameRow _ (persistFields defaultSource remote true _).1 :=
      persistFields_sameRow remote true
        { version := remote.version
          normalizedVersion := names.pep440.normalize remote.version
          upstreamId := versionSource defaultSource remote
          metadataJson := remote.metadata }
    have hnew : PackageVersion.Filed names
        { version := remote.version
          normalizedVersion := names.pep440.normalize remote.version
          upstreamId := versionSource defaultSource remote
          metadataJson := remote.metadata } :=
      ⟨rfl, fun hl => absurd hl Bool.false_ne_true, fun hl => absurd hl Bool.false_ne_true,
        fun _ f hf => absurd hf Table.not_mem_empty⟩
    refine h.put_mirrored (hnew.persisted rfl rfl hplaced hsame
      (persistFields_filename remote true _)) hsame.isLocal fun v hv hl _ => ?_
    by_contra heq
    rw [hsame.version] at heq
    exact Table.find?_eq_none_iff.mp hfound v hv
      (hapart remote List.mem_cons_self v hv hl (by simpa using heq))
  · obtain ⟨hrow, hkey⟩ := Table.find?_eq_some_iff.mp hfound
    dsimp only
    split
    · exact h
    · next hl =>
      have hl : row.isLocal = false := by simpa using hl
      have hsame : SameRow row (persistFields defaultSource remote false row).1 :=
        persistFields_sameRow remote false row
      -- only the row that is there is rewritten, and it equals no local one
      have hwritten : ∀ v', SameRow row v' →
          v'.files = (persistFields defaultSource remote false row).1.files →
          Released names (versions.put v') := by
        intro v' hv' hsameFiles
        have hfiled := (h.filed row hrow).persisted hl hkey hplaced hv'
          (hsameFiles ▸ persistFields_filename remote false row)
        refine h.put_mirrored hfiled (hv'.isLocal.trans hl) fun v hv hlv _ => ?_
        by_contra heq
        rw [hv'.version] at heq
        have hrows := h.apart v hv hlv row hrow (by simpa using heq)
        rw [hrows, hl] at hlv
        cases hlv
      split
      · exact hwritten _ ⟨hsame.version, hsame.normalizedVersion, hsame.isLocal⟩ rfl
      · exact hwritten _ hsame rfl

theorem Released.persistVersions (hnm : nm.normalizePypiVersion = names.pep440.normalize)
    (source : Nat) (remotes : List RemoteVersion) (h : Released names versions)
    (hplaced : names.Placed remotes) (hapart : ApartFrom names versions remotes) :
    Released names (remotes.foldl (Minireg.persistVersion nm .pypi (some source)) versions) := by
  induction remotes generalizing versions with
  | nil => exact h
  | cons remote remotes ih =>
    have hone : Released names (Minireg.persistVersion nm .pypi (some source) versions remote) :=
      h.persistVersion hnm (hplaced remote List.mem_cons_self) fun rv hrv => by
        obtain rfl := List.mem_singleton.mp hrv
        exact hapart rv List.mem_cons_self
    refine ih hone (fun rv hrv => hplaced rv (List.mem_cons_of_mem _ hrv)) fun rv hrv v hv hl => ?_
    -- a local row was there before the answer
    have hsources : ∀ rv ∈ [remote], Sources (fun _ => True) (some source) rv :=
      fun rv _ => ⟨⟨source, rfl, trivial⟩, fun _ _ _ _ => trivial⟩
    exact hapart rv (List.mem_cons_of_mem _ hrv) v
      (mem_of_persistVersions_local hsources hv hl) hl

theorem PackageVersion.Filed.dropFiles {v : PackageVersion} (h : v.Filed names)
    {live : Dict Nat Int} {answer : Option Present}
    (hdoomed : doomedVersion live answer v = false) :
    (Minireg.dropFiles live answer v).Filed names := by
  cases hl : v.isLocal with
  | true =>
    rw [dropFiles_local hl]
    exact h
  | false =>
    have hlocal : (Minireg.dropFiles live answer v).isLocal = false :=
      (dropFiles_isLocal live answer v).trans hl
    refine ⟨?_, fun hl' => absurd (hlocal.symm.trans hl') Bool.false_ne_true,
      fun hl' => absurd (hlocal.symm.trans hl') Bool.false_ne_true, fun _ f hf => ?_⟩
    · rw [dropFiles_normalizedVersion, dropFiles_version]
      exact h.normal
    · rw [dropFiles_normalizedVersion]
      have hrows : f ∈ (Minireg.dropFiles live answer v).files.rows := hf
      rw [dropFiles_files hl hdoomed] at hrows
      exact h.mirrored hl f (List.mem_filter.mp hrows).1

theorem Released.pruned {table : UpstreamTable} {ecosystem : Ecosystem} {package : Package}
    {answer : Option (RemotePackage × Int)} (h : Released names package.versions) :
    Released names (pruneUnsourced nm table ecosystem package answer).1.versions := by
  have hmem := pruneUnsourced_versions nm table ecosystem package answer
  have hlocal : ∀ {live : Dict Nat Int} {present : Option Present} {v : PackageVersion},
      (Minireg.dropFiles live present v).isLocal = true → Minireg.dropFiles live present v = v := by
    intro live present v hl
    exact dropFiles_local ((dropFiles_isLocal live present v).symm.trans hl) present
  refine ⟨fun v hv => ?_, fun v hv hl w hw heq => ?_, fun v hv hl => ?_⟩
  · obtain ⟨old, hold, hdoomed, rfl⟩ := (hmem v).mp hv
    exact (h.filed old hold).dropFiles hdoomed
  · obtain ⟨v, hold, -, rfl⟩ := (hmem _).mp hv
    obtain ⟨w, holdw, -, rfl⟩ := (hmem _).mp hw
    have hsame := hlocal hl
    rw [hsame] at hl heq ⊢
    rw [dropFiles_version] at heq
    rw [← h.apart v hold hl w holdw heq, dropFiles_local hl]
  · obtain ⟨v, hold, -, rfl⟩ := (hmem _).mp hv
    have hsame := hlocal hl
    rw [hsame] at hl ⊢
    exact h.sdists v hold hl

end Refresh

/-! ## An upload -/

/-- A local row that equals no other one. -/
theorem Released.put_local (h : Released names versions) {v' : PackageVersion}
    (hfiled : v'.Filed names) (hsdists : v'.files.rows.countP isSdist ≤ 1)
    (hapart : ∀ w ∈ versions, w.normalizedVersion ≠ v'.normalizedVersion →
      names.pep440.equal v'.version w.version = false) :
    Released names (versions.put v') where
  filed v hv := by
    rcases Table.mem_put.mp hv with rfl | ⟨hv, -⟩
    · exact hfiled
    · exact h.filed v hv
  apart v hv hl w hw heq := by
    rcases Table.mem_put.mp hv with rfl | ⟨hold, hne⟩ <;>
      rcases Table.mem_put.mp hw with rfl | ⟨holdw, hnew⟩
    · rfl
    · rw [hapart w holdw hnew] at heq
      cases heq
    · rw [equal_symm, hapart v hold hne] at heq
      cases heq
    · exact h.apart v hold hl w holdw heq
  sdists v hv hl := by
    rcases Table.mem_put.mp hv with rfl | ⟨hv, -⟩
    · exact hsdists
    · exact h.sdists v hv hl

/-- One more file, where its name is new and there is no second sdist. -/
theorem countP_put_file {files : Table PackageFile.filename} {f : PackageFile}
    (hfresh : files.find? f.filename = none) (hcount : files.rows.countP isSdist ≤ 1)
    (hsdist : isSdist f = true → files.rows.any isSdist = false) :
    (files.put f).rows.countP isSdist ≤ 1 := by
  rw [Table.put_rows_of_fresh (Table.find?_eq_none_iff.mp hfresh), List.countP_append,
    List.countP_singleton]
  split
  · next hf =>
    have hnone : files.rows.countP isSdist = 0 :=
      List.countP_eq_zero.mpr fun g hg hs => absurd (List.any_eq_true.mpr ⟨g, hg, hs⟩)
        (by simp [hsdist hf])
    omega
  · omega

section Upload

variable {env : RegistryEnv} {package : Package} {request : PypiPublish.UploadRequest}
  {metadata : Option NpmPublish.Bytes} {scan : Scan}

/-- The requests of a registry read versions and filenames with one `packaging`. -/
structure RegistryEnv.Speaks (env : RegistryEnv) (names : DistNames) : Prop where
  pep440 : env.pep440 = names.pep440
  wheel : env.parseWheelFilename = names.parseWheelFilename
  sdist : env.parseSdistFilename = names.parseSdistFilename

theorem readUpload_named (henv : env.Speaks names) {form : Pypi.UploadForm}
    (h : Pypi.readUpload env form = .ok (request, metadata)) :
    names.pep440.normalize (names.versionOf request.filename) =
      names.pep440.normalize request.version := by
  unfold Pypi.readUpload at h
  obtain ⟨parsed, hparsed, h⟩ := bind_ok h
  have hnamed : names.pep440.normalize (names.versionOf parsed.filename) =
      names.pep440.normalize parsed.version :=
    DistNames.versionOf_upload henv.pep440 henv.wheel henv.sdist hparsed
  split at h
  · obtain ⟨⟨requiresPython, raw⟩, -, h⟩ := bind_ok h
    obtain ⟨rfl, -⟩ := Prod.mk.inj (Except.ok.inj h)
    exact hnamed
  · obtain ⟨rfl, -⟩ := Prod.mk.inj (Except.ok.inj h)
    exact hnamed

/-- The row an upload is filed under: what it is found by, and the files it has then. -/
theorem storeUpload_versions (metadata : Option NpmPublish.Bytes) (scan : Scan)
    (row : PackageVersion)
    (hrow : (Pypi.targetRow env package request.version).getD (Pypi.newRelease env request scan) =
      row) :
    ∃ v', (Pypi.storeUpload env request metadata scan package).versions =
        package.versions.put v' ∧ SameRow row v' ∧
      v'.files = row.files.put (Pypi.uploadedFile env request metadata) := by
  subst hrow
  obtain ⟨hversion, hnormalized, hlocal⟩ := Pypi.rescanRow_frame env scan
    ((Pypi.targetRow env package request.version).getD (Pypi.newRelease env request scan))
  exact ⟨_, rfl, ⟨hversion, hnormalized, hlocal⟩,
    congrArg (Table.put · (Pypi.uploadedFile env request metadata))
      (Pypi.rescanRow_files env scan _)⟩

theorem releaseError_none {row : PackageVersion}
    (h : Pypi.releaseError request (some row) = none) :
    row.files.find? request.filename = none ∧
      (request.filetype = "sdist" → row.files.rows.any isSdist = false) := by
  unfold Pypi.releaseError at h
  rw [Option.bind_some] at h
  split at h
  · cases h
  · next hfresh =>
    refine ⟨by simpa using hfresh, fun hsdist => ?_⟩
    split at h
    · cases h
    · next hnone => simpa [hsdist, isSdist] using hnone

/-- **An upload files under the local release that it equals**, or opens one. -/
theorem Released.uploaded (hpep : names.pep440.ReadsBack) (henv : env.Speaks names)
    (h : Released names package.versions)
    (hparses : (names.pep440.key? request.version).isSome = true)
    (hnamed : names.pep440.normalize (names.versionOf request.filename) =
      names.pep440.normalize request.version)
    (hmirrored : Pypi.mirroredRow env package request.version = none)
    (hfits : Pypi.releaseError request (Pypi.targetRow env package request.version) = none) :
    Released names (Pypi.storeUpload env request metadata scan package).versions := by
  obtain ⟨k, hk⟩ := Option.isSome_iff_exists.mp hparses
  have hfile : names.pep440.key? (names.versionOf request.filename) = some k := by
    rw [← hpep, hnamed, hpep, hk]
  -- the row, with the key of the upload, before the file is added
  have hput : ∀ (row v' : PackageVersion), row.isLocal = true → row.Filed names →
      names.pep440.key? row.version = some k → row.files.rows.countP isSdist ≤ 1 →
      row.files.find? request.filename = none →
      (request.filetype = "sdist" → row.files.rows.any isSdist = false) → SameRow row v' →
      v'.files = row.files.put (Pypi.uploadedFile env request metadata) →
      (∀ w ∈ package.versions, w.normalizedVersion ≠ row.normalizedVersion →
        names.pep440.equal row.version w.version = false) →
      Released names (package.versions.put v') := by
    intro row v' hl hfiled hkey hcount hfresh hsdist hsame hfiles hapart
    refine h.put_local ⟨?_, fun _ => ?_, fun _ f hf => ?_, fun hl' => ?_⟩ ?_ ?_
    · rw [hsame.normalizedVersion, hsame.version]
      exact hfiled.normal
    · rw [hsame.version, hkey]
      rfl
    · rw [hsame.version]
      rw [hfiles] at hf
      rcases Table.mem_put.mp hf with rfl | ⟨hf, -⟩
      · exact hfile.trans hkey.symm
      · exact hfiled.uploaded hl f hf
    · rw [hsame.isLocal, hl] at hl'
      cases hl'
    · rw [hfiles]
      refine countP_put_file hfresh hcount fun hs => hsdist ?_
      exact Option.some.inj (of_decide_eq_true hs)
    · intro w hw hne
      rw [hsame.normalizedVersion] at hne
      rw [hsame.version]
      exact hapart w hw hne
  rcases targetRow_cases hmirrored with ⟨old, hold, hl, htarget⟩ | ⟨htarget, hnone⟩
  · obtain ⟨v', hversions, hsame, hfiles⟩ := storeUpload_versions metadata scan old
      (by rw [htarget]; rfl)
    rw [htarget] at hfits
    obtain ⟨hfresh, hsdist⟩ := releaseError_none hfits
    have hfiled := h.filed old hold
    obtain ⟨k', hk'⟩ := Option.isSome_iff_exists.mp (hfiled.parses hl)
    have hkey : names.pep440.key? old.version = some k := by
      have heq := (List.mem_filter.mp (Pypi.targetRow_mem htarget)).2
      rw [henv.pep440, hfiled.normal, hpep.equal_iff ((hpep _).trans hk'), hk] at heq
      rw [hk', Option.some.inj heq]
    rw [hversions]
    refine hput old v' hl hfiled hkey (h.sdists old hold hl) hfresh hsdist hsame hfiles ?_
    intro w hw hne
    by_contra heq
    exact hne (congrArg PackageVersion.normalizedVersion
      (h.apart old hold hl w hw (by simpa using heq))).symm
  · obtain ⟨v', hversions, hsame, hfiles⟩ := storeUpload_versions metadata scan
      (Pypi.newRelease env request scan) (by rw [htarget]; rfl)
    rw [hversions]
    have hnormal : (Pypi.newRelease env request scan).normalizedVersion =
        names.pep440.normalize request.version := by
      rw [← henv.pep440]
      rfl
    refine hput _ v' rfl ⟨hnormal, fun _ => hparses, fun _ f hf => absurd hf Table.not_mem_empty,
      fun _ f hf => absurd hf Table.not_mem_empty⟩ hk (Nat.zero_le 1) rfl (fun _ => rfl) hsame
      hfiles fun w hw hne => ?_
    have hno := hnone w hw
    by_contra heq
    have hkey := (hpep.equal_iff hk).mp (Bool.eq_true_of_not_eq_false heq)
    rw [henv.pep440, (h.filed w hw).normal,
      (hpep.equal_iff ((hpep _).trans hkey)).mpr hk] at hno
    cases hno

/-- **A mirrored release gets no file from an upload.** -/
theorem storeUpload_mirrored (hpep : names.pep440.ReadsBack) (henv : env.Speaks names)
    (hparses : (names.pep440.key? request.version).isSome = true)
    (hmirrored : Pypi.mirroredRow env package request.version = none) {v : PackageVersion}
    (hv : v ∈ package.versions) (hl : v.isLocal = false) :
    v ∈ (Pypi.storeUpload env request metadata scan package).versions := by
  obtain ⟨k, hk⟩ := Option.isSome_iff_exists.mp hparses
  rcases targetRow_cases hmirrored with ⟨old, hold, hlocal, htarget⟩ | ⟨htarget, hnone⟩
  · obtain ⟨v', hversions, hsame, -⟩ := storeUpload_versions metadata scan old
      (by rw [htarget]; rfl)
    rw [hversions]
    refine Table.mem_put.mpr (.inr ⟨hv, fun hkey => ?_⟩)
    rw [hsame.normalizedVersion] at hkey
    rw [Table.eq_of_key hv hold hkey, hlocal] at hl
    cases hl
  · obtain ⟨v', hversions, hsame, -⟩ := storeUpload_versions metadata scan
      (Pypi.newRelease env request scan) (by rw [htarget]; rfl)
    rw [hversions]
    refine Table.mem_put.mpr (.inr ⟨hv, fun hkey => ?_⟩)
    -- the new release reads as the upload, so the row of its normal form would equal it
    have hno := hnone v hv
    have hnormal : v.normalizedVersion = names.pep440.normalize request.version := by
      rw [hkey, hsame.normalizedVersion, ← henv.pep440]
      rfl
    rw [henv.pep440, hnormal, (hpep.equal_iff ((hpep _).trans hk)).mpr hk] at hno
    cases hno

end Upload

end Releases

/-! ## Requests -/

/-- What an upload does to the packages. -/
inductive UploadChange (r : Request) (form : Pypi.UploadForm) (db db' : Database) : Prop where
  | nothing (packages : db'.packages = db.packages)
  | opened {name : String} {grant : PublishGrant}
      (granted : grant.package = db.package? .pypi (r.env.normalizedFor .pypi name))
      (packages : db'.packages = db.packages.put
        (openPackage .pypi name (r.env.normalizedFor .pypi name) grant))
  | stored {request : PypiPublish.UploadRequest} {metadata : Option NpmPublish.Bytes}
      {grant : PublishGrant} {scan : Scan} {package : Package}
      (read : Pypi.readUpload r.env form = .ok (request, metadata))
      (granted : grant.package = db.package? .pypi (r.env.normalizedFor .pypi request.name))
      (opens : package =
        openPackage .pypi request.name (r.env.normalizedFor .pypi request.name) grant)
      (notMirrored : Pypi.mirroredRow r.env package request.version = none)
      (fits : Pypi.releaseError request (Pypi.targetRow r.env package request.version) = none)
      (packages : db'.packages = db.packages.put
        (Pypi.storeUpload r.env request metadata scan package))

theorem upload_stores {r : Request} {db : Database} (form : Pypi.UploadForm) :
    UploadChange r form db (Pypi.upload r.env r.identity form (.start db)).1.committed := by
  unfold Pypi.upload
  split
  · exact .nothing rfl
  · next request metadata hread =>
    dsimp only
    split
    · exact .nothing rfl
    · split
      · exact .nothing rfl
      · split
        · exact .nothing rfl
        · next grant hgrant =>
          have hpackage := authorizeUpload_package hgrant
          unfold Pypi.fileUpload
          dsimp only
          split
          · exact .opened hpackage rfl
          · next hmirrored =>
            split
            · exact .nothing rfl
            · next hfits =>
              split
              · exact .nothing rfl
              · split
                · exact .nothing rfl
                · split
                  · exact .nothing rfl
                  · exact .stored hread hpackage rfl hmirrored hfits
                      ((congrArg (Table.put · _) (Database.retainBlob_packages _)).trans
                        (Table.put_put rfl))

/-- A refresh names no version that equals a local release stored under another normal form. -/
def Request.KeepsApart (r : Request) (db : Database) : Prop :=
  ∀ table name remote upstream validators tier,
    r.operation = .refresh .pypi table name (.answered remote upstream validators tier) →
      ∀ p, db.package? .pypi
          (r.env.normalizedFor .pypi (if remote.name ≠ "" then remote.name else name)) = some p →
        ApartFrom names p.versions remote.versions

/-- The request reads versions and filenames as the others do, and a PyPI upstream answers what
its provider assembles. -/
structure Request.Genuine (names : DistNames) (r : Request) : Prop where
  speaks : r.env.Speaks names
  answers : ∀ table name remote upstream validators tier,
    r.operation = .refresh .pypi table name (.answered remote upstream validators tier) →
      names.SimpleAnswer remote

/-- Requests in any order, on a registry that starts empty. -/
def pypiRegistry (names : DistNames) : System Database Request where
  init db := db = {}
  Step db r db' := r.Genuine names ∧ db' = r.after db

section Step

variable {names} {r : Request} {db db' : Database}

theorem Database.Released.put (h : db.Released names) {p' : Package}
    (hput : db'.packages = db.packages.put p')
    (hp' : p'.ecosystem = .pypi → Minireg.Released names p'.versions) : db'.Released names := by
  intro p hp heco
  rw [hput] at hp
  rcases Table.mem_put.mp hp with rfl | ⟨hp, -⟩
  · exact hp' heco
  · exact h p hp heco

/-- The package that an upload opens has the releases that were there. -/
theorem Database.Released.opened (h : db.Released names) {name normalized : String}
    {grant : PublishGrant} (hgrant : grant.package = db.package? .pypi normalized) :
    Minireg.Released names (openPackage .pypi name normalized grant).versions := by
  unfold openPackage
  rw [hgrant]
  rcases hfound : db.package? .pypi normalized with _ | p
  · exact Released.empty
  · obtain ⟨hp, hkey⟩ := Table.find?_eq_some_iff.mp hfound
    exact h p hp (congrArg Prod.fst hkey)

theorem Database.Released.upload (hpep : names.pep440.ReadsBack) (henv : r.env.Speaks names)
    (h : db.Released names) {form : Pypi.UploadForm} (hchange : UploadChange r form db db') :
    db'.Released names := by
  cases hchange with
  | nothing packages => exact fun p hp => h p (packages ▸ hp)
  | opened granted packages => exact h.put packages fun _ => h.opened granted
  | stored read granted opens notMirrored fits packages =>
    refine h.put packages fun _ => ?_
    have hparses := readUpload_parses read
    rw [henv.pep440] at hparses
    exact (opens ▸ h.opened granted : Minireg.Released names _).uploaded hpep henv hparses
      (readUpload_named henv read) notMirrored fits

theorem Database.Released.refresh (hgenuine : r.Genuine names) (h : db.Released names)
    {ecosystem : Ecosystem} {table : UpstreamTable} {name : String} {resolution : Resolution}
    (hop : r.operation = .refresh ecosystem table name resolution)
    (hapart : r.KeepsApart names db)
    (hchange : RefreshChange r.env ecosystem name resolution db db') : db'.Released names := by
  cases hchange with
  | nothing packages => exact fun p hp => h p (packages ▸ hp)
  | @settled table stored package cachedAt _ _ _ found pruned _ packages =>
    refine h.put packages fun heco => ?_
    have hpackage : (pruneUnsourced r.env.naming table ecosystem
        { stored with cachedAt := cachedAt } none).1 = package := congrArg Prod.fst pruned
    have hkey : package.key = stored.key :=
      hpackage ▸ pruneUnsourced_key r.env.naming table ecosystem _ none
    obtain ⟨hstored, -⟩ := Table.find?_eq_some_iff.mp found
    have hold : Minireg.Released names stored.versions :=
      h stored hstored ((congrArg Prod.fst hkey).symm.trans heco)
    rw [← hpackage]
    exact Released.pruned hold
  | @answered table' normalized persisted package remote upstream validators tier _ _ named resolved
      persists keyed _ pruned _ packages =>
    refine h.put packages fun heco => ?_
    have hpackage : (pruneUnsourced r.env.naming table' ecosystem persisted
        (some (remote, tier))).1 = package := congrArg Prod.fst pruned
    have hkey : package.key = persisted.key :=
      hpackage ▸ pruneUnsourced_key r.env.naming table' ecosystem persisted _
    obtain rfl : ecosystem = .pypi := by
      rw [keyed] at hkey
      exact (congrArg Prod.fst hkey).symm.trans heco
    rw [resolved] at hop
    have hplaced : names.Placed remote.versions :=
      (hgenuine.answers _ _ _ _ _ _ hop).placed
    have hnm : r.env.naming.normalizePypiVersion = names.pep440.normalize :=
      congrArg Pep440.normalize hgenuine.speaks.pep440
    have hversions := persist_versions persists
    have hpersisted : Minireg.Released names persisted.versions := by
      rw [hversions]
      subst named
      rcases hfound : db.package? .pypi _ with _ | p
      · exact Released.empty.persistVersions hnm upstream.id remote.versions hplaced
          fun _ _ v hv => absurd hv Table.not_mem_empty
      · obtain ⟨hp, hkey'⟩ := Table.find?_eq_some_iff.mp hfound
        exact (h p hp (congrArg Prod.fst hkey')).persistVersions hnm upstream.id remote.versions
          hplaced (hapart _ _ _ _ _ _ hop p hfound)
    rw [← hpackage]
    exact hpersisted.pruned

/-- A package of another ecosystem holds no PyPI release. -/
theorem Database.Released.npm (h : db.Released names) {p : Package}
    (hput : db'.packages = db.packages.put p) (hnpm : p.ecosystem = .npm) : db'.Released names :=
  h.put hput fun heco => absurd (hnpm.symm.trans heco) (by decide)

/-- **A request keeps the releases**, a refresh if its answer keeps apart from them. -/
theorem Database.Released.after (hpep : names.pep440.ReadsBack) (hgenuine : r.Genuine names)
    (h : db.Released names) (hapart : r.KeepsApart names db) : (r.after db).Released names := by
  have hchange := Request.change r db
  have huploads : ∀ form, r.operation = .upload form → UploadChange r form db (r.after db) := by
    intro form hop
    unfold Request.after Request.handle
    rw [hop]
    exact upload_stores form
  generalize r.after db = db' at hchange huploads ⊢
  cases hchange with
  | nothing packages _ => exact fun p hp => h p (packages ▸ hp)
  | published _ _ granted _ _ _ _ tagged packages _ =>
    have hkey := (Npm.tagPackage_frame tagged).key.trans (openPackage_key _ granted)
    exact h.npm packages (congrArg Prod.fst hkey)
  | deprecated _ ecosystem packages _ => exact h.npm packages ecosystem
  | opened granted packages _ => exact h.put packages fun _ => h.opened granted
  | uploaded operation _ _ _ _ _ _ _ =>
    exact h.upload hpep hgenuine.speaks (huploads _ operation)
  | tagged _ ecosystem _ packages _ => exact h.npm packages ecosystem
  | untagged _ ecosystem packages _ => exact h.npm packages ecosystem
  | unpublished _ found _ _ packages _ => exact h.npm packages (found_npm found).2
  | removed _ _ _ packages _ =>
    intro p hp
    rw [packages] at hp
    exact h p (Table.mem_filter.mp hp).1
  | updated _ ecosystem _ edited _ packages _ =>
    have hkey := (Npm.updatedPackage_frame edited).key
    exact h.npm packages ((congrArg Prod.fst hkey).trans ecosystem)
  | refreshed operation stored =>
    exact h.refresh hgenuine operation hapart (refresh_change stored).1

/-- An upload leaves the mirrored releases as they are. -/
theorem UploadChange.mirrored (hpep : names.pep440.ReadsBack) (henv : r.env.Speaks names)
    {form : Pypi.UploadForm} (hchange : UploadChange r form db db') {p : Package}
    (hp : p ∈ db.packages) {v : PackageVersion} (hv : v ∈ p.versions) (hl : v.isLocal = false) :
    ∃ p' ∈ db'.packages, p'.key = p.key ∧ v ∈ p'.versions := by
  -- what is put has the key of the package that the upload opens, and at least its releases
  have hput : ∀ {name normalized : String} {grant : PublishGrant} (p' : Package),
      grant.package = db.package? .pypi normalized →
      p'.key = (openPackage .pypi name normalized grant).key →
      (v ∈ (openPackage .pypi name normalized grant).versions → v ∈ p'.versions) →
      db'.packages = db.packages.put p' → ∃ p' ∈ db'.packages, p'.key = p.key ∧ v ∈ p'.versions := by
    intro name normalized grant p' hgrant hkey hversions hpackages
    have hopened := openPackage_key name hgrant
    rw [hpackages]
    by_cases hsame : p.key = p'.key
    · refine ⟨p', Table.mem_put.mpr (.inl rfl), hsame.symm, hversions ?_⟩
      have hfound : grant.package = some p :=
        hgrant.trans (Table.find?_eq_some_iff.mpr ⟨hp, hsame.trans (hkey.trans hopened)⟩)
      unfold openPackage
      rw [hfound]
      exact hv
    · exact ⟨p, Table.mem_put.mpr (.inr ⟨hp, hsame⟩), rfl, hv⟩
  cases hchange with
  | nothing packages => exact ⟨p, packages ▸ hp, rfl, hv⟩
  | opened granted packages => exact hput _ granted rfl id packages
  | @stored request metadata grant scan package read granted opens notMirrored fits packages =>
    have hparses := readUpload_parses read
    rw [henv.pep440] at hparses
    have hkey : (Pypi.storeUpload r.env request metadata scan package).key = package.key := rfl
    refine hput _ granted (hkey.trans (congrArg Package.key opens)) (fun hopened => ?_) packages
    exact storeUpload_mirrored hpep henv hparses notMirrored (opens ▸ hopened) hl

end Step

/-! ## Runs -/

/-- **Releases keep apart** in every run whose refreshes keep apart from the local ones. -/
theorem releases_apart (names : DistNames) (hpep : names.pep440.ReadsBack) {db : Database}
    (h : (pypiRegistry names).Reach (fun db r => r.KeepsApart names db) db) :
    (∀ p ∈ db.packages, p.ecosystem = .pypi →
      (∀ v ∈ p.versions, ∀ w ∈ p.versions, v.isLocal = true →
        names.pep440.equal v.version w.version = true → v = w) ∧
      (∀ v ∈ p.versions, v.isLocal = true → v.files.rows.countP isSdist ≤ 1) ∧
      ∀ v ∈ p.versions, ∀ w ∈ p.versions, ∀ f ∈ v.files, ∀ g ∈ w.files,
        f.filename = g.filename → v = w ∧ f = g) ∧
    ∀ (r : Request) (form : Pypi.UploadForm), r.Genuine names → r.operation = .upload form →
      ∀ p ∈ db.packages, ∀ v ∈ p.versions, v.isLocal = false →
        ∃ p' ∈ (r.after db).packages, p'.key = p.key ∧ v ∈ p'.versions := by
  have hreleased : db.Released names := by
    refine h.invariant (fun db hinit => ?_) fun db r db' hdb hapart hstep => ?_
    · subst hinit
      exact fun p hp => absurd hp Table.not_mem_empty
    · obtain ⟨hgenuine, rfl⟩ := hstep
      exact hdb.after hpep hgenuine hapart
  refine ⟨fun p hp heco => ?_, fun r form hgenuine hop p hp v hv hl => ?_⟩
  · have hp := hreleased p hp heco
    exact ⟨fun v hv w hw hl => hp.apart v hv hl w hw, hp.sdists,
      fun v hv w hw f hf g hg => hp.filename_unique hpep hv hw hf hg⟩
  · have hchange : UploadChange r form db (r.after db) := by
      unfold Request.after Request.handle
      rw [hop]
      exact upload_stores form
    exact hchange.mirrored hpep hgenuine.speaks hp hv hl

/-- `2.0` and `2.0.0` are one version. -/
def twoNames : DistNames where
  pep440 :=
    { key? := fun v => if v = "2.0" ∨ v = "2.0.0" then some "2" else none
      canonical := id
      legacy := id }
  parseWheelFilename := fun _ => none
  parseSdistFilename := fun f =>
    if f = "demo-2.0.tar.gz" then some ("demo", "2.0")
    else if f = "demo-2.0.0.tar.gz" then some ("demo", "2.0.0")
    else none

theorem twoNames_readsBack : twoNames.pep440.ReadsBack := by
  intro version
  unfold Pep440.normalize
  split <;> rfl

def pypiOrg : Upstream where
  id := 1
  name := "pypi.org"
  ecosystem := .pypi
  kind := .pypi
  validKind := pypi_validKind

def twoEnv : RegistryEnv :=
  { demoEnv with
    pep440 := twoNames.pep440
    parseWheelFilename := twoNames.parseWheelFilename
    parseSdistFilename := twoNames.parseSdistFilename }

/-- `demo` 2.0 is uploaded, as 2.0 or as 2.0.0. -/
def uploadTwo (version : String) : Request where
  env := twoEnv
  identity := { userId := some 1 }
  operation := .upload
    { fields := [("name", .one "demo"), ("version", .one version)]
      filename := "demo-" ++ version ++ ".tar.gz"
      content := [1] }

/-- The answer of pypi.org, which has `demo` 2.0.0. -/
def refreshTwo : Request where
  env := twoEnv
  identity := {}
  operation := .refresh .pypi { rows := [pypiOrg] } "demo"
    (.answered (twoNames.assemble pypiOrg "demo"
      [{ filename := "demo-2.0.0.tar.gz", url := "https://files/demo-2.0.0.tar.gz" }] [] [] none)
      pypiOrg none 1)

theorem uploadTwo_genuine (version : String) : (uploadTwo version).Genuine twoNames :=
  ⟨⟨rfl, rfl, rfl⟩, by rintro _ _ _ _ _ _ ⟨⟩⟩

theorem refreshTwo_genuine : refreshTwo.Genuine twoNames := by
  refine ⟨⟨rfl, rfl, rfl⟩, ?_⟩
  rintro _ _ _ _ _ _ ⟨⟩
  exact .assembled ..

/-- A project that pypi.org has is uploaded to. -/
theorem releases_apart_two :
    ∃ p ∈ ((uploadTwo "2.0").after (refreshTwo.after {})).packages, p.key = (.pypi, "demo") ∧
      ∃ v ∈ p.versions, v.version = "2.0.0" ∧ v.isLocal = false := by
  have hrun : (pypiRegistry twoNames).Reach (fun db r => r.KeepsApart twoNames db)
      (refreshTwo.after {}) := by
    refine .step (.init rfl) (fun _ _ _ _ _ _ _ p hp => ?_) ⟨refreshTwo_genuine, rfl⟩
    cases hp
  have hkeeps := (releases_apart twoNames twoNames_readsBack hrun).2 (uploadTwo "2.0") _
    (uploadTwo_genuine "2.0") rfl
  obtain ⟨p, hp, hkey, hv⟩ := hkeeps _ List.mem_cons_self _ List.mem_cons_self (by decide +kernel)
  exact ⟨p, hp, hkey.trans (by decide +kernel), _, hv, by decide +kernel⟩

/-- The project is uploaded to while pypi.org is asked. -/
theorem refresh_beside_local :
    twoNames.pep440.ReadsBack ∧
    (pypiRegistry twoNames).Reach (fun _ _ => True) (refreshTwo.after ((uploadTwo "2.0").after {})) ∧
    ∃ p ∈ (refreshTwo.after ((uploadTwo "2.0").after {})).packages,
      ∃ v ∈ p.versions, ∃ w ∈ p.versions, v.isLocal = true ∧ w.isLocal = false ∧
        twoNames.pep440.equal v.version w.version = true := by
  refine ⟨twoNames_readsBack, ?_, ?_⟩
  · have hupload : (pypiRegistry twoNames).Reach (fun _ _ => True) ((uploadTwo "2.0").after {}) :=
      .step (.init rfl) trivial ⟨uploadTwo_genuine "2.0", rfl⟩
    exact .step hupload trivial ⟨refreshTwo_genuine, rfl⟩
  · refine ⟨_, List.mem_cons_self, _, List.mem_cons_self, _,
      List.mem_cons_of_mem _ List.mem_cons_self, ?_⟩
    decide +kernel

end Minireg
