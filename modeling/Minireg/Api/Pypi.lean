import Minireg.Api.Registry

/-!
# The PyPI upload endpoint

`upload` files one distribution under a release. The release is found by PEP 440
equality. The package row is opened before the checks of the release, so what they
refuse has already changed it: only a rollback, or no commit at all, undoes that.
-/

namespace Minireg.Pypi

open Py Lib Semver PypiPublish

section Handlers

variable (env : RegistryEnv) (identity : Identity)

/-- The uploaded form: its fields, and the file part. -/
structure UploadForm where
  fields : Form
  filename : String
  contentType : String := "application/octet-stream"
  content : NpmPublish.Bytes

/-- The stored releases that equal an uploaded version. -/
def equalRows (package : Package) (version : String) : List PackageVersion :=
  package.versions.rows.filter fun v => env.pep440.equal v.normalizedVersion version

/-- The release an upload goes to: an exact match wins. -/
def targetRow (package : Package) (version : String) : Option PackageVersion :=
  let rows := equalRows env package version
  (rows.find? fun v => v.normalizedVersion = env.pep440.normalize version) <|> rows.head?

/-- A release of an upstream that equals an uploaded version. -/
def mirroredRow (package : Package) (version : String) : Option PackageVersion :=
  (equalRows env package version).find? fun v => !v.isLocal

/-- Why the files of a release admit no other. -/
def releaseError (request : UploadRequest) (row : Option PackageVersion) : Option String :=
  row.bind fun v =>
    if (v.files.find? request.filename).isSome then
      some ("File already exists: " ++ request.filename)
    else if request.filetype = "sdist" &&
        v.files.rows.any fun f => f.packagetype = some "sdist" then
      some ("Only one sdist may be uploaded per release (" ++ request.version ++ ")")
    else none

/-- The version row of an upload that opens a release. -/
def newRelease (request : UploadRequest) (scan : Scan) : PackageVersion where
  version := request.version
  normalizedVersion := env.pep440.normalize request.version
  metadataJson := metadataFromUpload request
  requiresPython := request.requiresPython
  isLocal := true
  publishedAt := some env.now
  maxCvss := scan.maxScore
  hasFix := scan.hasFix
  hasAdvisories := scan.hasAdvisories
  isMalicious := scan.malicious
  scannedAt := if scan.scanned then some env.now else none

/-- The file row of an upload. -/
def uploadedFile (request : UploadRequest) (metadata : Option NpmPublish.Bytes) : PackageFile :=
  let digests := NpmPublish.digestTarball env.codec request.content
  { filename := request.filename
    blobSha256 := some digests.sha256
    size := some digests.size
    contentType := request.contentType
    sha256 := some digests.sha256
    sha1 := some digests.sha1
    md5 := some digests.md5
    blake2b256 := some digests.blake2b256
    packagetype := some request.filetype
    pythonVersion := request.pyversion
    requiresPython := request.requiresPython
    coreMetadata := metadata.map (coreMetadataRecord env.dists)
    uploadTime := some env.now }

/-- `apply_to_version`, where the scan found anything. -/
def rescanRow (scan : Scan) (row : PackageVersion) : PackageVersion :=
  if scan.scanned && scan.hasAdvisories then
    { row with
      maxCvss := scan.maxScore
      hasFix := scan.hasFix
      hasAdvisories := scan.hasAdvisories
      isMalicious := scan.malicious
      scannedAt := some env.now }
  else row

/-- `coerce_text(value, limit) or stored`. -/
def describe (value : Option String) (limit : Option Nat) (stored : Option String) : Option String :=
  (value.bind fun t => coerceText env.naming (.str t) limit) <|> stored

/-- The package of an upload that goes through. -/
def storeUpload (request : UploadRequest) (metadata : Option NpmPublish.Bytes) (scan : Scan)
    (package : Package) : Package :=
  let row := (targetRow env package request.version).getD (newRelease env request scan)
  let row := rescanRow env scan row
  let row := { row with files := row.files.put (uploadedFile env request metadata) }
  let versions := package.versions.put row
  let keywords := request.keywordList
  let latest := (env.sortPypiVersions (versions.rows.map PackageVersion.version)).getLast?
  { package with
    versions := versions
    description := describe env request.summary none package.description
    author := describe env request.author (some authorLimit) package.author
    homepage := describe env request.homePage (some homepageLimit) package.homepage
    license := describe env request.license (some licenseLimit) package.license
    keywords := if keywords = [] then package.keywords
      else coerceKeywords env.naming (.arr (keywords.map .str))
    latestVersion := some (latest.getD request.version) }

/-- The checks of the form and of a wheel, with the METADATA. -/
def readUpload (form : UploadForm) :
    Except UploadError (UploadRequest × Option NpmPublish.Bytes) := do
  let request ← parseUpload env.dists form.fields form.filename form.content form.contentType
  if request.filetype = "bdist_wheel" then
    let (requiresPython, raw) ← checkWheelMetadata env.dists request
    return ({ request with requiresPython := requiresPython }, some raw)
  else return (request, none)

/-- `authorize_publish` and the tombstones. -/
def authorizeUpload (normalized : String) (request : UploadRequest) (db : Database) :
    Except PublishDenied PublishGrant := do
  let grant ← authorizePublish env.ownership db .pypi request.name identity
  assertNotRetired env.ownership db .pypi normalized (env.pep440.normalize request.version)
  return grant

/-- The message about a release of an upstream. -/
def mirroredReason (request : UploadRequest) (mirrored : PackageVersion) : String :=
  let spelled := if mirrored.version = request.version then request.version
    else request.version ++ " (the same version as " ++ mirrored.version ++ ")"
  request.name ++ " " ++ spelled ++ " is mirrored from an upstream registry; files cannot be " ++
    "added to it here."

/-- The part of `upload` after the package row is opened. -/
def fileUpload (normalized : String) (request : UploadRequest)
    (metadata : Option NpmPublish.Bytes) (package : Package) (s : Session) : Session × Reply :=
  let target := request.name ++ "==" ++ request.version
  match mirroredRow env package request.version with
  | some mirrored =>
    let reason := mirroredReason request mirrored
    (recordPublishDenied "pypi" identity target (some reason) s, .refused 403 reason)
  | none =>
    match releaseError request (targetRow env package request.version) with
    | some message => (s, .refused 400 message)
    | none =>
      match verifyDigests env.dists request (NpmPublish.digestTarball env.codec request.content) with
      | .error (.error message status) => (s, .refused status message)
      | .ok () =>
        let scan := env.inlineScan .pypi request.name request.version
        match evaluate env.policy env.engine (scannedSubject .pypi normalized request.version scan) with
        | .error _ => (s.rollback, .raised)
        | .ok verdict =>
          if !verdict.allowed then
            (recordPublishDenied "pypi" identity target verdict.reason s.rollback,
              .refused 403 ((verdict.reason.filter (· ≠ "")).getD "blocked by CVE policy"))
          else
            let digests := NpmPublish.digestTarball env.codec request.content
            ((s.change fun db =>
              ((db.retainBlob digests.sha256).putPackage
                (storeUpload env request metadata scan package)).recordAudit
                  { action := "registry.publish"
                    actorUserId := identity.userId
                    targetId := "pypi:" ++ request.name }).commit, .ok)

/-- `upload`. -/
def upload (form : UploadForm) (s : Session) : Session × Reply :=
  match readUpload env form with
  | .error (.error message status) => (s, .refused status message)
  | .ok (request, metadata) =>
    let normalized := env.normalizedFor .pypi request.name
    match isNameBlocked env.policy env.engine .pypi normalized with
    | .error _ => (s.rollback, .raised)
    | .ok verdict =>
      if !verdict.allowed then
        (recordPublishDenied "pypi" identity request.name verdict.reason s,
          .refused 403 ((verdict.reason.filter (· ≠ "")).getD "package is blocked"))
      else match authorizeUpload env identity normalized request s.pending with
        | .error denied =>
          (recordPublishDenied "pypi" identity request.name (some denied.reason) s,
            .refused denied.status denied.reason)
        | .ok grant =>
          let package := openPackage .pypi request.name normalized grant
          fileUpload env identity normalized request metadata package
            (s.change fun db => db.putPackage package)

end Handlers

/-! ## The release of an upload -/

section Release

variable {env : RegistryEnv}

theorem targetRow_mem {package : Package} {version : String} {v : PackageVersion}
    (h : targetRow env package version = some v) : v ∈ equalRows env package version := by
  rcases (Option.orElse_eq_some _ _ _).mp h with hfind | ⟨-, hhead⟩
  · exact List.mem_of_find?_eq_some hfind
  · exact List.mem_of_head? hhead

/-- A rescan leaves what the row is. -/
theorem rescanRow_frame (env : RegistryEnv) (scan : Scan) (row : PackageVersion) :
    (rescanRow env scan row).version = row.version ∧
      (rescanRow env scan row).normalizedVersion = row.normalizedVersion ∧
      (rescanRow env scan row).isLocal = row.isLocal := by
  unfold rescanRow
  split <;> exact ⟨rfl, rfl, rfl⟩

theorem rescanRow_files (env : RegistryEnv) (scan : Scan) (row : PackageVersion) :
    (rescanRow env scan row).files = row.files := by
  unfold rescanRow
  split <;> rfl

end Release

end Minireg.Pypi
