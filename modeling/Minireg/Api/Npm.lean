import Minireg.Api.Registry

/-!
# npm endpoints

Publishing, deprecating, tagging and unpublishing. Each handler takes the session of
its request and answers with a reply; what it did not commit is lost.
-/

namespace Minireg.Npm

open Py Lib Semver NpmPublish

section Handlers

variable (env : RegistryEnv) (identity : Identity)

/-- The audit entry of a change that goes through. -/
def auditEntry (action name : String) : AuditEntry :=
  { action := action, actorUserId := identity.userId, targetId := "npm:" ++ name }

/-! ## Publishing -/

/-- A version that passed every check. -/
structure Staged where
  version : String
  metadata : List (String × Json)
  attachment : Attachment
  scan : Scan

/-- Why a version is refused: before its policy verdict, or by it. -/
inductive Refusal where
  | plain (status : Nat) (message : String)
  | policy (version : String) (reason : Option String)
  | raised

/-- The refusal a failed check of the document amounts to. -/
def Refusal.ofFailure : Failure → Refusal
  | .error message status => .plain status message
  | .raised => .raised

/-- The checks of one version, none of which stores anything. -/
def stageVersion (normalized : String) (existing : List String) (parsed : PublishRequest)
    (entry : String × List (String × Json)) : Except Refusal Staged := do
  let (version, fields) := entry
  if version ∈ existing then
    throw (.plain 409 ("You cannot publish over the previously published versions: " ++ version))
  let some attachment ← (matchAttachment parsed version fields).mapError .ofFailure
    | throw (.plain 400 ("no tarball attachment found for version " ++ version))
  (verifyDeclaredDigests env.codec version fields attachment.data).mapError .ofFailure
  let metadata := annotateInstallScript env.codec fields attachment.data
  let scan := env.inlineScan .npm parsed.name version
  let verdict ← (evaluate env.policy env.engine
    (scannedSubject .npm normalized version scan)).mapError fun _ => .raised
  if !verdict.allowed then throw (.policy version verdict.reason)
  return { version := version, metadata := metadata, attachment := attachment, scan := scan }

/-- The file row of a staged version. -/
def storedFile (name : String) (staged : Staged) (contentType : String) : PackageFile :=
  let digests := digestTarball env.codec staged.attachment.data
  { filename := npmTarballFilename name staged.version
    blobSha256 := some digests.sha256
    size := some digests.size
    contentType := contentType
    sha256 := some digests.sha256
    sha1 := some digests.sha1
    md5 := some digests.md5
    blake2b256 := some digests.blake2b256
    integrity := some digests.integrity
    uploadTime := some env.now }

/-- The version row of a staged version. -/
def storedVersion (staged : Staged) (file : PackageFile) : PackageVersion :=
  { version := staged.version
    normalizedVersion := staged.version
    metadataJson := staged.metadata
    isLocal := true
    publishedAt := some env.now
    maxCvss := staged.scan.maxScore
    hasFix := staged.scan.hasFix
    hasAdvisories := staged.scan.hasAdvisories
    isMalicious := staged.scan.malicious
    scannedAt := if staged.scan.scanned then some env.now else none
    files := (Table.empty _).put file }

/-- The rows of one staged version; a content type that is no text fails its insert. -/
def storeVersion (name : String) (s : Package × Database) (staged : Staged) :
    Option (Package × Database) :=
  match staged.attachment.contentType with
  | .str contentType =>
    let file := storedFile env name staged contentType
    some ({ s.1 with versions := s.1.versions.put (storedVersion env staged file) },
      s.2.retainBlob (digestTarball env.codec staged.attachment.data).sha256)
  | _ => none

/-- One dist-tag of the document. -/
def applyTag (package : Package) (tag : String × String) : Package :=
  { package with
    distTags := package.distTags.put { tag := tag.1, version := tag.2 }
    latestVersion := if tag.1 = "latest" then some tag.2 else package.latestVersion }

def versionNames (package : Package) : List String :=
  package.versions.rows.map PackageVersion.version

/-- The dist-tags that are set: those of the document that name a version, or `latest`. -/
def publishedTags (package : Package) (distTags : List (String × String))
    (published : List String) : Except ValueError (List (String × String)) :=
  let tags := distTags.filter fun t => t.2 ∈ versionNames package
  if tags = [] && published ≠ [] then
    (maxSemver published).map fun greatest =>
      [("latest", (greatest <|> published.getLast?).getD "")]
  else .ok tags

/-- The dist-tags of a publish, and a `latest_version` where there was none. -/
def tagPackage (package : Package) (distTags : List (String × String))
    (published : List String) : Except ValueError Package := do
  let tags ← publishedTags package distTags published
  let package := tags.foldl applyTag package
  if package.latestVersion = none then
    let latest ← maxSemver (versionNames package)
    return { package with latestVersion := latest }
  else return package

/-- What a publish whose versions are all staged writes. -/
def storePublish (normalized : String) (parsed : PublishRequest) (grant : PublishGrant)
    (staged : List Staged) (db : Database) : Option Database := do
  let package := openPackage .npm parsed.name normalized grant
  let package := if parsed.description.getD "" ≠ "" then
      { package with description := parsed.description }
    else package
  let (package, db) ← staged.foldlM (storeVersion env parsed.name) (package, db)
  let package ← (tagPackage package parsed.distTags (staged.map Staged.version)).toOption
  return (db.putPackage package).recordAudit (auditEntry identity "registry.publish" parsed.name)

/-- `authorize_publish` and the tombstones of every version. -/
def authorizeVersions (normalized : String) (parsed : PublishRequest) (db : Database) :
    Except PublishDenied PublishGrant := do
  let grant ← authorizePublish env.ownership db .npm parsed.name identity
  for entry in parsed.versions do
    assertNotRetired env.ownership db .npm normalized entry.1
  return grant

/-- `_handle_publish`. -/
def handlePublish (parsed : PublishRequest) (s : Session) : Session × Reply :=
  let normalized := env.normalizedFor .npm parsed.name
  match authorizeVersions env identity normalized parsed s.pending with
  | .error denied =>
    (recordPublishDenied "npm" identity parsed.name (some denied.reason) s,
      .refused denied.status denied.reason)
  | .ok grant =>
    let existing := (grant.package.map versionNames).getD []
    match parsed.versions.mapM (stageVersion env normalized existing parsed) with
    | .error (.plain status message) => (s, .refused status message)
    | .error (.policy version reason) =>
      (recordPublishDenied "npm" identity (parsed.name ++ "@" ++ version) reason s.rollback,
        .refused 403 ((reason.filter (· ≠ "")).getD "blocked by CVE policy"))
    | .error .raised => (s.rollback, .raised)
    | .ok staged =>
      match storePublish env identity normalized parsed grant staged s.pending with
      | some db => ((s.change fun _ => db).commit, .ok)
      | none => (s.rollback, .raised)

/-! ## Deprecating -/

/-- What `deprecated` a submitted version asks for, if it asks. -/
def submittedDeprecation (submitted : List (String × Json)) (missingMeansUndeprecate : Bool)
    (version : String) : Option (Option String) :=
  match Json.get submitted version with
  | .obj fields =>
    if (fields.lookup "deprecated").isNone && !missingMeansUndeprecate then none
    else some (((Json.get fields "deprecated").asStr?).filter (· ≠ ""))
  | _ => none

/-- `_apply_deprecations`, on one row. -/
def deprecateRow (submitted : List (String × Json)) (missingMeansUndeprecate : Bool)
    (among : String → Bool) (v : PackageVersion) : PackageVersion :=
  match submittedDeprecation submitted missingMeansUndeprecate v.version with
  | some deprecated => if among v.version then { v with deprecated := deprecated } else v
  | none => v

@[simp] theorem deprecateRow_normalizedVersion (submitted : List (String × Json)) (missing : Bool)
    (among : String → Bool) (v : PackageVersion) :
    (deprecateRow submitted missing among v).normalizedVersion = v.normalizedVersion := by
  unfold deprecateRow
  split
  · split <;> rfl
  · rfl

def applyDeprecations (submitted : List (String × Json)) (missingMeansUndeprecate : Bool)
    (among : String → Bool) (package : Package) : Package :=
  { package with
    versions := package.versions.modify (deprecateRow submitted missingMeansUndeprecate among)
      (deprecateRow_normalizedVersion submitted missingMeansUndeprecate among) }

theorem mem_applyDeprecations {submitted : List (String × Json)} {missing : Bool}
    {among : String → Bool} {package : Package} {v : PackageVersion} :
    v ∈ (applyDeprecations submitted missing among package).versions ↔
      ∃ w ∈ package.versions, deprecateRow submitted missing among w = v := List.mem_map

/-- `_handle_deprecate`. -/
def handleDeprecate (parsed : PublishRequest) (s : Session) : Session × Reply :=
  match s.pending.package? .npm (env.normalizedFor .npm parsed.name) with
  | none => (s, .refused 404 "package not found")
  | some package =>
    match authorizeMutation package identity "deprecate" with
    | .error denied => (s, .refused denied.status denied.reason)
    | .ok () =>
      let submitted := parsed.versions.map fun e => (e.1, Json.obj e.2)
      let package := applyDeprecations submitted true (fun _ => true) package
      ((s.change fun db => (db.putPackage package).recordAudit
        (auditEntry identity "registry.deprecate" parsed.name)).commit, .ok)

/-- `publish`. -/
def publish (name : String) (body : Json) (s : Session) : Session × Reply :=
  match parsePublishDocument env.codec body name with
  | .error (.error message status) => (s, .refused status message)
  | .error .raised => (s.rollback, .raised)
  | .ok parsed =>
    match isNameBlocked env.policy env.engine .npm (env.normalizedFor .npm parsed.name) with
    | .error _ => (s.rollback, .raised)
    | .ok verdict =>
      if !verdict.allowed then
        (recordPublishDenied "npm" identity parsed.name verdict.reason s,
          .refused 403 ((verdict.reason.filter (· ≠ "")).getD "package is blocked"))
      else if parsed.intent = .deprecate then handleDeprecate env identity parsed s
      else if parsed.versions = [] then
        (s, .refused 400 "publish document carries no versions; nothing to publish")
      else handlePublish env identity parsed s

/-! ## dist-tags -/

/-- `body.strip('"')`. -/
def stripQuotes (s : String) : String :=
  String.ofList ((s.toList.dropWhile (· == '"')).reverse.dropWhile (· == '"')).reverse

/-- `set_dist_tag`. -/
def setDistTag (name tag body : String) (s : Session) : Session × Reply :=
  let version := strip (stripQuotes (strip body))
  if version = "" then (s, .refused 400 "a version is required")
  else match npmDistTagError tag with
    | .error _ => (s.rollback, .raised)
    | .ok (some message) => (s, .refused 400 message)
    | .ok none =>
      match s.pending.package? .npm (env.normalizedFor .npm name) with
      | none => (s, .refused 404 "package not found")
      | some package =>
        match authorizeMutation package identity "retag" with
        | .error denied => (s, .refused denied.status denied.reason)
        | .ok () =>
          if version ∉ versionNames package then
            (s, .refused 404 ("version " ++ version ++ " is not published"))
          else
            let package := applyTag package (tag, version)
            ((s.change fun db => (db.putPackage package).recordAudit
              (auditEntry identity "registry.disttag.updated" name)).commit, .ok)

/-- `delete_dist_tag`. -/
def deleteDistTag (name tag : String) (s : Session) : Session × Reply :=
  if tag = "latest" then (s, .refused 400 "the 'latest' tag cannot be removed")
  else match s.pending.package? .npm (env.normalizedFor .npm name) with
    | none => (s, .refused 404 "package not found")
    | some package =>
      match authorizeMutation package identity "retag" with
      | .error denied => (s, .refused denied.status denied.reason)
      | .ok () =>
        if (package.distTags.find? tag).isNone then (s, .refused 404 "tag not found")
        else
          let package := { package with distTags := package.distTags.filter (·.tag ≠ tag) }
          ((s.change fun db => (db.putPackage package).recordAudit
            (auditEntry identity "registry.disttag.updated" name)).commit, .ok)

/-! ## Unpublishing -/

/-- The tombstone of a version row, with the digests of one of its files. -/
def tombstone (package : Package) (v : PackageVersion) (file : Option PackageFile) :
    RetiredVersion where
  ecosystem := .npm
  normalizedName := package.normalizedName
  version := v.version
  normalizedVersion := v.normalizedVersion
  sha256 := file.bind PackageFile.blobSha256
  integrity := file.bind PackageFile.integrity

/-- `next((f for f in version_row.files if f.blob_sha256), None)`. -/
def primaryFile (v : PackageVersion) : Option PackageFile :=
  v.files.rows.find? fun f => f.blobSha256.getD "" ≠ ""

/-- The files of a version are purged. -/
def purgeFiles (db : Database) (v : PackageVersion) : Database :=
  v.files.rows.foldl Database.purgeFile db

/-- `_retire_version_row`, of a version that the package loses. -/
def retireVersionRow (package : Package) (db : Database) (v : PackageVersion) : Database :=
  purgeFiles (db.retire (tombstone package v (primaryFile v))) v

/-- The version that has a file of this name, with the file. -/
def fileTarget (package : Package) (filename : String) : Option (PackageVersion × PackageFile) :=
  (package.versions.rows.filterMap fun v =>
    (v.files.rows.find? (·.filename = filename)).map fun f => (v, f)).getLast?

/-- `_is_retired_tarball`. -/
def isRetiredTarball (db : Database) (package : Package) (filename : String) : Bool :=
  db.retired.rows.any fun r => r.ecosystem = .npm && r.normalizedName = package.normalizedName &&
    npmTarballFilename package.name r.version = filename

/-- A package without one of its versions. -/
def dropVersion (package : Package) (v : PackageVersion) : Package :=
  { package with
    versions := package.versions.filter (·.normalizedVersion ≠ v.normalizedVersion) }

/-- `unpublish_version`: the tarball DELETE. -/
def unpublishVersion (name filename : String) (s : Session) : Session × Reply :=
  match s.pending.package? .npm (env.normalizedFor .npm name) with
  | none => (s, .refused 404 "package not found")
  | some package =>
    match fileTarget package filename with
    | none =>
      if isRetiredTarball s.pending package filename then
        match authorizeMutation package identity "unpublish" with
        | .error denied => (s, .refused denied.status denied.reason)
        | .ok () => (s, .ok)
      else (s, .refused 404 "version not found")
    | some (v, file) =>
      if !v.isLocal && !identity.administers then
        (s, .refused 403 "only locally published versions can be unpublished")
      else match authorizeMutation package identity "unpublish" with
        | .error denied => (s, .refused denied.status denied.reason)
        | .ok () =>
          ((s.change fun db =>
            let db := db.retire (tombstone package v (some file))
            let db := retireVersionRow package db v
            (db.putPackage (dropVersion package v)).recordAudit
              (auditEntry identity "registry.unpublish" (name ++ "@" ++ v.version))).commit, .ok)

/-- `unpublish_package`: only local versions leave a tombstone. -/
def unpublishPackage (name : String) (s : Session) : Session × Reply :=
  match s.pending.package? .npm (env.normalizedFor .npm name) with
  | none => (s, .refused 404 "package not found")
  | some package =>
    match authorizeMutation package identity "unpublish" with
    | .error denied => (s, .refused denied.status denied.reason)
    | .ok () =>
      ((s.change fun db =>
        let db := package.versions.rows.foldl (fun db v =>
          let db := if v.isLocal then db.retire (tombstone package v (primaryFile v)) else db
          purgeFiles db v) db
        (db.deletePackage package).recordAudit
          (auditEntry identity "registry.unpublish" name)).commit, .ok)

/-! ## Packument updates -/

/-- What an edited document asks for. -/
structure PackumentUpdate where
  /-- `versions`. -/
  submitted : List (String × Json)
  /-- `dist-tags.latest`. -/
  latest : Option String

/-- The validation of an edited document; the error is the message. -/
def parseUpdate (name : String) (body : Json) : Except String PackumentUpdate :=
  match body with
  | .obj body =>
    let declared := if (Json.get body "name").truthy then Json.get body "name"
      else Json.get body "_id"
    if declared ≠ .null && declared ≠ .str name then
      .error ("package name '" ++ env.codec.str declared ++ "' does not match the request path '" ++
        name ++ "'")
    else match Json.get body "versions" with
      | .obj submitted =>
        if (Json.get body "_attachments").truthy then
          .error "publish new versions with PUT /\x7bpackage\x7d, not a revision update"
        else
          let latest := ((Json.get body "dist-tags").asObj?).bind fun tags =>
            (Json.get tags "latest").asStr?
          .ok { submitted := submitted, latest := latest }
      | _ => .error "'versions' must be an object"
  | _ => .error "request body must be a JSON object"

/-- A version that an update leaves in place. -/
def survives (update : PackumentUpdate) (hidden : List String) (version : String) : Bool :=
  (update.submitted.lookup version).isSome || version ∈ hidden

/-- Where `latest` goes: the client's choice, else the newest survivor. -/
def wantedLatest (update : PackumentUpdate) (hidden survivors : List String) :
    Except ValueError (Option String) :=
  match update.latest.filter (· ∈ survivors) with
  | some wanted => .ok (some wanted)
  | none =>
    let visible := survivors.filter (· ∉ hidden)
    (maxSemver (if visible = [] then survivors else visible)).map (· <|> survivors.getLast?)

/-- The tag of a removed version: `latest` follows, the others go. -/
def retag (removed : List String) (wanted : String) (t : DistTag) : DistTag :=
  if t.tag = "latest" && t.version ∈ removed then { t with version := wanted } else t

@[simp] theorem retag_tag (removed : List String) (wanted : String) (t : DistTag) :
    (retag removed wanted t).tag = t.tag := by
  unfold retag
  split <;> rfl

/-- The tags of a package that lost versions. -/
def retagPackage (removed : List String) (wanted : String) (package : Package) : Package :=
  let tags := (package.distTags.filter fun t =>
    t.version ∉ removed || t.tag = "latest").modify (retag removed wanted)
      (retag_tag removed wanted)
  match tags.find? "latest" with
  | some latest => { package with distTags := tags, latestVersion := some latest.version }
  | none =>
    { package with
      distTags := tags.put { tag := "latest", version := wanted }
      latestVersion := some wanted }

/-- The audit entries of an update. -/
def updateEntries (name : String) (removed : List String) (changed : Bool) : List AuditEntry :=
  (removed.map fun v => auditEntry identity "registry.unpublish" (name ++ "@" ++ v)) ++
    if changed then [auditEntry identity "registry.deprecate" name] else []

/-- The package an update leaves, when versions were removed and when none was. -/
def updatedPackage (update : PackumentUpdate) (hidden : List String) (package : Package) :
    Except ValueError Package := do
  let removed := (versionNames package).filter fun v => !survives update hidden v
  let survivors := (versionNames package).filter (survives update hidden)
  let kept := { package with
    versions := package.versions.filter fun v => survives update hidden v.version }
  let kept := applyDeprecations update.submitted false (· ∈ survivors) kept
  if removed = [] then return kept
  else
    let wanted ← wantedLatest update hidden survivors
    return retagPackage removed (wanted.getD "") kept

/-- What an update writes. -/
def storeUpdate (update : PackumentUpdate) (hidden : List String) (package : Package)
    (db : Database) : Except ValueError Database := do
  let removed := package.versions.rows.filter fun v => !survives update hidden v.version
  let updated ← updatedPackage update hidden package
  let audited ← sortSemver (removed.map PackageVersion.version)
  let changed := package.versions.rows.any fun v =>
    survives update hidden v.version && deprecateRow update.submitted false (fun _ => true) v ≠ v
  let db := (removed.foldl (retireVersionRow package) db).putPackage updated
  return (updateEntries identity package.name audited changed).foldl Database.recordAudit db

/-- `update_packument`: a version that the document leaves out is retired. -/
def updatePackument (name : String) (body : Json) (s : Session) : Session × Reply :=
  match parseUpdate env name body with
  | .error message => (s, .refused 400 message)
  | .ok update =>
    match s.pending.package? .npm (env.normalizedFor .npm name) with
    | none => (s, .refused 404 "package not found")
    | some package =>
      match blockedVersions env .npm package.normalizedName package with
      | .error _ => (s.rollback, .raised)
      | .ok hidden =>
        -- `sorted(by_version, key=semver_key)` orders all of them, to find what goes
        match sortSemver (versionNames package) with
        | .error _ => (s.rollback, .raised)
        | .ok _ =>
          let removed := package.versions.rows.filter fun v => !survives update hidden v.version
          if removed ≠ [] && removed.length = package.versions.rows.length then
            (s, .refused 400
              "this update would remove every version; unpublish the package instead")
          else match authorizeMutation package identity
              (if removed ≠ [] then "unpublish" else "deprecate") with
            | .error denied => (s, .refused denied.status denied.reason)
            | .ok () =>
              if removed.any (!·.isLocal) && !identity.administers then
                (s, .refused 403 "only locally published versions can be unpublished")
              else match storeUpdate identity update hidden package s.pending with
                | .ok db => ((s.change fun _ => db).commit, .ok)
                | .error _ => (s.rollback, .raised)

end Handlers

end Minireg.Npm
