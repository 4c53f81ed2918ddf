import Minireg.Services.Resolver
import Minireg.Upstreams.Revalidation

/-!
# Package persistence

The rows of a cached package and the two halves of a refresh:
`persistRemotePackage` upserts a resolved document, `pruneUnsourced` drops the
versions and files nothing may serve any more. Version ordering and PEP 440
normalization are parameters (`Naming`).
-/

namespace Minireg

open Py Lib

/-- Version and number conventions the persistence layer is given. -/
structure Naming where
  caseMap : CaseMap
  floatText : Option Rat → String
  normalizePypiVersion : String → String
  sortPypiVersions : List String → List String
  maxSemver : List String → Option String

/-! ## Rows -/

structure PackageFile where
  filename : String
  blobSha256 : Option String := none
  size : Option Nat := none
  contentType : String := "application/octet-stream"
  sha256 : Option String := none
  sha1 : Option String := none
  md5 : Option String := none
  blake2b256 : Option String := none
  integrity : Option String := none
  packagetype : Option String := none
  pythonVersion : Option String := none
  requiresPython : Option String := none
  coreMetadata : Option (List (String × Json)) := none
  yanked : Bool := false
  yankedReason : Option String := none
  upstreamUrl : Option String := none
  upstreamId : Option Nat := none
  uploadTime : Option Time := none
  deriving DecidableEq

structure PackageVersion where
  version : String
  normalizedVersion : String
  metadataJson : List (String × Json) := []
  requiresPython : Option String := none
  yanked : Bool := false
  yankedReason : Option String := none
  deprecated : Option String := none
  isLocal : Bool := false
  upstreamId : Option Nat := none
  publishedAt : Option Time := none
  maxCvss : Option Rat := none
  hasFix : Bool := false
  hasAdvisories : Bool := false
  isMalicious : Bool := false
  scannedAt : Option Time := none
  files : Table PackageFile.filename := .empty _
  deriving DecidableEq

structure DistTag where
  tag : String
  version : String
  deriving DecidableEq

structure Package where
  ecosystem : Ecosystem
  name : String
  normalizedName : String
  description : Option String := none
  latestVersion : Option String := none
  keywords : List String := []
  author : Option String := none
  homepage : Option String := none
  license : Option String := none
  isLocal : Bool := false
  ownerUserId : Option Nat := none
  originUpstreamId : Option Nat := none
  cachedDocument : Option (List (String × Json)) := none
  cachedEtag : Option String := none
  cachedAt : Option Time := none
  versions : Table PackageVersion.normalizedVersion := .empty _
  distTags : Table DistTag.tag := .empty _
  deriving DecidableEq

/-! ## Coercion of upstream fields -/

/-- `_CONTROL_CHARS`. -/
def isControlChar (c : Char) : Bool :=
  let n := c.toNat
  n ≤ 0x08 || (0x0b ≤ n && n ≤ 0x1f) || (0x7f ≤ n && n ≤ 0x9f)

/-- `text.replace("\r\n", "\n")`. -/
def unixNewlines : List Char → List Char
  | '\r' :: '\n' :: rest => '\n' :: unixNewlines rest
  | c :: rest => c :: unixNewlines rest
  | [] => []

/-- The stored form of a text, `none` when nothing is left of it. -/
def cleanText (text : String) : Option String :=
  let s := strip (String.ofList ((unixNewlines text.toList).filter fun c => !isControlChar c))
  if s = "" then none else some s

mutual

/-- `coerce_text(value)` without a limit. -/
def flatText (floatText : Option Rat → String) : Json → Option String
  | .null => none
  | .str s => cleanText s
  | .obj fs =>
    let pick := [Json.get fs "type", Json.get fs "name", Json.get fs "license"].find? Json.truthy
    cleanText ((pick.bind Json.asStr?).getD "")
  | .arr xs => cleanText (join ", " (flatTexts floatText xs))
  | .bool b => cleanText (if b then "True" else "False")
  | .int n => cleanText (toString n)
  | .float q => cleanText (floatText q)

def flatTexts (floatText : Option Rat → String) : List Json → List String
  | [] => []
  | x :: xs =>
    match flatText floatText x with
    | some t => t :: flatTexts floatText xs
    | none => flatTexts floatText xs

end

def coerceText (nm : Naming) (value : Json) (limit : Option Nat := none) : Option String :=
  (flatText nm.floatText value).map fun t => match limit with
    | some n => takeChars n t
    | none => t

def coerceHttpUrl (nm : Naming) (value : Json) (limit : Option Nat := none) : Option String :=
  (coerceText nm value limit).filter fun t =>
    let s := (nm.caseMap.lower t).toList
    "http://".toList.isPrefixOf s || "https://".toList.isPrefixOf s

/-- `text.split()`. -/
def splitWords (s : List Char) : List String :=
  ((s.splitOnP isSpace).filter (· ≠ [])).map String.ofList

def coerceKeywords (nm : Naming) : Json → List String
  | .str s => splitWords (s.toList.map fun c => if c = ',' then ' ' else c)
  | .arr xs => flatTexts nm.floatText xs
  | _ => []

/-- `_TEXT_LIMITS`. -/
def licenseLimit : Nat := 255
def authorLimit : Nat := 512
def homepageLimit : Nat := 1024
def latestVersionLimit : Nat := 128

def normalizedVersion (nm : Naming) (ecosystem : Ecosystem) (version : String) : String :=
  if ecosystem = .pypi then nm.normalizePypiVersion version else version

/-! ## Writing only what changed -/

/-- `changed |= _set(obj, attr, value)`, on a row and its `changed` flag. -/
def assign {α ν : Type} [DecidableEq ν] (attr : α → ν) (put : α → ν → α) (value : ν)
    (s : α × Bool) : α × Bool :=
  if attr s.1 = value then s else (put s.1 value, true)

/-- `a or b`, for an upstream id. -/
def idOr (a b : Option Nat) : Option Nat := if a.getD 0 = 0 then b else a

/-- `_HASH_COLUMNS`: set the column an algorithm is stored in. -/
def assignHash (s : PackageFile × Bool) (hash : String × String) : PackageFile × Bool :=
  match hash.1 with
  | "sha256" => assign (·.sha256) (fun r v => { r with sha256 := v }) (some hash.2) s
  | "sha1" => assign (·.sha1) (fun r v => { r with sha1 := v }) (some hash.2) s
  | "md5" => assign (·.md5) (fun r v => { r with md5 := v }) (some hash.2) s
  | "blake2b_256" => assign (·.blake2b256) (fun r v => { r with blake2b256 := v }) (some hash.2) s
  | "blake2b" => assign (·.blake2b256) (fun r v => { r with blake2b256 := v }) (some hash.2) s
  | "integrity" => assign (·.integrity) (fun r v => { r with integrity := v }) (some hash.2) s
  | _ => s

/-- `_apply_file`: copy one upstream file's fields onto its row. -/
def applyFile (fileRow : PackageFile) (remote : RemoteFile) (upstreamId : Option Nat) :
    PackageFile × Bool :=
  let source := idOr remote.upstreamId upstreamId
  let s := (fileRow, false)
  if fileRow.blobSha256.getD "" ≠ "" then
    let s := assign (·.upstreamUrl) (fun r v => { r with upstreamUrl := v })
      (if remote.url ≠ "" then some remote.url else fileRow.upstreamUrl) s
    if source ≠ none then assign (·.upstreamId) (fun r v => { r with upstreamId := v }) source s
    else s
  else
    let s := assign (·.upstreamUrl) (fun r v => { r with upstreamUrl := v }) (some remote.url) s
    let s := assign (·.upstreamId) (fun r v => { r with upstreamId := v }) source s
    let s := assign (·.size) (fun r v => { r with size := v })
      (if remote.size.getD 0 ≠ 0 then remote.size else fileRow.size) s
    let s := assign (·.requiresPython) (fun r v => { r with requiresPython := v })
      remote.requiresPython s
    let s := assign (·.packagetype) (fun r v => { r with packagetype := v }) remote.packagetype s
    let s := assign (·.pythonVersion) (fun r v => { r with pythonVersion := v })
      remote.pythonVersion s
    let s := assign (·.contentType) (fun r v => { r with contentType := v }) remote.contentType s
    let s := assign (·.uploadTime) (fun r v => { r with uploadTime := v })
      (remote.uploadTime <|> fileRow.uploadTime) s
    let s := match remote.coreMetadata with
      | .hashes fields =>
        assign (·.coreMetadata) (fun r v => { r with coreMetadata := v }) (some fields) s
      | .flag true =>
        assign (·.coreMetadata) (fun r v => { r with coreMetadata := v })
          (some [("available", .bool true)]) s
      | _ => s
    let s := match remote.yanked with
      | .reason reason =>
        assign (·.yankedReason) (fun r v => { r with yankedReason := v }) (some reason)
          (assign (·.yanked) (fun r v => { r with yanked := v }) true s)
      | .flag b => assign (·.yanked) (fun r v => { r with yanked := v }) b s
    remote.hashes.foldl assignHash s

/-! ## Persisting an answer -/

/-- One file of a remote version. -/
def persistFile (defaultSource : Option Nat) (s : PackageVersion × Bool) (remote : RemoteFile) :
    PackageVersion × Bool :=
  match s.1.files.find? remote.filename with
  | some fileRow =>
    let (fileRow, changed) := applyFile fileRow remote defaultSource
    ({ s.1 with files := s.1.files.put fileRow }, s.2 || changed)
  | none =>
    let (fileRow, _) := applyFile { filename := remote.filename } remote defaultSource
    ({ s.1 with files := s.1.files.put fileRow }, true)

/-- The source a version is recorded with: where its files came from. -/
def versionSource (defaultSource : Option Nat) (remote : RemoteVersion) : Option Nat :=
  (remote.files.findSome? fun f => if f.upstreamId.getD 0 ≠ 0 then f.upstreamId else none).or
    defaultSource

/-- The mutable fields and the files of one version row. -/
def persistFields (defaultSource : Option Nat) (remote : RemoteVersion) (isNew : Bool)
    (versionRow : PackageVersion) : PackageVersion × Bool :=
  let source := versionSource defaultSource remote
  let s := (versionRow, false)
  let s := if !isNew && source ≠ none then
      assign (·.upstreamId) (fun r v => { r with upstreamId := v }) source s
    else s
  let s := assign (·.requiresPython) (fun r v => { r with requiresPython := v })
    (if remote.requiresPython.getD "" ≠ "" then remote.requiresPython
      else versionRow.requiresPython) s
  let s := assign (·.deprecated) (fun r v => { r with deprecated := v }) remote.deprecated s
  let s := match remote.yanked with
    | .reason reason =>
      assign (·.yankedReason) (fun r v => { r with yankedReason := v }) (some reason)
        (assign (·.yanked) (fun r v => { r with yanked := v }) true s)
    | .flag b => assign (·.yanked) (fun r v => { r with yanked := v }) b s
  let s := assign (·.publishedAt) (fun r v => { r with publishedAt := v })
    (remote.publishedAt <|> versionRow.publishedAt) s
  remote.files.foldl (persistFile defaultSource) s

/-- One version of the answer. A local version is never touched. -/
def persistVersion (nm : Naming) (ecosystem : Ecosystem) (defaultSource : Option Nat)
    (versions : Table PackageVersion.normalizedVersion) (remote : RemoteVersion) :
    Table PackageVersion.normalizedVersion :=
  let normVersion := normalizedVersion nm ecosystem remote.version
  match versions.find? normVersion with
  | none =>
    let versionRow : PackageVersion :=
      { version := remote.version
        normalizedVersion := normVersion
        upstreamId := versionSource defaultSource remote
        metadataJson := remote.metadata }
    versions.put (persistFields defaultSource remote true versionRow).1
  | some versionRow =>
    if versionRow.isLocal then versions
    else
      let (versionRow, changed) := persistFields defaultSource remote false versionRow
      versions.put
        (if changed && remote.metadata ≠ [] then { versionRow with metadataJson := remote.metadata }
          else versionRow)

/-- `_derive_latest`. -/
def deriveLatest (nm : Naming) (ecosystem : Ecosystem)
    (versions : Table PackageVersion.normalizedVersion) : Option String :=
  let unyanked := (versions.rows.filter fun v => !v.yanked).map PackageVersion.version
  let names := if unyanked = [] then versions.rows.map PackageVersion.version else unyanked
  if names = [] then none
  else if ecosystem = .pypi then (nm.sortPypiVersions names).getLast?
  else nm.maxSemver names

/-- The answer's dist-tags; local tags win. -/
def persistTags (isLocal : Bool) (tags : Table DistTag.tag) (distTags : Dict String String) :
    Table DistTag.tag :=
  distTags.foldl (fun tags e =>
    match tags.find? e.1 with
    | none => tags.put { tag := e.1, version := e.2 }
    | some _ => if isLocal then tags else tags.put { tag := e.1, version := e.2 }) tags

/-- The error is `UpstreamNameMismatch`. -/
def persistRemotePackage (nm : Naming) (ecosystem : Ecosystem) (stored : Option Package)
    (remote : RemotePackage) (upstream : Option Upstream) (requestedName : Option String)
    (validators : Option Validators) (now : Time) : Except String Package :=
  let requested := requestedName.getD ""
  let displayName := if remote.name ≠ "" then remote.name else requested
  let normalized := normalizeNameFor nm.caseMap ecosystem displayName
  if requested ≠ "" && normalizeNameFor nm.caseMap ecosystem requested ≠ normalized then
    .error ("upstream answered a request for '" ++ requested ++ "' with a document named '" ++
      displayName ++ "'")
  else
    let upstreamId := upstream.map Upstream.id
    let package : Package := stored.getD
      { ecosystem := ecosystem
        name := displayName
        normalizedName := normalized
        originUpstreamId := upstreamId }
    let keywords := coerceKeywords nm remote.keywords
    let versions := remote.versions.foldl (persistVersion nm ecosystem upstreamId) package.versions
    let latest := if remote.distTags = [] then package.latestVersion
      else ((Dict.get? remote.distTags "latest").bind
        fun v => coerceText nm (.str v) latestVersionLimit) <|> package.latestVersion
    .ok { package with
      description := coerceText nm remote.description <|> package.description
      author := coerceText nm remote.author authorLimit <|> package.author
      homepage := coerceHttpUrl nm remote.homepage homepageLimit <|> package.homepage
      license := coerceText nm remote.license licenseLimit <|> package.license
      keywords := if keywords = [] then package.keywords else keywords
      cachedDocument := if remote.raw = [] then package.cachedDocument else some remote.raw
      cachedEtag := validators.bind Validators.encode
      cachedAt := some now
      versions := versions
      distTags := persistTags package.isLocal package.distTags remote.distTags
      latestVersion := if latest = none then deriveLatest nm ecosystem versions else latest }

/-! ## Pruning -/

/-- What an answer says is there; nothing when it lists no version. -/
structure Present where
  answeredTier : Int
  versions : List String
  files : List String

def presentIn (nm : Naming) (ecosystem : Ecosystem) (answer : Option (RemotePackage × Int)) :
    Option Present :=
  answer.bind fun (p, tier) =>
    if p.versions = [] then none
    else some
      { answeredTier := tier
        versions := p.versions.map fun v => normalizedVersion nm ecosystem v.version
        files := p.versions.flatMap fun v => v.files.map RemoteFile.filename }

/-- The local function `displaced`. -/
def displaced (live : Dict Nat Int) (answer : Option Present) (source : Option Nat)
    (isPresent : Present → Bool) : Bool :=
  match source with
  | none => false
  | some s =>
    match Dict.get? live s with
    | none => true
    | some tier =>
      match answer with
      | none => false
      | some a => !isPresent a && tier > a.answeredTier

def displacedFile (live : Dict Nat Int) (answer : Option Present) (f : PackageFile) : Bool :=
  displaced live answer f.upstreamId fun a => f.filename ∈ a.files

/-- Whether the whole version goes. -/
def doomedVersion (live : Dict Nat Int) (answer : Option Present) (v : PackageVersion) : Bool :=
  if v.isLocal then false
  else if v.files.rows ≠ [] then v.files.rows.all (displacedFile live answer)
  else displaced live answer v.upstreamId fun a => v.normalizedVersion ∈ a.versions

/-- The files a surviving version loses. -/
def doomedFiles (live : Dict Nat Int) (answer : Option Present) (v : PackageVersion) :
    List PackageFile :=
  if v.isLocal || doomedVersion live answer v then []
  else v.files.rows.filter (displacedFile live answer)

/-- Remove one doomed file and re-point a version whose own source is gone. -/
def dropFile (live : Dict Nat Int) (v : PackageVersion) (f : PackageFile) : PackageVersion :=
  let files := v.files.filter fun g => g.filename ≠ f.filename
  let survivor := files.rows.findSome? fun g =>
    if g.upstreamId.getD 0 ≠ 0 then g.upstreamId else none
  let gone := match v.upstreamId with
    | none => true
    | some s => Dict.get? live s = none
  { v with
    files := files
    upstreamId := if gone && survivor ≠ none then survivor else v.upstreamId }

/-- A surviving version without its doomed files. -/
def dropFiles (live : Dict Nat Int) (answer : Option Present) (v : PackageVersion) :
    PackageVersion := (doomedFiles live answer v).foldl (dropFile live) v

theorem dropFiles_normalizedVersion (live : Dict Nat Int) (answer : Option Present)
    (v : PackageVersion) : (dropFiles live answer v).normalizedVersion = v.normalizedVersion := by
  unfold dropFiles
  generalize doomedFiles live answer v = fs
  induction fs generalizing v with
  | nil => rfl
  | cons f fs ih => rw [List.foldl_cons, ih]; rfl

/-- A tag that names a removed version follows `latest` or goes. -/
def pruneTag (removed : List String) (latest : Option String) (empty : Bool) (t : DistTag) :
    Option DistTag :=
  if t.version ∈ removed then
    if t.tag = "latest" && !empty then
      some { t with version := (latest.filter (· ≠ "")).getD t.version }
    else none
  else some t

theorem pruneTag_tag {removed : List String} {latest : Option String} {empty : Bool}
    {t t' : DistTag} (h : pruneTag removed latest empty t = some t') : t'.tag = t.tag := by
  unfold pruneTag at h
  split at h
  · split at h
    · cases h; rfl
    · cases h
  · cases h; rfl

def pruneTags (removed : List String) (latest : Option String) (empty : Bool)
    (tags : Table DistTag.tag) : Table DistTag.tag :=
  (tags.filter fun t => (pruneTag removed latest empty t).isSome).modify
    (fun t => (pruneTag removed latest empty t).getD t) (by
      intro t
      rcases h : pruneTag removed latest empty t with _ | t'
      · rfl
      · exact pruneTag_tag h)

theorem mem_pruneTags {removed : List String} {latest : Option String} {empty : Bool}
    {tags : Table DistTag.tag} {t' : DistTag} : t' ∈ pruneTags removed latest empty tags ↔
      ∃ t ∈ tags, pruneTag removed latest empty t = some t' := by
  unfold pruneTags
  rw [Table.mem_modify]
  constructor
  · rintro ⟨t, ht, rfl⟩
    obtain ⟨ht, hsome⟩ := Table.mem_filter.mp ht
    obtain ⟨t', ht'⟩ := Option.isSome_iff_exists.mp hsome
    exact ⟨t, ht, by rw [ht']; rfl⟩
  · rintro ⟨t, ht, ht'⟩
    exact ⟨t, Table.mem_filter.mpr ⟨ht, by rw [ht']; rfl⟩, by rw [ht']; rfl⟩

/-- Drop what nothing may serve any more. Also returns the files that are purged. -/
def pruneUnsourced (nm : Naming) (table : UpstreamTable) (ecosystem : Ecosystem)
    (package : Package) (answer : Option (RemotePackage × Int) := none) :
    Package × List PackageFile × Bool :=
  let live := liveSources nm.caseMap table ecosystem package.normalizedName
  let present := presentIn nm ecosystem answer
  let doomed := package.versions.rows.filter (doomedVersion live present)
  let lost := package.versions.rows.flatMap (doomedFiles live present)
  if doomed = [] && lost = [] then (package, [], false)
  else
    let removedSources := lost.map PackageFile.upstreamId ++ doomed.map PackageVersion.upstreamId ++
      doomed.flatMap fun v => v.files.rows.map PackageFile.upstreamId
    let etag := match Validators.decode package.cachedEtag with
      | some bound => if some bound.upstreamId ∈ removedSources then none else package.cachedEtag
      | none => package.cachedEtag
    let versions := (package.versions.filter fun v => !doomedVersion live present v).modify
      (dropFiles live present) (dropFiles_normalizedVersion live present)
    let removed := doomed.map PackageVersion.version
    let latest := deriveLatest nm ecosystem versions
    ({ package with
        cachedEtag := etag
        versions := versions
        distTags := pruneTags removed latest (versions.rows = []) package.distTags
        latestVersion := match package.latestVersion with
          | some v => if v ∈ removed then latest else some v
          | none => none },
      lost ++ doomed.flatMap (fun v => v.files.rows), true)

end Minireg
