import Minireg.Services.NpmPublish

/-!
# PyPI uploads

`twine upload` posts a form with the core metadata and one distribution file.
`parseUpload` validates the form against the filename; a wheel is then held to its
own METADATA. The parsers of `packaging`, the zip reader and the mail parser are
given (`Distributions`).
-/

namespace Minireg.PypiPublish

open Py
open NpmPublish (Bytes)

/-- A form field: its text, or its texts where the key is repeated. -/
inductive FieldValue where
  | one (text : String)
  | many (texts : List String)
  deriving DecidableEq, Repr

abbrev Form := Dict String FieldValue

/-- What a wheel holds: its `.dist-info` directories, and its members by path (none
where one inflates past the limit). -/
structure WheelArchive where
  distInfoDirs : List String
  member : String → Option (Option Bytes)

/-- Outside the parser. -/
structure Distributions where
  codec : NpmPublish.Codec
  pep440 : Pep440
  /-- `parse_wheel_filename` and `parse_sdist_filename`: the project and the version. -/
  parseWheelFilename : String → Option (String × String)
  parseSdistFilename : String → Option (String × String)
  /-- The error is what `zipfile` raises. -/
  openWheel : Bytes → Except String WheelArchive
  parseMetadata : Bytes → Form

inductive UploadError where
  | error (message : String) (status : Nat)
  deriving DecidableEq, Repr

abbrev Result := Except UploadError

def refuse {α : Type} (message : String) (status : Nat := 400) : Result α :=
  .error (.error message status)

structure UploadRequest where
  name : String
  version : String
  filename : String
  content : Bytes
  filetype : String
  pyversion : Option String := none
  metadataVersion : Option String := none
  summary : Option String := none
  descriptionContentType : Option String := none
  author : Option String := none
  authorEmail : Option String := none
  maintainer : Option String := none
  maintainerEmail : Option String := none
  license : Option String := none
  keywords : Option String := none
  homePage : Option String := none
  requiresPython : Option String := none
  classifiers : List String := []
  requiresDist : List String := []
  projectUrls : List String := []
  md5Digest : Option String := none
  sha256Digest : Option String := none
  blake2256Digest : Option String := none
  contentType : String := "application/octet-stream"
  deriving DecidableEq

/-! ## The form -/

/-- `_single`: the literal "UNKNOWN" counts as absent. -/
def single (form : Form) (key : String) : Option String :=
  let value := match Dict.get? form key with
    | some (.one text) => some text
    | some (.many texts) => texts.head?
    | none => none
  (value.map strip).filter fun text => text ≠ "" && text ≠ "UNKNOWN"

/-- `_multi`. -/
def multi (form : Form) (key : String) : List String :=
  let values := match Dict.get? form key with
    | some (.one text) => [text]
    | some (.many texts) => texts
    | none => []
  (values.map strip).filter (· ≠ "")

def isAsciiAlnum (c : Char) : Bool :=
  ('0' ≤ c && c ≤ '9') || ('a' ≤ c && c ≤ 'z') || ('A' ≤ c && c ≤ 'Z')

/-- `$` also matches before a last newline. -/
def beforeNewline (s : List Char) : List Char :=
  if s.getLast? = some '\n' then s.dropLast else s

/-- `is_valid_pypi_name`. -/
def isValidPypiName (name : String) : Bool :=
  let s := beforeNewline name.toList
  name ≠ "" && name.length ≤ 214 && s.head?.any isAsciiAlnum && s.getLast?.any isAsciiAlnum &&
    s.all fun c => isAsciiAlnum c || c == '.' || c == '_' || c == '-'

/-- `_FILENAME_RE.match(filename)`. -/
def isValidFilename (filename : String) : Bool :=
  let s := beforeNewline filename.toList
  !s.isEmpty && s.all fun c => isAsciiAlnum c || c ∈ ['.', '_', '+', '!', '-']

def endsWith (s suffix : String) : Bool := suffix.toList.isSuffixOf s.toList

/-- `FILETYPE_FOR_EXTENSION`. -/
def filetypeForExtension : List (String × String) :=
  [(".whl", "bdist_wheel"), (".tar.gz", "sdist")]

section Parsing

variable (dists : Distributions)

/-- The stem of a filename, cut at its last hyphen. -/
def splitStem (stem : List Char) : Option (String × String) :=
  let version := (stem.reverse.takeWhile (· ≠ '-')).reverse
  let name := (stem.reverse.dropWhile (· ≠ '-')).drop 1
  if '-' ∉ stem || name.isEmpty then none
  else some (String.ofList name.reverse, String.ofList version)

/-- `parse_dist_filename`, of the extensions that may be uploaded. -/
def parseDistFilename (filename : String) : Option (String × String) :=
  if endsWith filename ".whl" then dists.parseWheelFilename filename
  else dists.parseSdistFilename filename <|>
    ((splitStem (filename.toList.take (filename.length - ".tar.gz".length))).filter
      fun p => (dists.pep440.key? p.2).isSome)

/-- `a or b`, for texts that are not empty. -/
def lowerDigest (form : Form) (key : String) : Option String :=
  ((single form key).map dists.codec.caseMap.lower).filter (· ≠ "")

/-- `if not condition: raise UploadError(message)`. -/
def require (condition : Bool) (message : String) (status : Nat := 400) : Result Unit :=
  if condition then .ok () else refuse message status

/-- A value that has to be there. -/
def required {α : Type} (value : Option α) (message : String) : Result α :=
  match value with
  | some a => .ok a
  | none => refuse message

/-- The project and the version a form names. -/
def formVersion (form : Form) : Result (String × String) := do
  let name ← required (single form "name") "'name' is required"
  let version ← required (single form "version") "'version' is required"
  require (isValidPypiName name) ("'" ++ name ++ "' is not a valid project name (PEP 508)")
  require (dists.pep440.key? version).isSome
    ("'" ++ version ++ "' is not a valid version (PEP 440)")
  return (name, version)

/-- The filetype: the extension decides, and a declared one has to agree. -/
def uploadFiletype (form : Form) (filename : String) (content : Bytes) : Result String := do
  require (filename ≠ "") "no filename supplied for the uploaded content"
  require (isValidFilename filename) ("invalid characters in filename '" ++ filename ++ "'")
  let (_, filetype) ← required (filetypeForExtension.find? fun e => endsWith filename e.1)
    ("unsupported distribution type for '" ++ filename ++
      "'; only wheels (.whl) and sdists (.tar.gz) can be uploaded")
  require (!content.isEmpty) "uploaded file is empty"
  require (content.length ≤ dists.codec.maxPublishBytes) "uploaded file exceeds the size limit" 413
  let declaredType := (single form "filetype").getD filetype
  require (declaredType ∈ filetypeForExtension.map Prod.snd)
    ("invalid filetype '" ++ declaredType ++ "'")
  require (declaredType = filetype) ("filetype '" ++ declaredType ++ "' does not match '" ++
    filename ++ "', which is a " ++ filetype)
  return filetype

/-- `parse_upload`. -/
def parseUpload (form : Form) (filename : String) (content : Bytes) (contentType : String) :
    Result UploadRequest := do
  let action := single form ":action" <|> single form "action"
  require (action.all fun a => a = "file_upload" || a = "submit")
    ("unsupported :action '" ++ action.getD "" ++ "'")
  let (name, version) ← formVersion dists form
  let filetype ← uploadFiletype dists form filename content
  let (fileName, fileVersion) ← required (parseDistFilename dists filename)
    ("could not parse project name and version from '" ++ filename ++ "'")
  let cm := dists.codec.caseMap
  require (normalizePypiName cm fileName = normalizePypiName cm name)
    ("filename '" ++ filename ++ "' does not match the declared project name '" ++ name ++ "'")
  require (dists.pep440.normalize fileVersion = dists.pep440.normalize version)
    ("filename '" ++ filename ++ "' does not match the declared version '" ++ version ++ "'")
  return { name := name
           version := version
           filename := filename
           content := content
           filetype := filetype
           pyversion := single form "pyversion" <|>
             if filetype = "sdist" then some "source" else none
           metadataVersion := single form "metadata_version"
           summary := single form "summary"
           descriptionContentType := single form "description_content_type"
           author := single form "author"
           authorEmail := single form "author_email"
           maintainer := single form "maintainer"
           maintainerEmail := single form "maintainer_email"
           license := single form "license" <|> single form "license_expression"
           keywords := single form "keywords"
           homePage := single form "home_page"
           requiresPython := single form "requires_python"
           classifiers := multi form "classifiers"
           requiresDist := multi form "requires_dist"
           projectUrls := multi form "project_urls"
           md5Digest := lowerDigest dists form "md5_digest"
           sha256Digest := lowerDigest dists form "sha256_digest"
           blake2256Digest := lowerDigest dists form "blake2_256_digest"
           contentType := if contentType = "" then "application/octet-stream" else contentType }

/-! ## The wheel and the digests -/

/-- `check_wheel_metadata`: what the wheel requires of Python, and its METADATA. -/
def checkWheelMetadata (request : UploadRequest) : Result (Option String × Bytes) := do
  let filename := request.filename
  let archive ← match dists.openWheel request.content with
    | .ok archive => Except.ok archive
    | .error e => refuse ("'" ++ filename ++ "' is not a valid wheel: " ++ e)
  let [distInfo] := archive.distInfoDirs
    | refuse ("'" ++ filename ++ "' must contain exactly one .dist-info directory, found " ++
        toString archive.distInfoDirs.length)
  let member ← required (archive.member (distInfo ++ "/METADATA"))
    ("'" ++ filename ++ "' has no " ++ distInfo ++ "/METADATA")
  let raw ← required member (distInfo ++ "/METADATA in '" ++ filename ++ "' is too large")
  let cm := dists.codec.caseMap
  let project := normalizePypiName cm request.name
  require ((project ++ "-").toList.isPrefixOf (normalizePypiName cm distInfo).toList)
    ("'" ++ filename ++ "' contains " ++ distInfo ++ ", which is not for project '" ++
      request.name ++ "'")
  let metadata := dists.parseMetadata raw
  let (some (.one metaName), some (.one metaVersion)) :=
      (Dict.get? metadata "name", Dict.get? metadata "version")
    | refuse ("METADATA in '" ++ filename ++ "' needs exactly one Name and one Version")
  require (normalizePypiName cm (strip metaName) = project)
    ("METADATA in '" ++ filename ++ "' names project '" ++ strip metaName ++ "', not '" ++
      request.name ++ "'")
  require (dists.pep440.equal (strip metaVersion) request.version &&
      (dists.pep440.key? (strip metaVersion)).isSome)
    ("METADATA in '" ++ filename ++ "' gives version '" ++ strip metaVersion ++ "', not '" ++
      request.version ++ "'")
  let requiresPython := match Dict.get? metadata "requires_python" with
    | some (.one text) => some (strip text)
    | _ => none
  return (requiresPython.filter (· ≠ ""), raw)

/-- `verify_digests`, of one digest. -/
def digestError (label : String) (declared : Option String) (actual : String) : Option String :=
  if declared.any fun d => d ≠ dists.codec.caseMap.lower actual then
    some (label ++ " digest mismatch: client declared " ++ declared.getD "" ++
      ", server computed " ++ actual)
  else none

def verifyDigests (request : UploadRequest) (stored : NpmPublish.Digests) : Result Unit :=
  match digestError dists "md5" request.md5Digest stored.md5 <|>
      digestError dists "sha256" request.sha256Digest stored.sha256 <|>
      digestError dists "blake2_256" request.blake2256Digest stored.blake2b256 with
  | some message => refuse message
  | none => .ok ()

/-- `core_metadata_record`. -/
def coreMetadataRecord (raw : Bytes) : List (String × Json) :=
  [("sha256", .str (dists.codec.hex (dists.codec.hash "sha256" raw))),
   ("_raw_b64", .str (dists.codec.b64encode raw))]

end Parsing

/-- `keyword_list`. -/
def UploadRequest.keywordList (r : UploadRequest) : List String :=
  splitWords ((r.keywords.getD "").toList.map fun c => if c = ',' then ' ' else c)

def optJson (text : Option String) : Json := (text.map Json.str).getD .null

/-- `metadata_from_upload`. -/
def metadataFromUpload (r : UploadRequest) : List (String × Json) :=
  [("metadata_version", optJson r.metadataVersion),
   ("name", .str r.name),
   ("version", .str r.version),
   ("summary", optJson r.summary),
   ("description_content_type", optJson r.descriptionContentType),
   ("author", optJson r.author),
   ("author_email", optJson r.authorEmail),
   ("maintainer", optJson r.maintainer),
   ("maintainer_email", optJson r.maintainerEmail),
   ("license", optJson r.license),
   ("keywords", .arr (r.keywordList.map .str)),
   ("home_page", optJson r.homePage),
   ("requires_python", optJson r.requiresPython),
   ("classifiers", .arr (r.classifiers.map .str)),
   ("requires_dist", .arr (r.requiresDist.map .str)),
   ("project_urls", .arr (r.projectUrls.map .str)),
   ("filetype", .str r.filetype),
   ("pyversion", optJson r.pyversion)]

section Parsed

variable {dists : Distributions} {form : Form}

theorem require_ok {condition : Bool} {message : String} {status : Nat} {u : Unit}
    (h : require condition message status = .ok u) : condition = true := by
  unfold require refuse at h
  split at h
  · assumption
  · cases h

theorem formVersion_parses {named : String × String} (h : formVersion dists form = .ok named) :
    (dists.pep440.key? named.2).isSome = true := by
  obtain ⟨name, -, h⟩ := bind_ok h
  obtain ⟨version, -, h⟩ := bind_ok h
  obtain ⟨u, -, h⟩ := bind_ok h
  obtain ⟨u', hparses, h⟩ := bind_ok h
  obtain rfl := Except.ok.inj h
  exact require_ok hparses

/-- **A parsed upload names a version that parses.** -/
theorem parseUpload_version {filename : String} {content : Bytes} {contentType : String}
    {request : UploadRequest} (h : parseUpload dists form filename content contentType = .ok request) :
    (dists.pep440.key? request.version).isSome = true := by
  obtain ⟨u, -, h⟩ := bind_ok h
  obtain ⟨⟨name, version⟩, hnamed, h⟩ := bind_ok h
  obtain ⟨filetype, -, h⟩ := bind_ok h
  obtain ⟨⟨fileName, fileVersion⟩, -, h⟩ := bind_ok h
  obtain ⟨u₁, -, h⟩ := bind_ok h
  obtain ⟨u₂, -, h⟩ := bind_ok h
  obtain rfl := Except.ok.inj h
  exact formVersion_parses hnamed

end Parsed

end Minireg.PypiPublish
