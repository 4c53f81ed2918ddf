import Minireg.Api.Pages
import Minireg.Api.Refused
import Minireg.Lib.Markup
import Minireg.Py.Grouping
import Minireg.Services.CoreMetadata
import Minireg.Upstreams.PypiProvider

/-!
# The pages of a project, and what a mirror reads of them

A project is listed twice, as JSON and as HTML, and the provider that mirrors such pages reads
both. `pages_roundTrip` says that either way it gets the files of the rows, with what the rows
say of them: an HTML link carries its digest in the fragment of its address and has room for
one digest of the metadata.
-/

namespace Minireg.SimplePages

open Py Lib
open PypiPublish (Advertised coreMetadataValue hashNames isHexDigit endsWith)

/-- Outside the pages: the settings, the store, and the library functions they are read with. -/
structure PageEnv where
  registry : RegistryEnv
  /-- `settings.pypi_base` -/
  base : String
  sizeOf : String → Option Nat
  timeText : Time → String
  reader : Html.Reader
  urljoin : String → String → String
  unquote : String → String
  fromIsoformat : String → Option Time

namespace PageEnv

variable (env : PageEnv)

def caseMap : CaseMap := env.registry.caseMap

def names : DistNames where
  pep440 := env.registry.pep440
  parseWheelFilename := env.registry.parseWheelFilename
  parseSdistFilename := env.registry.parseSdistFilename

end PageEnv

/-! ## What a page says of a row -/

/-- `value or None`, of a text. -/
def filled (value : Option String) : Option String := value.filter (· ≠ "")

/-- `_yanked_value`. -/
def yankedValue (f : PackageFile) : Yanked :=
  if f.yanked then ((filled f.yankedReason).map Yanked.reason).getD (.flag true) else .flag false

/-- `file_row.requires_python or version_row.requires_python`, where it says something. -/
def requiresPython (v : PackageVersion) (f : PackageFile) : Option String :=
  (filled f.requiresPython).or (filled v.requiresPython)

/-- `_core_metadata_value`, of the column of a row. -/
def coreMetadata (env : PageEnv) (f : PackageFile) : Advertised :=
  coreMetadataValue env.registry.codec ((f.coreMetadata.map Json.obj).getD .null)

/-- The rows of a page: the versions that are not left out, with their files. -/
def shown (package : Package) (excluded : List String) : List (PackageVersion × PackageFile) :=
  (package.versions.rows.filter fun v => v.version ∉ excluded).flatMap fun v =>
    v.files.rows.map fun f => (v, f)

/-! ## The JSON page -/

/-- `_hashes_for`. -/
def hashesFor (f : PackageFile) : Dict String String :=
  Dict.present [("sha256", filled f.sha256), ("blake2b_256", filled f.blake2b256),
    ("md5", filled f.md5)]

/-- `_known_size`. -/
def knownSize (env : PageEnv) (f : PackageFile) : Option Nat :=
  match f.size.filter (· ≠ 0) with
  | some size => some size
  | none => (filled f.blobSha256).bind env.sizeOf

def apiVersion : String := "1.1"

/-- A page with a file whose size nobody knows. -/
def baseApiVersion : String := "1.0"

def jsonYanked : Yanked → Option Json
  | .flag false => none
  | .flag true => some (.bool true)
  | .reason reason => some (.str reason)

def jsonDigests (digests : Dict String String) : List (String × Json) :=
  digests.map fun e => (e.1, .str e.2)

def jsonCoreMetadata : Advertised → Option Json
  | .omitted => none
  | .available => some (.bool true)
  | .digests listed => some (.obj (jsonDigests listed))

section Render

variable (env : PageEnv) (package : Package)

/-- The keys of a file, with the values of those that are set. -/
def entrySlots (v : PackageVersion) (f : PackageFile) : List (String × Option Json) :=
  [("filename", some (.str f.filename)),
    ("url", some (.str (fileHref env.registry package env.base true f))),
    ("hashes", some (.obj (jsonDigests (hashesFor f)))),
    ("size", (knownSize env f).map fun (size : Nat) => Json.int size),
    ("requires-python", (requiresPython v f).map .str),
    ("yanked", jsonYanked (yankedValue f)),
    ("core-metadata", jsonCoreMetadata (coreMetadata env f)),
    ("dist-info-metadata", jsonCoreMetadata (coreMetadata env f)),
    ("upload-time", (filled (f.uploadTime.map env.timeText)).map .str)]

def jsonEntry (v : PackageVersion) (f : PackageFile) : Json :=
  .obj (Dict.present (entrySlots env package v f))

/-- `render_project_json`. -/
def renderProjectJson (excluded : List String) : List (String × Json) :=
  let versions := (package.versions.rows.filter fun v => v.version ∉ excluded).map (·.version)
  let sizesKnown := (shown package excluded).all fun r => (knownSize env r.2).isSome
  [("meta", .obj [("api-version", .str (if sizesKnown then apiVersion else baseApiVersion))]),
    ("name", .str (normalizePypiName env.caseMap package.name)),
    ("files", .arr ((shown package excluded).map fun r => jsonEntry env package r.1 r.2)),
    ("versions", .arr ((env.registry.sortPypiVersions versions).map .str))]

/-! ## The HTML page -/

/-- The digest that stands in an anchor, or `true`. -/
def anchorCoreMetadata : Advertised → Option String
  | .omitted => none
  | .available => some "true"
  | .digests listed => listed.head?.map fun e => e.1 ++ "=" ++ e.2

/-- `name="value"`. -/
def attributeText (name value : String) : String := name ++ "=\"" ++ Html.escape value ++ "\""

/-- The value of `data-yanked`, where it stands. -/
def anchorYanked : Yanked → Option String
  | .flag false => none
  | .flag true => some ""
  | .reason reason => some reason

/-- The attributes of a link behind its address, with the values of those that stand. -/
def anchorSlots (v : PackageVersion) (f : PackageFile) : List (String × Option String) :=
  [("data-requires-python", requiresPython v f), ("data-yanked", anchorYanked (yankedValue f)),
    ("data-core-metadata", anchorCoreMetadata (coreMetadata env f)),
    ("data-dist-info-metadata", anchorCoreMetadata (coreMetadata env f))]

/-- `_anchor_attributes`. -/
def anchorAttributes (v : PackageVersion) (f : PackageFile) : String :=
  let attributes := (Dict.present (anchorSlots env v f)).map fun a => attributeText a.1 a.2
  if attributes = [] then "" else " " ++ join " " attributes

/-- The line of a file. -/
def anchorLine (v : PackageVersion) (f : PackageFile) : String :=
  "    <a href=\"" ++ Html.escape (fileHref env.registry package env.base false f) ++ "\"" ++
    anchorAttributes env v f ++ ">" ++ Html.escape f.filename ++ "</a><br>"

/-- The lines before the files, but for the first. -/
def headLines : List String :=
  let normalized := normalizePypiName env.caseMap package.name
  ["<html lang=\"en\">", "  <head>",
    "    <meta name=\"pypi:repository-version\" content=\"" ++ apiVersion ++ "\">",
    "    <title>Links for " ++ Html.escape normalized ++ "</title>", "  </head>", "  <body>",
    "    <h1>Links for " ++ Html.escape normalized ++ "</h1>"]

def tailLines : List String := ["  </body>", "</html>", ""]

/-- `render_project_html`. -/
def renderProjectHtml (excluded : List String) : String :=
  join "\n" ("<!DOCTYPE html>" :: (headLines env package ++
    (shown package excluded).map (fun r => anchorLine env package r.1 r.2) ++ tailLines))

end Render

/-! ## The provider -/

section Parse

variable (env : PageEnv)

/-- A character of the name of a hash in a fragment. -/
def inAlgorithm (c : Char) : Bool := ('a' ≤ c && c ≤ 'z') || ('0' ≤ c && c ≤ '9') || c == '_'

/-- `_HASH_FRAGMENT_RE`, where a text starts: `$` also matches before a final newline. -/
def matchHash : List Char → Option (String × String)
  | '#' :: fragment =>
    match fragment.dropWhile inAlgorithm with
    | '=' :: value =>
      if fragment.takeWhile inAlgorithm ≠ [] && value.takeWhile isHexDigit ≠ [] &&
          value.dropWhile isHexDigit ∈ [[], ['\n']] then
        some (String.ofList (fragment.takeWhile inAlgorithm),
          String.ofList (value.takeWhile isHexDigit))
      else none
    | _ => none
  | _ => none

/-- `_HASH_FRAGMENT_RE.search`: what is before the match, and the match. -/
def searchHash (before : List Char) : List Char → Option (List Char × String × String)
  | [] => none
  | c :: rest =>
    match matchHash (c :: rest) with
    | some found => some (before, found)
    | none => searchHash (before ++ [c]) rest

/-- `_split_hash_fragment`. -/
def splitHashFragment (url : String) : String × Dict String String :=
  match searchHash [] url.toList with
  | some (before, algorithm, digest) =>
    (String.ofList before, [(env.caseMap.lower algorithm, env.caseMap.lower digest)])
  | none => (url, [])

/-- `value.replace("Z", "+00:00")`. -/
def withOffset (value : String) : String :=
  String.ofList (value.toList.flatMap fun c => if c = 'Z' then "+00:00".toList else [c])

/-- `_parse_upload_time`. -/
def parseUploadTime : Json → Option Time
  | .str value => env.fromIsoformat (withOffset value)
  | _ => none

/-- `_coerce_core_metadata`. -/
def coerceCoreMetadata : Json → CoreMetadata
  | .bool true => .flag true
  | .obj fields => if fields = [] then .flag true else .hashes fields
  | .str value =>
    if env.caseMap.lower value ∈ ["true", ""] then .flag true
    else if '=' ∈ value.toList then
      .hashes [(env.caseMap.lower (String.ofList (value.toList.takeWhile (· ≠ '='))),
        .str (String.ofList (value.toList.dropWhile (· ≠ '=')).tail))]
    else .flag true
  | _ => .absent

/-- The third component of `parse_dist_filename`. -/
def packagetypeOf (filename : String) : Option String :=
  (env.names.parse filename).map fun _ =>
    if endsWith filename ".whl" then "bdist_wheel"
    else if DistNames.sdistSuffixes.any fun suffix => endsWith filename suffix then "sdist"
    else "bdist_egg"

/-- `_python_version_for`. -/
def pythonVersionFor (filename : String) : Option String :=
  match packagetypeOf env filename with
  | none => none
  | some packagetype =>
    if packagetype = "sdist" then some "source"
    else if endsWith filename ".whl" then
      (((DistNames.stemOf filename ".whl").splitOn '-').reverse[2]?).map String.ofList
    else none

/-- `{k.lower(): v.lower() for k, v in (value or {}).items()}`; none where that raises. -/
def lowerHashes : Json → Option (Dict String String)
  | .obj fields =>
    (fields.mapM fun (e : String × Json) => e.2.asStr?.map fun digest =>
      (env.caseMap.lower e.1, env.caseMap.lower digest)).map Dict.ofPairs
  | value => if value.truthy then none else some []

/-- A text, or nothing; none for a value of another type. -/
def readText : Json → Option (Option String)
  | .null => some none
  | .str value => some (some value)
  | _ => none

/-- A size, or nothing; none for a value of another type. -/
def readSize : Json → Option (Option Nat)
  | .null => some none
  | .int size => if 0 ≤ size then some (some size.toNat) else none
  | _ => none

def readYanked : Json → Yanked
  | .bool yanked => .flag yanked
  | .str reason => .reason reason
  | _ => .flag false

/-- One file of a JSON page: nothing where it is passed by, none where reading it raises or a
field is of a type that the provider does not expect. -/
def readEntry (page : String) : Json → Option (Option RemoteFile)
  | .obj entry =>
    if !(Json.get entry "filename").truthy || !(Json.get entry "url").truthy then some none
    else do
      let filename ← (Json.get entry "filename").asStr?
      let href ← (Json.get entry "url").asStr?
      let (absolute, fragHashes) := splitHashFragment env (env.urljoin page href)
      let hashes ← lowerHashes env (Json.get entry "hashes")
      let size ← readSize (Json.get entry "size")
      let requiresPython ← readText (Json.get entry "requires-python")
      return some
        { filename := filename
          url := absolute
          hashes := fragHashes.foldl (fun d e => d.set e.1 e.2) hashes
          size := size
          requiresPython := requiresPython
          yanked := readYanked (Json.get entry "yanked")
          coreMetadata := coerceCoreMetadata env
            ((Dict.get? entry "core-metadata").getD (Json.get entry "dist-info-metadata"))
          uploadTime := parseUploadTime env (Json.get entry "upload-time")
          packagetype := packagetypeOf env filename
          pythonVersion := pythonVersionFor env filename }
  | _ => none

/-- The texts of `doc.get("versions") or []`. -/
def readVersions : Json → Option (List String)
  | .arr values => some (values.filterMap Json.asStr?)
  | .str text => some (text.toList.map fun c => String.ofList [c])
  | .obj fields => some (fields.map Prod.fst)
  | value => if value.truthy then none else some []

/-- The files of `doc.get("files") or []`. -/
def readFiles (page : String) : Json → Option (List RemoteFile)
  | .arr entries => (entries.mapM (readEntry env page)).map List.reduceOption
  | value => if value.truthy then none else some []

/-- `_parse_json`: the files and the versions. -/
def parseJson (page : String) (doc : List (String × Json)) :
    Option (List RemoteFile × List String) := do
  let files ← readFiles env page (Json.get doc "files")
  let versions ← readVersions (Json.get doc "versions")
  return (files, versions)

/-- A link of a page that is being read. -/
structure Link where
  href : String
  requiresPython : Option String
  yanked : Option String
  yankedPresent : Bool
  coreMetadata : Option String
  text : String := ""
  deriving DecidableEq

/-- `_SimpleHTMLParser`: the links that have ended, and the one that has not. -/
structure Scrape where
  closed : List Link := []
  current : Option Link := none

namespace Scrape

def links (s : Scrape) : List Link := s.closed ++ s.current.toList

/-- `dict(attrs).get(name)`. -/
def attr (attributes : Dict String (Option String)) (name : String) : Option String :=
  (attributes.get? name).join

/-- `handle_starttag`, `handle_data` and `handle_endtag`. -/
def handle (s : Scrape) : Html.Event → Scrape
  | .start tag attrs =>
    if tag ≠ "a" then s
    else
      let attributes := Dict.ofPairs attrs
      match filled (attr attributes "href") with
      | none => s
      | some href =>
        { closed := s.links
          current := some
            { href := href
              requiresPython := attr attributes "data-requires-python"
              yanked := attr attributes "data-yanked"
              yankedPresent := (attributes.get? "data-yanked").isSome
              coreMetadata := (filled (attr attributes "data-core-metadata")).or
                (attr attributes "data-dist-info-metadata") } }
  | .data text => { s with current := s.current.map fun l => { l with text := l.text ++ text } }
  | .stop tag => if tag = "a" then { closed := s.links } else s

end Scrape

/-- `absolute.rsplit("/", 1)[-1]`. -/
def lastSegment (url : String) : String :=
  String.ofList (url.toList.reverse.takeWhile (· ≠ '/')).reverse

/-- `(link["text"] or "").strip() or unquote(absolute.rsplit("/", 1)[-1])`. -/
def linkName (text absolute : String) : String :=
  if strip text = "" then env.unquote (lastSegment absolute) else strip text

/-- One link of an HTML page. -/
def readLink (page : String) (link : Link) : Option RemoteFile :=
  let (absolute, hashes) := splitHashFragment env (env.urljoin page link.href)
  let filename := linkName env link.text absolute
  if filename = "" then none
  else some
    { filename := filename
      url := absolute
      hashes := hashes
      requiresPython := link.requiresPython
      yanked := if link.yankedPresent then
          ((filled link.yanked).map Yanked.reason).getD (.flag true)
        else .flag false
      coreMetadata := coerceCoreMetadata env ((link.coreMetadata.map Json.str).getD .null)
      packagetype := packagetypeOf env filename
      pythonVersion := pythonVersionFor env filename }

/-- `_parse_html`: the files. -/
def parseHtml (page : String) (html : String) : List RemoteFile :=
  ((env.reader.feed html).foldl Scrape.handle {}).links.filterMap (readLink env page)

end Parse

/-! ## What is read of a page -/

/-- What a reader of a page gets of a file. -/
structure Listing where
  filename : String
  sha256 : Option String
  requiresPython : Option String
  yanked : Yanked
  coreMetadata : CoreMetadata
  deriving DecidableEq

def seen (f : RemoteFile) : Listing where
  filename := f.filename
  sha256 := f.hashes.get? "sha256"
  requiresPython := f.requiresPython
  yanked := f.yanked
  coreMetadata := f.coreMetadata

/-- The metadata of a file, with every digest of it. -/
def wholeMetadata : Advertised → CoreMetadata
  | .omitted => .absent
  | .available => .flag true
  | .digests listed => .hashes (jsonDigests listed)

/-- The metadata of a file, with the one digest that a link has room for. -/
def singleMetadata : Advertised → CoreMetadata
  | .omitted => .absent
  | .available => .flag true
  | .digests listed => .hashes (jsonDigests (listed.take 1))

/-- What a row says of its file. -/
def rowSays (env : PageEnv) (metadata : Advertised → CoreMetadata)
    (r : PackageVersion × PackageFile) : Listing where
  filename := r.2.filename
  sha256 := (filled r.2.sha256).map env.caseMap.lower
  requiresPython := requiresPython r.1 r.2
  yanked := yankedValue r.2
  coreMetadata := metadata (coreMetadata env r.2)

/-- The rows that a reader can list. -/
def listed (package : Package) (excluded : List String) : List (PackageVersion × PackageFile) :=
  (shown package excluded).filter fun r => r.2.filename ≠ ""

/-- The sha256 of a row, where it has one, is written in hexadecimal digits. -/
def IsDigest (sha256 : Option String) : Prop := (sha256.getD "").toList.all isHexDigit = true

instance (sha256 : Option String) : Decidable (IsDigest sha256) := by
  unfold IsDigest
  infer_instance

/-- What the library functions promise, and the settings: the addresses under the base are
addresses of their own. -/
structure PageEnv.Lawful (env : PageEnv) : Prop where
  lower : ∀ s : String, (∀ c ∈ s.toList, c.toNat < 128) →
    env.caseMap.lower s = String.ofList (s.toList.map Char.toLower)
  hex : ∀ data, ∀ c ∈ (env.registry.codec.hex data).toList, isHexDigit c = true
  base : '#' ∉ env.base.toList
  joins : ∀ page project filename,
    env.urljoin page (fileUrl env.registry env.base project filename) =
    fileUrl env.registry env.base project filename
  joinsDigest : ∀ page project filename digest, digest ≠ "" → IsDigest (some digest) →
    env.urljoin page (fileUrl env.registry env.base project filename ++ "#sha256=" ++ digest) =
      fileUrl env.registry env.base project filename ++ "#sha256=" ++ digest
  unquote : env.unquote "" = ""

/-! ### The pieces of the HTML page -/

section Pieces

variable (env : PageEnv) (package : Package)

open Html (Piece)

def linkAttrs (v : PackageVersion) (f : PackageFile) : Html.Attrs :=
  ("href", fileHref env.registry package env.base false f) :: Dict.present (anchorSlots env v f)

def anchorPieces (v : PackageVersion) (f : PackageFile) : List Piece :=
  [.text "\n    ", .leaf .a (linkAttrs env package v f) f.filename, .void .lineBreak []]

def headPieces : List Piece :=
  let title := "Links for " ++ normalizePypiName env.caseMap package.name
  [.text "\n", .opening .html [("lang", "en")], .text "\n  ", .opening .head [],
    .text "\n    ",
    .void .metadata [("name", "pypi:repository-version"), ("content", apiVersion)],
    .text "\n    ", .leaf .title [] title, .text "\n  ", .closing .head,
    .text "\n  ", .opening .body [], .text "\n    ", .leaf .h1 [] title]

def tailPieces : List Piece :=
  [.text "\n  ", .closing .body, .text "\n", .closing .html, .text "\n"]

/-- The page. -/
def pagePieces (excluded : List String) : List Piece :=
  .doctype :: (headPieces env package ++
    (shown package excluded).flatMap (fun r => anchorPieces env package r.1 r.2) ++ tailPieces)

end Pieces

section Written

variable (env : PageEnv) (package : Package)

theorem toList_join_cons (sep line : String) (lines : List String) :
    (join sep (line :: lines)).toList =
      line.toList ++ lines.flatMap fun l => sep.toList ++ l.toList := by
  induction lines generalizing line with
  | nil => exact (List.append_nil _).symm
  | cons next lines ih =>
    rw [join_cons_cons, String.toList_append, String.toList_append, ih, List.flatMap_cons,
      List.append_assoc, List.append_assoc]

theorem toList_attributeText (name value : String) :
    " ".toList ++ (attributeText name value).toList = Html.attrChars (name, value) := by
  unfold attributeText Html.attrChars
  simp only [String.toList_append, Html.toList_escape, List.append_assoc]
  rfl

theorem toList_anchorAttributes (v : PackageVersion) (f : PackageFile) :
    (anchorAttributes env v f).toList =
      (Dict.present (anchorSlots env v f)).flatMap Html.attrChars := by
  unfold anchorAttributes
  rcases Dict.present (anchorSlots env v f) with _ | ⟨a, attrs⟩
  · rfl
  · rw [List.map_cons]
    dsimp only
    rw [if_neg (List.cons_ne_nil _ _), String.toList_append, toList_join_cons,
      ← List.append_assoc, toList_attributeText, List.flatMap_cons, List.flatMap_map]
    exact congrArg _ (List.flatMap_congr fun b _ => toList_attributeText b.1 b.2)

/-- The line of a file. -/
theorem toList_anchorLine (v : PackageVersion) (f : PackageFile) :
    "\n".toList ++ (anchorLine env package v f).toList =
      Html.write (anchorPieces env package v f) := by
  unfold anchorLine anchorPieces linkAttrs Html.write
  simp only [String.toList_append, toList_anchorAttributes, Html.toList_escape, Html.Piece.chars,
    Html.startTag, Html.attrChars, List.flatMap_cons, List.cons_append, List.append_assoc]
  rfl

theorem toList_headLines :
    ((headLines env package).flatMap fun l => "\n".toList ++ l.toList) =
      Html.write (headPieces env package) := by
  unfold headLines headPieces Html.write
  simp only [List.flatMap_cons, String.toList_append, Html.toList_escape, Html.Piece.chars,
    Html.escapeChars_append, List.append_assoc]
  rfl

/-- **The page is what its pieces are written as.** -/
theorem renderProjectHtml_eq (excluded : List String) :
    renderProjectHtml env package excluded =
      String.ofList (Html.write (pagePieces env package excluded)) := by
  have hlinks : ((shown package excluded).map fun r => anchorLine env package r.1 r.2).flatMap
      (fun l => "\n".toList ++ l.toList) =
        Html.write
          ((shown package excluded).flatMap fun r => anchorPieces env package r.1 r.2) := by
    unfold Html.write
    rw [List.flatMap_map, List.flatMap_assoc]
    exact List.flatMap_congr fun r _ => toList_anchorLine env package r.1 r.2
  have htail : (tailLines.flatMap fun l => "\n".toList ++ l.toList) = Html.write tailPieces := rfl
  refine String.toList_inj.mp ?_
  unfold renderProjectHtml
  rw [String.toList_ofList, toList_join_cons, List.flatMap_append, List.flatMap_append,
    toList_headLines, hlinks, htail]
  unfold pagePieces Html.write
  rw [List.flatMap_cons, List.flatMap_append, List.flatMap_append]
  rfl

theorem linkAttrs_eq (v : PackageVersion) (f : PackageFile) :
    linkAttrs env package v f = Dict.present
      (("href", some (fileHref env.registry package env.base false f)) ::
        anchorSlots env v f) := rfl

theorem linkSlots_nodup (url : Option String) (v : PackageVersion) (f : PackageFile) :
    ((("href", url) :: anchorSlots env v f).map Prod.fst).Nodup := by
  change ["href", "data-requires-python", "data-yanked", "data-core-metadata",
    "data-dist-info-metadata"].Nodup
  decide

theorem named_of_names {pieces : List Html.Piece}
    (h : ∀ a ∈ pieces.flatMap Html.Piece.attrs, a.1 ∈ ["lang", "name", "content", "href",
      "data-requires-python", "data-yanked", "data-core-metadata", "data-dist-info-metadata"]) :
    Html.Named pieces := by
  have hnames : ["lang", "name", "content", "href", "data-requires-python", "data-yanked",
      "data-core-metadata", "data-dist-info-metadata"].all
        (fun name => name ≠ "" && name.toList.all Html.inName) = true := by decide
  intro piece hpiece a ha
  have hname := List.all_eq_true.mp hnames _ (h a (List.mem_flatMap.mpr ⟨piece, hpiece, ha⟩))
  obtain ⟨hne, hall⟩ := Bool.and_eq_true_iff.mp hname
  exact ⟨of_decide_eq_true hne, hall⟩

theorem pagePieces_named (excluded : List String) :
    Html.Named (pagePieces env package excluded) := by
  have hattrs : (pagePieces env package excluded).flatMap Html.Piece.attrs =
      [("lang", "en"), ("name", "pypi:repository-version"), ("content", apiVersion)] ++
        (shown package excluded).flatMap fun r => linkAttrs env package r.1 r.2 := by
    have hlinks : ((shown package excluded).flatMap fun r =>
        anchorPieces env package r.1 r.2).flatMap Html.Piece.attrs =
          (shown package excluded).flatMap fun r => linkAttrs env package r.1 r.2 := by
      rw [List.flatMap_assoc]
      exact List.flatMap_congr fun r _ => List.append_nil _
    unfold pagePieces
    rw [List.flatMap_cons, List.flatMap_append, List.flatMap_append, hlinks]
    exact List.append_nil _
  refine named_of_names fun a ha => ?_
  rw [hattrs] at ha
  rcases List.mem_append.mp ha with ha | ha
  · simp only [List.mem_cons, List.not_mem_nil, or_false] at ha
    rcases ha with rfl | rfl | rfl <;> decide
  · obtain ⟨r, -, ha⟩ := List.mem_flatMap.mp ha
    rw [linkAttrs_eq] at ha
    have hslot := Dict.mem_of_mem_present ha
    simp only [anchorSlots, List.mem_cons, List.not_mem_nil, or_false, Prod.mk.injEq] at hslot
    rcases hslot with ⟨hname, -⟩ | ⟨hname, -⟩ | ⟨hname, -⟩ | ⟨hname, -⟩ | ⟨hname, -⟩ <;>
      rw [hname] <;> decide

/-! ### The links of the HTML page -/

/-- The link of a row. -/
def linkOf (v : PackageVersion) (f : PackageFile) : Link where
  href := fileHref env.registry package env.base false f
  requiresPython := requiresPython v f
  yanked := anchorYanked (yankedValue f)
  yankedPresent := (anchorYanked (yankedValue f)).isSome
  coreMetadata := anchorCoreMetadata (coreMetadata env f)
  text := f.filename

theorem fileHref_ne_empty (asJson : Bool) (f : PackageFile) :
    fileHref env.registry package env.base asJson f ≠ "" := by
  have hurl : fileUrl env.registry env.base package.name f.filename ≠ "" := by
    intro h
    have hmem := congrArg String.toList h
    simp [fileUrl] at hmem
  unfold fileHref
  dsimp only
  split
  · exact hurl
  split
  · exact hurl
  · intro h
    have hmem := congrArg String.toList h
    simp at hmem

theorem filled_of_ne {text : String} (h : text ≠ "") : filled (some text) = some text := by
  unfold filled
  rw [Option.filter_some, if_pos (by simpa using h)]

theorem filled_or (value : Option String) : (filled value).or value = value := by
  rcases value with _ | text
  · rfl
  · by_cases h : text = ""
    · rw [h]
      rfl
    · rw [filled_of_ne h]
      rfl

theorem get?_given (attrs : Html.Attrs) (name : String) :
    Dict.get? (Html.given attrs) name = (Dict.get? attrs name).map some := by
  induction attrs with
  | nil => rfl
  | cons a attrs ih =>
    have hcons : Html.given (a :: attrs) = (a.1, some a.2) :: Html.given attrs := rfl
    rw [hcons, Dict.get?_cons, Dict.get?_cons, ih]
    split <;> rfl

/-- The attributes of a link, as the dictionary they are read into. -/
theorem get?_linkAttrs (v : PackageVersion) (f : PackageFile) (name : String) :
    Dict.get? (Dict.ofPairs (Html.given (linkAttrs env package v f))) name =
      ((Dict.get? (("href", some (fileHref env.registry package env.base false f)) ::
        anchorSlots env v f) name).join).map some := by
  have hkeys : (Html.given (linkAttrs env package v f)).map Prod.fst =
      (linkAttrs env package v f).map Prod.fst := by
    unfold Html.given
    rw [List.map_map]
    rfl
  have hnodup := linkSlots_nodup env (some (fileHref env.registry package env.base false f)) v f
  rw [Dict.ofPairs_of_nodup, get?_given, linkAttrs_eq, Dict.get?_present hnodup]
  rw [hkeys, linkAttrs_eq]
  exact Dict.nodup_keys_present hnodup

theorem handle_start (closed : List Link) (v : PackageVersion) (f : PackageFile) :
    Scrape.handle { closed := closed } (.start "a" (Html.given (linkAttrs env package v f))) =
      { closed := closed, current := some { linkOf env package v f with text := "" } } := by
  have hattr (name : String) :
      Scrape.attr (Dict.ofPairs (Html.given (linkAttrs env package v f))) name =
        (Dict.get? (("href", some (fileHref env.registry package env.base false f)) ::
          anchorSlots env v f) name).join := by
    unfold Scrape.attr
    rw [get?_linkAttrs]
    cases (Dict.get? _ name).join <;> rfl
  have hhref : filled (Scrape.attr (Dict.ofPairs (Html.given (linkAttrs env package v f))) "href") =
      some (fileHref env.registry package env.base false f) := by
    rw [hattr]
    exact filled_of_ne (fileHref_ne_empty env package false f)
  unfold Scrape.handle
  dsimp only
  rw [if_neg (fun h => h rfl), hhref]
  dsimp only
  have hcore := filled_or (anchorCoreMetadata (coreMetadata env f))
  rw [hattr, hattr, hattr, hattr, get?_linkAttrs, Scrape.links, Option.isSome_map]
  change (⟨closed ++ [], some ⟨_, requiresPython v f, anchorYanked (yankedValue f),
    (anchorYanked (yankedValue f)).isSome, (filled (anchorCoreMetadata (coreMetadata env f))).or
      (anchorCoreMetadata (coreMetadata env f)), ""⟩⟩ : Scrape) = _
  rw [hcore, List.append_nil]
  rfl

/-- Reading a link takes it up as its row has it. -/
theorem handle_anchor (closed : List Link) (v : PackageVersion) (f : PackageFile) :
    ((anchorPieces env package v f).flatMap Html.Piece.events).foldl Scrape.handle
        { closed := closed } = { closed := closed ++ [linkOf env package v f] } := by
  change ((((Scrape.handle { closed := closed }
    (.start "a" (Html.given (linkAttrs env package v f)))).handle (.data f.filename)).handle
      (.stop "a")).handle (.start "br" [])) = _
  rw [handle_start]
  change (⟨closed ++ [⟨_, _, _, _, _, "" ++ f.filename⟩], none⟩ : Scrape) = _
  rw [String.empty_append]
  rfl

theorem handle_anchors (rows : List (PackageVersion × PackageFile)) (closed : List Link) :
    ((rows.flatMap fun r => anchorPieces env package r.1 r.2).flatMap
      Html.Piece.events).foldl Scrape.handle { closed := closed } =
        { closed := closed ++ rows.map fun r => linkOf env package r.1 r.2 } := by
  induction rows generalizing closed with
  | nil => rw [List.map_nil, List.append_nil]; rfl
  | cons r rows ih =>
    rw [List.flatMap_cons, List.flatMap_append, List.foldl_append, handle_anchor, ih,
      List.append_assoc]
    rfl

/-- **The links of the HTML page** are those of its rows. -/
theorem links_page (excluded : List String) :
    ((env.reader.feed (renderProjectHtml env package excluded)).foldl Scrape.handle {}).links =
      (shown package excluded).map fun r => linkOf env package r.1 r.2 := by
  have hempty (s : Scrape) : s.handle (.data "") = s := by
    obtain ⟨closed, _ | link⟩ := s
    · rfl
    · change (⟨closed, some { link with text := link.text ++ "" }⟩ : Scrape) = _
      rw [String.append_empty]
  have hjoin (s : Scrape) (t u : String) :
      (s.handle (.data t)).handle (.data u) = s.handle (.data (t ++ u)) := by
    obtain ⟨closed, _ | link⟩ := s
    · rfl
    · change (⟨closed, some { link with text := link.text ++ t ++ u }⟩ : Scrape) = _
      rw [String.append_assoc]
      rfl
  have hhead : ((headPieces env package).flatMap Html.Piece.events).foldl Scrape.handle {} = {} :=
    rfl
  rw [renderProjectHtml_eq, Html.Same.foldl hempty hjoin
    (env.reader.reads _ (pagePieces_named env package excluded))]
  unfold pagePieces
  rw [List.flatMap_cons, List.flatMap_append, List.flatMap_append, List.foldl_append,
    List.foldl_append, List.foldl_append]
  change (List.foldl Scrape.handle (List.foldl Scrape.handle
    (((headPieces env package).flatMap Html.Piece.events).foldl Scrape.handle {}) _) _).links = _
  rw [hhead, handle_anchors, List.nil_append]
  exact List.append_nil _

end Written

/-! ### Digests in an address -/

section Fragments

variable {env : PageEnv}

theorem searchHash_plain {url : List Char} (h : '#' ∉ url) (before : List Char) :
    searchHash before url = none := by
  induction url generalizing before with
  | nil => rfl
  | cons c url ih =>
    rw [List.mem_cons, not_or] at h
    have hmatch : matchHash (c :: url) = none := by
      unfold matchHash
      split
      · next heq => exact absurd (List.cons.inj heq).1.symm h.1
      · rfl
    rw [searchHash, hmatch]
    exact ih h.2 _

theorem searchHash_append {path : List Char} (h : '#' ∉ path) (before rest : List Char) :
    searchHash before (path ++ rest) = searchHash (before ++ path) rest := by
  induction path generalizing before with
  | nil => rw [List.append_nil, List.nil_append]
  | cons c path ih =>
    rw [List.mem_cons, not_or] at h
    have hmatch : matchHash (c :: (path ++ rest)) = none := by
      unfold matchHash
      split
      · next heq => exact absurd (List.cons.inj heq).1.symm h.1
      · rfl
    rw [List.cons_append, searchHash, hmatch]
    dsimp only
    rw [ih h.2, List.append_assoc]
    rfl

theorem matchHash_sha256 {digest : List Char} (hne : digest ≠ [])
    (hhex : digest.all isHexDigit = true) :
    matchHash ("#sha256=".toList ++ digest) = some ("sha256", String.ofList digest) := by
  have htake : digest.takeWhile isHexDigit = digest :=
    List.takeWhile_eq_self_iff.mpr (List.all_eq_true.mp hhex)
  have hdrop : digest.dropWhile isHexDigit = [] :=
    List.dropWhile_eq_nil_iff.mpr (List.all_eq_true.mp hhex)
  change (if ['s', 'h', 'a', '2', '5', '6'] ≠ [] && digest.takeWhile isHexDigit ≠ [] &&
      digest.dropWhile isHexDigit ∈ [[], ['\n']] then
    some (String.ofList ['s', 'h', 'a', '2', '5', '6'],
      String.ofList (digest.takeWhile isHexDigit)) else none) = _
  rw [htake, hdrop, if_pos (by simpa using hne)]

theorem searchHash_sha256 {digest : List Char} (hne : digest ≠ [])
    (hhex : digest.all isHexDigit = true) (before : List Char) :
    searchHash before ("#sha256=".toList ++ digest) =
      some (before, "sha256", String.ofList digest) := by
  have hmatch := matchHash_sha256 hne hhex
  have hcons : "#sha256=".toList ++ digest = '#' :: ("sha256=".toList ++ digest) := rfl
  rw [hcons] at hmatch ⊢
  rw [searchHash, hmatch]

theorem fileUrl_plain (henv : env.Lawful) (project filename : String) :
    '#' ∉ (fileUrl env.registry env.base project filename).toList := by
  have hquote (s : String) : '#' ∉ (quote s).toList := by
    unfold quote
    rw [String.toList_ofList]
    intro h
    obtain ⟨c, -, hc⟩ := List.mem_flatMap.mp h
    rcases mem_quoteChar hc with hpercent | hunreserved
    · exact absurd hpercent (by decide)
    · exact absurd hunreserved (by decide)
  unfold fileUrl
  simp only [String.toList_append, List.mem_append, not_or]
  exact ⟨⟨⟨⟨henv.base, by decide⟩, hquote _⟩, by decide⟩, hquote _⟩

theorem isHexDigit_ascii {c : Char} (h : isHexDigit c = true) : c.toNat < 128 := by
  simp only [isHexDigit, Bool.or_eq_true, Bool.and_eq_true, decide_eq_true_eq, Char.le_def,
    UInt32.le_iff_toNat_le] at h
  rcases h with (h | h) | h <;> exact Nat.lt_of_le_of_lt h.2 (by decide)

/-- A name in lower case is its own. -/
theorem lower_plain (henv : env.Lawful) {name : String}
    (h : (name.toList.all fun c => c.toLower = c && decide (c.toNat < 128)) = true) :
    env.caseMap.lower name = name := by
  have hname := List.all_eq_true.mp h
  simp only [Bool.and_eq_true, decide_eq_true_eq] at hname
  have hlower : name.toList.map Char.toLower = name.toList :=
    (List.map_congr_left fun c hc => (hname c hc).1).trans (List.map_id _)
  rw [henv.lower name fun c hc => (hname c hc).2, hlower, String.ofList_toList]

theorem lower_sha256 (henv : env.Lawful) : env.caseMap.lower "sha256" = "sha256" :=
  lower_plain henv (by decide +kernel)

/-- **The address on a page** as it is split: on an HTML page its digest comes off. -/
theorem split_fileHref (henv : env.Lawful) (package : Package) (page : String) (asJson : Bool)
    {f : PackageFile} (hdigest : IsDigest f.sha256) :
    splitHashFragment env
        (env.urljoin page (fileHref env.registry package env.base asJson f)) =
      (fileUrl env.registry env.base package.name f.filename,
        if asJson then [] else
          Dict.present [("sha256", (filled f.sha256).map env.caseMap.lower)]) := by
  have hplain := fileUrl_plain henv package.name f.filename
  have hwhole : splitHashFragment env (env.urljoin page
      (fileUrl env.registry env.base package.name f.filename)) =
        (fileUrl env.registry env.base package.name f.filename, []) := by
    unfold splitHashFragment
    rw [henv.joins, searchHash_plain hplain]
  unfold fileHref
  dsimp only
  rcases asJson with _ | _
  swap
  · exact hwhole
  rw [if_neg Bool.false_ne_true, if_neg Bool.false_ne_true]
  by_cases hsha : f.sha256.getD "" = ""
  · have hfilled : filled f.sha256 = none := by
      unfold filled
      rcases hs : f.sha256 with _ | sha256
      · rfl
      · rw [hs, Option.getD_some] at hsha
        rw [hsha]
        rfl
    rw [if_pos hsha, hwhole, hfilled]
    rfl
  · have hfilled : filled f.sha256 = some (f.sha256.getD "") := by
      rcases hs : f.sha256 with _ | sha256
      · rw [hs] at hsha
        exact absurd rfl hsha
      · rw [hs] at hsha
        exact filled_of_ne hsha
    unfold splitHashFragment
    rw [if_neg hsha, henv.joinsDigest _ _ _ _ hsha hdigest, String.toList_append,
      String.toList_append, List.append_assoc, searchHash_append hplain, List.nil_append]
    rw [searchHash_sha256 (fun h => hsha (String.toList_eq_nil_iff.mp h)) hdigest, hfilled]
    dsimp only
    rw [lower_sha256 henv, String.ofList_toList, String.ofList_toList]
    rfl

end Fragments

/-! ### The fields of a file -/

section Fields

variable {env : PageEnv}

theorem toLower_ascii {c : Char} (h : c.toNat < 128) : c.toLower.toNat < 128 := by
  have hall : (List.range 128).all (fun n => (Char.ofNat n).toLower.toNat < 128) = true := by decide
  have hc := of_decide_eq_true (List.all_eq_true.mp hall c.toNat (List.mem_range.mpr h))
  rwa [Char.ofNat_toNat] at hc

/-- A digest of the metadata, as it is listed: its name is a known one, and it is ASCII text. -/
structure Shown (e : String × String) : Prop where
  known : e.1 ∈ hashNames
  ascii : ∀ c ∈ e.2.toList, c.toNat < 128

theorem shown_namedDigest (henv : env.Lawful) {entry : String × Json} {e : String × String}
    (h : PypiPublish.namedDigest env.registry.codec entry = some e) : Shown e := by
  unfold PypiPublish.namedDigest at h
  split at h
  swap
  · cases h
  next digest _ =>
  split at h
  swap
  · cases h
  next hcond =>
  obtain ⟨hname, hhex⟩ := Bool.and_eq_true_iff.mp hcond
  obtain rfl := Option.some.inj h
  refine ⟨of_decide_eq_true hname, ?_⟩
  have hascii : ∀ c ∈ digest.toList, c.toNat < 128 := by
    intro c hc
    unfold PypiPublish.matchesHex at hhex
    obtain ⟨-, hall⟩ := Bool.and_eq_true_iff.mp hhex
    split at hall
    · next hlast =>
      have hsplit := List.dropLast_append_getLast? '\n' (Option.mem_def.mpr hlast)
      rw [← hsplit] at hc
      rcases List.mem_append.mp hc with hc | hc
      · exact isHexDigit_ascii (List.all_eq_true.mp hall c hc)
      · rw [List.mem_singleton.mp hc]
        decide
    · exact isHexDigit_ascii (List.all_eq_true.mp hall c hc)
  have hlower := henv.lower digest hascii
  dsimp only
  change ∀ c ∈ (env.caseMap.lower digest).toList, c.toNat < 128
  rw [hlower, String.toList_ofList]
  intro c hc
  obtain ⟨d, hd, rfl⟩ := List.mem_map.mp hc
  exact toLower_ascii (hascii d hd)

/-- **The digests on a page**: there is one, and they are all of known names. -/
theorem coreMetadata_digests (henv : env.Lawful) {f : PackageFile} {digests : Dict String String}
    (h : coreMetadata env f = .digests digests) : digests ≠ [] ∧ ∀ e ∈ digests, Shown e := by
  unfold coreMetadata at h
  generalize (f.coreMetadata.map Json.obj).getD .null = value at h
  unfold coreMetadataValue at h
  split at h
  · cases h
  split at h
  swap
  · cases h
  next fields _ =>
  dsimp only at h
  generalize hfound : (if PypiPublish.digestsOf env.registry.codec fields = [] then
    ((PypiPublish.storedMetadataBytes env.registry.codec (.obj fields)).map fun raw =>
      ("sha256", PypiPublish.sha256Hex env.registry.codec raw)).toList
    else PypiPublish.digestsOf env.registry.codec fields) = found at h
  have hshown : ∀ e ∈ found, Shown e := by
    rw [← hfound]
    split
    · intro e he
      obtain ⟨raw, -, rfl⟩ := Option.map_eq_some_iff.mp (Option.mem_toList.mp he)
      have hname : "sha256" ∈ hashNames := by decide
      exact ⟨hname, fun c hc => isHexDigit_ascii (henv.hex _ c hc)⟩
    · intro e he
      obtain ⟨entry, -, hentry⟩ := List.mem_filterMap.mp (Dict.mem_of_mem_ofPairs he)
      exact shown_namedDigest henv hentry
  split at h
  swap
  · split at h <;> cases h
  next hne =>
  obtain rfl := Advertised.digests.inj h
  unfold PypiPublish.sha256First
  split
  · next digest hdigest =>
    refine ⟨List.cons_ne_nil _ _, fun e he => ?_⟩
    rcases List.mem_cons.mp he with rfl | he
    · exact hshown _ (Dict.mem_of_get? hdigest)
    · exact hshown e (List.mem_of_mem_filter he)
  · exact ⟨hne, hshown⟩

theorem hashName_plain (henv : env.Lawful) {name : String} (h : name ∈ hashNames) :
    env.caseMap.lower name = name ∧ '=' ∉ name.toList ∧ ∀ c ∈ name.toList, c.toNat < 128 := by
  have hall : hashNames.all (fun name => name.toList.all fun c =>
      c.toLower = c && decide (c.toNat < 128)) = true := by decide +kernel
  have hsign : hashNames.all (fun name => name.toList.all (· ≠ '=')) = true := by decide +kernel
  have hname := List.all_eq_true.mp hall name h
  refine ⟨lower_plain henv hname, fun hmem => ?_, fun c hc => ?_⟩
  · have hchar := List.all_eq_true.mp (List.all_eq_true.mp hsign name h) _ hmem
    exact of_decide_eq_true hchar rfl
  · have hchar := List.all_eq_true.mp hname c hc
    exact of_decide_eq_true (Bool.and_eq_true_iff.mp hchar).2

/-- The metadata on the JSON page is read as it is. -/
theorem coerce_json (henv : env.Lawful) (f : PackageFile) :
    coerceCoreMetadata env ((jsonCoreMetadata (coreMetadata env f)).getD .null) =
      wholeMetadata (coreMetadata env f) := by
  rcases hvalue : coreMetadata env f with _ | _ | digests
  · rfl
  · rfl
  · obtain ⟨hne, -⟩ := coreMetadata_digests henv hvalue
    have hfields : jsonDigests digests ≠ [] := fun h => hne (List.map_eq_nil_iff.mp h)
    change (if jsonDigests digests = [] then _ else _) = _
    rw [if_neg hfields]
    rfl

/-- **The metadata of a link** is read as the digest that it has. -/
theorem coerce_html (henv : env.Lawful) (f : PackageFile) :
    coerceCoreMetadata env
        (((anchorCoreMetadata (coreMetadata env f)).map Json.str).getD .null) =
      singleMetadata (coreMetadata env f) := by
  rcases hvalue : coreMetadata env f with _ | _ | digests
  · rfl
  · have hlower : env.caseMap.lower "true" = "true" := lower_plain henv (by decide +kernel)
    change (if env.caseMap.lower "true" ∈ ["true", ""] then _ else _) = _
    rw [hlower, if_pos List.mem_cons_self]
    rfl
  · obtain ⟨hne, hshown⟩ := coreMetadata_digests henv hvalue
    obtain ⟨⟨algorithm, digest⟩, rest, rfl⟩ := List.exists_cons_of_ne_nil hne
    obtain ⟨hknown, hascii⟩ := hshown _ List.mem_cons_self
    obtain ⟨hlower, hplain, hname⟩ := hashName_plain henv hknown
    have hchars : (algorithm ++ "=" ++ digest).toList =
        algorithm.toList ++ '=' :: digest.toList := by
      rw [String.toList_append, String.toList_append, List.append_assoc]
      rfl
    have hmem : '=' ∈ (algorithm ++ "=" ++ digest).toList := by
      rw [hchars]
      exact List.mem_append_right _ List.mem_cons_self
    have hall : ∀ c ∈ algorithm.toList, decide (c ≠ '=') = true := fun c hc =>
      decide_eq_true fun heq => hplain (heq ▸ hc)
    have htake : (algorithm ++ "=" ++ digest).toList.takeWhile (fun c => decide (c ≠ '=')) =
        algorithm.toList := by
      rw [hchars, List.takeWhile_append_of_pos hall]
      exact List.append_nil _
    have hdrop : (algorithm ++ "=" ++ digest).toList.dropWhile (fun c => decide (c ≠ '=')) =
        '=' :: digest.toList := by
      rw [hchars, List.dropWhile_append_of_pos hall]
      rfl
    have hlong : env.caseMap.lower (algorithm ++ "=" ++ digest) ∉ ["true", ""] := by
      rw [henv.lower]
      · intro h
        have hequal : '=' ∈ ((algorithm ++ "=" ++ digest).toList.map Char.toLower) :=
          List.mem_map.mpr ⟨'=', hmem, rfl⟩
        rcases List.mem_cons.mp h with h | h
        · rw [← String.toList_ofList (l := List.map _ _), h] at hequal
          exact absurd hequal (by decide)
        · rw [← String.toList_ofList (l := List.map _ _), List.mem_singleton.mp h] at hequal
          cases hequal
      · intro c hc
        rw [hchars] at hc
        rcases List.mem_append.mp hc with hc | hc
        · exact hname c hc
        rcases List.mem_cons.mp hc with rfl | hc
        · decide
        · exact hascii c hc
    change (if env.caseMap.lower (algorithm ++ "=" ++ digest) ∈ ["true", ""] then _
      else if '=' ∈ (algorithm ++ "=" ++ digest).toList then _ else _) = _
    rw [if_neg hlong, if_pos hmem, htake, hdrop, String.ofList_toList, hlower, List.tail_cons,
      String.ofList_toList]
    rfl

theorem yankedValue_reason {f : PackageFile} {reason : String}
    (h : yankedValue f = .reason reason) : reason ≠ "" := by
  unfold yankedValue at h
  split at h
  swap
  · cases h
  · rcases hreason : filled f.yankedReason with _ | text
    · rw [hreason] at h
      cases h
    · rw [hreason] at h
      obtain rfl := Yanked.reason.inj h
      exact of_decide_eq_true (Option.filter_eq_some_iff.mp hreason).2

/-- What a link says of a yanked file. -/
theorem yanked_html (f : PackageFile) :
    (if (anchorYanked (yankedValue f)).isSome then
      ((filled (anchorYanked (yankedValue f))).map Yanked.reason).getD (.flag true)
    else .flag false) = yankedValue f := by
  rcases hvalue : yankedValue f with (_ | _) | reason
  · rfl
  · rfl
  · change ((filled (some reason)).map Yanked.reason).getD (.flag true) = _
    rw [filled_of_ne (yankedValue_reason hvalue)]
    rfl

theorem yanked_json (f : PackageFile) :
    readYanked ((jsonYanked (yankedValue f)).getD .null) = yankedValue f := by
  rcases yankedValue f with (_ | _) | reason <;> rfl

end Fields

/-! ## Both pages -/

section Pages

variable {env : PageEnv}

theorem asText_json (text : Option String) :
    readText ((text.map Json.str).getD .null) = some text := by
  cases text <;> rfl

theorem asSize_json (size : Option Nat) :
    readSize ((size.map fun (n : Nat) => Json.int n).getD .null) = some size := by
  rcases size with _ | size
  · rfl
  · change (if 0 ≤ (size : Int) then some (some (size : Int).toNat) else none) = _
    rw [if_pos (Int.natCast_nonneg size), Int.toNat_natCast]

/-- The digests of a row, as the JSON page has them. -/
theorem lowerHashes_json (henv : env.Lawful) (f : PackageFile) :
    ∃ hashes, lowerHashes env (.obj (jsonDigests (hashesFor f))) = some hashes ∧
      Dict.get? hashes "sha256" = (filled f.sha256).map env.caseMap.lower := by
  have hmap (d : Dict String String) : (jsonDigests d).mapM (fun (e : String × Json) =>
      e.2.asStr?.map fun digest => (env.caseMap.lower e.1, env.caseMap.lower digest)) =
        some (d.map fun e => (env.caseMap.lower e.1, env.caseMap.lower e.2)) := by
    induction d with
    | nil => rfl
    | cons e d ih =>
      have hcons : jsonDigests (e :: d) = (e.1, .str e.2) :: jsonDigests d := rfl
      rw [hcons, List.mapM_cons, ih]
      rfl
  have hlowered : (hashesFor f).map (fun e => (env.caseMap.lower e.1, env.caseMap.lower e.2)) =
      Dict.present [("sha256", (filled f.sha256).map env.caseMap.lower),
        ("blake2b_256", (filled f.blake2b256).map env.caseMap.lower),
        ("md5", (filled f.md5).map env.caseMap.lower)] := by
    have hblake : env.caseMap.lower "blake2b_256" = "blake2b_256" :=
      (hashName_plain henv (by decide)).1
    have hmd5 : env.caseMap.lower "md5" = "md5" := (hashName_plain henv (by decide)).1
    have hsha := lower_sha256 henv
    unfold hashesFor
    cases filled f.sha256 <;> cases filled f.blake2b256 <;> cases filled f.md5 <;>
      simp [Dict.present, hsha, hblake, hmd5]
  have hnodup : (([("sha256", (filled f.sha256).map env.caseMap.lower),
      ("blake2b_256", (filled f.blake2b256).map env.caseMap.lower),
      ("md5", (filled f.md5).map env.caseMap.lower)] :
        List (String × Option String)).map Prod.fst).Nodup := by
    change ["sha256", "blake2b_256", "md5"].Nodup
    decide
  refine ⟨_, congrArg (Option.map Dict.ofPairs) (hmap (hashesFor f)), ?_⟩
  rw [hlowered, Dict.ofPairs_of_nodup (Dict.nodup_keys_present hnodup),
    Dict.get?_present hnodup]
  rfl

/-- **A file of the JSON page** is read as its row says. -/
theorem readEntry_json (henv : env.Lawful) (package : Package) (page : String)
    (r : PackageVersion × PackageFile) (hdigest : IsDigest r.2.sha256) :
    ∃ file, readEntry env page (jsonEntry env package r.1 r.2) = some file ∧
      file.map seen =
        if r.2.filename ≠ "" then some (rowSays env wholeMetadata r) else none := by
  obtain ⟨v, f⟩ := r
  have hnodup : ((entrySlots env package v f).map Prod.fst).Nodup := by
    change ["filename", "url", "hashes", "size", "requires-python", "yanked", "core-metadata",
      "dist-info-metadata", "upload-time"].Nodup
    decide
  have hget (key : String) : Dict.get? (Dict.present (entrySlots env package v f)) key =
      (Dict.get? (entrySlots env package v f) key).join := Dict.get?_present hnodup key
  have hjson (key : String) : Json.get (Dict.present (entrySlots env package v f)) key =
      ((Dict.get? (entrySlots env package v f) key).join).getD .null :=
    congrArg (Option.getD · Json.null) (hget key)
  have hname : Json.get (Dict.present (entrySlots env package v f)) "filename" =
      .str f.filename := hjson _
  have hurl : Json.get (Dict.present (entrySlots env package v f)) "url" =
      .str (fileHref env.registry package env.base true f) := hjson _
  have htruthy : (Json.str (fileHref env.registry package env.base true f)).truthy = true := by
    simpa [Json.truthy] using fileHref_ne_empty env package true f
  unfold jsonEntry readEntry
  dsimp only
  rw [hname, hurl, htruthy]
  by_cases hempty : f.filename = ""
  · refine ⟨none, ?_, ?_⟩
    · rw [hempty]
      rfl
    · rw [if_neg (fun h => h hempty)]
      rfl
  · have hnamed : (Json.str f.filename).truthy = true := by simpa [Json.truthy] using hempty
    obtain ⟨hashes, hhashes, hsha⟩ := lowerHashes_json henv f
    have hfields : Json.get (Dict.present (entrySlots env package v f)) "hashes" =
        .obj (jsonDigests (hashesFor f)) := hjson _
    have hsize : Json.get (Dict.present (entrySlots env package v f)) "size" =
        ((knownSize env f).map fun (n : Nat) => Json.int n).getD .null := hjson _
    have hrequires : Json.get (Dict.present (entrySlots env package v f)) "requires-python" =
        ((requiresPython v f).map Json.str).getD .null := hjson _
    have hyanked : Json.get (Dict.present (entrySlots env package v f)) "yanked" =
        (jsonYanked (yankedValue f)).getD .null := hjson _
    have hcore : (Dict.get? (Dict.present (entrySlots env package v f)) "core-metadata").getD
        (Json.get (Dict.present (entrySlots env package v f)) "dist-info-metadata") =
          (jsonCoreMetadata (coreMetadata env f)).getD .null := by
      rw [hget, hjson]
      change (jsonCoreMetadata (coreMetadata env f)).getD
        ((jsonCoreMetadata (coreMetadata env f)).getD .null) = _
      cases jsonCoreMetadata (coreMetadata env f) <;> rfl
    have hsplit := split_fileHref henv package page true hdigest
    rw [hnamed, if_neg (by decide), hfields, hsize, hrequires, hyanked, hcore, asText_json,
      asSize_json, yanked_json, coerce_json henv]
    dsimp only [Json.asStr?]
    rw [hhashes]
    simp only [Option.bind_eq_bind, Option.bind_some]
    rw [hsplit]
    refine ⟨_, rfl, ?_⟩
    rw [if_pos hempty]
    change some (Listing.mk f.filename (Dict.get? hashes "sha256") _ _ _) = _
    rw [hsha]
    rfl

/-- **A link of the HTML page** is read as its row says. -/
theorem readLink_html (henv : env.Lawful) (package : Package) (page : String)
    (r : PackageVersion × PackageFile) (hdigest : IsDigest r.2.sha256)
    (hname : strip r.2.filename = r.2.filename) :
    (readLink env page (linkOf env package r.1 r.2)).map seen =
      if r.2.filename ≠ "" then some (rowSays env singleMetadata r) else none := by
  obtain ⟨v, f⟩ := r
  have hsplit : splitHashFragment env
      (env.urljoin page (linkOf env package v f).href) = _ :=
    split_fileHref henv package page false hdigest
  have htext : linkName env (linkOf env package v f).text
      (fileUrl env.registry env.base package.name f.filename) = f.filename := by
    unfold linkName
    change (if strip f.filename = "" then _ else strip f.filename) = _
    rw [hname]
    split
    · next hempty =>
      -- an address that ends in a slash has no name
      have hlast : lastSegment (fileUrl env.registry env.base package.name f.filename) = "" := by
        have hquote : quote "" = "" := rfl
        unfold lastSegment fileUrl
        rw [hempty, hquote, String.append_empty, String.toList_append, List.reverse_append]
        rfl
      rw [hlast, henv.unquote, hempty]
    · rfl
  have hget : Dict.get? (Dict.present [("sha256", (filled f.sha256).map env.caseMap.lower)])
      "sha256" = (filled f.sha256).map env.caseMap.lower := by
    cases filled f.sha256 <;> rfl
  unfold readLink
  rw [hsplit]
  dsimp only
  rw [htext]
  by_cases hempty : f.filename = ""
  · rw [if_pos hempty, if_neg (fun h => h hempty)]
    rfl
  · rw [if_neg hempty, if_pos hempty, Option.map_some]
    change some (Listing.mk f.filename (Dict.get? (Dict.present
      [("sha256", (filled f.sha256).map env.caseMap.lower)]) "sha256") (requiresPython v f)
        (if (anchorYanked (yankedValue f)).isSome then
          ((filled (anchorYanked (yankedValue f))).map Yanked.reason).getD (.flag true)
        else .flag false)
        (coerceCoreMetadata env
          (((anchorCoreMetadata (coreMetadata env f)).map Json.str).getD .null))) = _
    rw [hget, yanked_html, coerce_html henv]
    rfl

theorem mapM_spec {α β γ : Type} {read : α → Option (Option β)} {view : β → γ} {told : α → Option γ}
    {l : List α} (h : ∀ a ∈ l, ∃ b, read a = some b ∧ b.map view = told a) :
    ∃ bs, l.mapM read = some bs ∧ bs.reduceOption.map view = l.filterMap told := by
  induction l with
  | nil => exact ⟨[], rfl, rfl⟩
  | cons a l ih =>
    obtain ⟨⟨b, hread, hview⟩, hl⟩ := List.forall_mem_cons.mp h
    obtain ⟨bs, hbs, hviews⟩ := ih hl
    refine ⟨b :: bs, ?_, ?_⟩
    · rw [List.mapM_cons, hread, hbs]
      rfl
    · rw [List.filterMap_cons, ← hview, ← hviews]
      cases b <;> rfl

theorem readVersions_texts (versions : List String) :
    readVersions (.arr (versions.map .str)) = some versions := by
  change some ((versions.map Json.str).filterMap Json.asStr?) = _
  rw [List.filterMap_map]
  exact congrArg some List.filterMap_some

/-- **The pages round-trip.** Of the JSON page and of the HTML page of a project, whatever the
policy leaves out of them, the provider reads the same files in the same order: those of the
rows, each with the digest, the Python versions, the yanked mark and the metadata of its row. -/
theorem pages_roundTrip (henv : env.Lawful) (page : String) (package : Package)
    (excluded : List String) (hdigest : ∀ r ∈ shown package excluded, IsDigest r.2.sha256)
    (hname : ∀ r ∈ shown package excluded, strip r.2.filename = r.2.filename) :
    ∃ files versions,
      parseJson env page (renderProjectJson env package excluded) = some (files, versions) ∧
      files.map seen = (listed package excluded).map (rowSays env wholeMetadata) ∧
      (parseHtml env page (renderProjectHtml env package excluded)).map seen =
        (listed package excluded).map (rowSays env singleMetadata) := by
  have hlisted (told : PackageVersion × PackageFile → Listing) :
      (shown package excluded).filterMap
        (fun r => if r.2.filename ≠ "" then some (told r) else none) =
          (listed package excluded).map told := by
    unfold listed
    rw [← List.filterMap_eq_map', List.filterMap_filter]
    simp only [decide_eq_true_eq]
  obtain ⟨files, hfiles, hseen⟩ := mapM_spec fun r hr =>
    readEntry_json henv package page r (hdigest r hr)
  refine ⟨files.reduceOption, env.registry.sortPypiVersions ((package.versions.rows.filter
    fun v => v.version ∉ excluded).map (·.version)), ?_, hseen.trans (hlisted _), ?_⟩
  · have hread : readFiles env page (Json.get (renderProjectJson env package excluded) "files") =
        some files.reduceOption := by
      change (((shown package excluded).map fun r : PackageVersion × PackageFile =>
        jsonEntry env package r.1 r.2).mapM (readEntry env page)).map List.reduceOption = _
      rw [List.mapM_map]
      exact congrArg (Option.map List.reduceOption) hfiles
    have hversions : readVersions (Json.get (renderProjectJson env package excluded) "versions") =
        some _ := readVersions_texts _
    unfold parseJson
    rw [hread, hversions]
    rfl
  · unfold parseHtml
    rw [links_page env package excluded, List.filterMap_map, List.map_filterMap, ← hlisted]
    refine List.filterMap_congr fun r hr => ?_
    have hlink := readLink_html henv package page r (hdigest r hr) (hname r hr)
    rw [Function.comp_apply]
    exact hlink

end Pages

/-- The pages of a registry, read by the scanner. -/
def demoPages : PageEnv where
  registry := { demoEnv with codec := PypiPublish.hiCodec }
  base := "http://localhost:8000/pypi"
  sizeOf _ := none
  timeText _ := "2024-01-01T00:00:00Z"
  reader := Html.scanner
  urljoin _ href := href
  unquote text := text
  fromIsoformat _ := none

theorem hiCodec_hex (data : NpmPublish.Bytes) :
    ∀ c ∈ (PypiPublish.hiCodec.hex data).toList, isHexDigit c = true := by
  have hdigit : ∀ n, n < 16 → isHexDigit (Nat.digitChar n) = true := by decide
  intro c hc
  unfold PypiPublish.hiCodec at hc
  dsimp only at hc
  rw [String.toList_ofList] at hc
  obtain ⟨b, -, hc⟩ := List.mem_flatMap.mp hc
  have hb := b.toNat_lt
  rcases List.mem_cons.mp hc with rfl | hc
  · exact hdigit _ (by omega)
  · rw [List.mem_singleton.mp hc]
    exact hdigit _ (by omega)

theorem demoPages_lawful : demoPages.Lawful where
  lower s _ := by
    have hcase : demoPages.caseMap = .ascii := rfl
    rw [hcase]
    rfl
  hex := hiCodec_hex
  base := by decide +kernel
  joins _ _ _ := rfl
  joinsDigest _ _ _ _ _ _ := rfl
  unquote := rfl

/-- A yanked file with a digest, Python versions and metadata, one without a name, and a version
that the policy leaves out. -/
def demoProject : Package where
  ecosystem := .pypi
  name := "Demo"
  normalizedName := "demo"
  versions := ⟨[
    { version := "1.0", normalizedVersion := "1.0", requiresPython := some ">=3.8, <4"
      files := ⟨[
        { filename := "a&b <\"1\">.zip", sha256 := some "00FF", yanked := true
          yankedReason := some "\"bad\" & <old>"
          coreMetadata := some [("md5", .str "0a"), ("sha256", .str "0B")] },
        { filename := "" }], by decide⟩ },
    { version := "2.0", normalizedVersion := "2.0"
      files := ⟨[{ filename := "demo-2.0.zip" }], by decide⟩ }], by decide⟩

theorem demoProject_roundTrip :
    (listed demoProject ["2.0"]).map (rowSays demoPages singleMetadata) =
      [{ filename := "a&b <\"1\">.zip", sha256 := some "00ff"
         requiresPython := some ">=3.8, <4", yanked := .reason "\"bad\" & <old>"
         coreMetadata := .hashes [("sha256", .str "0b")] }] ∧
    ∃ files versions,
      parseJson demoPages "http://localhost:8000/pypi/simple/demo/"
        (renderProjectJson demoPages demoProject ["2.0"]) = some (files, versions) ∧
      files.map seen = (listed demoProject ["2.0"]).map (rowSays demoPages wholeMetadata) ∧
      (parseHtml demoPages "http://localhost:8000/pypi/simple/demo/"
        (renderProjectHtml demoPages demoProject ["2.0"])).map seen =
          (listed demoProject ["2.0"]).map (rowSays demoPages singleMetadata) :=
  ⟨by decide +kernel, pages_roundTrip demoPages_lawful _ demoProject ["2.0"]
    (by decide +kernel) (by decide +kernel)⟩

end Minireg.SimplePages
