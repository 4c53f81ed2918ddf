import Minireg.Py.Raise
import Minireg.Upstreams.Base

/-!
# What an npm upstream answers

`parsePackument` reads a packument into a remote package. Nothing in a packument is promised to
have the shape it should have, so a value that is not what the code takes it for is an error.
The last segment of a tarball's URL is all that is kept of how the upstream addresses it.
-/

namespace Minireg

open Py

/-- `url.rsplit("/", 1)[-1]`. -/
def baseName (url : String) : String :=
  String.ofList (url.toList.reverse.takeWhile (· ≠ '/')).reverse

/-- `value or {}`, where a method of a dict is called on it. -/
def dictOf : Json → Except String (List (String × Json))
  | .obj fields => .ok fields
  | value => if value.truthy then .error "AttributeError: not a dict" else .ok []

/-- A value that is kept as a text. -/
def textOf : Json → Except String String
  | .str s => .ok s
  | _ => .error "TypeError: not a text"

/-- `doc.get("name") or ""`. -/
def nameOf (doc : List (String × Json)) : Except String String :=
  if (Json.get doc "name").truthy then textOf (Json.get doc "name") else .ok ""

/-- One digest of `dist`, when it is there. -/
def distDigest (dist : List (String × Json)) (key algorithm : String) :
    Except String (Dict String String) :=
  if (Json.get dist key).truthy then do return [(algorithm, ← textOf (Json.get dist key))]
  else .ok []

/-- The file of a version, if its `dist` names one. -/
def distFiles (dist : List (String × Json)) : Except String (List RemoteFile) := do
  let tarball := Json.get dist "tarball"
  if tarball.truthy then
    let url ← textOf tarball
    let sha1 ← distDigest dist "shasum" "sha1"
    let integrity ← distDigest dist "integrity" "integrity"
    return [{ filename := baseName url, url := url, hashes := sha1 ++ integrity }]
  else
    return []

section Packument

variable (parseTime : String → Option Time) (times : List (String × Json))

def parseVersion (version : String) (vdoc : List (String × Json)) :
    Except String RemoteVersion := do
  let dist ← dictOf (Json.get vdoc "dist")
  let files ← distFiles dist
  return { version := version
           metadata := vdoc
           files := files
           deprecated := (Json.get vdoc "deprecated").asStr?
           publishedAt := (Json.get times version).asStr?.bind parseTime }

/-- The versions that are dicts; the others are skipped. -/
def versionDocs (versions : List (String × Json)) : List (String × List (String × Json)) :=
  versions.filterMap fun e => e.2.asObj?.map fun vdoc => (e.1, vdoc)

/-- `latest_meta`, before anything is read of it. -/
def latestMeta (versions : List (String × Json)) : Json → Except String Json
  | .str tag => .ok (if tag = "" then .null else Json.get versions tag)
  | .arr (_ :: _) | .obj (_ :: _) => .error "TypeError: unhashable type"
  | _ => .ok .null

/-- `doc.get(key) or latest_meta.get(key)`. -/
def orLatest (doc : List (String × Json)) (latest : Json) (key : String) : Except String Json :=
  if (Json.get doc key).truthy then .ok (Json.get doc key)
  else do return Json.get (← dictOf latest) key

/-- The author's name, if it is a text. -/
def authorText (author : Json) : Json :=
  let name := match author with
    | .obj fields => Json.get fields "name"
    | _ => author
  match name with
  | .str s => .str s
  | _ => .null

/-- `parse_packument`. -/
def parsePackument (upstream : Upstream) (doc : List (String × Json)) (etag : Option String) :
    Except String RemotePackage := do
  let name ← nameOf doc
  let times ← dictOf (Json.get doc "time")
  let listed ← dictOf (Json.get doc "versions")
  let versions ← (versionDocs listed).mapM fun e => parseVersion parseTime times e.1 e.2
  let distTags ← dictOf (Json.get doc "dist-tags")
  let latest ← latestMeta listed (Json.get distTags "latest")
  let tags ← distTags.mapM fun e => do return (e.1, ← textOf e.2)
  let author ← orLatest doc latest "author"
  let description ← orLatest doc latest "description"
  let homepage ← orLatest doc latest "homepage"
  let license ← orLatest doc latest "license"
  let keywords ← orLatest doc latest "keywords"
  return { name := name
           versions := versions
           distTags := tags
           description := description
           author := authorText author
           homepage := homepage
           license := license
           keywords := if keywords.truthy then keywords else .arr []
           readme := Json.get doc "readme"
           time := times.filterMap fun e => e.2.asStr?.map fun s => (e.1, s)
           raw := doc
           etag := etag
           upstreamId := some upstream.id
           upstreamName := some upstream.name }

end Packument

/-! ## The tarballs of a packument -/

/-- The last segment of a URL, where there is one. -/
def nameInUrl : Json → Option String
  | .str url => if url = "" then none else some (baseName url)
  | _ => none

def tarballName (vdoc : List (String × Json)) : Option String :=
  nameInUrl (Json.get ((Json.get vdoc "dist").asObj?.getD []) "tarball")

/-- Each version that a packument lists, with its tarball's name. -/
def packumentTarballs (doc : List (String × Json)) : List (String × Option String) :=
  (versionDocs ((Json.get doc "versions").asObj?.getD [])).map fun e => (e.1, tarballName e.2)

theorem dictOf_ok {value : Json} {fields : List (String × Json)} (h : dictOf value = .ok fields) :
    value.asObj?.getD [] = fields := by
  unfold dictOf at h
  split at h
  · exact Except.ok.inj h
  · rename_i hobj
    split at h
    · cases h
    · obtain rfl := Except.ok.inj h
      cases value with
      | obj fields => exact absurd rfl (hobj fields)
      | _ => rfl

theorem textOf_ok {value : Json} {s : String} (h : textOf value = .ok s) : value = .str s := by
  unfold textOf at h
  split at h
  · rw [Except.ok.inj h]
  · cases h

theorem distFiles_names {dist : List (String × Json)} {files : List RemoteFile}
    (h : distFiles dist = .ok files) :
    files.map RemoteFile.filename = (nameInUrl (Json.get dist "tarball")).toList := by
  unfold distFiles at h
  dsimp only at h
  split at h
  · rename_i htruthy
    obtain ⟨url, hurl, h⟩ := bind_ok h
    obtain ⟨sha1, -, h⟩ := bind_ok h
    obtain ⟨integrity, -, h⟩ := bind_ok h
    obtain rfl := Except.ok.inj h
    have hne : url ≠ "" := by
      rw [textOf_ok hurl] at htruthy
      simpa [Json.truthy] using htruthy
    rw [textOf_ok hurl, nameInUrl, if_neg hne]
    rfl
  · rename_i hfalsy
    obtain rfl := Except.ok.inj h
    have hnone : nameInUrl (Json.get dist "tarball") = none := by
      unfold nameInUrl
      split
      · rename_i url hurl
        have hempty : url = "" := by simpa [hurl, Json.truthy] using hfalsy
        exact if_pos hempty
      · rfl
    rw [hnone]
    rfl

theorem parseVersion_spec {parseTime : String → Option Time} {times vdoc : List (String × Json)}
    {version : String} {v : RemoteVersion} (h : parseVersion parseTime times version vdoc = .ok v) :
    (v.version, v.files.map RemoteFile.filename) = (version, (tarballName vdoc).toList) := by
  unfold parseVersion at h
  obtain ⟨dist, hdist, h⟩ := bind_ok h
  obtain ⟨files, hfiles, h⟩ := bind_ok h
  obtain rfl := Except.ok.inj h
  unfold tarballName
  rw [dictOf_ok hdist, ← distFiles_names hfiles]

/-- What is read of a packument has its name and the versions that it lists, each with its own
tarball. -/
theorem parsePackument_spec {parseTime : String → Option Time} {upstream : Upstream}
    {doc : List (String × Json)} {etag : Option String} {remote : RemotePackage}
    (h : parsePackument parseTime upstream doc etag = .ok remote) :
    nameOf doc = .ok remote.name ∧
      remote.versions.map (fun v => (v.version, v.files.map RemoteFile.filename)) =
        (packumentTarballs doc).map fun e => (e.1, e.2.toList) := by
  unfold parsePackument at h
  obtain ⟨name, hname, h⟩ := bind_ok h
  obtain ⟨times, -, h⟩ := bind_ok h
  obtain ⟨listed, hlisted, h⟩ := bind_ok h
  obtain ⟨versions, hversions, h⟩ := bind_ok h
  obtain ⟨distTags, -, h⟩ := bind_ok h
  obtain ⟨latest, -, h⟩ := bind_ok h
  obtain ⟨tags, -, h⟩ := bind_ok h
  obtain ⟨author, -, h⟩ := bind_ok h
  obtain ⟨description, -, h⟩ := bind_ok h
  obtain ⟨homepage, -, h⟩ := bind_ok h
  obtain ⟨license, -, h⟩ := bind_ok h
  obtain ⟨keywords, -, h⟩ := bind_ok h
  obtain rfl := Except.ok.inj h
  refine ⟨hname, ?_⟩
  unfold packumentTarballs
  rw [dictOf_ok hlisted, List.map_map]
  exact mapM_map hversions fun e v hv => parseVersion_spec hv

end Minireg
