import Minireg.Services.Merge
import Minireg.Services.PypiPublish

/-!
# What a PyPI upstream answers

The Simple API lists files, not versions: `_assemble` takes the version of a file out of its
name. `SimpleAnswer` is what the resolver can be left with of such answers, and in all of them a
file is under the version that its name says.
-/

namespace Minireg

open Py PypiPublish

/-- The parsers of `packaging` that read a distribution's filename. -/
structure DistNames where
  pep440 : Pep440
  /-- `parse_wheel_filename` and `parse_sdist_filename`: the project and the version. -/
  parseWheelFilename : String → Option (String × String)
  parseSdistFilename : String → Option (String × String)

namespace DistNames

variable (names : DistNames)

/-- The suffixes of an sdist, in the order they are tried. -/
def sdistSuffixes : List String := [".tar.gz", ".zip", ".tar.bz2", ".tgz"]

/-- `filename[: -len(suffix)]`. -/
def stemOf (filename suffix : String) : List Char :=
  filename.toList.take (filename.length - suffix.length)

/-- `parse_dist_filename`: the project and the version. -/
def parse (filename : String) : Option (String × String) :=
  if endsWith filename ".whl" then names.parseWheelFilename filename
  else match sdistSuffixes.find? fun suffix => endsWith filename suffix with
    | some suffix =>
      names.parseSdistFilename filename <|> ((splitStem (stemOf filename suffix)).filter
        fun p => (names.pep440.key? p.2).isSome)
    | none =>
      if endsWith filename ".egg" then
        match (stemOf filename ".egg").splitOn '-' with
        | name :: version :: _ =>
          if (names.pep440.key? (String.ofList version)).isSome then
            some (String.ofList name, String.ofList version)
          else none
        | _ => none
      else none

/-- The version a file is listed under. -/
def versionOf (filename : String) : String :=
  ((names.parse filename).map Prod.snd).getD "0.0.0+unknown"

/-- A file goes to the version that its name says. -/
def addFile (byVersion : Dict String RemoteVersion) (file : RemoteFile) :
    Dict String RemoteVersion :=
  let version := names.versionOf file.filename
  let rv := (byVersion.get? version).getD { version := version }
  byVersion.set version
    { rv with
      files := rv.files ++ [file]
      requiresPython := if file.requiresPython.getD "" ≠ "" && rv.requiresPython.getD "" = "" then
          file.requiresPython
        else rv.requiresPython
      publishedAt := match file.uploadTime, rv.publishedAt with
        | some t, some first => some (min t first)
        | some t, none => some t
        | none, first => first }

/-- `_assemble`. A version whose files are all yanked is; the flag of another one is `False`,
as `rederiveYanked` leaves it. -/
def assemble (upstream : Upstream) (name : String) (files : List RemoteFile)
    (versionsHint : List String) (raw : List (String × Json)) (etag : Option String) :
    RemotePackage :=
  let byVersion := (files.foldl names.addFile []).map fun e => (e.1, rederiveYanked e.2)
  let byVersion := versionsHint.foldl (fun d v => Dict.setdefault d v { version := v }) byVersion
  { name := if (Json.get raw "name").truthy then ((Json.get raw "name").asStr?).getD name else name
    versions := byVersion.map Prod.snd
    raw := raw
    etag := etag
    upstreamId := some upstream.id
    upstreamName := some upstream.name }

/-- An answer that a refresh can get: a document that was assembled, stamped, or merged. -/
inductive SimpleAnswer : RemotePackage → Prop where
  | assembled (upstream : Upstream) (name : String) (files : List RemoteFile)
      (versionsHint : List String) (raw : List (String × Json)) (etag : Option String) :
      SimpleAnswer (names.assemble upstream name files versionsHint raw etag)
  | stamped {remote : RemotePackage} (upstream : Upstream) :
      SimpleAnswer remote → SimpleAnswer (tagFilesWithUpstream remote upstream)
  | merged {base : RemotePackage} {baseUpstream : Upstream}
      {results : List (RemotePackage × Upstream)} :
      (∀ r ∈ results, SimpleAnswer r.1) → SimpleAnswer (merge base baseUpstream results)

/-- Every file is under the version that its name says. -/
def Placed (versions : List RemoteVersion) : Prop :=
  ∀ rv ∈ versions, ∀ f ∈ rv.files, rv.version = names.versionOf f.filename

end DistNames

/-! ## Files are where their names say -/

namespace DistNames

variable {names : DistNames}

/-- A version by its key, with its files where they belong. -/
def PlacedAt (names : DistNames) (byVersion : Dict String RemoteVersion) : Prop :=
  ∀ e ∈ byVersion, e.2.version = e.1 ∧ ∀ f ∈ e.2.files, e.1 = names.versionOf f.filename

theorem PlacedAt.addFile {byVersion : Dict String RemoteVersion} (h : names.PlacedAt byVersion)
    (file : RemoteFile) : names.PlacedAt (names.addFile byVersion file) := by
  intro e he
  rcases Dict.mem_of_mem_set he with rfl | he
  · dsimp only
    rcases hrv : byVersion.get? (names.versionOf file.filename) with _ | rv
    · refine ⟨rfl, fun f hf => ?_⟩
      obtain rfl := List.mem_singleton.mp hf
      rfl
    · obtain ⟨hversion, hfiles⟩ := h _ (Dict.mem_of_get? hrv)
      refine ⟨hversion, fun f hf => ?_⟩
      rcases List.mem_append.mp hf with hf | hf
      · exact hfiles f hf
      · obtain rfl := List.mem_singleton.mp hf
        rfl
  · exact h e he

theorem PlacedAt.addFiles (files : List RemoteFile) {byVersion : Dict String RemoteVersion}
    (h : names.PlacedAt byVersion) : names.PlacedAt (files.foldl names.addFile byVersion) := by
  induction files generalizing byVersion with
  | nil => exact h
  | cons file files ih => exact ih (h.addFile file)

theorem PlacedAt.hints (versions : List String) {byVersion : Dict String RemoteVersion}
    (h : names.PlacedAt byVersion) :
    names.PlacedAt (versions.foldl (fun d v => Dict.setdefault d v { version := v }) byVersion) := by
  induction versions generalizing byVersion with
  | nil => exact h
  | cons version versions ih =>
    refine ih fun e he => ?_
    rcases Dict.mem_of_mem_setdefault he with rfl | he
    · exact ⟨rfl, fun f hf => absurd hf List.not_mem_nil⟩
    · exact h e he

theorem placed_assemble (upstream : Upstream) (name : String) (files : List RemoteFile)
    (versionsHint : List String) (raw : List (String × Json)) (etag : Option String) :
    names.Placed (names.assemble upstream name files versionsHint raw etag).versions := by
  have hfiles : names.PlacedAt (files.foldl names.addFile []) :=
    PlacedAt.addFiles files fun e he => absurd he List.not_mem_nil
  have hmarked : names.PlacedAt
      ((files.foldl names.addFile []).map fun e => (e.1, rederiveYanked e.2)) := by
    intro e he
    obtain ⟨e', he', rfl⟩ := List.mem_map.mp he
    obtain ⟨hversion, hplaced⟩ := rederiveYanked_frame e'.2
    dsimp only
    rw [hversion, hplaced]
    exact hfiles e' he'
  intro rv hrv f hf
  obtain ⟨e, he, rfl⟩ := List.mem_map.mp hrv
  obtain ⟨hversion, hplaced⟩ := hmarked.hints versionsHint e he
  exact hversion.trans (hplaced f hf)

/-- **Every file of an answer is under the version that its name says.** -/
theorem SimpleAnswer.placed {remote : RemotePackage} (h : names.SimpleAnswer remote) :
    names.Placed remote.versions := by
  induction h with
  | assembled upstream name files versionsHint raw etag =>
    exact placed_assemble upstream name files versionsHint raw etag
  | stamped upstream _ ih =>
    intro rv hrv f hf
    obtain ⟨w, hw, rfl⟩ := List.mem_map.mp hrv
    obtain ⟨g, hg, rfl⟩ := List.mem_map.mp hf
    exact ih w hw g hg
  | @merged base baseUpstream results _ ih =>
    intro rv hrv f hf
    obtain ⟨before, r, after, hresults, -, w, hw, hversion, g, hg, rfl⟩ :=
      (merge_unionOf base baseUpstream results).first rv hrv f hf
    have hr : r ∈ results := hresults ▸ List.mem_append_right before List.mem_cons_self
    exact hversion.symm.trans (ih r hr w hw g hg)

theorem required_ok {α : Type} {value : Option α} {message : String} {a : α}
    (h : required value message = .ok a) : value = some a := by
  unfold required refuse at h
  split at h
  · next b =>
    obtain rfl := Except.ok.inj h
    rfl
  · cases h

/-- Only wheels and `.tar.gz` sdists are uploaded. -/
theorem uploadFiletype_suffix {dists : Distributions} {form : Form} {filename filetype : String}
    {content : NpmPublish.Bytes} (h : uploadFiletype dists form filename content = .ok filetype) :
    endsWith filename ".whl" = true ∨ endsWith filename ".tar.gz" = true := by
  obtain ⟨u, -, h⟩ := bind_ok h
  obtain ⟨u', -, h⟩ := bind_ok h
  obtain ⟨e, hfound, -⟩ := bind_ok h
  have hfind := required_ok hfound
  have hsuffix := List.find?_some hfind
  rcases List.mem_cons.mp (List.mem_of_find?_eq_some hfind) with rfl | hmem
  · exact .inl hsuffix
  · obtain rfl := List.mem_singleton.mp hmem
    exact .inr hsuffix

/-- A filename that may be uploaded is read here as it is everywhere. -/
theorem parse_eq_parseDistFilename {dists : Distributions} {filename : String}
    (hpep : dists.pep440 = names.pep440)
    (hwheel : dists.parseWheelFilename = names.parseWheelFilename)
    (hsdist : dists.parseSdistFilename = names.parseSdistFilename)
    (h : endsWith filename ".whl" = true ∨ endsWith filename ".tar.gz" = true) :
    names.parse filename = parseDistFilename dists filename := by
  unfold parse parseDistFilename
  rw [hpep, hwheel, hsdist]
  split
  · rfl
  · next hnot =>
    have hfirst : sdistSuffixes.find? (fun suffix => endsWith filename suffix) =
        some ".tar.gz" := List.find?_cons_of_pos (h.resolve_left hnot)
    rw [hfirst]
    rfl

/-- An uploaded file is listed under a version of its release's normal form. -/
theorem versionOf_upload {dists : Distributions} {form : Form} {filename : String}
    {content : NpmPublish.Bytes} {contentType : String} {request : UploadRequest}
    (hpep : dists.pep440 = names.pep440)
    (hwheel : dists.parseWheelFilename = names.parseWheelFilename)
    (hsdist : dists.parseSdistFilename = names.parseSdistFilename)
    (h : parseUpload dists form filename content contentType = .ok request) :
    names.pep440.normalize (names.versionOf request.filename) =
      names.pep440.normalize request.version := by
  obtain ⟨u, -, h⟩ := bind_ok h
  obtain ⟨⟨name, version⟩, -, h⟩ := bind_ok h
  obtain ⟨filetype, hfiletype, h⟩ := bind_ok h
  obtain ⟨⟨fileName, fileVersion⟩, hparsed, h⟩ := bind_ok h
  obtain ⟨u₁, -, h⟩ := bind_ok h
  obtain ⟨u₂, hversion, h⟩ := bind_ok h
  obtain rfl := Except.ok.inj h
  have hparse := (parse_eq_parseDistFilename hpep hwheel hsdist
    (uploadFiletype_suffix hfiletype)).trans (required_ok hparsed)
  have hsame := of_decide_eq_true (require_ok hversion)
  dsimp only at hsame ⊢
  rw [versionOf, hparse, ← hpep]
  exact hsame

end DistNames

end Minireg
