import Minireg.Api.TagMaps
import Minireg.Py.Grouping

/-!
# A mirror of this registry

The packument that this registry answers with, full or abbreviated, as another one of its kind
reads it that has it for an upstream. `packument_mirrored` says what the mirror comes to know: the
versions that the policy lets through and no others, each with the address, the digests, the
deprecation and the time of its row, and the tags as they are shown here.
-/

namespace Minireg.Npm

open Py Lib Semver

/-! ## The packument -/

/-- The columns of the rows that only the rendering reads, and how it writes a time. Times are
microseconds. -/
structure Stamps where
  /-- `_iso` -/
  iso : Time → String
  /-- `int(dt.timestamp())` -/
  seconds : Time → Int
  /-- `version.first_seen_at` -/
  versionSeen : PackageVersion → Option Time
  /-- `package.first_seen_at` -/
  packageSeen : Option Time
  /-- `package.updated_at` -/
  updated : Option Time

/-- `version_row.published_at or version_row.first_seen_at`. -/
def Stamps.when (stamps : Stamps) (v : PackageVersion) : Option Time :=
  v.publishedAt <|> stamps.versionSeen v

section Render

variable (order : RowOrder) (package : Package) (base : String) (stamps : Stamps)

def setTime (times : Dict String String) (key : String) (t : Option Time) : Dict String String :=
  match t with
  | some t => Dict.set times key (stamps.iso t)
  | none => times

/-- `_time_map`. -/
def timeMap : Dict String String :=
  let dated := package.versions.rows.filterMap fun v =>
    (stamps.when v).map fun t => (v.version, t)
  let moments := dated.map Prod.snd
  let times := Dict.ofPairs (dated.map fun e => (e.1, stamps.iso e.2))
  let times := setTime stamps times "created" (moments.min? <|> stamps.packageSeen)
  setTime stamps times "modified" (moments.max? <|> stamps.updated)

/-- `sorted(package.versions, key=lambda v: v.version)`. -/
def sortedVersions : List PackageVersion :=
  package.versions.rows.insertionSort fun v w => v.version ≤ w.version

/-- `rendered_versions`. -/
def renderedVersions (abbreviated : Bool) : Dict String Json :=
  Dict.ofPairs ((sortedVersions package).map fun v =>
    (v.version, .obj (renderVersion order package base abbreviated v)))

def tagObject (tags : Dict String String) : Json := .obj (tags.map fun e => (e.1, .str e.2))

/-- The fields that are hoisted from the `latest` version. -/
def hoistedFields : List String :=
  ["description", "homepage", "keywords", "repository", "author", "bugs", "license",
    "contributors", "maintainers", "readmeFilename"]

/-- `cached.get(field, latest_meta.get(field))`, where it is something. -/
def hoist (cached latest doc : Dict String Json) (field : String) : Dict String Json :=
  let value := (Dict.get? cached field).getD (Json.get latest field)
  if value = .null then doc else Dict.set doc field value

/-- A field that is set where there is none. -/
def setMissing (doc : Dict String Json) (field : String) (value : Json) : Dict String Json :=
  if value.truthy && (Dict.get? doc field).isNone then Dict.set doc field value else doc

def setTruthy (doc : Dict String Json) (field : String) (value : Json) : Dict String Json :=
  if value.truthy then Dict.set doc field value else doc

def textField (text : Option String) : Json := .str (text.getD "")

/-- `latest_meta`. -/
def renderedLatest (versions : Dict String Json) (tags : Dict String String) :
    List (String × Json) :=
  match (Dict.get? tags "latest").filter (· ≠ "") with
  | some latest => (Json.get versions latest).asObj?.getD []
  | none => []

/-- The fields of the full document behind the ones that every document has. -/
def describe (latest doc : Dict String Json) : Dict String Json :=
  let cached := package.cachedDocument.getD []
  let doc := hoistedFields.foldl (hoist cached latest) doc
  let doc := Dict.setdefault doc "description" (textField package.description)
  let doc := setMissing doc "homepage" (textField package.homepage)
  let doc := setMissing doc "license" (textField package.license)
  let doc := setMissing doc "keywords" (.arr (package.keywords.map .str))
  let readme := if (Json.get cached "readme").truthy then Json.get cached "readme"
    else Json.get latest "readme"
  let doc := setTruthy doc "readme" readme
  setTruthy doc "users" (Json.get cached "users")

/-- `f"{len(versions)}-{...}"`. -/
def revision : String :=
  toString package.versions.rows.length ++ "-" ++
    toString (((stamps.updated <|> stamps.packageSeen).map stamps.seconds).getD 0)

/-- `render_packument`. -/
def renderPackument (abbreviated : Bool) : Except ValueError (Dict String Json) := do
  let versions := renderedVersions order package base abbreviated
  let tags ← distTags package
  let times := timeMap package stamps
  if abbreviated then
    let modified := ((Dict.get? times "modified").filter (· ≠ "")) <|> stamps.updated.map stamps.iso
    return [("name", .str package.name), ("modified", (modified.map Json.str).getD .null),
      ("dist-tags", tagObject tags), ("versions", .obj versions)]
  else
    return describe package (renderedLatest versions tags)
      [("_id", .str package.name), ("_rev", .str (revision package stamps)),
        ("name", .str package.name), ("dist-tags", tagObject tags), ("versions", .obj versions),
        ("time", .obj (times.map fun e => (e.1, .str e.2)))]

end Render

section Response

variable (env : RegistryEnv) (order : RowOrder) (package : Package) (base : String)
  (stamps : Stamps)

/-- The tags that are left, with a `latest` of the versions that are left. -/
def remainingTags (tags : Dict String String) (versions : List String) :
    Except ValueError (Dict String String) :=
  if (Dict.get? tags "latest").isSome then .ok tags
  else (maxSemver versions).map (addLatest tags)

/-- The document without the versions that are blocked. -/
def withoutBlocked (blocked : List String) (doc : Dict String Json) :
    Except ValueError (Page (String × Json)) := do
  let versions := ((Json.get doc "versions").asObj?.getD []).filter fun e => e.1 ∉ blocked
  let tags := ((Json.get doc "dist-tags").asObj?.getD []).filterMap fun e =>
    e.2.asStr?.map fun version => (e.1, version)
  let tags := tags.filter fun e => e.2 ∉ blocked
  if versions = [] then
    return .forbidden (some "all versions of this package are blocked by policy")
  else
    let tags ← remainingTags tags (versions.map Prod.fst)
    return .document (Dict.set (Dict.set doc "versions" (.obj versions)) "dist-tags"
      (tagObject tags))

/-- `_packument_response`, the whole document. -/
def packumentDocument (abbreviated : Bool) : Except ValueError (Page (String × Json)) := do
  let name ← isNameBlocked env.policy env.engine .npm package.normalizedName
  if !name.allowed then return .forbidden name.reason
  else if package.versions.rows = [] then return .notFound
  else
    let doc ← renderPackument order package base stamps abbreviated
    let blocked ← blockedVersions env .npm package.normalizedName package
    if blocked = [] then return .document doc
    else withoutBlocked blocked doc

end Response

/-! ## What a mirror makes of it -/

/-- Whole milliseconds. -/
def toMillis (t : Time) : Time := t - t % 1000

section Mirror

variable (order : RowOrder) (package : Package) (base : String)

/-- A digest that a version is rendered with. -/
def renderedDigest (own : PackageFile → Option String) (key : String) (v : PackageVersion) :
    Option String :=
  let original := (Json.get v.metadataJson "dist").asObj?.getD []
  let text := (((renderedFile order v).bind own).filter (· ≠ "")).or (Json.get original key).asStr?
  text.filter (· ≠ "")

/-- The digest that stands in the version's own metadata is a text, if there is one. -/
def TextDigests (v : PackageVersion) : Prop :=
  ∀ key ∈ ["shasum", "integrity"],
    (Json.get ((Json.get v.metadataJson "dist").asObj?.getD []) key).truthy = true →
    ∃ text, Json.get ((Json.get v.metadataJson "dist").asObj?.getD []) key = .str text

def mirroredFile (v : PackageVersion) : RemoteFile where
  filename := quote (addressedName package.name v.version
    ((renderedFile order v).map PackageFile.filename))
  url := distTarball base order package v
  hashes := ((renderedDigest order PackageFile.sha1 "shasum" v).map fun d => ("sha1", d)).toList ++
    ((renderedDigest order PackageFile.integrity "integrity" v).map fun d =>
      ("integrity", d)).toList

/-- What a mirror has of a version, with the time that the document gives it. -/
def mirroredVersion (abbreviated : Bool) (publishedAt : Option Time) (v : PackageVersion) :
    RemoteVersion where
  version := v.version
  metadata := renderVersion order package base abbreviated v
  files := [mirroredFile order package base v]
  deprecated := (v.deprecated.filter (· ≠ "")).or (Json.get v.metadataJson "deprecated").asStr?
  publishedAt := publishedAt

end Mirror

/-! ## The rows in order -/

section Sorted

variable {env : RegistryEnv} {package : Package}

theorem mem_sortedVersions {v : PackageVersion} :
    v ∈ sortedVersions package ↔ v ∈ package.versions := List.mem_insertionSort _

theorem map_sortedVersions : (sortedVersions package).map PackageVersion.version =
    (versionNames package).insertionSort (· ≤ ·) :=
  List.map_insertionSort _ _ _ _ fun _ _ _ _ => Iff.rfl

theorem nodup_versionNames (h : Catalogued env .npm package) :
    (package.versions.rows.map PackageVersion.version).Nodup := by
  have hnodup := package.versions.nodup
  refine (List.nodup_map_iff_inj_on (List.Nodup.of_map _ hnodup)).mpr fun v hv w hw heq => ?_
  exact same_version h hv hw heq

theorem nodup_sortedVersions (h : Catalogued env .npm package) :
    ((sortedVersions package).map PackageVersion.version).Nodup :=
  ((List.perm_insertionSort _ _).map PackageVersion.version).nodup_iff.mpr (nodup_versionNames h)

/-- In order, and each text once. -/
theorem sortedVersions_lt (h : Catalogued env .npm package) :
    (sortedVersions package).Pairwise fun v w => v.version < w.version := by
  have hle : (sortedVersions package).Pairwise fun v w => v.version ≤ w.version :=
    List.pairwise_insertionSort _ _
  have hne := List.pairwise_map.mp (nodup_sortedVersions h)
  exact (hle.and hne).imp fun hvw => lt_of_le_of_ne hvw.1 hvw.2

theorem renderedVersions_eq (h : Catalogued env .npm package) (order : RowOrder) (base : String)
    (abbreviated : Bool) :
    renderedVersions order package base abbreviated = (sortedVersions package).map fun v =>
      (v.version, .obj (renderVersion order package base abbreviated v)) := by
  refine Dict.ofPairs_of_nodup ?_
  rw [List.map_map]
  exact nodup_sortedVersions h

end Sorted

/-! ## The fields of the document -/

section Fields

variable {doc cached latest : Dict String Json} {k field : String} {value : Json}

theorem get?_hoist (h : k ≠ field) : Dict.get? (hoist cached latest doc field) k =
    Dict.get? doc k := by
  unfold hoist
  dsimp only
  split
  · rfl
  · rw [Dict.get?_set, if_neg h]

theorem get?_hoists {fields : List String} (h : k ∉ fields) :
    Dict.get? (fields.foldl (hoist cached latest) doc) k = Dict.get? doc k := by
  induction fields generalizing doc with
  | nil => rfl
  | cons field fields ih =>
    rw [List.mem_cons, not_or] at h
    rw [List.foldl_cons, ih h.2, get?_hoist h.1]

theorem get?_setMissing (h : k ≠ field) :
    Dict.get? (setMissing doc field value) k = Dict.get? doc k := by
  unfold setMissing
  split
  · rw [Dict.get?_set, if_neg h]
  · rfl

theorem get?_setTruthy (h : k ≠ field) :
    Dict.get? (setTruthy doc field value) k = Dict.get? doc k := by
  unfold setTruthy
  split
  · rw [Dict.get?_set, if_neg h]
  · rfl

theorem get?_setdefault_ne (h : k ≠ field) :
    Dict.get? (Dict.setdefault doc field value) k = Dict.get? doc k := by
  unfold Dict.setdefault
  split
  · rfl
  · rw [Dict.get?_append, Dict.get?_cons, if_neg h, Dict.get?_nil, Option.or_none]

/-- What describes the package leaves the other fields. -/
theorem get?_describe {package : Package} (h : k ∉ "readme" :: "users" :: hoistedFields) :
    Dict.get? (describe package latest doc) k = Dict.get? doc k := by
  simp only [List.mem_cons, not_or] at h
  obtain ⟨hreadme, husers, hfields⟩ := h
  have hother : ∀ field ∈ hoistedFields, k ≠ field := fun field hfield heq =>
    hfields (heq ▸ hfield)
  unfold describe
  dsimp only
  rw [get?_setTruthy husers, get?_setTruthy hreadme, get?_setMissing (hother _ (by decide)),
    get?_setMissing (hother _ (by decide)), get?_setMissing (hother _ (by decide)),
    get?_setdefault_ne (hother _ (by decide)), get?_hoists hfields]

end Fields

/-! ## Times -/

section Times

variable {env : RegistryEnv} {package : Package} {stamps : Stamps}

theorem get?_setTime {times : Dict String String} {key k : String} {t : Option Time}
    (h : k ≠ key) : Dict.get? (setTime stamps times key t) k = Dict.get? times k := by
  unfold setTime
  split
  · rw [Dict.get?_set, if_neg h]
  · rfl

/-- **The time of a version** in the document is that of its row. -/
theorem get?_timeMap (h : Catalogued env .npm package) {v : PackageVersion}
    (hv : v ∈ package.versions) (hcreated : v.version ≠ "created")
    (hmodified : v.version ≠ "modified") :
    Dict.get? (timeMap package stamps) v.version = (stamps.when v).map stamps.iso := by
  have hslots : ((package.versions.rows.map fun v =>
      (v.version, (stamps.when v).map stamps.iso)).map Prod.fst).Nodup := by
    rw [List.map_map]
    exact nodup_versionNames h
  have hdated : (package.versions.rows.filterMap fun v =>
      (stamps.when v).map fun t => (v.version, t)).map (fun e => (e.1, stamps.iso e.2)) =
        Dict.present (package.versions.rows.map fun v =>
          (v.version, (stamps.when v).map stamps.iso)) := by
    unfold Dict.present
    rw [List.map_filterMap, List.filterMap_map]
    refine List.filterMap_congr fun v _ => ?_
    rw [Function.comp_apply, Option.map_map, Option.map_map]
    rfl
  unfold timeMap
  dsimp only
  rw [get?_setTime hmodified, get?_setTime hcreated, hdated,
    Dict.ofPairs_of_nodup (Dict.nodup_keys_present hslots), Dict.get?_present hslots,
    (Dict.get?_eq_some_iff hslots).mpr (List.mem_map_of_mem hv)]
  rfl

end Times

/-! ## One version -/

section Version

variable {order : RowOrder} {package : Package} {base : String} {abbreviated : Bool}
  {v : PackageVersion}

/-- What a rendered version has of a field. -/
theorem get?_renderVersion {k : String} (hk : k ∈ abbreviatedVersionKeys) (hname : k ≠ "name") :
    Dict.get? (renderVersion order package base abbreviated v) k =
      if v.deprecated.getD "" ≠ "" ∧ k = "deprecated" then some (.str (v.deprecated.getD ""))
      else if k = "dist" then some (.obj (distFor base package v (renderedFile order v)))
      else if k = "version" then some (.str v.version)
      else Dict.get? v.metadataJson k := by
  have hid : k ≠ "_id" := by
    rintro rfl
    exact absurd hk (by decide)
  unfold renderVersion
  extract_lets named versioned dist fields deprecated
  have hfields : Dict.get? fields k =
      if k = "dist" then some (.obj (distFor base package v (renderedFile order v)))
      else if k = "version" then some (.str v.version) else Dict.get? v.metadataJson k := by
    show Dict.get? (Dict.set (Dict.set named "version" _) "dist" _) k = _
    rw [Dict.get?_set, Dict.get?_set, get?_setdefault_ne hname]
    rfl
  have hdeprecated : Dict.get? deprecated k =
      if v.deprecated.getD "" ≠ "" ∧ k = "deprecated" then some (.str (v.deprecated.getD ""))
      else Dict.get? fields k := by
    unfold deprecated
    by_cases hempty : v.deprecated.getD "" = ""
    · rw [if_pos hempty, if_neg fun h => h.1 hempty]
    · rw [if_neg hempty, Dict.get?_set]
      by_cases hkey : k = "deprecated"
      · rw [if_pos hkey, if_pos ⟨hempty, hkey⟩]
      · rw [if_neg hkey, if_neg fun h => hkey h.2]
  rw [← hfields, ← hdeprecated]
  split
  · exact Dict.get?_filter_of (p := fun k => k ∈ abbreviatedVersionKeys) (decide_eq_true hk) _
  · exact get?_setdefault_ne hid

theorem get_renderVersion_dist :
    Json.get (renderVersion order package base abbreviated v) "dist" =
      .obj (distFor base package v (renderedFile order v)) := by
  unfold Json.get
  change (Dict.get? _ _).getD Json.null = _
  rw [get?_renderVersion (by decide) (by decide), if_neg fun h => absurd h.2 (by decide),
    if_pos rfl]
  rfl

theorem deprecated_renderVersion :
    (Json.get (renderVersion order package base abbreviated v) "deprecated").asStr? =
      (v.deprecated.filter (· ≠ "")).or (Json.get v.metadataJson "deprecated").asStr? := by
  unfold Json.get
  change ((Dict.get? _ _).getD Json.null).asStr? = _
  rw [get?_renderVersion (by decide) (by decide)]
  rcases hdeprecated : v.deprecated with _ | text
  · rw [if_neg (by simp), if_neg (by decide), if_neg (by decide)]
    rfl
  · by_cases hempty : text = ""
    · subst hempty
      rw [if_neg (by simp), if_neg (by decide), if_neg (by decide)]
      rfl
    · rw [if_pos ⟨hempty, rfl⟩, Option.filter_some, if_pos (decide_eq_true hempty)]
      rfl

/-- A digest that is rendered, of one that stands as a text. -/
theorem distText_eq {key : String} {own : Option String} {original : Json}
    (htext : original.truthy = true → ∃ text, original = .str text) :
    distText key own original =
      ((((own.filter (· ≠ "")).or original.asStr?).filter (· ≠ "")).map fun text =>
        (key, Json.str text)).toList := by
  have hown : own.getD "" = "" → own.filter (· ≠ "") = none := by
    rcases own with _ | text
    · exact fun _ => rfl
    · rintro (rfl : text = "")
      rfl
  unfold distText
  by_cases hempty : own.getD "" = ""
  · rw [if_pos hempty, hown hempty, Option.none_or]
    by_cases htruthy : original.truthy = true
    · obtain ⟨text, rfl⟩ := htext htruthy
      have hne : text ≠ "" := by simpa [Json.truthy] using htruthy
      rw [if_pos htruthy, Json.asStr?, Option.filter_some, if_pos (decide_eq_true hne)]
      rfl
    · rw [if_neg htruthy]
      cases original with
      | str text =>
        have hne : text = "" := by simpa [Json.truthy] using htruthy
        subst hne
        rfl
      | _ => rfl
  · obtain ⟨text, rfl⟩ : ∃ text, own = some text := by
      rcases own with _ | text
      · exact absurd rfl hempty
      · exact ⟨text, rfl⟩
    have hne : text ≠ "" := hempty
    have htruthy : (Json.str text).truthy = true := by simpa [Json.truthy] using hne
    rw [if_neg hempty]
    change (if (Json.str text).truthy = true then [(key, Json.str text)] else []) = _
    rw [if_pos htruthy, Option.filter_some, if_pos (decide_eq_true hne)]
    change _ = (((some text).filter (· ≠ "")).map _).toList
    rw [Option.filter_some, if_pos (decide_eq_true hne)]
    rfl

/-- Another field has no entry there. -/
theorem lookup_distText_ne {key k : String} {own : Option String} {original : Json}
    (h : k ≠ key) : (distText key own original).lookup k = none := by
  unfold distText
  dsimp only
  generalize (if own.getD "" = "" then original else Json.str (own.getD "")) = value
  split
  · change Dict.get? _ _ = none
    rw [Dict.get?_cons, if_neg h]
    rfl
  · rfl

theorem lookup_passed {l : List (String × Json)} {k : String}
    (hk : k ∈ ["tarball", "shasum", "integrity"]) :
    (l.filter fun e => e.1 ≠ "tarball" && e.1 ≠ "shasum" && e.1 ≠ "integrity").lookup k = none := by
  rw [List.lookup_eq_none_iff]
  intro e he
  have hcond := (List.mem_filter.mp he).2
  simp only [Bool.and_eq_true, decide_eq_true_eq] at hcond
  simp only [List.mem_cons, List.not_mem_nil, or_false] at hk
  obtain rfl | rfl | rfl := hk
  · simpa using hcond.1.1.symm
  · simpa using hcond.1.2.symm
  · simpa using hcond.2.symm

/-- **The digests of the rendered `dist`**, as they are read. -/
theorem distDigest_distFor {own : PackageFile → Option String} {key algorithm : String}
    {dist : List (String × Json)}
    (htext : (Json.get ((Json.get v.metadataJson "dist").asObj?.getD []) key).truthy = true →
      ∃ text, Json.get ((Json.get v.metadataJson "dist").asObj?.getD []) key = .str text)
    (hlookup : dist.lookup key =
      (distText key ((renderedFile order v).bind own)
        (Json.get ((Json.get v.metadataJson "dist").asObj?.getD []) key)).lookup key) :
    distDigest dist key algorithm =
      .ok ((renderedDigest order own key v).map fun d => (algorithm, d)).toList := by
  have hget : Json.get dist key = ((renderedDigest order own key v).map Json.str).getD .null := by
    unfold Json.get
    rw [hlookup, distText_eq htext]
    unfold renderedDigest
    dsimp only
    generalize Option.filter _ (Option.or _ _) = digest
    rcases digest with _ | text
    · rfl
    · rw [Option.map_some, Option.toList_some, List.lookup_cons_self]
      rfl
  unfold distDigest
  rw [hget]
  rcases hdigest : renderedDigest order own key v with _ | text
  · rfl
  · have hne : text ≠ "" := by
      unfold renderedDigest at hdigest
      exact of_decide_eq_true (Option.filter_eq_some_iff.mp hdigest).2
    have htruthy : (Json.str text).truthy = true := by simpa [Json.truthy] using hne
    rw [Option.map_some, Option.getD_some, if_pos htruthy]
    rfl

theorem baseName_append {name : String} (h : '/' ∉ name.toList) (url : String) :
    baseName (url ++ "/" ++ name) = name := by
  have hname : ∀ c ∈ name.toList.reverse, decide (c ≠ '/') = true := fun c hc =>
    decide_eq_true fun heq => h (heq ▸ List.mem_reverse.mp hc)
  unfold baseName
  rw [String.toList_append, String.toList_append, List.reverse_append, List.reverse_append,
    List.takeWhile_append_of_pos hname]
  change String.ofList (name.toList.reverse ++ ('/' :: url.toList.reverse).takeWhile _).reverse = _
  rw [List.takeWhile_cons_of_neg (by decide), List.append_nil, List.reverse_reverse,
    String.ofList_toList]

theorem slash_not_mem_quote (s : String) : '/' ∉ (quote s).toList := by
  unfold quote
  rw [String.toList_ofList, List.mem_flatMap]
  rintro ⟨d, -, hd⟩
  rcases mem_quoteChar hd with hpercent | hunreserved
  · exact absurd hpercent (by decide)
  · exact absurd hunreserved (by decide)

theorem distTarball_eq (order : RowOrder) (package : Package) (base : String)
    (v : PackageVersion) : distTarball base order package v =
      base ++ "/" ++ quotePath package.name ++ "/-" ++ "/" ++
        (mirroredFile order package base v).filename := by
  have hsep : "/-/" = "/-" ++ "/" := rfl
  unfold distTarball tarballUrl mirroredFile
  rw [hsep, ← String.append_assoc]

theorem baseName_distTarball (order : RowOrder) (package : Package) (base : String)
    (v : PackageVersion) :
    baseName (distTarball base order package v) =
      (mirroredFile order package base v).filename := by
  rw [distTarball_eq]
  exact baseName_append (slash_not_mem_quote _) _

theorem distTarball_ne (order : RowOrder) (package : Package) (base : String)
    (v : PackageVersion) : distTarball base order package v ≠ "" := by
  intro hempty
  rw [distTarball_eq, String.append_eq_empty_iff, String.append_eq_empty_iff] at hempty
  exact absurd hempty.1.2 (by decide)

/-- The file of a rendered version. -/
theorem distFiles_distFor (hdigests : TextDigests v) :
    distFiles (distFor base package v (renderedFile order v)) =
      .ok [mirroredFile order package base v] := by
  have hsha1 : distDigest (distFor base package v (renderedFile order v)) "shasum" "sha1" =
      .ok ((renderedDigest order PackageFile.sha1 "shasum" v).map fun d => ("sha1", d)).toList := by
    refine distDigest_distFor (hdigests _ (by decide)) ?_
    unfold distFor
    dsimp only
    rw [List.lookup_append, List.lookup_append, List.lookup_append, lookup_passed (by decide),
      lookup_distText_ne (by decide : "shasum" ≠ "integrity"), Option.or_none, Option.none_or]
    rfl
  have hintegrity : distDigest (distFor base package v (renderedFile order v)) "integrity"
      "integrity" = .ok ((renderedDigest order PackageFile.integrity "integrity" v).map fun d =>
        ("integrity", d)).toList := by
    refine distDigest_distFor (hdigests _ (by decide)) ?_
    unfold distFor
    dsimp only
    rw [List.lookup_append, List.lookup_append, List.lookup_append, lookup_passed (by decide),
      lookup_distText_ne (by decide : "integrity" ≠ "shasum"), Option.none_or]
    rfl
  have htruthy : (Json.str (distTarball base order package v)).truthy = true := by
    simpa [Json.truthy] using distTarball_ne order package base v
  unfold distFiles
  rw [distFor_tarball, if_pos htruthy, hsha1, hintegrity]
  exact congrArg
    (fun name => Except.ok [{ mirroredFile order package base v with filename := name }])
    (baseName_distTarball order package base v)

/-- **One version** of the document, as a mirror reads it. -/
theorem parseVersion_renderVersion {parseTime : String → Option Time}
    {times : List (String × Json)} (hdigests : TextDigests v) :
    parseVersion parseTime times v.version (renderVersion order package base abbreviated v) =
      .ok (mirroredVersion order package base abbreviated
        ((Json.get times v.version).asStr?.bind parseTime) v) := by
  have hdeprecated :
      (Json.get (renderVersion order package base abbreviated v) "deprecated").asStr? = _ :=
    deprecated_renderVersion
  unfold parseVersion mirroredVersion
  rw [get_renderVersion_dist, ← hdeprecated]
  change (distFiles _ >>= _) = _
  rw [distFiles_distFor hdigests]
  rfl

end Version

/-! ## The whole document -/

section Document

variable {order : RowOrder} {package : Package} {base : String} {abbreviated : Bool}
  {shown : List PackageVersion} {tags : Dict String String}

theorem get_tagObject (key : String) :
    Json.get (tags.map fun e => (e.1, Json.str e.2)) key =
      ((tags.get? key).map .str).getD .null := by
  unfold Json.get
  congr 1
  induction tags with
  | nil => rfl
  | cons e tags ih =>
    change Dict.get? ((e.1, Json.str e.2) :: tags.map fun e => (e.1, Json.str e.2)) key = _
    rw [Dict.get?_cons, Dict.get?_cons]
    split
    · rfl
    · exact ih

/-- A version of the document is an object, or there is none. -/
theorem dictOf_listed {fields : PackageVersion → List (String × Json)} (key : String) :
    ∃ found, dictOf (Json.get (shown.map fun v => (v.version, Json.obj (fields v))) key) =
      .ok found := by
  unfold Json.get
  change ∃ found, dictOf ((Dict.get? _ key).getD Json.null) = .ok found
  rcases hget : Dict.get? (shown.map fun v => (v.version, Json.obj (fields v))) key with _ | value
  · rw [hget]
    exact ⟨[], rfl⟩
  · rw [hget]
    obtain ⟨v, -, heq⟩ := List.mem_map.mp (Dict.mem_of_get? hget)
    obtain ⟨-, rfl⟩ := Prod.mk.inj heq
    exact ⟨fields v, rfl⟩

theorem versionDocs_listed {fields : PackageVersion → List (String × Json)} :
    versionDocs (shown.map fun v => (v.version, Json.obj (fields v))) =
      shown.map fun v => (v.version, fields v) := by
  unfold versionDocs
  rw [List.filterMap_map]
  exact congrFun List.filterMap_eq_map' shown

/-- A field that the document has, or that is read of its latest version. -/
theorem orLatest_ok {doc : List (String × Json)} {latest : Json} {found : List (String × Json)}
    (h : dictOf latest = .ok found) (key : String) :
    ∃ value, orLatest doc latest key = .ok value := by
  unfold orLatest
  split
  · exact ⟨_, rfl⟩
  · rw [h]
    exact ⟨_, rfl⟩

/-- **What is read of a document** with these versions, tags and times. -/
theorem parsePackument_document {parseTime : String → Option Time} {upstream : Upstream}
    {etag : Option String} {doc times : List (String × Json)}
    (hname : Json.get doc "name" = .str package.name) (hne : package.name ≠ "")
    (hversions : Json.get doc "versions" = .obj (shown.map fun v =>
      (v.version, .obj (renderVersion order package base abbreviated v))))
    (htags : Json.get doc "dist-tags" = tagObject tags)
    (htimes : dictOf (Json.get doc "time") = .ok times)
    (hdigests : ∀ v ∈ shown, TextDigests v) :
    ∃ remote, parsePackument parseTime upstream doc etag = .ok remote ∧
      remote.name = package.name ∧ remote.distTags = tags ∧
      remote.versions = shown.map fun v => mirroredVersion order package base abbreviated
        ((Json.get times v.version).asStr?.bind parseTime) v := by
  have hnamed : nameOf doc = .ok package.name := by
    have htruthy : (Json.str package.name).truthy = true := by simpa [Json.truthy] using hne
    unfold nameOf
    rw [hname, if_pos htruthy]
    rfl
  have hread : ((versionDocs (shown.map fun v =>
      (v.version, Json.obj (renderVersion order package base abbreviated v)))).mapM fun e =>
        parseVersion parseTime times e.1 e.2) = .ok (shown.map fun v =>
          mirroredVersion order package base abbreviated
            ((Json.get times v.version).asStr?.bind parseTime) v) := by
    rw [versionDocs_listed, List.mapM_map]
    exact mapM_eq_map fun v hv => parseVersion_renderVersion (hdigests v hv)
  have htagged : ((tags.map fun e => (e.1, Json.str e.2)).mapM fun e => do
      return (e.1, ← textOf e.2) : Except String (List (String × String))) = .ok tags := by
    rw [List.mapM_map]
    exact mapM_eq_self fun e _ => rfl
  obtain ⟨latest, hlatest, found, hfound⟩ : ∃ latest, latestMeta (shown.map fun v =>
      (v.version, Json.obj (renderVersion order package base abbreviated v)))
        (Json.get (tags.map fun e => (e.1, Json.str e.2)) "latest") = .ok latest ∧
      ∃ found, dictOf latest = .ok found := by
    rw [get_tagObject]
    rcases tags.get? "latest" with _ | tag
    · exact ⟨.null, rfl, [], rfl⟩
    · by_cases hempty : tag = ""
      · exact ⟨.null, congrArg Except.ok (if_pos hempty), [], rfl⟩
      · exact ⟨_, congrArg Except.ok (if_neg hempty), dictOf_listed tag⟩
  have hfields : ∀ key, ∃ value, orLatest doc latest key = .ok value := orLatest_ok hfound
  obtain ⟨author, hauthor⟩ := hfields "author"
  obtain ⟨description, hdescription⟩ := hfields "description"
  obtain ⟨homepage, hhomepage⟩ := hfields "homepage"
  obtain ⟨license, hlicense⟩ := hfields "license"
  obtain ⟨keywords, hkeywords⟩ := hfields "keywords"
  refine ⟨{ name := package.name
            versions := shown.map fun v => mirroredVersion order package base abbreviated
              ((Json.get times v.version).asStr?.bind parseTime) v
            distTags := tags
            description := description
            author := authorText author
            homepage := homepage
            license := license
            keywords := if keywords.truthy then keywords else .arr []
            readme := Json.get doc "readme"
            time := times.filterMap fun e => e.2.asStr?.map fun s => (e.1, s)
            raw := doc
            etag := etag
            upstreamId := some upstream.id
            upstreamName := some upstream.name }, ?_, rfl, rfl, rfl⟩
  unfold parsePackument
  rw [hnamed, htimes, hversions, htags]
  change (List.mapM (m := Except String) _ (versionDocs _) >>= _) = _
  rw [hread]
  change (latestMeta _ _ >>= _) = _
  rw [hlatest]
  change (List.mapM (m := Except String) _ _ >>= _) = _
  rw [htagged]
  change (orLatest _ _ _ >>= _) = _
  rw [hauthor]
  change (orLatest _ _ _ >>= _) = _
  rw [hdescription]
  change (orLatest _ _ _ >>= _) = _
  rw [hhomepage]
  change (orLatest _ _ _ >>= _) = _
  rw [hlicense]
  change (orLatest _ _ _ >>= _) = _
  rw [hkeywords]
  rfl

end Document

/-! ## The answer -/

section Answer

variable {env : RegistryEnv} {order : RowOrder} {package : Package} {base : String}
  {stamps : Stamps} {abbreviated : Bool} {doc : List (String × Json)}

/-- The fields that a mirror reads. -/
structure Fields (order : RowOrder) (package : Package) (base : String) (stamps : Stamps)
    (abbreviated : Bool) (shown : List PackageVersion) (tags : Dict String String)
    (doc : List (String × Json)) : Prop where
  name : Json.get doc "name" = .str package.name
  versions : Json.get doc "versions" = .obj (shown.map fun v =>
    (v.version, .obj (renderVersion order package base abbreviated v)))
  tags : Json.get doc "dist-tags" = tagObject tags
  times : Json.get doc "time" = if abbreviated then .null
    else tagObject (timeMap package stamps)

theorem renderPackument_fields (h : Catalogued env .npm package)
    (hdoc : renderPackument order package base stamps abbreviated = .ok doc) :
    ∃ tags, distTags package = .ok tags ∧
      Fields order package base stamps abbreviated (sortedVersions package) tags doc := by
  unfold renderPackument at hdoc
  obtain ⟨tags, htags, hdoc⟩ := bind_ok hdoc
  rw [renderedVersions_eq h] at hdoc
  refine ⟨tags, htags, ?_⟩
  split at hdoc
  · next hshort =>
    obtain rfl := Except.ok.inj hdoc
    exact ⟨rfl, rfl, rfl, (if_pos hshort).symm⟩
  · next hfull =>
    obtain rfl := Except.ok.inj hdoc
    have hget : ∀ k ∉ "readme" :: "users" :: hoistedFields, ∀ latest doc,
        Json.get (describe package latest doc) k = Json.get doc k := fun k hk latest doc =>
      congrArg (fun value => Option.getD value Json.null) (get?_describe hk)
    constructor
    · rw [hget _ (by decide)]
      rfl
    · rw [hget _ (by decide)]
      rfl
    · rw [hget _ (by decide)]
      rfl
    · rw [hget _ (by decide), if_neg hfull]
      rfl

theorem get_set_self (k : String) (value : Json) : Json.get (Dict.set doc k value) k = value := by
  change (Dict.get? _ k).getD Json.null = value
  rw [Dict.get?_set, if_pos rfl]
  rfl

theorem get_set_ne {k key : String} (hk : k ≠ key) (value : Json) :
    Json.get (Dict.set doc key value) k = Json.get doc k := by
  change (Dict.get? _ k).getD Json.null = _
  rw [Dict.get?_set, if_neg hk]
  rfl

/-- The tags of a document, as they are read back from it. -/
theorem filterMap_tagObject (tags : Dict String String) :
    ((tags.map fun e => (e.1, Json.str e.2)).filterMap fun e =>
      e.2.asStr?.map fun version => (e.1, version)) = tags := by
  rw [List.filterMap_map]
  exact List.filterMap_some

/-- The versions of a document that are not blocked. -/
theorem filter_listed {blocked : List String} {fields : PackageVersion → List (String × Json)}
    (versions : List PackageVersion) :
    (versions.map fun v => (v.version, Json.obj (fields v))).filter (fun e => e.1 ∉ blocked) =
      (versions.filter fun v => v.version ∉ blocked).map fun v =>
        (v.version, Json.obj (fields v)) := by
  rw [List.filter_map]
  rfl

/-- The texts of the versions that are not blocked, in order. -/
theorem map_version_filter (blocked : List String) :
    ((sortedVersions package).filter fun v => v.version ∉ blocked).map PackageVersion.version =
      ((versionNames package).insertionSort (· ≤ ·)).filter (· ∉ blocked) := by
  rw [← map_sortedVersions, List.filter_map]
  rfl

/-- **Without the versions that are blocked**, the document has those that are not, and tags of
its own. -/
theorem withoutBlocked_fields {blocked : List String} {tags : Dict String String}
    {doc' : List (String × Json)}
    (hfields : Fields order package base stamps abbreviated (sortedVersions package) tags doc)
    (hdoc : withoutBlocked blocked doc = .ok (.document doc')) :
    ((versionNames package).insertionSort (· ≤ ·)).filter (· ∉ blocked) ≠ [] ∧
    ∃ tags', remainingTags (tags.filter fun e => e.2 ∉ blocked)
        (((versionNames package).insertionSort (· ≤ ·)).filter (· ∉ blocked)) = .ok tags' ∧
      Fields order package base stamps abbreviated
        ((sortedVersions package).filter fun v => v.version ∉ blocked) tags' doc' := by
  have hlisted : ((Json.get doc "versions").asObj?.getD []).filter (fun e => e.1 ∉ blocked) =
      ((sortedVersions package).filter fun v => v.version ∉ blocked).map fun v =>
        (v.version, Json.obj (renderVersion order package base abbreviated v)) := by
    rw [hfields.versions]
    exact filter_listed _
  have htagged : ((Json.get doc "dist-tags").asObj?.getD []).filterMap (fun e =>
      e.2.asStr?.map fun version => (e.1, version)) = tags := by
    rw [hfields.tags]
    exact filterMap_tagObject tags
  have hnames : (((sortedVersions package).filter fun v => v.version ∉ blocked).map fun v =>
      (v.version, Json.obj (renderVersion order package base abbreviated v))).map Prod.fst =
        ((versionNames package).insertionSort (· ≤ ·)).filter (· ∉ blocked) := by
    rw [← map_version_filter, List.map_map]
    rfl
  unfold withoutBlocked at hdoc
  dsimp only at hdoc
  rw [hlisted, htagged, hnames] at hdoc
  split at hdoc
  · cases hdoc
  next hsome =>
  obtain ⟨tags', htags', hdoc⟩ := bind_ok hdoc
  obtain rfl := Page.document.inj (Except.ok.inj hdoc)
  refine ⟨fun hnone => hsome ?_, tags', htags', ?_⟩
  · rw [← hnames] at hnone
    exact List.map_eq_nil_iff.mp hnone
  · constructor
    · rw [get_set_ne (by decide), get_set_ne (by decide)]
      exact hfields.name
    · rw [get_set_ne (by decide), get_set_self]
    · exact get_set_self _ _
    · rw [get_set_ne (by decide), get_set_ne (by decide)]
      exact hfields.times

/-- **The answer**, where it is a document: it has the versions that the policy lets through, in
order, and the tags that are shown. -/
theorem packumentDocument_fields (h : Catalogued env .npm package)
    (hdoc : packumentDocument env order package base stamps abbreviated = .ok (.document doc)) :
    ∃ shown tags, Fields order package base stamps abbreviated shown tags doc ∧
      packumentTags env package = .ok (.document tags) ∧
      (∀ v, v ∈ shown ↔ v ∈ package.versions ∧ Lets env .npm package v) ∧
      shown.Pairwise fun v w => v.version < w.version := by
  obtain ⟨blocked, hblocked, hlets, -⟩ := h.blockedVersions
  have hshown : ∀ v, v ∈ ((sortedVersions package).filter fun v => v.version ∉ blocked) ↔
      v ∈ package.versions ∧ Lets env .npm package v := fun v => by
    rw [List.mem_filter, mem_sortedVersions, decide_eq_true_eq]
    exact and_congr_right fun hv => (not_congr (hlets v hv)).trans not_not
  unfold packumentDocument at hdoc
  obtain ⟨name, hname, hdoc⟩ := bind_ok hdoc
  split at hdoc
  · cases hdoc
  next hallowed =>
  split at hdoc
  · cases hdoc
  next hrows =>
  obtain ⟨rendered, hrendered, hdoc⟩ := bind_ok hdoc
  obtain ⟨tags, htags, hfields⟩ := renderPackument_fields h hrendered
  rw [hblocked] at hdoc
  change (if blocked = [] then _ else _) = _ at hdoc
  have htagged : packumentTags env package = (if blocked = [] then .ok (.document tags) else
      if ((versionNames package).insertionSort (· ≤ ·)).filter (· ∉ blocked) = [] then
        .ok (.forbidden (some "all versions of this package are blocked by policy"))
      else if (Dict.get? (tags.filter fun e => e.2 ∉ blocked) "latest").isSome then
        .ok (.document (tags.filter fun e => e.2 ∉ blocked))
      else do return .document (addLatest (tags.filter fun e => e.2 ∉ blocked)
        (← maxSemver (((versionNames package).insertionSort (· ≤ ·)).filter (· ∉ blocked))))) := by
    unfold packumentTags
    rw [hname]
    change (if (!name.allowed) = true then _ else if package.versions.rows = [] then _ else _) = _
    rw [if_neg hallowed, if_neg hrows, htags, hblocked]
    rfl
  split at hdoc
  · next hnone =>
    obtain rfl := Page.document.inj (Except.ok.inj hdoc)
    refine ⟨_, tags, hfields, by rw [htagged, if_pos hnone], fun v => ?_, sortedVersions_lt h⟩
    rw [← hshown v, hnone]
    simp
  · next hsome =>
    obtain ⟨hversions, tags', htags', hfields'⟩ := withoutBlocked_fields hfields hdoc
    refine ⟨_, tags', hfields', ?_, hshown, (sortedVersions_lt h).filter _⟩
    rw [htagged, if_neg hsome, if_neg hversions]
    unfold remainingTags at htags'
    split at htags'
    · next hlatest =>
      rw [if_pos hlatest, Except.ok.inj htags']
    · next hlatest =>
      rw [if_neg hlatest]
      obtain ⟨latest, hmax, rfl⟩ := map_ok htags'
      rw [hmax]
      rfl

/-- **A mirror has what the policy lets through**, and nothing else: the packument of a stored
package, full or abbreviated, is read as a package of its name, with the tags that are shown and
the versions that are let through in the order of their texts, each as `mirroredVersion` says:
under its own address, with the digests and the deprecation of its row and its time to the
millisecond. -/
theorem packument_mirrored {parseTime : String → Option Time} (h : Catalogued env .npm package)
    (hne : package.name ≠ "") (hdigests : ∀ v ∈ package.versions, TextDigests v)
    (hiso : ∀ v ∈ package.versions, ∀ t, stamps.when v = some t →
      parseTime (stamps.iso t) = some (toMillis t))
    (hnames : ∀ v ∈ package.versions, v.version ≠ "created" ∧ v.version ≠ "modified")
    (hdoc : packumentDocument env order package base stamps abbreviated = .ok (.document doc))
    (upstream : Upstream) (etag : Option String) :
    ∃ (remote : RemotePackage) (shown : List PackageVersion),
      parsePackument parseTime upstream doc etag = .ok remote ∧
      remote.name = package.name ∧
      packumentTags env package = .ok (.document remote.distTags) ∧
      (∀ v, v ∈ shown ↔ v ∈ package.versions ∧ Lets env .npm package v) ∧
      (shown.Pairwise fun v w => v.version < w.version) ∧
      remote.versions = shown.map fun v => mirroredVersion order package base abbreviated
        (if abbreviated then none else (stamps.when v).map toMillis) v := by
  obtain ⟨shown, tags, hfields, htags, hshown, hsorted⟩ := packumentDocument_fields h hdoc
  obtain ⟨times, htimes, hstamped⟩ : ∃ times, dictOf (Json.get doc "time") = .ok times ∧
      ∀ v ∈ package.versions, (Json.get times v.version).asStr?.bind parseTime =
        if abbreviated then none else (stamps.when v).map toMillis := by
    rw [hfields.times]
    cases abbreviated with
    | true => exact ⟨[], rfl, fun v _ => rfl⟩
    | false =>
      refine ⟨_, rfl, fun v hv => ?_⟩
      rw [get_tagObject, get?_timeMap h hv (hnames v hv).1 (hnames v hv).2]
      rcases hwhen : stamps.when v with _ | t
      · rfl
      · exact hiso v hv t hwhen
  obtain ⟨remote, hremote, hname, hdistTags, hversions⟩ := parsePackument_document hfields.name hne
    hfields.versions hfields.tags htimes fun v hv => hdigests v ((hshown v).mp hv).1
  refine ⟨remote, shown, hremote, hname, by rw [hdistTags, htags], hshown, hsorted, ?_⟩
  rw [hversions]
  exact List.map_congr_left fun v hv => by rw [hstamped v ((hshown v).mp hv).1]

end Answer

/-! ## A mirror of one package -/

/-- A release that was published at a time in 2020. -/
def datedVersion (version : String) (deprecated : Option String) : PackageVersion :=
  { version := version
    normalizedVersion := version
    deprecated := deprecated
    publishedAt := some 1600000000123456
    files := ⟨[{ filename := "left-pad-" ++ version ++ ".tgz", sha1 := some "da39a3ee" }],
      List.nodup_singleton _⟩ }

/-- A package whose `latest` is of the releases that are blocked. -/
def datedPackage : Package where
  ecosystem := .npm
  name := "left-pad"
  normalizedName := "left-pad"
  versions := ⟨[datedVersion "1.3.0" none, datedVersion "2.1.0" none,
    datedVersion "2.0.0" (some "use 2.1.0")], by decide +kernel⟩
  distTags := ⟨[{ tag := "latest", version := "1.3.0" }], List.nodup_singleton _⟩

def datedStamps : Stamps where
  iso t := if t = 1600000000123456 then "2020-09-13T12:26:40.123Z" else ""
  seconds t := t / 1000000
  versionSeen _ := none
  packageSeen := none
  updated := none

def readStamp (text : String) : Option Time :=
  if text = "2020-09-13T12:26:40.123Z" then some 1600000000123000 else none

def datedUpstream : Upstream :=
  { id := 1, name := "here", ecosystem := .npm, kind := .npm }

def documentOf (page : Except ValueError (Page (String × Json))) : List (String × Json) :=
  match page with
  | .ok (.document doc) => doc
  | _ => []

theorem documentOf_eq {page : Except ValueError (Page (String × Json))}
    (h : documentOf page ≠ []) : page = .ok (.document (documentOf page)) := by
  unfold documentOf at h ⊢
  split at h
  · rfl
  · exact absurd rfl h

theorem datedPackage_versions {v : PackageVersion} (hv : v ∈ datedPackage.versions) :
    v = datedVersion "1.3.0" none ∨ v = datedVersion "2.1.0" none ∨
      v = datedVersion "2.0.0" (some "use 2.1.0") := by
  rcases List.mem_cons.mp hv with h | hv
  · exact .inl h
  · rcases List.mem_cons.mp hv with h | hv
    · exact .inr (.inl h)
    · exact .inr (.inr (List.mem_singleton.mp hv))

theorem datedPackage_catalogued : Catalogued leftPadEnv .npm datedPackage where
  inEcosystem := rfl
  key := by decide +kernel
  fixed := by decide +kernel
  versions v hv := by
    rcases datedPackage_versions hv with rfl | rfl | rfl <;> rfl
  fits v hv := by
    have hspec : ∀ r ∈ leftPadEnv.engine.rules, (r.versionSpec.getD "").length ≤ 255 := by
      intro r hr
      rw [List.mem_singleton.mp hr]
      decide
    refine ⟨hspec, ?_⟩
    rcases datedPackage_versions hv with rfl | rfl | rfl <;> decide

/-- The mirror has the two releases that are not blocked, and `latest` is of them. -/
theorem datedPackage_mirrored : ∃ (remote : RemotePackage) (shown : List PackageVersion),
    parsePackument readStamp datedUpstream (documentOf (packumentDocument leftPadEnv storedOrder
      datedPackage "http://localhost/npm" datedStamps false)) none = .ok remote ∧
    remote.name = "left-pad" ∧
    packumentTags leftPadEnv datedPackage = .ok (.document remote.distTags) ∧
    (∀ v, v ∈ shown ↔ v ∈ datedPackage.versions ∧ Lets leftPadEnv .npm datedPackage v) ∧
    (shown.Pairwise fun v w => v.version < w.version) ∧
    remote.versions = shown.map fun v =>
      mirroredVersion storedOrder datedPackage "http://localhost/npm" false
        ((datedStamps.when v).map toMillis) v := by
  have hdoc : packumentDocument leftPadEnv storedOrder datedPackage "http://localhost/npm"
      datedStamps false = .ok (.document _) := documentOf_eq (by decide +kernel)
  refine packument_mirrored datedPackage_catalogued (by decide)
    (fun v hv key _ htruthy => ?_) (fun v hv t ht => ?_) (fun v hv => ?_) hdoc datedUpstream none
  · rcases datedPackage_versions hv with rfl | rfl | rfl <;> cases htruthy
  · rcases datedPackage_versions hv with rfl | rfl | rfl <;>
      · obtain rfl := Option.some.inj ht
        decide +kernel
  · rcases datedPackage_versions hv with rfl | rfl | rfl <;> decide

end Minireg.Npm
