import Mathlib.Algebra.GroupWithZero.Nat
import Minireg.Py.Json
import Minireg.Py.Text

/-!
# Manifests

`parse` reads a manifest document: what it references, how big the image is and
what kind of thing it is. The JSON decoder and Python's `repr` of a JSON value
are parameters (`JsonCodec`). `parse_kind` says how a manifest that is not an
index is classified.
-/

namespace Minireg.Docker

open Py

/-- `json.loads` on bytes (`none` for a document it refuses), and `repr`. -/
structure JsonCodec where
  loads : List UInt8 → Option Json
  repr : Json → String

/-- `str(value)`. -/
def JsonCodec.str (codec : JsonCodec) : Json → String
  | .str s => s
  | v => codec.repr v

def ociIndex : String := "application/vnd.oci.image.index.v1+json"
def ociManifest : String := "application/vnd.oci.image.manifest.v1+json"
def dockerList : String := "application/vnd.docker.distribution.manifest.list.v2+json"
def dockerManifest : String := "application/vnd.docker.distribution.manifest.v2+json"

def dockerV1 : List String :=
  ["application/vnd.docker.distribution.manifest.v1+json",
   "application/vnd.docker.distribution.manifest.v1+prettyjws"]

def indexTypes : List String := [ociIndex, dockerList]
def imageTypes : List String := [ociManifest, dockerManifest]
def manifestTypes : List String := indexTypes ++ imageTypes

/-- Config media types of a runnable image. -/
def imageConfigTypes : List String :=
  ["application/vnd.oci.image.config.v1+json", "application/vnd.docker.container.image.v1+json"]

def attestationAnnotation : String := "vnd.docker.reference.type"
def inTotoType : String := "application/vnd.in-toto+json"

/-- `settings.docker_max_manifest_bytes`. -/
def maxManifestBytes : Nat := 4 * 1024 * 1024

/-- `settings.docker_max_index_entries`. -/
def maxIndexEntries : Nat := 256

def maxLayers : Nat := 1000

inductive RefType where
  | blob | config | manifest
  deriving DecidableEq, Repr

inductive Kind where
  | image | index | attestation | artifact | signature
  deriving DecidableEq, Repr

structure Ref where
  refType : RefType
  digest : String
  mediaType : Option String
  size : Nat
  position : Nat
  platform : Option String := none
  annotations : List (String × Json) := []
  deriving DecidableEq

structure ParsedManifest where
  mediaType : String
  isIndex : Bool
  kind : Kind
  refs : List Ref
  configDigest : Option String := none
  configMediaType : Option String := none
  artifactType : Option String := none
  subjectDigest : Option String := none
  annotations : List (String × Json) := []
  totalSize : Nat := 0
  layerCount : Nat := 0
  deriving DecidableEq

/-- A `RegistryError`, or the `TypeError` of looking an unhashable media type up in a set. -/
inductive ParseError where
  | registry (code message : String)
  | typeError
  deriving DecidableEq, Repr

def invalid {α : Type} (message : String) : Except ParseError α :=
  .error (.registry "MANIFEST_INVALID" message)

/-! ## Fields -/

/-- `DIGEST_RE.fullmatch(ref)`. -/
def isDigest (ref : String) : Bool :=
  let s := ref.toList
  "sha256:".toList.isPrefixOf s &&
    let hex := s.drop 7
    hex.length == 64 && hex.all fun c => ('a' ≤ c && c ≤ 'f') || ('0' ≤ c && c ≤ '9')

def platformString (codec : JsonCodec) (p : Json) : Option String :=
  p.asObj?.bind fun fields =>
    let os := Json.get fields "os"
    let arch := Json.get fields "architecture"
    if !os.truthy || !arch.truthy then none
    else
      let s := codec.str os ++ "/" ++ codec.str arch
      let variant := Json.get fields "variant"
      some (takeChars 64 (if variant.truthy then s ++ "/" ++ codec.str variant else s))

def descriptor (d : Json) (what : String) : Except ParseError (String × Option String × Nat) :=
  match d.asObj? with
  | none => invalid (what ++ " is not a descriptor")
  | some fields =>
    match (Json.get fields "digest").asStr? with
    | none => invalid (what ++ " has an unsupported or malformed digest")
    | some digest =>
      if !isDigest digest then invalid (what ++ " has an unsupported or malformed digest")
      else
        match (Json.get fields "size").asInt? with
        | none => invalid (what ++ " has no valid size")
        | some size =>
          if size < 0 then invalid (what ++ " has no valid size")
          else .ok (digest, (Json.get fields "mediaType").asStr?, size.toNat)

/-- `_annotations`. -/
def annotationsOf (d : Json) : List (String × Json) :=
  ((d.asObj?.map fun fields => Json.get fields "annotations").bind Json.asObj?).getD []

def looksLikeSignature (artifactType configMediaType : Option String) (refs : List Ref) : Bool :=
  let hints := artifactType.getD "" ++ configMediaType.getD "" ++
    join "" (refs.map fun r => r.mediaType.getD "")
  ["cosign", "sigstore", "notary", "signature"].any fun s => hasSub s.toList hints.toList

/-- An index entry that is a BuildKit attestation rather than a platform. -/
def isAttestationEntry (platform : Option String) (annotations : List (String × Json)) : Bool :=
  Json.get annotations attestationAnnotation = .str "attestation-manifest" ||
    platform = some "unknown/unknown"

/-! ## Indexes and images -/

/-- The entries of an index, from position `i` on. -/
def indexRefs (codec : JsonCodec) : Nat → List Json → Except ParseError (List Ref)
  | _, [] => .ok []
  | i, entry :: rest =>
    match descriptor entry ("manifests[" ++ toString i ++ "]") with
    | .error e => .error e
    | .ok (digest, mediaType, size) =>
      match indexRefs codec (i + 1) rest with
      | .error e => .error e
      | .ok refs =>
        .ok ({ refType := .manifest, digest := digest, mediaType := mediaType, size := size,
               position := i,
               platform := (entry.asObj?.map fun fields => Json.get fields "platform").bind
                 (platformString codec)
               annotations := annotationsOf entry } :: refs)

/-- The layers of an image, from position `i` on. -/
def layerRefs : Nat → List Json → Except ParseError (List Ref)
  | _, [] => .ok []
  | i, layer :: rest =>
    match descriptor layer ("layers[" ++ toString i ++ "]") with
    | .error e => .error e
    | .ok (digest, mediaType, size) =>
      let urls := ((layer.asObj?.map fun fields => Json.get fields "urls").bind Json.asArr?).getD []
      if urls ≠ [] then invalid "manifests with foreign-URL layers are not supported"
      else
        match layerRefs (i + 1) rest with
        | .error e => .error e
        | .ok refs =>
          .ok ({ refType := .blob, digest := digest, mediaType := mediaType, size := size,
                 position := i + 1, annotations := annotationsOf layer } :: refs)

/-- The kind of a manifest that is not an index. -/
def classify (artifactType configMediaType subjectDigest : Option String)
    (annotations : List (String × Json)) (refs : List Ref) : Kind :=
  let kind : Kind :=
    if artifactType.getD "" ≠ "" ||
        (configMediaType.getD "" ≠ "" && configMediaType.getD "" ∉ imageConfigTypes) then .artifact
    else .image
  let kind : Kind :=
    if subjectDigest.getD "" ≠ "" then
      if looksLikeSignature artifactType configMediaType refs then .signature else .artifact
    else kind
  if (Json.get annotations attestationAnnotation).truthy ||
      refs.any fun r => r.mediaType = some inTotoType then .attestation
  else kind

def parseIndex (codec : JsonCodec) (doc : List (String × Json)) (mediaType : String)
    (artifactType subjectDigest : Option String) (annotations : List (String × Json)) :
    Except ParseError ParsedManifest :=
  match (Json.get doc "manifests").asArr? with
  | none => invalid "index has no manifests list"
  | some entries =>
    if entries.length > maxIndexEntries then
      invalid ("index lists " ++ toString entries.length ++ " manifests, over the " ++
        toString maxIndexEntries ++ " limit")
    else
      match indexRefs codec 0 entries with
      | .error e => .error e
      | .ok refs =>
        .ok { mediaType := mediaType, isIndex := true, kind := .index, refs := refs,
              artifactType := artifactType, subjectDigest := subjectDigest,
              annotations := annotations }

def parseImage (doc : List (String × Json)) (mediaType : String)
    (artifactType subjectDigest : Option String) (annotations : List (String × Json)) :
    Except ParseError ParsedManifest :=
  match descriptor (Json.get doc "config") "config" with
  | .error e => .error e
  | .ok (configDigest, configMediaType, configSize) =>
    let layers := Json.get doc "layers"
    match (if layers = .null then some [] else layers.asArr?) with
    | none => invalid "layers is not a list"
    | some layers =>
      if layers.length > maxLayers then invalid "manifest lists more than 1000 layers"
      else
        match layerRefs 0 layers with
        | .error e => .error e
        | .ok layerRefs =>
          let config : Ref :=
            { refType := .config, digest := configDigest, mediaType := configMediaType,
              size := configSize, position := 0 }
          let refs := config :: layerRefs
          .ok { mediaType := mediaType, isIndex := false,
                kind := classify artifactType configMediaType subjectDigest annotations refs
                refs := refs, configDigest := some configDigest,
                configMediaType := configMediaType, artifactType := artifactType,
                subjectDigest := subjectDigest, annotations := annotations,
                totalSize := (refs.map Ref.size).sum, layerCount := layerRefs.length }

/-! ## The document -/

/-- `doc.get("mediaType") or` the content type, or what the shape says. -/
def mediaTypeOf (doc : List (String × Json)) (contentType : Option String) : Json :=
  let declared := Json.get doc "mediaType"
  if declared.truthy then declared
  else .str (strip (String.ofList ((contentType.getD "").toList.takeWhile (· ≠ ';'))))

/-- Absent media types are inferred from the shape. -/
def inferMediaType (doc : List (String × Json)) (mediaType : Json) : Json :=
  if mediaType.truthy then mediaType
  else .str (if doc.any fun e => e.1 = "manifests" then ociIndex else ociManifest)

/-- `media_type in MANIFEST_TYPES`: lists and objects are unhashable. -/
def supportedType : Json → Except ParseError (Option String)
  | .str s => .ok (if s ∈ manifestTypes then some s else none)
  | .arr _ => .error .typeError
  | .obj _ => .error .typeError
  | _ => .ok none

def parseDocument (codec : JsonCodec) (doc : List (String × Json)) (contentType : Option String) :
    Except ParseError ParsedManifest :=
  let mediaType := mediaTypeOf doc contentType
  if (mediaType.asStr?.any fun s => s ∈ dockerV1) || (Json.get doc "schemaVersion").eqInt 1 then
    invalid "schema 1 manifests are not supported (deprecated by Docker, unverifiable layers)"
  else
    let mediaType := inferMediaType doc mediaType
    match supportedType mediaType with
    | .error e => .error e
    | .ok none => invalid ("unsupported manifest media type " ++ codec.repr mediaType)
    | .ok (some mediaType) =>
      if !(Json.get doc "schemaVersion").eqInt 2 then invalid "schemaVersion must be 2"
      else
        let annotations := (Json.get doc "annotations").asObj?.getD []
        let subject := Json.get doc "subject"
        match (if subject = .null then .ok none
          else (descriptor subject "subject").map fun d => some d.1) with
        | .error e => .error e
        | .ok subjectDigest =>
          let artifactType := (Json.get doc "artifactType").asStr?
          if mediaType ∈ indexTypes then
            parseIndex codec doc mediaType artifactType subjectDigest annotations
          else parseImage doc mediaType artifactType subjectDigest annotations

def parse (codec : JsonCodec) (body : List UInt8) (contentType : Option String) :
    Except ParseError ParsedManifest :=
  if body.length > maxManifestBytes then
    invalid ("manifest exceeds the " ++ toString maxManifestBytes ++ " byte limit")
  else
    match codec.loads body with
    | none => invalid "manifest is not valid JSON"
    | some (.obj doc) => parseDocument codec doc contentType
    | some _ => invalid "manifest is not a JSON object"

/-! ## Classification -/

/-- The entries of an index name manifests. -/
theorem indexRefs_refType {codec : JsonCodec} {entries : List Json} {i : Nat} {refs : List Ref}
    (h : indexRefs codec i entries = .ok refs) : ∀ r ∈ refs, r.refType = .manifest := by
  induction entries generalizing i refs with
  | nil =>
    cases h
    exact fun _ hr => absurd hr List.not_mem_nil
  | cons entry rest ih =>
    unfold indexRefs at h
    split at h
    · cases h
    · split at h
      · cases h
      · next hrest =>
        cases h
        intro r hr
        rcases List.mem_cons.mp hr with rfl | hr
        · rfl
        · exact ih hrest r hr

theorem layerRefs_refType {layers : List Json} {i : Nat} {refs : List Ref}
    (h : layerRefs i layers = .ok refs) : ∀ r ∈ refs, r.refType ≠ .manifest := by
  induction layers generalizing i refs with
  | nil =>
    cases h
    exact fun _ hr => absurd hr List.not_mem_nil
  | cons layer rest ih =>
    unfold layerRefs at h
    split at h
    · cases h
    · dsimp only at h
      split at h
      · cases h
      · split at h
        · cases h
        · next hrest =>
          cases h
          intro r hr
          rcases List.mem_cons.mp hr with rfl | hr
          · simp
          · exact ih hrest r hr

theorem parseIndex_ok {codec : JsonCodec} {doc annotations : List (String × Json)}
    {mediaType : String} {artifactType subjectDigest : Option String} {m : ParsedManifest}
    (h : parseIndex codec doc mediaType artifactType subjectDigest annotations = .ok m) :
    m.isIndex = true ∧ ∀ r ∈ m.refs, r.refType = .manifest := by
  unfold parseIndex at h
  split at h
  · cases h
  · split at h
    · cases h
    · split at h
      · cases h
      · next hrefs =>
        cases h
        exact ⟨rfl, indexRefs_refType hrefs⟩

theorem parseImage_ok {doc annotations : List (String × Json)} {mediaType : String}
    {artifactType subjectDigest : Option String} {m : ParsedManifest}
    (h : parseImage doc mediaType artifactType subjectDigest annotations = .ok m) :
    m.isIndex = false ∧ (∀ r ∈ m.refs, r.refType ≠ .manifest) ∧
      m.kind = classify artifactType m.configMediaType subjectDigest annotations m.refs := by
  unfold parseImage at h
  split at h
  · cases h
  · dsimp only at h
    split at h
    · cases h
    · split at h
      · cases h
      · split at h
        · cases h
        · next hrefs =>
          cases h
          refine ⟨rfl, fun r hr => ?_, rfl⟩
          rcases List.mem_cons.mp hr with rfl | hr
          · simp
          · exact layerRefs_refType hrefs r hr

/-- The digest of a descriptor is never empty. -/
theorem descriptor_digest {d : Json} {what : String} {r : String × Option String × Nat}
    (h : descriptor d what = .ok r) : isDigest r.1 = true := by
  unfold descriptor at h
  split at h
  · cases h
  · split at h
    · cases h
    · split at h
      · cases h
      · next hd =>
        split at h
        · cases h
        · split at h
          · cases h
          · cases h
            simpa using hd

/-- A document that `parse` accepts is an index or an image. -/
theorem parse_ok {codec : JsonCodec} {body : List UInt8} {contentType : Option String}
    {m : ParsedManifest} (h : parse codec body contentType = .ok m) :
    ∃ doc subjectDigest, codec.loads body = some (.obj doc) ∧
      (Json.get doc "subject" = .null ∧ subjectDigest = none ∨
        Json.get doc "subject" ≠ .null ∧ ∃ d, subjectDigest = some d ∧ isDigest d = true) ∧
      ∃ mediaType, parseIndex codec doc mediaType (Json.get doc "artifactType").asStr?
          subjectDigest ((Json.get doc "annotations").asObj?.getD []) = .ok m ∨
        parseImage doc mediaType (Json.get doc "artifactType").asStr? subjectDigest
          ((Json.get doc "annotations").asObj?.getD []) = .ok m := by
  unfold parse at h
  split at h
  · cases h
  · split at h
    · cases h
    · next doc hl =>
      unfold parseDocument at h
      dsimp only at h
      split at h
      · cases h
      · split at h
        · cases h
        · cases h
        · split at h
          · cases h
          · split at h
            · cases h
            · next subjectDigest hs =>
              refine ⟨doc, subjectDigest, hl, ?_, ?_⟩
              · split at hs
                · next hn =>
                  cases hs
                  exact .inl ⟨hn, rfl⟩
                · next hn =>
                  refine .inr ⟨hn, ?_⟩
                  rcases hd : descriptor (Json.get doc "subject") "subject" with e | r
                  · rw [hd] at hs
                    cases hs
                  · rw [hd] at hs
                    cases hs
                    exact ⟨r.1, rfl, descriptor_digest hd⟩
              · split at h
                · exact ⟨_, .inl h⟩
                · exact ⟨_, .inr h⟩
    · cases h

/-- **What the refs of a manifest name**: an index names manifests, an image
its config and layers. -/
theorem parse_refType {codec : JsonCodec} {body : List UInt8} {contentType : Option String}
    {m : ParsedManifest} (h : parse codec body contentType = .ok m) :
    ∀ r ∈ m.refs, r.refType = .manifest ↔ m.isIndex = true := by
  obtain ⟨_, _, -, -, _, h | h⟩ := parse_ok h
  · exact fun r hr => iff_of_true ((parseIndex_ok h).2 r hr) (parseIndex_ok h).1
  · exact fun r hr => iff_of_false ((parseImage_ok h).2.1 r hr) (by simp [(parseImage_ok h).1])

/-- What `parse` makes of a document that is not an index. -/
theorem parse_image {codec : JsonCodec} {body : List UInt8} {contentType : Option String}
    {m : ParsedManifest} (h : parse codec body contentType = .ok m) (hidx : m.isIndex = false) :
    ∃ doc subjectDigest, codec.loads body = some (.obj doc) ∧
      (Json.get doc "subject" = .null ∧ subjectDigest = none ∨
        Json.get doc "subject" ≠ .null ∧ ∃ d, subjectDigest = some d ∧ isDigest d = true) ∧
      m.kind = classify (Json.get doc "artifactType").asStr? m.configMediaType subjectDigest
        ((Json.get doc "annotations").asObj?.getD []) m.refs := by
  obtain ⟨doc, subjectDigest, hl, hsubject, _, h | h⟩ := parse_ok h
  · rw [(parseIndex_ok h).1] at hidx
    cases hidx
  · exact ⟨doc, subjectDigest, hl, hsubject, (parseImage_ok h).2.2⟩

theorem isDigest_ne_empty {d : String} (h : isDigest d = true) : d ≠ "" := by
  rintro rfl
  exact absurd h (by decide)

/-- A manifest is an image exactly when nothing marks it as anything else. -/
theorem classify_eq_image_iff (artifactType configMediaType subjectDigest : Option String)
    (annotations : List (String × Json)) (refs : List Ref) :
    classify artifactType configMediaType subjectDigest annotations refs = .image ↔
      artifactType.getD "" = "" ∧
      (configMediaType.getD "" = "" ∨ configMediaType.getD "" ∈ imageConfigTypes) ∧
      subjectDigest.getD "" = "" ∧
      (Json.get annotations attestationAnnotation).truthy = false ∧
      ∀ r ∈ refs, r.mediaType ≠ some inTotoType := by
  have hrefs : (refs.any fun r => r.mediaType = some inTotoType) = false ↔
      ∀ r ∈ refs, r.mediaType ≠ some inTotoType := by
    rw [List.any_eq_false]
    exact forall₂_congr fun r _ => by simp
  rw [← hrefs]
  unfold classify
  dsimp only
  by_cases hatt : ((Json.get annotations attestationAnnotation).truthy ||
      refs.any fun r => r.mediaType = some inTotoType) = true
  · rw [if_pos hatt]
    rcases Bool.or_eq_true_iff.mp hatt with h | h
    · simp [h]
    · simp [h]
  · rw [if_neg hatt]
    obtain ⟨h1, h2⟩ := Bool.or_eq_false_iff.mp (eq_false_of_ne_true hatt)
    by_cases hsub : subjectDigest.getD "" = ""
    · rw [if_neg (not_not.mpr hsub)]
      by_cases ha : artifactType.getD "" = "" <;> by_cases hc : configMediaType.getD "" = "" <;>
        simp_all
    · rw [if_pos hsub]
      split <;> simp [hsub]

/-- **A manifest with a runnable config is an image exactly when nothing in it
marks it as an artifact, a referrer or an attestation.** -/
theorem parse_kind_image_iff {codec : JsonCodec} {body : List UInt8}
    {contentType : Option String} {m : ParsedManifest} {doc : List (String × Json)}
    {configMediaType : String} (hdoc : codec.loads body = some (.obj doc))
    (h : parse codec body contentType = .ok m) (hidx : m.isIndex = false)
    (hconfig : m.configMediaType = some configMediaType)
    (hrun : configMediaType ∈ imageConfigTypes) :
    m.kind = .image ↔
      ((Json.get doc "artifactType").asStr?.getD "" = "" ∧ Json.get doc "subject" = .null ∧
        (Json.get ((Json.get doc "annotations").asObj?.getD []) attestationAnnotation).truthy =
          false ∧
        ∀ r ∈ m.refs, r.mediaType ≠ some inTotoType) := by
  obtain ⟨doc', subjectDigest, hl, hsubject, hkind⟩ := parse_image h hidx
  rw [hdoc] at hl
  cases hl
  have hsub : subjectDigest.getD "" = "" ↔ Json.get doc "subject" = .null := by
    rcases hsubject with ⟨hn, rfl⟩ | ⟨hn, d, rfl, hd⟩
    · simp [hn]
    · simp [hn, isDigest_ne_empty hd]
  rw [hkind, classify_eq_image_iff, hsub, hconfig]
  simp only [Option.getD_some, hrun, or_true, true_and]

/-! ## A runnable image that carries an artifact type -/

def zeroDigest : String := "sha256:" ++ String.ofList (List.replicate 64 '0')
def otherDigest : String := "sha256:" ++ String.ofList (List.replicate 64 '1')

/-- A manifest with a runnable config and an `artifactType`. -/
def typedImage : List (String × Json) :=
  [("schemaVersion", .int 2), ("mediaType", .str ociManifest), ("artifactType", .str "text/plain"),
   ("config", .obj
     [("mediaType", .str "application/vnd.oci.image.config.v1+json"), ("size", .int 2),
      ("digest", .str zeroDigest)])]

/-- The decoder, on the documents of this section. -/
def constCodec (doc : List (String × Json)) : JsonCodec where
  loads _ := some (.obj doc)
  repr _ := ""

/-- A plain runnable image. -/
def plainImage : List (String × Json) :=
  [("schemaVersion", .int 2), ("mediaType", .str ociManifest),
   ("config", .obj
     [("mediaType", .str "application/vnd.oci.image.config.v1+json"), ("size", .int 2),
      ("digest", .str zeroDigest)])]

/-- An `artifactType` takes a runnable image out of the scanned kind. -/
theorem typed_image_is_artifact :
    (parse (constCodec typedImage) [] none).toOption.map (fun m => (m.isIndex, m.configMediaType,
      m.kind)) = some (false, some "application/vnd.oci.image.config.v1+json", .artifact) := by
  decide

def parsedTyped : ParsedManifest :=
  match parse (constCodec typedImage) [] none with
  | .ok m => m
  | .error _ => { mediaType := "", isIndex := true, kind := .index, refs := [] }

theorem parse_kind_image_iff_typed : parsedTyped.kind = .image ↔
    ((Json.get typedImage "artifactType").asStr?.getD "" = "" ∧
      Json.get typedImage "subject" = .null ∧
      (Json.get ((Json.get typedImage "annotations").asObj?.getD []) attestationAnnotation).truthy =
        false ∧
      ∀ r ∈ parsedTyped.refs, r.mediaType ≠ some inTotoType) :=
  have hparse : parse (constCodec typedImage) [] none = .ok parsedTyped := rfl
  have hconfig : parsedTyped.configMediaType =
    some "application/vnd.oci.image.config.v1+json" := by decide
  parse_kind_image_iff rfl hparse (by decide) hconfig (by decide)

end Minireg.Docker
