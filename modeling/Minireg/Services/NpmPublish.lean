import Minireg.Core.Naming
import Minireg.Py.Raise
import Minireg.Services.Packages

/-!
# npm publish documents

`npm publish` sends one document: the versions, the dist-tags and the tarballs in
base64. `parsePublishDocument` validates it and says what it is for; the checks of
one version against its tarball follow. A `raised` failure is an exception that
nothing handles.
-/

namespace Minireg.NpmPublish

open Py

abbrev Bytes := List UInt8

/-- Outside the parser: text and byte conversions, digests by their algorithm, what a
tarball holds, and the size limit. -/
structure Codec where
  caseMap : CaseMap
  /-- `str(value)`, in messages. -/
  str : Json → String
  b64decode : String → Option Bytes
  b64encode : Bytes → String
  hash : String → Bytes → Bytes
  hex : Bytes → String
  hasBindingGyp : Bytes → Bool
  maxPublishBytes : Nat

/-- Why a publish goes no further. -/
inductive Failure where
  | error (message : String) (status : Nat)
  | raised
  deriving DecidableEq, Repr

abbrev Result := Except Failure

def refuse {α : Type} (message : String) (status : Nat := 400) : Result α :=
  .error (.error message status)

structure Attachment where
  filename : String
  data : Bytes
  contentType : Json
  deriving DecidableEq

inductive Intent where
  | publish | deprecate | unpublish
  deriving DecidableEq, Repr

structure PublishRequest where
  name : String
  versions : List (String × List (String × Json)) := []
  distTags : List (String × String) := []
  attachments : List Attachment := []
  description : Option String := none
  intent : Intent := .publish
  deriving DecidableEq

section Parsing

variable (codec : Codec)

/-- `isinstance(value, int)` and `value != n`. -/
def lengthMismatch (declared : Json) (n : Nat) : Option Int :=
  declared.asInt?.filter (· ≠ n)

/-- `_decode_attachment`. -/
def decodeAttachment (filename : String) (spec : List (String × Json)) : Result Attachment :=
  match Json.get spec "data" with
  | .str data =>
    match codec.b64decode data with
    | none => refuse ("attachment '" ++ filename ++ "' is not valid base64")
    | some raw =>
      if codec.maxPublishBytes < raw.length then
        refuse ("attachment '" ++ filename ++ "' exceeds the size limit") 413
      else match lengthMismatch (Json.get spec "length") raw.length with
        | some declared =>
          refuse ("attachment '" ++ filename ++ "' length mismatch: declared " ++
            toString declared ++ ", got " ++ toString raw.length)
        | none =>
          let contentType := Json.get spec "content_type"
          .ok
            { filename := filename, data := raw
              contentType := if contentType.truthy then contentType
                else .str "application/octet-stream" }
  | _ => refuse ("attachment '" ++ filename ++ "' has no data")

/-- The check of one entry of `versions`. -/
def checkVersion (name version : String) (declared : Json) : Result (List (String × Json)) :=
  if !isValidSemver version then refuse ("'" ++ version ++ "' is not a valid semver version")
  else if '+' ∈ version.toList then
    refuse ("version '" ++ version ++ "' carries build metadata; publish '" ++
      String.ofList (version.toList.takeWhile (· ≠ '+')) ++
      "' instead (npm ignores everything after '+')")
  else match declared with
    | .obj fields =>
      let declared := Json.get fields "version"
      let declaredName := Json.get fields "name"
      if declared ≠ .null && declared ≠ .str version then
        refuse ("version key '" ++ version ++ "' does not match its metadata version '" ++
          codec.str declared ++ "'")
      else if declaredName ≠ .null && declaredName ≠ .str name then
        refuse ("version '" ++ version ++ "' is named '" ++ codec.str declaredName ++
          "', not '" ++ name ++ "'")
      else .ok fields
    | _ => refuse ("version '" ++ version ++ "' metadata must be an object")

/-- The check of one entry of `dist-tags`. -/
def checkTag (tag : String) (version : Json) : Result String :=
  match version with
  | .str version =>
    match npmDistTagError tag with
    | .error _ => .error .raised
    | .ok (some message) => refuse message
    | .ok none => .ok version
  | _ => refuse ("dist-tag '" ++ tag ++ "' must map to a version string")

def isTarballAttachment (filename : String) : Bool := ".tgz".toList.isSuffixOf filename.toList

/-- The attachments that hold anything. -/
def suppliedAttachments (attachments : List (String × Json)) : List (String × List (String × Json)) :=
  attachments.filterMap fun e => match e.2 with
    | .obj spec => if (Json.get spec "data").truthy then some (e.1, spec) else none
    | _ => none

/-- `value or {}`, and the message where that is no object. -/
def objectOr (value : Json) (message : String) : Result (List (String × Json)) :=
  if !value.truthy then .ok []
  else match value with
    | .obj fields => .ok fields
    | _ => refuse message

/-- The name a document gives itself. -/
def documentName (doc : List (String × Json)) (pathName : String) : Json :=
  if (Json.get doc "name").truthy then Json.get doc "name"
  else if (Json.get doc "_id").truthy then Json.get doc "_id"
  else .str pathName

/-- `versions`, which may be missing. -/
def documentVersions (doc : List (String × Json)) : Result (List (String × Json)) :=
  match Json.get doc "versions" with
  | .null => .ok []
  | .obj versions => .ok versions
  | _ => refuse "'versions' must be an object"

/-- `parse_publish_document`. -/
def parsePublishDocument (doc : Json) (pathName : String) : Result PublishRequest :=
  match doc with
  | .obj doc =>
    match documentName doc pathName with
    | .str name =>
      if name = "" then refuse "publish document has no package name"
      else if name ≠ pathName then
        refuse ("package name '" ++ name ++ "' does not match the request path '" ++ pathName ++
          "'")
      else match npmNameError codec.caseMap name with
        | some reason => refuse ("invalid package name: " ++ reason)
        | none => do
          let versions ← documentVersions doc
          let versions ← versions.mapM fun e => (checkVersion codec name e.1 e.2).map (e.1, ·)
          let tags ← objectOr (Json.get doc "dist-tags") "'dist-tags' must be an object"
          let tags ← tags.mapM fun e => (checkTag e.1 e.2).map (e.1, ·)
          let attachments ← objectOr (Json.get doc "_attachments") "'_attachments' must be an object"
          let supplied := suppliedAttachments attachments
          let tarballs ← (supplied.filter fun e => isTarballAttachment e.1).mapM fun e =>
            decodeAttachment codec e.1 e.2
          return { name := name
                   versions := versions
                   distTags := tags
                   attachments := tarballs
                   description := (Json.get doc "description").asStr?
                   intent := if supplied ≠ [] then .publish
                     else if versions ≠ [] then .deprecate
                     else .unpublish }
    | _ => refuse "publish document has no package name"
  | _ => refuse "publish body must be a JSON object"

end Parsing

/-! ## One version and its tarball -/

section Tarball

variable (codec : Codec) (request : PublishRequest) (version : String)

def PublishRequest.attachment? (filename : String) : Option Attachment :=
  request.attachments.find? fun a => a.filename = filename

/-- `tarball.rsplit("/", 1)[-1]`. -/
def basename (path : String) : String := String.ofList ((path.toList.splitOn '/').getLastD [])

/-- The attachment that the `dist` of a version names. -/
def declaredAttachment (fields : List (String × Json)) : Result (Option Attachment) :=
  let dist := Json.get fields "dist"
  if !dist.truthy then .ok none
  else match dist with
    | .obj dist =>
      .ok ((Json.get dist "tarball").asStr?.bind fun t => request.attachment? (basename t))
    | _ => .error .raised

/-- The only attachment of a document with one version. -/
def onlyAttachment : Option Attachment :=
  match request.attachments, request.versions with
  | [a], [_] => some a
  | _, _ => none

/-- `match_attachment`. -/
def matchAttachment (fields : List (String × Json)) : Result (Option Attachment) :=
  match request.attachment? (request.name ++ "-" ++ version ++ ".tgz") <|>
      request.attachment? (npmTarballFilename request.name version) with
  | some a => .ok (some a)
  | none => (declaredAttachment request fields).map fun declared =>
      declared <|> onlyAttachment request

structure Digests where
  sha256 : String
  sha1 : String
  md5 : String
  blake2b256 : String
  integrity : String
  size : Nat
  deriving DecidableEq

/-- `digest_tarball`, and what the store computes of the same bytes. -/
def digestTarball (data : Bytes) : Digests where
  sha256 := codec.hex (codec.hash "sha256" data)
  sha1 := codec.hex (codec.hash "sha1" data)
  md5 := codec.hex (codec.hash "md5" data)
  blake2b256 := codec.hex (codec.hash "blake2b" data)
  integrity := "sha512-" ++ codec.b64encode (codec.hash "sha512" data)
  size := data.length

/-- One token of an SRI string against the bytes; an algorithm that is not computed
proves nothing. -/
def integrityError (data : Bytes) (token : String) : Option String :=
  let algorithm := String.ofList (token.toList.takeWhile (· ≠ '-'))
  if '-' ∉ token.toList || algorithm ∉ ["sha512", "sha256", "sha1"] then none
  else
    let rest := (token.toList.dropWhile (· ≠ '-')).drop 1
    let claimed := (codec.b64decode (String.ofList (rest.takeWhile (· ≠ '?')))).getD []
    if claimed ≠ codec.hash algorithm data then
      some ("integrity mismatch for " ++ version ++ ": declared " ++ token ++ ", got sha512-" ++
        codec.b64encode (codec.hash "sha512" data))
    else none

/-- `verify_declared_digests`. -/
def verifyDeclaredDigests (fields : List (String × Json)) (data : Bytes) : Result Unit :=
  match Json.get fields "dist" with
  | .obj dist =>
    let shasum := ((Json.get dist "shasum").asStr?).getD ""
    let actual := (digestTarball codec data).sha1
    if shasum ≠ "" && codec.caseMap.lower shasum ≠ actual then
      refuse ("shasum mismatch for " ++ version ++ ": declared " ++ shasum ++ ", got " ++ actual)
    else
      let integrity := ((Json.get dist "integrity").asStr?).getD ""
      match (splitWords integrity.toList).findSome? (integrityError codec version data) with
      | some message => refuse message
      | none => .ok ()
  | _ => .ok ()

/-- `INSTALL_SCRIPTS`. -/
def installScripts : List String := ["preinstall", "install", "postinstall"]

def hasInstallScript (fields : List (String × Json)) (data : Bytes) : Bool :=
  (match Json.get fields "scripts" with
    | .obj scripts => installScripts.any fun name =>
        ((Json.get scripts name).asStr?).any fun s => strip s ≠ ""
    | _ => false) ||
  codec.hasBindingGyp data

/-- `annotate_install_script`. -/
def annotateInstallScript (fields : List (String × Json)) (data : Bytes) : List (String × Json) :=
  if hasInstallScript codec fields data then Dict.set fields "hasInstallScript" (.bool true)
  else fields.filter fun e => e.1 ≠ "hasInstallScript"

end Tarball

/-! ## What a parsed document holds -/

section Parsed

variable {codec : Codec} {doc : Json} {pathName : String} {request : PublishRequest}

theorem checkVersion_ok {name version : String} {declared : Json} {fields : List (String × Json)}
    (h : checkVersion codec name version declared = .ok fields) :
    isValidSemver version = true ∧ '+' ∉ version.toList := by
  unfold checkVersion refuse at h
  split at h
  · cases h
  · next hvalid =>
    split at h
    · cases h
    · next hplus => exact ⟨by simpa using hvalid, hplus⟩

/-- **Every version of a parsed document** is strictly written, without build metadata. -/
theorem parsePublishDocument_versions
    (h : parsePublishDocument codec doc pathName = .ok request) :
    request.name = pathName ∧
      ∀ e ∈ request.versions, isValidSemver e.1 = true ∧ '+' ∉ e.1.toList := by
  unfold parsePublishDocument refuse at h
  split at h
  · split at h
    · split at h
      · cases h
      · split at h
        · cases h
        · next hname =>
          split at h
          · cases h
          · obtain ⟨versions, -, h⟩ := bind_ok h
            obtain ⟨checked, hchecked, h⟩ := bind_ok h
            obtain ⟨tags, -, h⟩ := bind_ok h
            obtain ⟨distTags, -, h⟩ := bind_ok h
            obtain ⟨attachments, -, h⟩ := bind_ok h
            obtain ⟨tarballs, -, h⟩ := bind_ok h
            obtain rfl := Except.ok.inj h
            refine ⟨not_not.mp hname, fun e he => ?_⟩
            obtain ⟨e', -, hmap⟩ := mapM_mem hchecked e he
            rcases hv : checkVersion codec _ e'.1 e'.2 with err | fields
            · rw [hv] at hmap
              cases hmap
            · rw [hv] at hmap
              obtain rfl := Except.ok.inj hmap
              exact checkVersion_ok hv
    · cases h
  · cases h

end Parsed

end Minireg.NpmPublish
