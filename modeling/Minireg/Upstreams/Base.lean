import Minireg.Py.Dict
import Minireg.Py.Json
import Minireg.Py.Text

/-!
# Upstreams and what they answer

The `upstreams` rows (routing and health columns), the neutral shapes every
provider translates its registry into (`RemoteFile`, `RemoteVersion`,
`RemotePackage`), the validators of a conditional request, and name
normalization. Times are microseconds.
-/

namespace Minireg

open Py

abbrev Time := Int

inductive Ecosystem where
  | npm | pypi | cargo | docker
  deriving DecidableEq, Repr

/-- The ecosystem's stored value. -/
def Ecosystem.value : Ecosystem → String
  | npm => "npm"
  | pypi => "pypi"
  | cargo => "cargo"
  | docker => "docker"

inductive UpstreamKind where
  | npm | pypi | cargo | gitlabNpm | gitlabPypi | oci | gitlabOci
  deriving DecidableEq, Repr

namespace UpstreamKind

/-- The kind's stored value. -/
def value : UpstreamKind → String
  | npm => "npm"
  | pypi => "pypi"
  | cargo => "cargo"
  | gitlabNpm => "gitlab_npm"
  | gitlabPypi => "gitlab_pypi"
  | oci => "oci"
  | gitlabOci => "gitlab_oci"

/-- `PROVIDERS`: the kinds `build_provider` has a class for. -/
def hasProvider : UpstreamKind → Bool
  | npm | pypi | cargo | gitlabNpm | gitlabPypi => true
  | oci | gitlabOci => false

end UpstreamKind

/-- `_KINDS_FOR_ECOSYSTEM`: which kinds can back each ecosystem. -/
def kindsForEcosystem : Ecosystem → List UpstreamKind
  | .npm => [.npm, .gitlabNpm]
  | .pypi => [.pypi, .gitlabPypi]
  | .cargo => [.cargo]
  | .docker => [.oci, .gitlabOci]

/-- An `upstreams` row. `_validate_kind` admits no other kind for the ecosystem. -/
structure Upstream where
  id : Nat
  name : String
  ecosystem : Ecosystem
  kind : UpstreamKind
  tier : Int := 1
  namePatterns : List String := []
  priority : Int := 100
  enabled : Bool := true
  healthy : Bool := true
  lastError : Option String := none
  lastCheckAt : Option Time := none
  consecutiveFailures : Int := 0
  validKind : kind ∈ kindsForEcosystem ecosystem := by decide
  deriving DecidableEq

theorem npm_validKind : UpstreamKind.npm ∈ kindsForEcosystem .npm := by decide

theorem pypi_validKind : UpstreamKind.pypi ∈ kindsForEcosystem .pypi := by decide

/-- A package ecosystem's upstreams all have a provider. -/
theorem Upstream.hasProvider {u : Upstream} (h : u.ecosystem ≠ .docker) :
    u.kind.hasProvider = true := by
  have hk := u.validKind
  generalize u.kind = k at hk ⊢
  generalize u.ecosystem = e at h hk
  cases e <;> cases k <;> simp_all [kindsForEcosystem, UpstreamKind.hasProvider]

/-- `bool | str`: a yank flag, or the reason of a yank. -/
inductive Yanked where
  | flag (b : Bool)
  | reason (s : String)
  deriving DecidableEq, Repr

namespace Yanked

/-- `bool(yanked)`. -/
def truthy : Yanked → Bool
  | flag b => b
  | reason s => s != ""

end Yanked

/-- `core_metadata: bool | dict | None`. -/
inductive CoreMetadata where
  | absent
  | flag (b : Bool)
  | hashes (fields : List (String × Json))
  deriving DecidableEq

structure RemoteFile where
  filename : String
  url : String
  hashes : Dict String String := []
  size : Option Nat := none
  requiresPython : Option String := none
  yanked : Yanked := .flag false
  coreMetadata : CoreMetadata := .absent
  uploadTime : Option Time := none
  packagetype : Option String := none
  pythonVersion : Option String := none
  contentType : String := "application/octet-stream"
  upstreamId : Option Nat := none
  deriving DecidableEq

structure RemoteVersion where
  version : String
  metadata : List (String × Json) := []
  files : List RemoteFile := []
  deprecated : Option String := none
  yanked : Yanked := .flag false
  requiresPython : Option String := none
  publishedAt : Option Time := none
  deriving DecidableEq

/-- One upstream's document for a package. The descriptive fields are not
schema-enforced, so they hold whatever JSON the registry sent. -/
structure RemotePackage where
  name : String
  versions : List RemoteVersion := []
  distTags : Dict String String := []
  description : Json := .null
  author : Json := .null
  homepage : Json := .null
  license : Json := .null
  keywords : Json := .arr []
  readme : Json := .null
  time : Dict String String := []
  raw : List (String × Json) := []
  etag : Option String := none
  upstreamId : Option Nat := none
  upstreamName : Option String := none
  deriving DecidableEq

/-- Conditional-request validators, bound to the upstream that issued them. -/
structure Validators where
  upstreamId : Nat
  etag : Option String := none
  lastModified : Option String := none
  deriving DecidableEq, Repr

/-! ## Names -/

/-- A character of `_PEP503_RE`. -/
def isPep503Sep (c : Char) : Bool := c == '-' || c == '_' || c == '.'

/-- `_PEP503_RE.sub("-", name)`: every run of separators becomes one hyphen. -/
def collapseSeps : Bool → List Char → List Char
  | _, [] => []
  | inRun, c :: rest =>
    if isPep503Sep c then (if inRun then [] else ['-']) ++ collapseSeps true rest
    else c :: collapseSeps false rest

def normalizePypiName (cm : CaseMap) (name : String) : String :=
  cm.lower (String.ofList (collapseSeps false name.toList))

def normalizeNpmName (name : String) : String := strip name

def normalizeCargoName (cm : CaseMap) (name : String) : String := cm.lower (strip name)

def normalizeNameFor (cm : CaseMap) (ecosystem : Ecosystem) (name : String) : String :=
  match ecosystem with
  | .pypi => normalizePypiName cm name
  | .cargo => normalizeCargoName cm name
  | _ => normalizeNpmName name

example : normalizeNameFor .ascii .pypi "Foo.-_Bar" = "foo-bar" := by decide

end Minireg
