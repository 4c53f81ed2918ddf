import Minireg.Py.Fnmatch
import Minireg.Py.Text

/-!
# Registry presets and host patterns
-/

namespace Minireg.Docker

open Py

/-- A well-known registry: where layer downloads of it may be redirected to, the token realms
beside the registry itself, and whether it expands one-segment names. -/
structure Preset where
  name : String
  label : String
  url : String
  blobHosts : List String := []
  authHosts : List String := []
  libraryPrefix : Bool := false

/-- `HUB_UPSTREAM_NAME`. -/
def hubUpstreamName : String := "dockerhub"

/-- `PRESETS`. -/
def presets : List Preset :=
  [{ name := hubUpstreamName
     label := "Docker Hub"
     url := "https://registry-1.docker.io"
     blobHosts := ["production.cloudfront.docker.com", "*.cloudfront.docker.com"]
     authHosts := ["auth.docker.io"]
     libraryPrefix := true },
   { name := "ghcr"
     label := "GitHub (ghcr.io)"
     url := "https://ghcr.io"
     blobHosts := ["pkg-containers.githubusercontent.com"] },
   { name := "quay"
     label := "Quay"
     url := "https://quay.io"
     blobHosts := ["cdn*.quay.io"] },
   { name := "k8s"
     label := "registry.k8s.io"
     url := "https://registry.k8s.io"
     blobHosts :=
       ["*-docker.pkg.dev", "cdn.registry.k8s.io",
        "prod-registry-k8s-io-*.s3.dualstack.*.amazonaws.com", "storage.googleapis.com"] },
   { name := "ecr-public"
     label := "AWS Public ECR"
     url := "https://public.ecr.aws"
     blobHosts := ["*.cloudfront.net"] },
   { name := "gcr-mirror"
     label := "Google mirror (mirror.gcr.io)"
     url := "https://mirror.gcr.io"
     blobHosts := ["storage.googleapis.com"]
     libraryPrefix := true }]

/-- `PRESETS.get`. -/
def preset? (name : String) : Option Preset := presets.find? (·.name = name)

/-- `host_matches`. -/
def hostMatches (caseMap : CaseMap) (host : String) (patterns : List String) : Bool :=
  (patterns.filter (· ≠ "")).any fun p =>
    Fnmatch.fnmatchcase (caseMap.lower host) (caseMap.lower p)

end Minireg.Docker
