import Minireg.Core.Naming
import Minireg.Py.Fnmatch
import Minireg.Services.Database

/-!
# Package ownership

Who may publish, retag, deprecate and unpublish a name. The publish-time
shadowing check, `resolvesUpstream`, says whether an upstream serves the name, and
refuses to conclude anything from a resolution that failed or ran out of time.
-/

namespace Minireg

open Py Lib

/-- `str(exc)`. -/
def ResolveError.text : ResolveError → String
  | .tierUnavailable msg => msg
  | .upstreamError msg => msg

/-- `_resolves_upstream`; the error is `ShadowCheckUnavailable`. -/
def resolvesUpstream (timedOut : Bool) (result : Except ResolveError (Option ResolveResult)) :
    Except String Bool :=
  if timedOut then .error "upstreams did not answer in time"
  else match result with
    | .error e => .error e.text
    | .ok r => .ok r.isSome

/-- "Absent upstream" is concluded only from a resolution that found nothing. -/
theorem resolvesUpstream_false {timedOut : Bool}
    {result : Except ResolveError (Option ResolveResult)}
    (h : resolvesUpstream timedOut result = .ok false) : result = .ok none := by
  unfold resolvesUpstream at h
  rcases timedOut with _ | _
  · rcases result with e | _ | r
    · cases h
    · rfl
    · cases h
  · cases h

/-! ## Publishing -/

/-- Publishing is not permitted. -/
structure PublishDenied where
  reason : String
  status : Nat := 403
  deriving DecidableEq, Repr

structure PublishGrant where
  package : Option Package
  /-- Set on the package row when the publish goes through. -/
  ownerUserId : Option Nat
  deriving DecidableEq

structure Identity where
  userId : Option Nat := none
  isAdmin : Bool := false
  adminScope : Bool := false
  deriving DecidableEq, Repr

/-- An admin with an admin-scoped credential. -/
def Identity.administers (identity : Identity) : Bool := identity.isAdmin && identity.adminScope

/-- Outside the ownership checks: the case maps of Python and of the database, the
reserved namespaces, what versions of PyPI mean, and what the upstreams answer about a
name (`true` where they ran out of time). -/
structure OwnershipEnv where
  caseMap : CaseMap
  sqlLower : String → String
  namespaces : Ecosystem → List String
  pep440 : Pep440
  resolution : Ecosystem → String → Bool × Except ResolveError (Option ResolveResult)

section Authorization

variable (env : OwnershipEnv) (db : Database) (ecosystem : Ecosystem)

/-- `_namespace_patterns`. -/
def namespacePatterns : List String := (env.namespaces ecosystem).filter fun p => strip p ≠ ""

/-- `_matches_namespace`. -/
def matchesNamespace (name : String) (patterns : List String) : Bool :=
  patterns.any fun p =>
    Fnmatch.fnmatchcase (env.caseMap.lower name) (env.caseMap.lower (strip p))

/-- `_case_variant`. -/
def caseVariant (normalized : String) : Option String :=
  (db.packages.rows.find? fun p => p.ecosystem = ecosystem &&
    env.sqlLower p.normalizedName = env.caseMap.lower normalized &&
    p.normalizedName ≠ normalized).map Package.name

/-- The grant of a name that is not held yet. -/
def authorizeNewName (displayName normalized : String) (reserved : Bool) (userId : Option Nat) :
    Except PublishDenied PublishGrant :=
  match if ecosystem = .npm then caseVariant env db ecosystem normalized else none with
  | some variant =>
    .error { reason := "'" ++ displayName ++ "' differs only in case from '" ++ variant ++
      "', which this registry already serves. Choose a distinct name." }
  | none =>
    let granted : PublishGrant := { package := none, ownerUserId := userId }
    if reserved then .ok granted
    else
      let (timedOut, result) := env.resolution ecosystem displayName
      match resolvesUpstream timedOut result with
      | .error _ =>
        .error { reason := "could not check whether '" ++ displayName ++ "' already exists " ++
                  "upstream. Refusing rather than risk shadowing a public package; " ++
                  "retry once the upstreams are reachable."
                 status := 503 }
      | .ok true =>
        .error { reason := "'" ++ displayName ++ "' already exists in an upstream registry. " ++
                  "Publishing it here would shadow the upstream package for everyone using " ++
                  "this mirror." }
      | .ok false => .ok granted

/-- `authorize_publish`. -/
def authorizePublish (displayName : String) (identity : Identity) :
    Except PublishDenied PublishGrant :=
  let normalized := normalizeNameFor env.caseMap ecosystem displayName
  let reserved := matchesNamespace env normalized (namespacePatterns env ecosystem)
  match db.package? ecosystem normalized with
  | some package =>
    if !package.isLocal then
      if !reserved then
        .error { reason := "'" ++ displayName ++ "' is served by an upstream registry and cannot " ++
          "be published here. Ask an administrator to reserve the name as a private namespace " ++
          "if it really is yours." }
      else .ok { package := some package, ownerUserId := identity.userId }
    else match package.ownerUserId with
      | none => .ok { package := some package, ownerUserId := identity.userId }
      | some owner =>
        if some owner ≠ identity.userId && !identity.administers then
          .error { reason := "'" ++ displayName ++ "' is owned by another user. Ask them to " ++
            "publish, or ask an administrator." }
        else .ok { package := some package, ownerUserId := some owner }
  | none => authorizeNewName env db ecosystem displayName normalized reserved identity.userId

/-- `authorize_mutation`. -/
def authorizeMutation (package : Package) (identity : Identity) (action : String) :
    Except PublishDenied Unit :=
  if !package.isLocal then
    if !identity.administers then
      .error { reason := "'" ++ package.name ++ "' is mirrored from an upstream registry; " ++
        "only an administrator can " ++ action ++ " it." }
    else .ok ()
  else if package.ownerUserId.isSome && package.ownerUserId ≠ identity.userId &&
      !identity.administers then
    .error { reason := "'" ++ package.name ++ "' is owned by another user." }
  else .ok ()

/-- The tombstone of a version: of an equal one on PyPI, of the same text elsewhere. -/
def retired? (normalizedName normalizedVersion : String) : Option RetiredVersion :=
  db.retired.rows.find? fun r => r.ecosystem = ecosystem && r.normalizedName = normalizedName &&
    if ecosystem = .pypi then env.pep440.equal r.normalizedVersion normalizedVersion
    else r.normalizedVersion = normalizedVersion

/-- `assert_not_retired`. -/
def assertNotRetired (normalizedName normalizedVersion : String) : Except PublishDenied Unit :=
  match retired? env db ecosystem normalizedName normalizedVersion with
  | some row =>
    .error { reason := "version " ++ row.version ++ " was published here and withdrawn; that " ++
              "version number cannot be reused. Publish a new version instead."
             status := 409 }
  | none => .ok ()

end Authorization

section Granted

variable {env : OwnershipEnv} {db : Database} {ecosystem : Ecosystem}

/-- A grant names the package row that is there. -/
theorem authorizePublish_package {displayName : String} {identity : Identity} {grant : PublishGrant}
    (h : authorizePublish env db ecosystem displayName identity = .ok grant) :
    grant.package = db.package? ecosystem (normalizeNameFor env.caseMap ecosystem displayName) := by
  unfold authorizePublish at h
  dsimp only at h
  rcases hpkg : db.package? ecosystem (normalizeNameFor env.caseMap ecosystem displayName) with
    _ | package
  · rw [hpkg] at h
    dsimp only at h
    unfold authorizeNewName at h
    split at h
    · cases h
    · dsimp only at h
      split at h
      · obtain rfl := Except.ok.inj h
        rfl
      · split at h
        · cases h
        · cases h
        · obtain rfl := Except.ok.inj h
          rfl
  · rw [hpkg] at h
    dsimp only at h
    split at h
    · split at h
      · cases h
      · obtain rfl := Except.ok.inj h
        rfl
    · split at h
      · obtain rfl := Except.ok.inj h
        rfl
      · split at h
        · cases h
        · obtain rfl := Except.ok.inj h
          rfl

/-- What is not retired has no tombstone. -/
theorem assertNotRetired_ok {normalizedName normalizedVersion : String} {u : Unit}
    (h : assertNotRetired env db ecosystem normalizedName normalizedVersion = .ok u) :
    ∀ r ∈ db.retired, r.ecosystem = ecosystem → r.normalizedName = normalizedName →
      if ecosystem = .pypi then env.pep440.equal r.normalizedVersion normalizedVersion = false
      else r.normalizedVersion ≠ normalizedVersion := by
  unfold assertNotRetired at h
  split at h
  · cases h
  · next hnone =>
    intro r hr heco hname
    have hno := List.find?_eq_none.mp hnone r hr
    split
    · next hpypi =>
      simpa [heco, hname, hpypi] using hno
    · next hpypi =>
      simpa [heco, hname, hpypi] using hno

end Granted

end Minireg
