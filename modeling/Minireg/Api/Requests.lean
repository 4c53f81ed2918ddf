import Minireg.Api.Refused
import Minireg.Services.Displaced

/-!
# Requests to the package tables

Every request that changes packages, versions, tags or tombstones, and the refreshes
that persist an upstream's answer and prune. `Change` says once what a request can do
to the tables; the invariants over runs of requests are read off it.
-/

namespace Minireg

open Py Lib

/-! ## Refreshes -/

section Refresh

variable (env : RegistryEnv) (ecosystem : Ecosystem)

/-- `_derive_latest` raises where `max_semver` does. -/
def latestRaises (versions : Table PackageVersion.normalizedVersion) : Bool :=
  let unyanked := (versions.rows.filter fun v => !v.yanked).map PackageVersion.version
  let names := if unyanked = [] then versions.rows.map PackageVersion.version else unyanked
  ecosystem = .npm && (maxSemver names).toOption.isNone

/-- Pruning asks for the latest version if it removed what `latest` or `latest_version` names. -/
def latestAsked (package pruned : Package) : Bool :=
  let removed := (package.versions.rows.filter fun v =>
    (pruned.versions.find? v.normalizedVersion).isNone).map PackageVersion.version
  (package.distTags.rows.any fun t => t.tag = "latest" && t.version ∈ removed) ||
    package.latestVersion.any (· ∈ removed)

/-- `prune_unsourced` and its commit; `none` is an exception. -/
def prune (table : UpstreamTable) (package : Package) (answer : Option (RemotePackage × Int))
    (db : Database) : Option Database :=
  match pruneUnsourced env.naming table ecosystem package answer with
  | (pruned, purged, _) =>
    if latestAsked package pruned && latestRaises ecosystem pruned.versions then none
    else some ((purged.foldl Database.purgeFile db).putPackage pruned)

/-- What a refresh found. -/
inductive Resolution where
  /-- The probe: a local package, or one that is not stale. Nothing is asked. -/
  | fresh
  /-- A tier failed, or no upstream has the name. -/
  | settled
  /-- What is held is current. -/
  | notModified
  | answered (remote : RemotePackage) (upstream : Upstream) (validators : Option Validators)
      (tier : Int)

/-- `_settle`. -/
def settle (table : UpstreamTable) (normalized : String) (db : Database) : Option Database :=
  match db.package? ecosystem normalized with
  | none => some db
  | some package => prune env ecosystem table package none db

/-- `fetch_package` after its probe. The package may have become local since. -/
def refresh (table : UpstreamTable) (name : String) (resolution : Resolution) (db : Database) :
    Option Database :=
  let normalized := env.normalizedFor ecosystem name
  match resolution with
  | .fresh => some db
  | .settled => settle env ecosystem table normalized db
  | .notModified =>
    match db.package? ecosystem normalized with
    | none => none
    | some package =>
      settle env ecosystem table normalized
        (db.putPackage { package with cachedAt := some env.now })
  | .answered remote upstream validators tier =>
    let displayName := if remote.name ≠ "" then remote.name else name
    let stored := db.package? ecosystem (env.normalizedFor ecosystem displayName)
    match persistRemotePackage env.naming ecosystem stored remote (some upstream) (some name)
      validators env.now with
    | .error _ => some db
    | .ok package =>
      -- `_derive_latest` was asked only if nothing else named a latest version
      if package.latestVersion = none && latestRaises ecosystem package.versions then none
      else prune env ecosystem table package (some (remote, tier)) db

end Refresh

/-- Where the order of the versions is found, one of them is the latest. -/
theorem deriveLatest_eq_none {env : RegistryEnv} {ecosystem : Ecosystem}
    {versions : Table PackageVersion.normalizedVersion}
    (hsorts : ecosystem = .pypi → ∀ vs, (env.sortPypiVersions vs).Perm vs)
    (hreturns : ecosystem ≠ .pypi → latestRaises .npm versions = false) :
    deriveLatest env.naming ecosystem versions = none ↔ versions.rows = [] := by
  constructor
  · intro hnone
    by_contra hne
    unfold latestRaises at hreturns
    unfold deriveLatest at hnone
    dsimp only at hreturns hnone
    have hnames : (if (versions.rows.filter fun v => !v.yanked).map PackageVersion.version = []
        then versions.rows.map PackageVersion.version
        else (versions.rows.filter fun v => !v.yanked).map PackageVersion.version) ≠ [] := by
      split
      · simpa using hne
      · assumption
    generalize (if (versions.rows.filter fun v => !v.yanked).map PackageVersion.version = []
      then versions.rows.map PackageVersion.version
      else (versions.rows.filter fun v => !v.yanked).map PackageVersion.version) = names
      at hnames hreturns hnone
    rw [if_neg hnames] at hnone
    split at hnone
    · next heco =>
      have hsorted : (env.naming.sortPypiVersions names).Perm names := hsorts heco names
      rw [List.getLast?_eq_none_iff.mp hnone] at hsorted
      exact hnames (List.nil_perm.mp hsorted)
    · next heco =>
      have hreturned := hreturns heco
      rcases hmax : maxSemver names with e | _ | latest
      · rw [hmax] at hreturned
        simp [Except.toOption] at hreturned
      · exact maxSemver_ne_none hnames hmax
      · have hsome : ((maxSemver names).toOption).join = none := hnone
        rw [hmax] at hsome
        cases hsome
  · intro hempty
    unfold deriveLatest
    simp [hempty]

/-! ### What a refresh writes -/

/-- What an answer says `latest_version` is. -/
def answeredLatest (env : RegistryEnv) (remote : RemotePackage) : Option String :=
  (Dict.get? remote.distTags "latest").bind fun v => coerceText env.naming (.str v) latestVersionLimit

/-- A refresh writes one package at most, and prunes it: the stored one, or what the
answer makes of it. An exception writes nothing. -/
inductive RefreshChange (env : RegistryEnv) (ecosystem : Ecosystem) (name : String)
    (resolution : Resolution) (db db' : Database) : Prop where
  | nothing (packages : db'.packages = db.packages)
  | settled {table : UpstreamTable} {stored package : Package} {cachedAt : Option Time}
      {purged : List PackageFile} {changed : Bool}
      (resolved : resolution = .settled ∨ resolution = .notModified)
      (found : db.package? ecosystem (env.normalizedFor ecosystem name) = some stored)
      (pruned : pruneUnsourced env.naming table ecosystem { stored with cachedAt := cachedAt } none =
        (package, purged, changed))
      (returns : latestAsked stored package = true →
        latestRaises ecosystem package.versions = false)
      (packages : db'.packages = db.packages.put package)
  | answered {table : UpstreamTable} {normalized : String} {persisted package : Package}
      {remote : RemotePackage} {upstream : Upstream} {validators : Option Validators} {tier : Int}
      {purged : List PackageFile} {changed : Bool}
      (named : normalized =
        env.normalizedFor ecosystem (if remote.name ≠ "" then remote.name else name))
      (resolved : resolution = .answered remote upstream validators tier)
      (persists : persistRemotePackage env.naming ecosystem (db.package? ecosystem normalized) remote
        (some upstream) (some name) validators env.now = .ok persisted)
      (keyed : persisted.key = (ecosystem, normalized))
      (derives : persisted.latestVersion = none → latestRaises ecosystem persisted.versions = false)
      (pruned : pruneUnsourced env.naming table ecosystem persisted (some (remote, tier)) =
        (package, purged, changed))
      (returns : latestAsked persisted package = true →
        latestRaises ecosystem package.versions = false)
      (packages : db'.packages = db.packages.put package)

section RefreshChange

variable {env : RegistryEnv} {ecosystem : Ecosystem} {table : UpstreamTable} {db db' : Database}

theorem foldl_purgeFile_frame (files : List PackageFile) (db : Database) :
    (files.foldl Database.purgeFile db).packages = db.packages ∧
      (files.foldl Database.purgeFile db).retired = db.retired := by
  induction files generalizing db with
  | nil => exact ⟨rfl, rfl⟩
  | cons f files ih =>
    rw [List.foldl_cons]
    exact ⟨(ih _).1.trans (Database.purgeFile_packages f),
      (ih _).2.trans (Database.purgeFile_retired f)⟩

theorem prune_some {package : Package} {answer : Option (RemotePackage × Int)}
    (h : prune env ecosystem table package answer db = some db') :
    ∃ pruned purged changed,
      pruneUnsourced env.naming table ecosystem package answer = (pruned, purged, changed) ∧
      (latestAsked package pruned = true → latestRaises ecosystem pruned.versions = false) ∧
      db'.packages = db.packages.put pruned ∧ db'.retired = db.retired := by
  rcases hpruned : pruneUnsourced env.naming table ecosystem package answer with
    ⟨pruned, purged, changed⟩
  unfold prune at h
  rw [hpruned] at h
  dsimp only at h
  split at h
  · cases h
  · next hreturns =>
    obtain rfl := Option.some.inj h
    refine ⟨pruned, purged, changed, rfl, fun hasked => ?_,
      congrArg (Table.put · pruned) (foldl_purgeFile_frame purged db).1,
      (foldl_purgeFile_frame purged db).2⟩
    rw [hasked, Bool.true_and] at hreturns
    exact Bool.eq_false_iff.mpr hreturns

theorem pruneUnsourced_key (nm : Naming) (table : UpstreamTable) (ecosystem : Ecosystem)
    (package : Package) (answer : Option (RemotePackage × Int)) :
    (pruneUnsourced nm table ecosystem package answer).1.key = package.key := by
  unfold pruneUnsourced
  dsimp only
  split <;> rfl

theorem persist_key {stored : Option Package} {remote : RemotePackage} {upstream : Option Upstream}
    {name : String} {validators : Option Validators} {now : Time} {package : Package}
    {normalized : String}
    (hnormalized : normalized = normalizeNameFor env.caseMap ecosystem
      (if remote.name ≠ "" then remote.name else name))
    (hstored : ∀ p, stored = some p → p.key = (ecosystem, normalized))
    (h : persistRemotePackage env.naming ecosystem stored remote upstream (some name) validators
      now = .ok package) : package.key = (ecosystem, normalized) := by
  unfold persistRemotePackage at h
  extract_lets requested displayName named upstreamId row keywords versions latest at h
  split at h
  · cases h
  · obtain rfl := Except.ok.inj h
    rcases stored with _ | p
    · rw [hnormalized]
      rfl
    · exact hstored p rfl

theorem settle_change {name : String}
    (h : settle env ecosystem table (env.normalizedFor ecosystem name) db = some db') :
    RefreshChange env ecosystem name .settled db db' ∧ db'.retired = db.retired := by
  unfold settle at h
  split at h
  · obtain rfl := Option.some.inj h
    exact ⟨.nothing rfl, rfl⟩
  · next package hfound =>
    obtain ⟨pruned, purged, changed, hpruned, hreturns, hpackages, hretired⟩ := prune_some h
    have hsame : { package with cachedAt := package.cachedAt } = package := rfl
    rw [← hsame] at hpruned
    exact ⟨.settled (.inl rfl) hfound hpruned hreturns hpackages, hretired⟩

/-- **What a refresh can do.** -/
theorem refresh_change {name : String} {resolution : Resolution}
    (h : refresh env ecosystem table name resolution db = some db') :
    RefreshChange env ecosystem name resolution db db' ∧ db'.retired = db.retired := by
  unfold refresh at h
  dsimp only at h
  split at h
  · obtain rfl := Option.some.inj h
    exact ⟨.nothing rfl, rfl⟩
  · exact settle_change h
  · split at h
    · cases h
    · next package hfound =>
      obtain ⟨hmem, hkey⟩ := Table.find?_eq_some_iff.mp hfound
      -- the row whose age was reset is the row that is found again
      have hagain : (db.putPackage { package with cachedAt := some env.now }).package? ecosystem
          (env.normalizedFor ecosystem name) = some { package with cachedAt := some env.now } :=
        Table.find?_eq_some_iff.mpr ⟨Table.mem_put.mpr (.inl rfl), hkey⟩
      unfold settle at h
      rw [hagain] at h
      obtain ⟨pruned, purged, changed, hpruned, hreturns, hpackages, hretired⟩ := prune_some h
      have hkeyed : pruned.key = package.key := by
        have hfst : pruned = (pruneUnsourced env.naming table ecosystem
          { package with cachedAt := some env.now } none).1 := (congrArg Prod.fst hpruned).symm
        rw [hfst]
        exact pruneUnsourced_key _ _ _ _ _
      refine ⟨.settled (.inr rfl) hfound hpruned hreturns
        (hpackages.trans (Table.put_put hkeyed.symm)), hretired⟩
  · next remote upstream validators tier =>
    split at h
    · obtain rfl := Option.some.inj h
      exact ⟨.nothing rfl, rfl⟩
    · next persisted hpersist =>
      split at h
      · cases h
      · next hderives =>
        obtain ⟨pruned, purged, changed, hpruned, hreturns, hpackages, hretired⟩ := prune_some h
        refine ⟨.answered rfl rfl hpersist (persist_key rfl (fun p hp => Table.find?_key hp) hpersist)
          (fun hnone => ?_) hpruned hreturns hpackages, hretired⟩
        simpa [hnone] using hderives

end RefreshChange

/-! ## Requests -/

inductive Operation where
  | publish (name : String) (body : Json)
  | upload (form : Pypi.UploadForm)
  | setDistTag (name tag body : String)
  | deleteDistTag (name tag : String)
  | updatePackument (name : String) (body : Json)
  | unpublishVersion (name filename : String)
  | unpublishPackage (name : String)
  | refresh (ecosystem : Ecosystem) (table : UpstreamTable) (name : String)
      (resolution : Resolution)

/-- One request: what is outside at its time, who asks, and for what. -/
structure Request where
  env : RegistryEnv
  identity : Identity
  operation : Operation

namespace Request

variable (r : Request)

def handle (s : Session) : Session × Reply :=
  match r.operation with
  | .publish name body => Npm.publish r.env r.identity name body s
  | .upload form => Pypi.upload r.env r.identity form s
  | .setDistTag name tag body => Npm.setDistTag r.env r.identity name tag body s
  | .deleteDistTag name tag => Npm.deleteDistTag r.env r.identity name tag s
  | .updatePackument name body => Npm.updatePackument r.env r.identity name body s
  | .unpublishVersion name filename => Npm.unpublishVersion r.env r.identity name filename s
  | .unpublishPackage name => Npm.unpublishPackage r.env r.identity name s
  | .refresh ecosystem table name resolution =>
    match refresh r.env ecosystem table name resolution s.pending with
    | some db => ((s.change fun _ => db).commit, .ok)
    | none => (s.rollback, .raised)

/-- What is committed after the request. -/
def after (db : Database) : Database := (r.handle (.start db)).1.committed

def reply (db : Database) : Reply := (r.handle (.start db)).2

end Request

/-! ## What a request can do -/

/-- The versions `vs` of a package are retired: each has its tombstone, and no other
tombstone is new. -/
structure Retires (package : Package) (vs : List PackageVersion) (db db' : Database) : Prop where
  packages : db'.packages = db.packages
  keeps : ∀ t ∈ db.retired, t ∈ db'.retired
  adds : ∀ t ∈ db'.retired, t ∈ db.retired ∨
    ∃ v ∈ vs, t.key = (.npm, package.normalizedName, v.normalizedVersion)
  has : ∀ v ∈ vs, ∃ t ∈ db'.retired, t.key = (.npm, package.normalizedName, v.normalizedVersion)

/-- The package that a publish fills with the rows of its versions. -/
def filledPackage (package : Package) (description : Option String) (rows : List PackageVersion) :
    Package :=
  { package with description := description, versions := rows.foldl Table.put package.versions }

/-- What a request does to packages and tombstones. A package that is written was found,
or is new; nothing but the retirement of a version adds a tombstone. -/
inductive Change (r : Request) (db db' : Database) : Prop where
  | nothing (packages : db'.packages = db.packages) (retired : db'.retired = db.retired)
  | published {name : String} {body : Json} {parsed : NpmPublish.PublishRequest}
      {grant : PublishGrant} {description : Option String} {rows : List PackageVersion}
      {package : Package}
      (operation : r.operation = .publish name body)
      (parse : NpmPublish.parsePublishDocument r.env.codec body name = .ok parsed)
      (granted : grant.package = db.package? .npm (r.env.normalizedFor .npm parsed.name))
      (fresh : ∀ old, grant.package = some old → ∀ e ∈ parsed.versions, e.1 ∉ Npm.versionNames old)
      (notRetired : ∀ e ∈ parsed.versions, ∀ t ∈ db.retired, t.ecosystem = .npm →
        t.normalizedName = r.env.normalizedFor .npm parsed.name → t.normalizedVersion ≠ e.1)
      (names : rows.map PackageVersion.version = parsed.versions.map Prod.fst)
      (stored : ∀ v ∈ rows, v.isLocal = true ∧ v.normalizedVersion = v.version)
      (tagged : Npm.tagPackage (filledPackage (openPackage .npm parsed.name
        (r.env.normalizedFor .npm parsed.name) grant) description rows) parsed.distTags
          (parsed.versions.map Prod.fst) = .ok package)
      (packages : db'.packages = db.packages.put package) (retired : db'.retired = db.retired)
  | deprecated {package : Package} {submitted : List (String × Json)}
      (found : package ∈ db.packages) (ecosystem : package.ecosystem = .npm)
      (packages : db'.packages = db.packages.put
        (Npm.applyDeprecations submitted true (fun _ => true) package))
      (retired : db'.retired = db.retired)
  | opened {name : String} {grant : PublishGrant}
      (granted : grant.package = db.package? .pypi (r.env.normalizedFor .pypi name))
      (packages : db'.packages = db.packages.put
        (openPackage .pypi name (r.env.normalizedFor .pypi name) grant))
      (retired : db'.retired = db.retired)
  | uploaded {form : Pypi.UploadForm} {request : PypiPublish.UploadRequest}
      {metadata : Option NpmPublish.Bytes} {grant : PublishGrant} {scan : Scan} {package : Package}
      (operation : r.operation = .upload form)
      (read : Pypi.readUpload r.env form = .ok (request, metadata))
      (granted : grant.package = db.package? .pypi (r.env.normalizedFor .pypi request.name))
      (notRetired : ∀ t ∈ db.retired, t.ecosystem = .pypi →
        t.normalizedName = r.env.normalizedFor .pypi request.name →
          r.env.pep440.equal t.normalizedVersion (r.env.pep440.normalize request.version) = false)
      (opens : package =
        openPackage .pypi request.name (r.env.normalizedFor .pypi request.name) grant)
      (notMirrored : Pypi.mirroredRow r.env package request.version = none)
      (packages : db'.packages = db.packages.put
        (Pypi.storeUpload r.env request metadata scan package))
      (retired : db'.retired = db.retired)
  | tagged {package : Package} {tag version : String}
      (found : package ∈ db.packages) (ecosystem : package.ecosystem = .npm)
      (named : version ∈ Npm.versionNames package)
      (packages : db'.packages = db.packages.put (Npm.applyTag package (tag, version)))
      (retired : db'.retired = db.retired)
  | untagged {package : Package} {tag : String}
      (found : package ∈ db.packages) (ecosystem : package.ecosystem = .npm)
      (packages : db'.packages = db.packages.put
        { package with distTags := package.distTags.filter (·.tag ≠ tag) })
      (retired : db'.retired = db.retired)
  | unpublished {package : Package} {v : PackageVersion} {name filename : String}
      {file : PackageFile} {mid : Database}
      (operation : r.operation = .unpublishVersion name filename)
      (found : db.package? .npm (r.env.normalizedFor .npm name) = some package)
      (target : Npm.fileTarget package filename = some (v, file))
      (retires : Retires package [v] db mid)
      (packages : db'.packages = db.packages.put (Npm.dropVersion package v))
      (retired : db'.retired = mid.retired)
  | removed {package : Package} {mid : Database}
      (found : package ∈ db.packages) (ecosystem : package.ecosystem = .npm)
      (retires : Retires package (package.versions.rows.filter (·.isLocal)) db mid)
      (packages : db'.packages = db.packages.filter (·.key ≠ package.key))
      (retired : db'.retired = mid.retired)
  | updated {package package' : Package} {update : Npm.PackumentUpdate} {hidden : List String}
      {mid : Database}
      (found : package ∈ db.packages) (ecosystem : package.ecosystem = .npm)
      (survivor : (∃ v ∈ package.versions, Npm.survives update hidden v.version = false) →
        ∃ v ∈ package.versions, Npm.survives update hidden v.version = true)
      (edited : Npm.updatedPackage update hidden package = .ok package')
      (retires : Retires package
        (package.versions.rows.filter fun v => !Npm.survives update hidden v.version) db mid)
      (packages : db'.packages = db.packages.put package') (retired : db'.retired = mid.retired)
  | refreshed {ecosystem : Ecosystem} {table : UpstreamTable} {name : String}
      {resolution : Resolution}
      (operation : r.operation = .refresh ecosystem table name resolution)
      (stored : refresh r.env ecosystem table name resolution db = some db')

/-! ### Retirements -/

namespace Retires

variable {package : Package} {vs ws : List PackageVersion} {db db' db'' : Database}

theorem refl (db : Database) : Retires package [] db db where
  packages := rfl
  keeps _ ht := ht
  adds _ ht := .inl ht
  has _ hv := absurd hv List.not_mem_nil

theorem trans (h : Retires package vs db db') (h' : Retires package ws db' db'') :
    Retires package (vs ++ ws) db db'' where
  packages := h'.packages.trans h.packages
  keeps t ht := h'.keeps t (h.keeps t ht)
  adds t ht := by
    rcases h'.adds t ht with ht | ⟨v, hv, hkey⟩
    · exact (h.adds t ht).imp_right fun ⟨v, hv, hkey⟩ => ⟨v, List.mem_append_left _ hv, hkey⟩
    · exact .inr ⟨v, List.mem_append_right _ hv, hkey⟩
  has v hv := by
    rcases List.mem_append.mp hv with hv | hv
    · obtain ⟨t, ht, hkey⟩ := h.has v hv
      exact ⟨t, h'.keeps t ht, hkey⟩
    · exact h'.has v hv

/-- Only the versions matter that are there. -/
theorem congr (h : Retires package vs db db') (hsub : ∀ v, v ∈ ws ↔ v ∈ vs) :
    Retires package ws db db' where
  packages := h.packages
  keeps := h.keeps
  adds t ht := (h.adds t ht).imp_right fun ⟨v, hv, hkey⟩ => ⟨v, (hsub v).mpr hv, hkey⟩
  has v hv := h.has v ((hsub v).mp hv)

end Retires

namespace Npm

variable {package : Package} {db : Database}

theorem retire_retires (v : PackageVersion) (file : Option PackageFile) :
    Retires package [v] db (db.retire (tombstone package v file)) where
  packages := Database.retire_packages _
  keeps _ ht := Database.mem_retire ht
  adds t ht := by
    unfold Database.retire at ht
    split at ht
    · exact .inl ht
    · rcases Table.mem_put.mp ht with rfl | ⟨ht, -⟩
      · exact .inr ⟨v, List.mem_singleton_self v, rfl⟩
      · exact .inl ht
  has w hw := by
    obtain rfl := List.mem_singleton.mp hw
    exact Database.retire_mem (tombstone package w file)

theorem purgeFiles_retires (v : PackageVersion) : Retires package [] db (purgeFiles db v) where
  packages := (foldl_purgeFile_frame v.files.rows db).1
  keeps _ ht := (foldl_purgeFile_frame v.files.rows db).2.symm ▸ ht
  adds _ ht := .inl ((foldl_purgeFile_frame v.files.rows db).2 ▸ ht)
  has _ hv := absurd hv List.not_mem_nil

theorem retireVersionRow_retires (v : PackageVersion) :
    Retires package [v] db (retireVersionRow package db v) :=
  (retire_retires v (primaryFile v)).trans (purgeFiles_retires v)

theorem retireVersionRows_retires (vs : List PackageVersion) :
    Retires package vs db (vs.foldl (retireVersionRow package) db) := by
  induction vs generalizing db with
  | nil => exact .refl db
  | cons v vs ih =>
    rw [List.foldl_cons]
    exact (retireVersionRow_retires v).trans ih

/-- `unpublish_package` retires what is local. -/
theorem unpublishRows_retires (vs : List PackageVersion) :
    Retires package (vs.filter (·.isLocal)) db (vs.foldl (fun db v =>
      let db := if v.isLocal then db.retire (tombstone package v (primaryFile v)) else db
      purgeFiles db v) db) := by
  induction vs generalizing db with
  | nil => exact .refl db
  | cons v vs ih =>
    rw [List.foldl_cons, List.filter_cons]
    split
    · exact ((retire_retires v (primaryFile v)).trans (purgeFiles_retires v)).trans ih
    · exact (purgeFiles_retires v).trans ih

end Npm

/-! ### Packages that are written -/

namespace Npm

variable {package package' : Package}

/-- Tags move, and nothing else of what a publish filled. -/
structure SameVersions (package package' : Package) : Prop where
  key : package'.key = package.key
  isLocal : package'.isLocal = package.isLocal
  versions : package'.versions = package.versions

theorem foldl_applyTag_frame (tags : List (String × String)) (package : Package) :
    SameVersions package (tags.foldl applyTag package) := by
  induction tags generalizing package with
  | nil => exact ⟨rfl, rfl, rfl⟩
  | cons t tags ih =>
    obtain ⟨hkey, hlocal, hversions⟩ := ih (applyTag package t)
    exact ⟨hkey, hlocal, hversions⟩

theorem tagPackage_frame {distTags : List (String × String)} {published : List String}
    (h : tagPackage package distTags published = .ok package') : SameVersions package package' := by
  unfold tagPackage at h
  obtain ⟨tags, -, h⟩ := bind_ok h
  have hframe := foldl_applyTag_frame tags package
  dsimp only at h
  split at h
  · obtain ⟨latest, -, h⟩ := bind_ok h
    obtain rfl := Except.ok.inj h
    exact ⟨hframe.key, hframe.isLocal, hframe.versions⟩
  · obtain rfl := Except.ok.inj h
    exact hframe

theorem retagPackage_frame (removed : List String) (wanted : String) (package : Package) :
    SameVersions package (retagPackage removed wanted package) := by
  unfold retagPackage
  dsimp only
  split <;> exact ⟨rfl, rfl, rfl⟩

/-- The versions that an update keeps, with their deprecations. -/
def keptPackage (update : PackumentUpdate) (hidden : List String) (package : Package) : Package :=
  applyDeprecations update.submitted false
    (· ∈ (versionNames package).filter (survives update hidden))
    { package with versions := package.versions.filter fun v => survives update hidden v.version }

theorem updatedPackage_frame {update : PackumentUpdate} {hidden : List String}
    (h : updatedPackage update hidden package = .ok package') :
    SameVersions (keptPackage update hidden package) package' := by
  unfold updatedPackage at h
  dsimp only at h
  split at h
  · obtain rfl := Except.ok.inj h
    exact ⟨rfl, rfl, rfl⟩
  · obtain ⟨wanted, -, h⟩ := bind_ok h
    obtain rfl := Except.ok.inj h
    exact retagPackage_frame _ _ _

end Npm

/-! ### One lemma for each endpoint -/

section Endpoints

variable {r : Request} {db : Database}

theorem found_npm {package : Package} {normalized : String}
    (h : db.package? .npm normalized = some package) :
    package ∈ db.packages ∧ package.ecosystem = .npm := by
  obtain ⟨hmem, hkey⟩ := Table.find?_eq_some_iff.mp h
  exact ⟨hmem, congrArg Prod.fst hkey⟩

theorem Change.of_content {db' : Database} (h : db'.content = db.content) : Change r db db' := by
  have hpackages : db'.content.packages = db.content.packages := congrArg Database.packages h
  have hretired : db'.content.retired = db.content.retired := congrArg Database.retired h
  exact .nothing hpackages hretired

theorem setDistTag_change (name tag body : String) :
    Change r db (Npm.setDistTag r.env r.identity name tag body (.start db)).1.committed := by
  unfold Npm.setDistTag
  dsimp only
  split
  · exact .nothing rfl rfl
  · split
    · exact .nothing rfl rfl
    · exact .nothing rfl rfl
    · split
      · exact .nothing rfl rfl
      · next package hfound =>
        obtain ⟨hmem, heco⟩ := found_npm hfound
        split
        · exact .nothing rfl rfl
        · split
          · exact .nothing rfl rfl
          · next hnamed =>
            exact .tagged hmem heco (not_not.mp hnamed) rfl rfl

theorem deleteDistTag_change (name tag : String) :
    Change r db (Npm.deleteDistTag r.env r.identity name tag (.start db)).1.committed := by
  unfold Npm.deleteDistTag
  dsimp only
  split
  · exact .nothing rfl rfl
  · split
    · exact .nothing rfl rfl
    · next package hfound =>
      obtain ⟨hmem, heco⟩ := found_npm hfound
      split
      · exact .nothing rfl rfl
      · split
        · exact .nothing rfl rfl
        · exact .untagged hmem heco rfl rfl

theorem fileTarget_mem {package : Package} {filename : String} {v : PackageVersion}
    {file : PackageFile} (h : Npm.fileTarget package filename = some (v, file)) :
    v ∈ package.versions := by
  obtain ⟨w, hw, hfile⟩ := List.mem_filterMap.mp (List.mem_of_getLast? h)
  obtain ⟨f, -, hpair⟩ := Option.map_eq_some_iff.mp hfile
  obtain ⟨rfl, -⟩ := Prod.mk.inj hpair
  exact hw

theorem unpublishVersion_change {name filename : String}
    (h : r.operation = .unpublishVersion name filename) :
    Change r db (Npm.unpublishVersion r.env r.identity name filename (.start db)).1.committed := by
  unfold Npm.unpublishVersion
  split
  · exact .nothing rfl rfl
  · next package hfound =>
    split
    · split
      · split
        · exact .nothing rfl rfl
        · exact .nothing rfl rfl
      · exact .nothing rfl rfl
    · next v file htarget =>
      split
      · exact .nothing rfl rfl
      · split
        · exact .nothing rfl rfl
        · have hretires : Retires package _ db _ :=
            (Npm.retire_retires v (some file)).trans (Npm.retireVersionRow_retires v)
          refine .unpublished h hfound htarget (hretires.congr fun w => ?_)
            (congrArg (Table.put · (Npm.dropVersion package v)) hretires.packages) rfl
          simp

theorem unpublishPackage_change (name : String) :
    Change r db (Npm.unpublishPackage r.env r.identity name (.start db)).1.committed := by
  unfold Npm.unpublishPackage
  split
  · exact .nothing rfl rfl
  · next package hfound =>
    obtain ⟨hmem, heco⟩ := found_npm hfound
    split
    · exact .nothing rfl rfl
    · have hretires : Retires package _ db _ := Npm.unpublishRows_retires package.versions.rows
      exact .removed hmem heco hretires
        (congrArg (Table.filter fun p : Package => p.key ≠ package.key) hretires.packages) rfl

/-- What an update writes: the edited package, and the tombstones of what it takes out. -/
theorem storeUpdate_ok {identity : Identity} {package : Package} {update : Npm.PackumentUpdate}
    {hidden : List String} {db' : Database}
    (h : Npm.storeUpdate identity update hidden package db = .ok db') :
    ∃ updated mid, Npm.updatedPackage update hidden package = .ok updated ∧
      Retires package (package.versions.rows.filter fun v =>
        !Npm.survives update hidden v.version) db mid ∧
      db'.packages = db.packages.put updated ∧ db'.retired = mid.retired := by
  unfold Npm.storeUpdate at h
  obtain ⟨updated, hupdated, h⟩ := bind_ok h
  obtain ⟨audited, -, h⟩ := bind_ok h
  have hframe : ∀ (entries : List AuditEntry) (db : Database),
      (entries.foldl Database.recordAudit db).packages = db.packages ∧
        (entries.foldl Database.recordAudit db).retired = db.retired := by
    intro entries
    induction entries with
    | nil => exact fun db => ⟨rfl, rfl⟩
    | cons e entries ih => exact fun db => ih (db.recordAudit e)
  have hretires : Retires package _ db _ := Npm.retireVersionRows_retires
    (package.versions.rows.filter fun v => !Npm.survives update hidden v.version)
  obtain rfl := Except.ok.inj h
  exact ⟨updated, _, hupdated, hretires,
    (hframe _ _).1.trans (congrArg (Table.put · updated) hretires.packages), (hframe _ _).2⟩

theorem storeUpdate_change {package : Package} {update : Npm.PackumentUpdate} {hidden : List String}
    {db' : Database} (hmem : package ∈ db.packages) (heco : package.ecosystem = .npm)
    (hsome : (∃ v ∈ package.versions, Npm.survives update hidden v.version = false) →
      ∃ v ∈ package.versions, Npm.survives update hidden v.version = true)
    (h : Npm.storeUpdate r.identity update hidden package db = .ok db') : Change r db db' := by
  obtain ⟨updated, mid, hupdated, hretires, hpackages, hretired⟩ := storeUpdate_ok h
  exact .updated hmem heco hsome hupdated hretires hpackages hretired

theorem updatePackument_change (name : String) (body : Json) :
    Change r db (Npm.updatePackument r.env r.identity name body (.start db)).1.committed := by
  unfold Npm.updatePackument
  dsimp only
  split
  · exact .nothing rfl rfl
  · next update hparsed =>
    split
    · exact .nothing rfl rfl
    · next package hfound =>
      obtain ⟨hmem, heco⟩ := found_npm hfound
      split
      · exact .nothing rfl rfl
      · next hidden hblocked =>
        split
        · exact .nothing rfl rfl
        · split
          · exact .nothing rfl rfl
          · next hall =>
            split
            · exact .nothing rfl rfl
            · split
              · exact .nothing rfl rfl
              · split
                · next db' hstore =>
                  refine storeUpdate_change hmem heco ?_ hstore
                  rintro ⟨v, hv, hgone⟩
                  by_contra hnone
                  push Not at hnone
                  refine hall ?_
                  rw [List.filter_eq_self.mpr fun w hw => by simpa using hnone w hw]
                  simp [List.ne_nil_of_mem hv]
                · exact .nothing rfl rfl

/-- The rows that a publish stores, in the order of the document. -/
theorem storeVersions_rows {name : String} {staged : List Npm.Staged} {package package' : Package}
    {db' : Database}
    (h : staged.foldlM (Npm.storeVersion r.env name) (package, db) = some (package', db')) :
    ∃ rows : List PackageVersion,
      rows.map PackageVersion.version = staged.map Npm.Staged.version ∧
      (∀ v ∈ rows, v.isLocal = true ∧ v.normalizedVersion = v.version) ∧
      package' = { package with versions := rows.foldl Table.put package.versions } ∧
      db'.packages = db.packages ∧ db'.retired = db.retired := by
  induction staged generalizing package db with
  | nil =>
    obtain ⟨rfl, rfl⟩ := Prod.mk.inj (Option.some.inj h)
    exact ⟨[], rfl, fun v hv => absurd hv List.not_mem_nil, rfl, rfl, rfl⟩
  | cons one staged ih =>
    rw [List.foldlM_cons] at h
    obtain ⟨⟨package₁, db₁⟩, hone, hrest⟩ := Option.bind_eq_some_iff.mp h
    obtain ⟨rows, hnames, hlocal, hpackage, hpackages, hretired⟩ := ih hrest
    unfold Npm.storeVersion at hone
    split at hone
    · next contentType _ =>
      obtain ⟨rfl, rfl⟩ := Prod.mk.inj (Option.some.inj hone)
      refine ⟨Npm.storedVersion r.env one (Npm.storedFile r.env name one contentType) :: rows,
        congrArg (one.version :: ·) hnames, ?_, hpackage,
        hpackages.trans (Database.retainBlob_packages _),
        hretired.trans (Database.retainBlob_retired _)⟩
      intro v hv
      rcases List.mem_cons.mp hv with rfl | hv
      · exact ⟨rfl, rfl⟩
      · exact hlocal v hv
    · cases hone

theorem stageVersion_version {normalized : String} {existing : List String}
    {parsed : NpmPublish.PublishRequest} {entry : String × List (String × Json)}
    {one : Npm.Staged}
    (h : Npm.stageVersion r.env normalized existing parsed entry = .ok one) :
    one.version = entry.1 ∧ entry.1 ∉ existing := by
  unfold Npm.stageVersion at h
  dsimp only at h
  split at h
  · cases h
  · next hfresh =>
    obtain ⟨attachment, -, h⟩ := bind_ok h
    split at h
    · obtain ⟨u, -, h⟩ := bind_ok h
      obtain ⟨verdict, -, h⟩ := bind_ok h
      split at h
      · cases h
      · obtain rfl := Except.ok.inj h
        exact ⟨rfl, hfresh⟩
    · cases h

theorem authorizeVersions_ok {env : RegistryEnv} {identity : Identity} {normalized : String}
    {parsed : NpmPublish.PublishRequest} {grant : PublishGrant}
    (h : Npm.authorizeVersions env identity normalized parsed db = .ok grant) :
    grant.package = db.package? .npm (env.normalizedFor .npm parsed.name) ∧
      ∀ e ∈ parsed.versions, ∀ t ∈ db.retired, t.ecosystem = .npm →
        t.normalizedName = normalized → t.normalizedVersion ≠ e.1 := by
  unfold Npm.authorizeVersions at h
  obtain ⟨granted, hgranted, h⟩ := bind_ok h
  obtain ⟨u, hloop, h⟩ := bind_ok h
  obtain rfl := Except.ok.inj h
  refine ⟨authorizePublish_package hgranted, fun e he t ht heco hname => ?_⟩
  exact assertNotRetired_ok (forIn_ok hloop e he) t ht heco hname

theorem handlePublish_change {name : String} {body : Json} {parsed : NpmPublish.PublishRequest}
    (hop : r.operation = .publish name body)
    (hparse : NpmPublish.parsePublishDocument r.env.codec body name = .ok parsed) :
    Change r db (Npm.handlePublish r.env r.identity parsed (.start db)).1.committed := by
  unfold Npm.handlePublish
  dsimp only
  split
  · exact .nothing rfl rfl
  · next grant hgrant =>
    obtain ⟨hpackage, hretired⟩ := authorizeVersions_ok hgrant
    split
    · exact .nothing rfl rfl
    · exact .nothing rfl rfl
    · exact .nothing rfl rfl
    · next staged hstaged =>
      split
      · next db' hstore =>
        have hnames : staged.map Npm.Staged.version = parsed.versions.map Prod.fst :=
          mapM_map hstaged fun e one hone => (stageVersion_version hone).1
        have hfresh : ∀ old, grant.package = some old →
            ∀ e ∈ parsed.versions, e.1 ∉ Npm.versionNames old := by
          intro old hold e he
          obtain ⟨one, hone⟩ := mapM_returns hstaged e he
          have hnot := (stageVersion_version hone).2
          rwa [hold] at hnot
        unfold Npm.storePublish at hstore
        obtain ⟨⟨filled, db₁⟩, hfill, hstore⟩ := Option.bind_eq_some_iff.mp hstore
        obtain ⟨tagged, htagged, hstore⟩ := Option.bind_eq_some_iff.mp hstore
        obtain rfl := Option.some.inj hstore
        obtain ⟨rows, hrows, hlocal, rfl, hpackages, hkept⟩ := storeVersions_rows hfill
        have htagged := toOption_ok htagged
        rw [hnames] at htagged
        have hput := congrArg (Table.put · tagged) hpackages
        split at htagged
        · exact .published hop hparse hpackage hfresh hretired (hrows.trans hnames) hlocal htagged
            hput hkept
        · exact .published hop hparse hpackage hfresh hretired (hrows.trans hnames) hlocal htagged
            hput hkept
      · exact .nothing rfl rfl

theorem handleDeprecate_change (parsed : NpmPublish.PublishRequest) :
    Change r db (Npm.handleDeprecate r.env r.identity parsed (.start db)).1.committed := by
  unfold Npm.handleDeprecate
  split
  · exact .nothing rfl rfl
  · next package hfound =>
    obtain ⟨hmem, heco⟩ := found_npm hfound
    split
    · exact .nothing rfl rfl
    · exact .deprecated hmem heco rfl rfl

theorem publish_change {name : String} {body : Json} (hop : r.operation = .publish name body) :
    Change r db (Npm.publish r.env r.identity name body (.start db)).1.committed := by
  unfold Npm.publish
  split
  · exact .nothing rfl rfl
  · exact .nothing rfl rfl
  · next parsed hparse =>
    split
    · exact .nothing rfl rfl
    · split
      · exact .nothing rfl rfl
      · split
        · exact handleDeprecate_change parsed
        · split
          · exact .nothing rfl rfl
          · exact handlePublish_change hop hparse

/-- An npm publish that is accepted was granted. -/
theorem publish_ok {env : RegistryEnv} {identity : Identity} {name : String} {body : Json}
    {parsed : NpmPublish.PublishRequest}
    (hparse : NpmPublish.parsePublishDocument env.codec body name = .ok parsed)
    (hintent : parsed.intent ≠ .deprecate)
    (h : (Npm.publish env identity name body (.start db)).2 = .ok) :
    ∃ grant, Npm.authorizeVersions env identity (env.normalizedFor .npm parsed.name) parsed db =
      .ok grant := by
  unfold Npm.publish at h
  rw [hparse] at h
  dsimp only at h
  split at h
  · cases h
  · split at h
    · cases h
    · split at h
      · cases h
      · unfold Npm.handlePublish at h
        dsimp only at h
        split at h
        · cases h
        · next grant hgrant => exact ⟨grant, hgrant⟩

theorem authorizeUpload_ok {normalized : String} {request : PypiPublish.UploadRequest}
    {grant : PublishGrant}
    (h : Pypi.authorizeUpload r.env r.identity normalized request db = .ok grant) :
    ∀ t ∈ db.retired, t.ecosystem = .pypi → t.normalizedName = normalized →
      r.env.pep440.equal t.normalizedVersion (r.env.pep440.normalize request.version) = false := by
  unfold Pypi.authorizeUpload at h
  obtain ⟨granted, -, h⟩ := bind_ok h
  obtain ⟨u, hnot, -⟩ := bind_ok h
  exact assertNotRetired_ok hnot

theorem openPackage_key {ecosystem : Ecosystem} (name : String) {normalized : String}
    {grant : PublishGrant} (h : grant.package = db.package? ecosystem normalized) :
    (openPackage ecosystem name normalized grant).key = (ecosystem, normalized) := by
  rcases hfound : db.package? ecosystem normalized with _ | package
  · unfold openPackage
    rw [h, hfound]
    rfl
  · obtain ⟨-, hkey⟩ := Table.find?_eq_some_iff.mp hfound
    unfold openPackage
    rw [h, hfound]
    exact hkey

theorem upload_change {form : Pypi.UploadForm} (hop : r.operation = .upload form) :
    Change r db (Pypi.upload r.env r.identity form (.start db)).1.committed := by
  unfold Pypi.upload
  split
  · exact .nothing rfl rfl
  · next request metadata hread =>
    dsimp only
    split
    · exact .nothing rfl rfl
    · split
      · exact .nothing rfl rfl
      · split
        · exact .nothing rfl rfl
        · next grant hgrant =>
          have hpackage := authorizeUpload_package hgrant
          unfold Pypi.fileUpload
          dsimp only
          split
          · exact .opened hpackage rfl rfl
          · next hmirrored =>
            split
            · exact .nothing rfl rfl
            · split
              · exact .nothing rfl rfl
              · split
                · exact .nothing rfl rfl
                · split
                  · exact .nothing rfl rfl
                  · refine .uploaded hop hread hpackage (authorizeUpload_ok hgrant) rfl hmirrored
                      ((congrArg (Table.put · _) (Database.retainBlob_packages _)).trans
                        (Table.put_put ?_)) (Database.retainBlob_retired _)
                    rfl

end Endpoints

/-- **What a request can do.** -/
theorem Request.change (r : Request) (db : Database) : Change r db (r.after db) := by
  unfold Request.after Request.handle
  split
  · next hop => exact publish_change hop
  · next hop => exact upload_change hop
  · exact setDistTag_change _ _ _
  · exact deleteDistTag_change _ _
  · exact updatePackument_change _ _
  · next hop => exact unpublishVersion_change hop
  · exact unpublishPackage_change _
  · next hop =>
    split
    · next hstored => exact .refreshed hop hstored
    · exact .nothing rfl rfl

/-! ## Publishes of `demo` -/

/-- One version of `demo`, which becomes `latest`. -/
def demoDocument (version : String) : Json :=
  .obj
    [("name", .str "demo"), ("versions", .obj [(version, .obj [])]),
      ("dist-tags", .obj [("latest", .str version)]),
      ("_attachments", .obj [("demo.tgz", .obj [("data", .str "AQ==")])])]

def demoPublish (version : String) : Request where
  env := { demoEnv with codec := { demoEnv.codec with b64decode := fun _ => some [1] } }
  identity := { userId := some 1 }
  operation := .publish "demo" (demoDocument version)

end Minireg
