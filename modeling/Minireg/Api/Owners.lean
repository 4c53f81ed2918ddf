import Minireg.Api.Requests

/-!
# Owners

A package keeps its owner for as long as it is there, and what is in it is changed only by whom
`authorize_mutation` lets, or by the publish that makes a reserved name of an upstream local.
`Guarded` says of a request what `Change` leaves out: who was asked before the package was
written.
-/

namespace Minireg

open Py Lib

/-! ## Who may change a package -/

theorem authorizeMutation_ok_iff {p : Package} {identity : Identity} {action : String} {u : Unit} :
    authorizeMutation p identity action = .ok u ↔
      identity.administers = true ∨
        (p.isLocal = true ∧ (p.ownerUserId = none ∨ p.ownerUserId = identity.userId)) := by
  unfold authorizeMutation
  cases hlocal : p.isLocal <;> cases hadmin : identity.administers <;>
    cases howner : p.ownerUserId <;> simp

/-- What a grant of a publish says about the package it is for. -/
theorem authorizePublish_granted {env : OwnershipEnv} {db : Database} {ecosystem : Ecosystem}
    {displayName : String} {identity : Identity} {grant : PublishGrant} {p : Package}
    (h : authorizePublish env db ecosystem displayName identity = .ok grant)
    (hp : grant.package = some p) :
    (∃ action, authorizeMutation p identity action = .ok ()) ∨
      (p.isLocal = false ∧ grant.ownerUserId = identity.userId ∧
        matchesNamespace env (normalizeNameFor env.caseMap ecosystem displayName)
          (namespacePatterns env ecosystem) = true) := by
  have hfound := (authorizePublish_package h).symm.trans hp
  unfold authorizePublish at h
  dsimp only at h
  rw [hfound] at h
  dsimp only at h
  split at h
  · next hmirrored =>
    split at h
    · cases h
    · next hreserved =>
      obtain rfl := Except.ok.inj h
      exact .inr ⟨by simpa using hmirrored, rfl, by simpa using hreserved⟩
  · next hlocal =>
    have hlocal : p.isLocal = true := by simpa using hlocal
    refine .inl ⟨"publish", authorizeMutation_ok_iff.mpr ?_⟩
    split at h
    · next hnone => exact .inr ⟨hlocal, .inl hnone⟩
    · next owner howner =>
      split at h
      · cases h
      · next hmay =>
        by_cases hadmin : identity.administers = true
        · exact .inl hadmin
        · refine .inr ⟨hlocal, .inr ?_⟩
          simpa [hadmin, howner] using hmay

/-! ## What a request asks before it writes -/

/-- The row of a package, by key, owner and whether it is local. -/
structure SameOwner (p p' : Package) : Prop where
  key : p'.key = p.key
  isLocal : p'.isLocal = p.isLocal
  ownerUserId : p'.ownerUserId = p.ownerUserId

namespace SameOwner

variable {p p' p'' : Package}

theorem refl (p : Package) : SameOwner p p := ⟨rfl, rfl, rfl⟩

theorem trans (h : SameOwner p p') (h' : SameOwner p' p'') : SameOwner p p'' :=
  ⟨h'.key.trans h.key, h'.isLocal.trans h.isLocal, h'.ownerUserId.trans h.ownerUserId⟩

end SameOwner

/-- A request writes nothing, a package it was let change, or the package of a granted publish. -/
inductive Guarded (r : Request) (db db' : Database) : Prop where
  | nothing (packages : db'.packages = db.packages)
  | written {package package' : Package} {action : String} (found : package ∈ db.packages)
      (granted : authorizeMutation package r.identity action = .ok ())
      (packages : db'.packages = db.packages.put package') (frame : SameOwner package package')
  | removed {package : Package} {action : String} (found : package ∈ db.packages)
      (granted : authorizeMutation package r.identity action = .ok ())
      (packages : db'.packages = db.packages.filter (·.key ≠ package.key))
  | filled {ecosystem : Ecosystem} {name : String} {grant : PublishGrant} {package' : Package}
      (granted : authorizePublish r.env.ownership db ecosystem name r.identity = .ok grant)
      (packages : db'.packages = db.packages.put package')
      (frame : SameOwner
        (openPackage ecosystem name (r.env.normalizedFor ecosystem name) grant) package')
  | refreshed {ecosystem : Ecosystem} {table : UpstreamTable} {name : String}
      {resolution : Resolution}
      (operation : r.operation = .refresh ecosystem table name resolution)
      (stored : refresh r.env ecosystem table name resolution db = some db')

/-! ### Packages that are written -/

namespace Npm

variable {package package' : Package}

theorem foldl_applyTag_owner (tags : List (String × String)) (package : Package) :
    SameOwner package (tags.foldl applyTag package) := by
  induction tags generalizing package with
  | nil => exact .refl package
  | cons t tags ih =>
    have hone : SameOwner package (applyTag package t) := ⟨rfl, rfl, rfl⟩
    exact hone.trans (ih (applyTag package t))

theorem tagPackage_owner {distTags : List (String × String)} {published : List String}
    (h : tagPackage package distTags published = .ok package') : SameOwner package package' := by
  unfold tagPackage at h
  obtain ⟨tags, -, h⟩ := bind_ok h
  have hframe := foldl_applyTag_owner tags package
  dsimp only at h
  split at h
  · obtain ⟨latest, -, h⟩ := bind_ok h
    obtain rfl := Except.ok.inj h
    exact hframe.trans ⟨rfl, rfl, rfl⟩
  · obtain rfl := Except.ok.inj h
    exact hframe

theorem updatedPackage_owner {update : PackumentUpdate} {hidden : List String}
    (h : updatedPackage update hidden package = .ok package') : SameOwner package package' := by
  unfold updatedPackage at h
  dsimp only at h
  split at h
  · obtain rfl := Except.ok.inj h
    exact ⟨rfl, rfl, rfl⟩
  · obtain ⟨wanted, -, h⟩ := bind_ok h
    obtain rfl := Except.ok.inj h
    unfold retagPackage
    dsimp only
    split <;> exact ⟨rfl, rfl, rfl⟩

theorem storeUpdate_packages {identity : Identity} {update : PackumentUpdate}
    {hidden : List String} {db db' : Database}
    (h : storeUpdate identity update hidden package db = .ok db') :
    ∃ updated, SameOwner package updated ∧ db'.packages = db.packages.put updated := by
  obtain ⟨updated, mid, hupdated, -, hpackages, -⟩ := storeUpdate_ok h
  exact ⟨updated, updatedPackage_owner hupdated, hpackages⟩

end Npm

/-! ### One lemma for each endpoint -/

section Endpoints

variable {r : Request} {db : Database}

theorem setDistTag_guarded (name tag body : String) :
    Guarded r db (Npm.setDistTag r.env r.identity name tag body (.start db)).1.committed := by
  unfold Npm.setDistTag
  dsimp only
  split
  · exact .nothing rfl
  · split
    · exact .nothing rfl
    · exact .nothing rfl
    · split
      · exact .nothing rfl
      · next package hfound =>
        split
        · exact .nothing rfl
        · next hgranted =>
          split
          · exact .nothing rfl
          · exact .written (found_npm hfound).1 hgranted rfl ⟨rfl, rfl, rfl⟩

theorem deleteDistTag_guarded (name tag : String) :
    Guarded r db (Npm.deleteDistTag r.env r.identity name tag (.start db)).1.committed := by
  unfold Npm.deleteDistTag
  dsimp only
  split
  · exact .nothing rfl
  · split
    · exact .nothing rfl
    · next package hfound =>
      split
      · exact .nothing rfl
      · next hgranted =>
        split
        · exact .nothing rfl
        · exact .written (found_npm hfound).1 hgranted rfl ⟨rfl, rfl, rfl⟩

theorem unpublishVersion_guarded (name filename : String) :
    Guarded r db (Npm.unpublishVersion r.env r.identity name filename (.start db)).1.committed := by
  unfold Npm.unpublishVersion
  split
  · exact .nothing rfl
  · next package hfound =>
    split
    · split
      · split
        · exact .nothing rfl
        · exact .nothing rfl
      · exact .nothing rfl
    · next v file htarget =>
      split
      · exact .nothing rfl
      · split
        · exact .nothing rfl
        · next hgranted =>
          have hretires : Retires package _ db _ :=
            (Npm.retire_retires v (some file)).trans (Npm.retireVersionRow_retires v)
          exact .written (found_npm hfound).1 hgranted
            (congrArg (Table.put · (Npm.dropVersion package v)) hretires.packages) ⟨rfl, rfl, rfl⟩

theorem unpublishPackage_guarded (name : String) :
    Guarded r db (Npm.unpublishPackage r.env r.identity name (.start db)).1.committed := by
  unfold Npm.unpublishPackage
  split
  · exact .nothing rfl
  · next package hfound =>
    split
    · exact .nothing rfl
    · next hgranted =>
      have hretires : Retires package _ db _ := Npm.unpublishRows_retires package.versions.rows
      exact .removed (found_npm hfound).1 hgranted
        (congrArg (Table.filter fun p : Package => p.key ≠ package.key) hretires.packages)

theorem updatePackument_guarded (name : String) (body : Json) :
    Guarded r db (Npm.updatePackument r.env r.identity name body (.start db)).1.committed := by
  unfold Npm.updatePackument
  dsimp only
  split
  · exact .nothing rfl
  · split
    · exact .nothing rfl
    · next package hfound =>
      split
      · exact .nothing rfl
      · split
        · exact .nothing rfl
        · split
          · exact .nothing rfl
          · split
            · exact .nothing rfl
            · next hgranted =>
              split
              · exact .nothing rfl
              · split
                · next db' hstore =>
                  obtain ⟨updated, hframe, hpackages⟩ := Npm.storeUpdate_packages hstore
                  exact .written (found_npm hfound).1 hgranted hpackages hframe
                · exact .nothing rfl

theorem handleDeprecate_guarded (parsed : NpmPublish.PublishRequest) :
    Guarded r db (Npm.handleDeprecate r.env r.identity parsed (.start db)).1.committed := by
  unfold Npm.handleDeprecate
  split
  · exact .nothing rfl
  · next package hfound =>
    split
    · exact .nothing rfl
    · next hgranted => exact .written (found_npm hfound).1 hgranted rfl ⟨rfl, rfl, rfl⟩

theorem handlePublish_guarded (parsed : NpmPublish.PublishRequest) :
    Guarded r db (Npm.handlePublish r.env r.identity parsed (.start db)).1.committed := by
  unfold Npm.handlePublish
  dsimp only
  split
  · exact .nothing rfl
  · next grant hgrant =>
    unfold Npm.authorizeVersions at hgrant
    obtain ⟨granted, hgranted, hgrant⟩ := bind_ok hgrant
    obtain ⟨u, -, hgrant⟩ := bind_ok hgrant
    obtain rfl := Except.ok.inj hgrant
    split
    · exact .nothing rfl
    · exact .nothing rfl
    · exact .nothing rfl
    · split
      · next db' hstore =>
        unfold Npm.storePublish at hstore
        obtain ⟨⟨filled, db₁⟩, hfill, hstore⟩ := Option.bind_eq_some_iff.mp hstore
        obtain ⟨tagged, htagged, hstore⟩ := Option.bind_eq_some_iff.mp hstore
        obtain rfl := Option.some.inj hstore
        obtain ⟨rows, -, -, rfl, hpackages, -⟩ := storeVersions_rows hfill
        refine .filled hgranted (congrArg (Table.put · tagged) hpackages)
          (SameOwner.trans ?_ (Npm.tagPackage_owner (toOption_ok htagged)))
        split <;> exact ⟨rfl, rfl, rfl⟩
      · exact .nothing rfl

theorem publish_guarded (name : String) (body : Json) :
    Guarded r db (Npm.publish r.env r.identity name body (.start db)).1.committed := by
  unfold Npm.publish
  split
  · exact .nothing rfl
  · exact .nothing rfl
  · next parsed hparse =>
    split
    · exact .nothing rfl
    · split
      · exact .nothing rfl
      · split
        · exact handleDeprecate_guarded parsed
        · split
          · exact .nothing rfl
          · exact handlePublish_guarded parsed

theorem upload_guarded (form : Pypi.UploadForm) :
    Guarded r db (Pypi.upload r.env r.identity form (.start db)).1.committed := by
  unfold Pypi.upload
  split
  · exact .nothing rfl
  · next request metadata hread =>
    dsimp only
    split
    · exact .nothing rfl
    · split
      · exact .nothing rfl
      · split
        · exact .nothing rfl
        · next grant hgrant =>
          unfold Pypi.authorizeUpload at hgrant
          obtain ⟨granted, hgranted, hgrant⟩ := bind_ok hgrant
          obtain ⟨u, -, hgrant⟩ := bind_ok hgrant
          obtain rfl := Except.ok.inj hgrant
          unfold Pypi.fileUpload
          dsimp only
          split
          -- a release of an upstream is refused, and the name stays opened
          · exact .filled hgranted rfl (.refl _)
          · split
            · exact .nothing rfl
            · split
              · exact .nothing rfl
              · split
                · exact .nothing rfl
                · split
                  · exact .nothing rfl
                  · exact .filled hgranted
                      ((congrArg (Table.put · _) (Database.retainBlob_packages _)).trans
                        (Table.put_put rfl)) ⟨rfl, rfl, rfl⟩

end Endpoints

/-- **Who a request asks.** -/
theorem Request.guarded (r : Request) (db : Database) : Guarded r db (r.after db) := by
  unfold Request.after Request.handle
  split
  · exact publish_guarded _ _
  · exact upload_guarded _
  · exact setDistTag_guarded _ _ _
  · exact deleteDistTag_guarded _ _
  · exact updatePackument_guarded _ _
  · exact unpublishVersion_guarded _ _
  · exact unpublishPackage_guarded _
  · next hop =>
    split
    · next hstored => exact .refreshed hop hstored
    · exact .nothing rfl

/-! ## What a request leaves -/

/-- The row of a package later: it stays local, and an owner stays. -/
structure KeepsOwner (p p' : Package) : Prop where
  key : p'.key = p.key
  isLocal : p.isLocal = true → p'.isLocal = true
  ownerUserId : ∀ owner, p.ownerUserId = some owner → p'.ownerUserId = some owner

namespace KeepsOwner

variable {p p' p'' : Package}

theorem refl (p : Package) : KeepsOwner p p := ⟨rfl, id, fun _ => id⟩

theorem trans (h : KeepsOwner p p') (h' : KeepsOwner p' p'') : KeepsOwner p p'' :=
  ⟨h'.key.trans h.key, fun hl => h'.isLocal (h.isLocal hl),
    fun owner ho => h'.ownerUserId owner (h.ownerUserId owner ho)⟩

theorem of_sameOwner (h : SameOwner p p') : KeepsOwner p p' :=
  ⟨h.key, h.isLocal.trans, fun _ => h.ownerUserId.trans⟩

end KeepsOwner

section Step

variable {r : Request} {db db' : Database} {p : Package}

/-- The package that a granted publish opens is the one that was there. -/
theorem openPackage_keeps {ecosystem : Ecosystem} {name : String} {grant : PublishGrant}
    (hgrant : authorizePublish r.env.ownership db ecosystem name r.identity = .ok grant)
    (hp : p ∈ db.packages)
    (hkey : p.key = (openPackage ecosystem name (r.env.normalizedFor ecosystem name) grant).key) :
    grant.package = some p ∧
      KeepsOwner p (openPackage ecosystem name (r.env.normalizedFor ecosystem name) grant) := by
  have hpackage : grant.package = db.package? ecosystem (r.env.normalizedFor ecosystem name) :=
    authorizePublish_package hgrant
  have hfound : grant.package = some p := by
    rw [openPackage_key name hpackage] at hkey
    exact hpackage.trans (Table.find?_eq_some_iff.mpr ⟨hp, hkey⟩)
  refine ⟨hfound, hkey.symm, fun _ => rfl, fun owner howner => ?_⟩
  unfold openPackage
  simp [hfound, howner]

theorem pruneUnsourced_owner (nm : Naming) (table : UpstreamTable) (ecosystem : Ecosystem)
    (package : Package) (answer : Option (RemotePackage × Int)) :
    SameOwner package (pruneUnsourced nm table ecosystem package answer).1 := by
  unfold pruneUnsourced
  dsimp only
  split <;> exact ⟨rfl, rfl, rfl⟩

theorem persist_owner {nm : Naming} {ecosystem : Ecosystem} {remote : RemotePackage}
    {upstream : Option Upstream} {name : Option String} {validators : Option Validators}
    {now : Time} {persisted : Package}
    (h : persistRemotePackage nm ecosystem (some p) remote upstream name validators now =
      .ok persisted) : SameOwner p persisted := by
  unfold persistRemotePackage at h
  extract_lets requested displayName normalized upstreamId package keywords versions latest at h
  split at h
  · cases h
  · obtain rfl := Except.ok.inj h
    exact ⟨rfl, rfl, rfl⟩

/-- A refresh writes the row that was there. -/
theorem refresh_owner {ecosystem : Ecosystem} {table : UpstreamTable} {name : String}
    {resolution : Resolution} (h : refresh r.env ecosystem table name resolution db = some db') :
    db'.packages = db.packages ∨ ∃ package, db'.packages = db.packages.put package ∧
      ∀ p ∈ db.packages, p.key = package.key → SameOwner p package := by
  rcases (refresh_change h).1 with hpackages | ⟨-, hfound, hpruned, -, hpackages⟩ |
    ⟨-, -, hpersists, hkeyed, -, hpruned, -, hpackages⟩
  · exact .inl hpackages
  · next table stored package cachedAt purged changed =>
    refine .inr ⟨package, hpackages, fun p hp hkey => ?_⟩
    have hframe := pruneUnsourced_owner r.env.naming table ecosystem
      { stored with cachedAt := cachedAt } none
    rw [hpruned] at hframe
    obtain ⟨hmem, -⟩ := Table.find?_eq_some_iff.mp hfound
    obtain rfl := Table.eq_of_key hp hmem (hkey.trans hframe.key)
    exact ⟨hframe.key, hframe.isLocal, hframe.ownerUserId⟩
  · next table normalized persisted package remote upstream validators tier purged changed =>
    refine .inr ⟨package, hpackages, fun p hp hkey => ?_⟩
    have hframe := pruneUnsourced_owner r.env.naming table ecosystem persisted (some (remote, tier))
    rw [hpruned] at hframe
    have hstored : db.package? ecosystem normalized = some p :=
      Table.find?_eq_some_iff.mpr ⟨hp, hkey.trans (hframe.key.trans hkeyed)⟩
    rw [hstored] at hpersists
    exact (persist_owner hpersists).trans hframe

/-- A package that is still there after a request has its owner. -/
theorem Guarded.keepsOwner (h : Guarded r db db') (hp : p ∈ db.packages)
    (hheld : ∃ q ∈ db'.packages, q.key = p.key) :
    ∃ p' ∈ db'.packages, KeepsOwner p p' := by
  have hput : ∀ package, db'.packages = db.packages.put package →
      (p.key = package.key → KeepsOwner p package) → ∃ p' ∈ db'.packages, KeepsOwner p p' := by
    intro package hpackages hkeeps
    rw [hpackages]
    by_cases hkey : p.key = package.key
    · exact ⟨package, Table.mem_put.mpr (.inl rfl), hkeeps hkey⟩
    · exact ⟨p, Table.mem_put.mpr (.inr ⟨hp, hkey⟩), .refl p⟩
  cases h with
  | nothing hpackages => exact ⟨p, hpackages ▸ hp, .refl p⟩
  | @written package package' _ hfound _ hpackages hframe =>
    refine hput package' hpackages fun hkey => .of_sameOwner ?_
    rwa [Table.eq_of_key hp hfound (hkey.trans hframe.key)]
  | removed _ _ hpackages =>
    obtain ⟨q, hq, hkey⟩ := hheld
    rw [hpackages] at hq ⊢
    obtain ⟨-, hne⟩ := Table.mem_filter.mp hq
    exact ⟨p, Table.mem_filter.mpr ⟨hp, hkey ▸ hne⟩, .refl p⟩
  | @filled ecosystem name grant package' hgranted hpackages hframe =>
    refine hput package' hpackages fun hkey => ?_
    exact (openPackage_keeps hgranted hp (hkey.trans hframe.key)).2.trans (.of_sameOwner hframe)
  | refreshed _ hstored =>
    rcases refresh_owner hstored with hpackages | ⟨package, hpackages, hsame⟩
    · exact ⟨p, hpackages ▸ hp, .refl p⟩
    · exact hput package hpackages fun hkey => .of_sameOwner (hsame p hp hkey)

/-- The package is there, with its versions, their files and its tags. -/
def Package.Untouched (p : Package) (db : Database) : Prop :=
  ∃ p' ∈ db.packages, p'.key = p.key ∧ p'.versions = p.versions ∧ p'.distTags = p.distTags

/-- The package was a mirrored one, whose name is reserved, and is the requester's now. -/
def Request.Adopts (r : Request) (p : Package) (db' : Database) : Prop :=
  p.isLocal = false ∧
    matchesNamespace r.env.ownership p.normalizedName
      (namespacePatterns r.env.ownership p.ecosystem) = true ∧
    ∃ p' ∈ db'.packages, p'.key = p.key ∧ p'.isLocal = true ∧
      (p.ownerUserId = none → p'.ownerUserId = r.identity.userId)

/-- What a request changes in a package, it was let change, or it made the package its own. -/
theorem Guarded.untouched (h : Guarded r db db') (hp : p ∈ db.packages)
    (hrequest : ∀ ecosystem table name resolution,
      r.operation ≠ .refresh ecosystem table name resolution) :
    p.Untouched db' ∨ (∃ action, authorizeMutation p r.identity action = .ok ()) ∨
      r.Adopts p db' := by
  have hput : ∀ package, db'.packages = db.packages.put package → p.key ≠ package.key →
      p.Untouched db' := by
    intro package hpackages hkey
    exact ⟨p, hpackages ▸ Table.mem_put.mpr (.inr ⟨hp, hkey⟩), rfl, rfl, rfl⟩
  cases h with
  | nothing hpackages => exact .inl ⟨p, hpackages ▸ hp, rfl, rfl, rfl⟩
  | @written package package' action hfound hgranted hpackages hframe =>
    by_cases hkey : p.key = package'.key
    · have hsame := Table.eq_of_key hp hfound (hkey.trans hframe.key)
      exact .inr (.inl ⟨action, hsame ▸ hgranted⟩)
    · exact .inl (hput package' hpackages hkey)
  | @removed package action hfound hgranted hpackages =>
    by_cases hkey : p.key = package.key
    · exact .inr (.inl ⟨action, Table.eq_of_key hp hfound hkey ▸ hgranted⟩)
    · refine .inl ⟨p, hpackages ▸ Table.mem_filter.mpr ⟨hp, ?_⟩, rfl, rfl, rfl⟩
      simpa using hkey
  | @filled ecosystem name grant package' hgranted hpackages hframe =>
    by_cases hkey : p.key = package'.key
    · obtain ⟨hfound, -⟩ := openPackage_keeps hgranted hp (hkey.trans hframe.key)
      rcases authorizePublish_granted hgranted hfound with hmay | ⟨hmirrored, howner, hreserved⟩
      · exact .inr (.inl hmay)
      · have hp' := (openPackage_key name (authorizePublish_package hgranted)).symm.trans
          (hframe.key.symm.trans hkey.symm)
        obtain ⟨heco, hname⟩ := Prod.mk.inj hp'
        refine .inr (.inr ⟨hmirrored, ?_, package', hpackages ▸ Table.mem_put.mpr (.inl rfl),
          hkey.symm, hframe.isLocal, fun hnone => ?_⟩)
        · rw [← hname, ← heco]
          exact hreserved
        · rw [hframe.ownerUserId]
          unfold openPackage
          simp [hfound, hnone, howner]
    · exact .inl (hput package' hpackages hkey)
  | refreshed hop _ => exact absurd hop (hrequest _ _ _ _)

end Step

/-! ## Runs -/

/-- The tables after requests, one after the other. -/
def Database.runs (db : Database) (requests : List Request) : Database :=
  requests.foldl (fun db r => r.after db) db

theorem runs_concat (db : Database) (requests : List Request) (r : Request) :
    db.runs (requests ++ [r]) = r.after (db.runs requests) :=
  List.foldl_concat _ db r requests

/-- The package is owned by this user. -/
def Database.OwnedBy (db : Database) (key : Ecosystem × String) (owner : Nat) : Prop :=
  ∃ p ∈ db.packages, p.key = key ∧ p.isLocal = true ∧ p.ownerUserId = some owner

/-- A package that none of the requests removes keeps its owner. -/
theorem runs_ownedBy {db : Database} {key : Ecosystem × String} {owner : Nat}
    (howned : db.OwnedBy key owner) (requests : List Request)
    (hheld : ∀ before, before <+: requests → ∃ p ∈ (db.runs before).packages, p.key = key) :
    (db.runs requests).OwnedBy key owner := by
  induction requests using List.reverseRecOn with
  | nil => exact howned
  | append_singleton requests r ih =>
    obtain ⟨p, hp, rfl, hlocal, howner⟩ :=
      ih fun before hbefore => hheld before (hbefore.trans (List.prefix_append _ _))
    have hstill := hheld _ (List.prefix_refl _)
    rw [runs_concat] at hstill ⊢
    obtain ⟨p', hp', hkeeps⟩ := (r.guarded _).keepsOwner hp hstill
    exact ⟨p', hp', hkeeps.key, hkeeps.isLocal hlocal, hkeeps.ownerUserId owner howner⟩

/-- In every run of requests, an owned package keeps its owner as long as it is there, and what
another user than its owner or an administrator asks leaves its versions, files and tags. -/
theorem owners_decide (db : Database) (requests : List Request) :
    (∀ key owner, db.OwnedBy key owner →
      (∀ before, before <+: requests → ∃ p ∈ (db.runs before).packages, p.key = key) →
      (db.runs requests).OwnedBy key owner) ∧
    (∀ r : Request, (∀ ecosystem table name resolution,
        r.operation ≠ .refresh ecosystem table name resolution) →
      ∀ p ∈ (db.runs requests).packages,
        p.Untouched (db.runs (requests ++ [r])) ∨
          (∃ action, authorizeMutation p r.identity action = .ok ()) ∨
          r.Adopts p (db.runs (requests ++ [r]))) ∧
    (∀ (p : Package) (owner : Nat) (identity : Identity) (action : String), p.isLocal = true →
      p.ownerUserId = some owner →
      (authorizeMutation p identity action = .ok () ↔
        identity.userId = some owner ∨ identity.administers = true)) := by
  refine ⟨fun key owner howned hheld => runs_ownedBy howned requests hheld, ?_, ?_⟩
  · intro r hrequest p hp
    rw [runs_concat]
    exact (r.guarded _).untouched hp hrequest
  · intro p owner identity action hlocal howner
    rw [authorizeMutation_ok_iff, hlocal, howner]
    constructor
    · rintro (hadmin | ⟨-, hnone | huser⟩)
      · exact .inr hadmin
      · cases hnone
      · exact .inl huser.symm
    · rintro (huser | hadmin)
      · exact .inr ⟨rfl, .inr huser.symm⟩
      · exact .inl hadmin

/-- Another user publishes `demo` 1.1.0. -/
def demoIntrusion : Request := { demoPublish "1.1.0" with identity := { userId := some 2 } }

/-- `demo`, published by its owner and then by another user. -/
theorem owners_decide_demo :
    (Database.runs {} [demoPublish "1.0.0", demoIntrusion]).OwnedBy (.npm, "demo") 1 ∧
      ∃ p ∈ (Database.runs {} [demoPublish "1.0.0"]).packages,
        p.key = (.npm, "demo") ∧
          p.Untouched (Database.runs {} [demoPublish "1.0.0", demoIntrusion]) := by
  have howned : (Database.runs {} [demoPublish "1.0.0"]).OwnedBy (.npm, "demo") 1 :=
    ⟨_, List.mem_cons_self, by decide +kernel⟩
  constructor
  · have hkeeps := (owners_decide (Database.runs {} [demoPublish "1.0.0"]) [demoIntrusion]).1
      (.npm, "demo") 1 howned
    refine hkeeps fun before hbefore => ?_
    rcases List.prefix_cons_iff.mp hbefore with rfl | ⟨rest, rfl, hrest⟩
    · exact ⟨_, List.mem_cons_self, by decide +kernel⟩
    · obtain rfl := List.prefix_nil.mp hrest
      exact ⟨_, List.mem_cons_self, by decide +kernel⟩
  · obtain ⟨p, hp, hkey, hlocal, howner⟩ := howned
    obtain ⟨-, hdecides, howners⟩ := owners_decide {} [demoPublish "1.0.0"]
    refine ⟨p, hp, hkey, ?_⟩
    rcases hdecides demoIntrusion (by rintro _ _ _ _ ⟨⟩) p hp with h | ⟨action, h⟩ | ⟨h, -⟩
    · exact h
    · rcases (howners p 1 demoIntrusion.identity action hlocal howner).mp h with h | h
      · cases h
      · cases h
    · rw [hlocal] at h
      cases h

end Minireg
