import Minireg.Api.Npm
import Minireg.Api.Pypi

/-!
# Refused publishes

A publish that is refused, or fails, leaves what is committed as it was, the audit
log aside. There is one exception (`Adopts`): a PyPI upload to a release of an
upstream is refused after the package row was opened, and the record of the refusal
commits that the name is local and whose it is. `publish_refused_iff` says that
nothing else does.
-/

namespace Minireg

open Lib

/-- A publish of either kind. -/
inductive PublishCall where
  | npm (name : String) (body : Py.Json)
  | pypi (form : Pypi.UploadForm)

section

variable (env : RegistryEnv) (identity : Identity)

def PublishCall.run : PublishCall → Session → Session × Reply
  | npm name body => Npm.publish env identity name body
  | pypi form => Pypi.upload env identity form

/-- What is committed after the call. -/
def PublishCall.after (call : PublishCall) (db : Database) : Database :=
  (call.run env identity (.start db)).1.committed

def PublishCall.reply (call : PublishCall) (db : Database) : Reply :=
  (call.run env identity (.start db)).2

/-- Opening the row makes the name local, or gives it an owner. -/
def Opens (grant : PublishGrant) (package : Package) : Prop :=
  package.isLocal = false ∨ package.ownerUserId = none ∧ grant.ownerUserId ≠ none

/-- An upload that passes every check before its release is found, and whose release
is one of an upstream, in a package that the upload opens. -/
def Adopts (db : Database) : PublishCall → Prop
  | .npm _ _ => False
  | .pypi form => ∃ request metadata verdict grant package,
      Pypi.readUpload env form = .ok (request, metadata) ∧
      isNameBlocked env.policy env.engine .pypi (env.normalizedFor .pypi request.name) =
        .ok verdict ∧ verdict.allowed = true ∧
      Pypi.authorizeUpload env identity (env.normalizedFor .pypi request.name) request db =
        .ok grant ∧
      grant.package = some package ∧
      (Pypi.mirroredRow env package request.version).isSome = true ∧ Opens grant package

end

/-! ## Sessions -/

section Sessions

variable {s : Session} {db : Database}

@[simp] theorem Session.start_rollback : (Session.start db).rollback = .start db := rfl

end Sessions

/-! ## npm -/

section Npm

variable {env : RegistryEnv} {identity : Identity} {db : Database}

theorem handlePublish_unchanged {parsed : NpmPublish.PublishRequest}
    (h : (Npm.handlePublish env identity parsed (.start db)).2 ≠ .ok) :
    (Npm.handlePublish env identity parsed (.start db)).1.committed.content = db.content := by
  unfold Npm.handlePublish at h ⊢
  dsimp only at h ⊢
  split
  · rfl
  · next hgrant =>
    rw [hgrant] at h
    dsimp only at h
    split
    · rfl
    · rfl
    · rfl
    · next hstaged =>
      rw [hstaged] at h
      dsimp only at h
      split
      · next hstore =>
        rw [hstore] at h
        exact absurd rfl h
      · rfl

theorem handleDeprecate_unchanged {parsed : NpmPublish.PublishRequest}
    (h : (Npm.handleDeprecate env identity parsed (.start db)).2 ≠ .ok) :
    (Npm.handleDeprecate env identity parsed (.start db)).1.committed.content = db.content := by
  unfold Npm.handleDeprecate at h ⊢
  split
  · rfl
  · next hpackage =>
    rw [hpackage] at h
    dsimp only at h
    split
    · rfl
    · next hmay =>
      rw [hmay] at h
      exact absurd rfl h

/-- An npm publish checks everything before it changes anything. -/
theorem publish_unchanged {name : String} {body : Py.Json}
    (h : (Npm.publish env identity name body (.start db)).2 ≠ .ok) :
    (Npm.publish env identity name body (.start db)).1.committed.content = db.content := by
  unfold Npm.publish at h ⊢
  split
  · rfl
  · rfl
  · next hparsed =>
    rw [hparsed] at h
    dsimp only at h
    split
    · rfl
    · next hverdict =>
      rw [hverdict] at h
      dsimp only at h
      split
      · rfl
      · next hallowed =>
        rw [if_neg hallowed] at h
        split
        · next hintent =>
          rw [if_pos hintent] at h
          exact handleDeprecate_unchanged h
        · next hintent =>
          rw [if_neg hintent] at h
          split
          · rfl
          · next hversions =>
            rw [if_neg hversions] at h
            exact handlePublish_unchanged h

end Npm

/-! ## PyPI -/

section Pypi

variable {env : RegistryEnv} {identity : Identity} {db : Database}

/-- The row stays as it is unless the upload opens it. -/
theorem openPackage_eq_iff {grant : PublishGrant} {package : Package} {name normalized : String}
    (h : grant.package = some package) :
    openPackage .pypi name normalized grant = package ↔ ¬ Opens grant package := by
  unfold openPackage Opens
  rw [h, Option.getD_some]
  constructor
  · intro heq hopens
    rcases hopens with hlocal | ⟨howner, hgrant⟩
    · rw [← heq] at hlocal
      cases hlocal
    · have hkept := congrArg Package.ownerUserId heq
      dsimp only at hkept
      rw [if_pos howner, howner] at hkept
      exact hgrant hkept
  · intro hopens
    obtain ⟨hlocal, howner⟩ := not_or.mp hopens
    have hlocal : package.isLocal = true := by simpa using hlocal
    have howner : (if package.ownerUserId = none then grant.ownerUserId
        else package.ownerUserId) = package.ownerUserId := by
      split
      · next hnone =>
        rw [hnone]
        exact not_not.mp fun hne => howner ⟨hnone, hne⟩
      · rfl
    dsimp only
    rw [howner, ← hlocal]

theorem mirroredRow_openPackage (grant : PublishGrant) (name normalized version : String) :
    Pypi.mirroredRow env (openPackage .pypi name normalized grant) version =
      grant.package.bind fun package => Pypi.mirroredRow env package version := by
  unfold openPackage
  rcases grant.package with _ | package
  · rfl
  · rfl

/-- Writing a row back changes the database exactly if the row is new. -/
theorem putPackage_content_iff {p q : Package} (hq : q ∈ db.packages) (hkey : p.key = q.key) :
    (db.putPackage p).content = db.content ↔ p = q := by
  constructor
  · intro heq
    have hput : db.packages.put p = db.packages := congrArg Database.packages heq
    have hfind := Table.find?_put_self db.packages p
    rw [hput, hkey, Table.find?_of_mem hq] at hfind
    exact (Option.some.inj hfind).symm
  · rintro rfl
    unfold Database.putPackage Database.content
    rw [Table.put_of_mem hq]

/-- After the row is opened, only the refusal of an upstream's release commits. -/
theorem fileUpload_unchanged {normalized : String} {request : PypiPublish.UploadRequest}
    {metadata : Option NpmPublish.Bytes} {package : Package}
    (h : (Pypi.fileUpload env identity normalized request metadata package
      ((Session.start db).change fun db => db.putPackage package)).2 ≠ .ok) :
    (Pypi.fileUpload env identity normalized request metadata package
      ((Session.start db).change fun db => db.putPackage package)).1.committed.content =
        if (Pypi.mirroredRow env package request.version).isSome then
          (db.putPackage package).content
        else db.content := by
  unfold Pypi.fileUpload at h ⊢
  dsimp only at h ⊢
  split
  · next hmirrored =>
    rw [hmirrored]
    rfl
  · next hmirrored =>
    rw [hmirrored] at h ⊢
    dsimp only at h
    rw [show (if (none : Option PackageVersion).isSome = true then (db.putPackage package).content
      else db.content) = db.content from if_neg Bool.false_ne_true]
    split
    · rfl
    · next hrelease =>
      rw [hrelease] at h
      dsimp only at h
      split
      · rfl
      · next hdigests =>
        rw [hdigests] at h
        dsimp only at h
        split
        · rfl
        · next hverdict =>
          rw [hverdict] at h
          dsimp only at h
          split
          · rfl
          · next hallowed =>
            rw [if_neg hallowed] at h
            exact absurd rfl h

/-- An upload that has come this far adopts the name if its release is one of an upstream. -/
theorem adopts_iff {form : Pypi.UploadForm} {request : PypiPublish.UploadRequest}
    {metadata : Option NpmPublish.Bytes} {verdict : Verdict} {grant : PublishGrant}
    (hread : Pypi.readUpload env form = .ok (request, metadata))
    (hverdict : isNameBlocked env.policy env.engine .pypi (env.normalizedFor .pypi request.name) =
      .ok verdict) (hallowed : verdict.allowed = true)
    (hgrant : Pypi.authorizeUpload env identity (env.normalizedFor .pypi request.name) request db =
      .ok grant) :
    Adopts env identity db (.pypi form) ↔ ∃ package, grant.package = some package ∧
      (Pypi.mirroredRow env package request.version).isSome = true ∧ Opens grant package := by
  constructor
  · rintro ⟨request', metadata', verdict', grant', package, hread', -, -, hgrant', hadopts⟩
    rw [hread] at hread'
    cases hread'
    rw [hgrant] at hgrant'
    cases hgrant'
    exact ⟨package, hadopts⟩
  · rintro ⟨package, hadopts⟩
    exact ⟨request, metadata, verdict, grant, package, hread, hverdict, hallowed, hgrant, hadopts⟩

theorem authorizeUpload_package {normalized : String} {request : PypiPublish.UploadRequest}
    {grant : PublishGrant}
    (h : Pypi.authorizeUpload env identity normalized request db = .ok grant) :
    grant.package = db.package? .pypi (env.normalizedFor .pypi request.name) := by
  unfold Pypi.authorizeUpload at h
  rcases hgrant : authorizePublish env.ownership db .pypi request.name identity with e | granted
  · rw [hgrant] at h
    cases h
  · rw [hgrant] at h
    rcases hretired : assertNotRetired env.ownership db .pypi normalized
      (env.pep440.normalize request.version) with e | u
    · simp [hretired, bind, Except.bind] at h
    · have hsame : (pure granted : Except PublishDenied PublishGrant) = .ok grant := by
        simpa [hretired, bind, Except.bind] using h
      obtain rfl := Except.ok.inj hsame
      exact authorizePublish_package hgrant

/-- **A PyPI upload** that is not accepted changes nothing, unless it adopts the name. -/
theorem upload_unchanged_iff {form : Pypi.UploadForm}
    (h : (Pypi.upload env identity form (.start db)).2 ≠ .ok) :
    (Pypi.upload env identity form (.start db)).1.committed.content = db.content ↔
      ¬ Adopts env identity db (.pypi form) := by
  unfold Pypi.upload at h ⊢
  rcases hread : Pypi.readUpload env form with ⟨message, status⟩ | ⟨request, metadata⟩
  · refine iff_of_true rfl ?_
    rintro ⟨request, metadata, verdict, grant, package, hread', -⟩
    exact nomatch hread.symm.trans hread'
  rw [hread] at h
  dsimp only at h ⊢
  rcases hverdict : isNameBlocked env.policy env.engine .pypi
    (env.normalizedFor .pypi request.name) with e | verdict
  · refine iff_of_true rfl ?_
    rintro ⟨request', metadata', verdict, grant, package, hread', hverdict', -⟩
    obtain ⟨rfl, rfl⟩ := Prod.mk.inj (Except.ok.inj (hread.symm.trans hread'))
    exact nomatch hverdict.symm.trans hverdict'
  rw [hverdict] at h
  dsimp only at h ⊢
  by_cases hblocked : (!verdict.allowed) = true
  · rw [if_pos hblocked]
    refine iff_of_true rfl ?_
    rintro ⟨request', metadata', verdict', grant, package, hread', hverdict', hallowed, -⟩
    obtain ⟨rfl, rfl⟩ := Prod.mk.inj (Except.ok.inj (hread.symm.trans hread'))
    obtain rfl := Except.ok.inj (hverdict.symm.trans hverdict')
    rw [hallowed] at hblocked
    cases hblocked
  rw [if_neg hblocked] at h ⊢
  have hallowed : verdict.allowed = true := by simpa using hblocked
  have hpending : (Session.start db).pending = db := rfl
  rw [hpending] at h ⊢
  rcases hgrant : Pypi.authorizeUpload env identity (env.normalizedFor .pypi request.name) request
    db with denied | grant
  · refine iff_of_true rfl ?_
    rintro ⟨request', metadata', verdict', grant, package, hread', -, -, hgrant', -⟩
    obtain ⟨rfl, rfl⟩ := Prod.mk.inj (Except.ok.inj (hread.symm.trans hread'))
    exact nomatch hgrant.symm.trans hgrant'
  rw [hgrant] at h
  dsimp only at h ⊢
  rw [fileUpload_unchanged h, mirroredRow_openPackage, adopts_iff hread hverdict hallowed hgrant]
  rcases hpackage : grant.package with _ | package
  · refine iff_of_true rfl ?_
    rintro ⟨package, hsome, -⟩
    cases hsome
  · rw [Option.bind_some]
    have hmem := (Table.find?_eq_some_iff.mp
      ((authorizeUpload_package hgrant).symm.trans hpackage)).1
    have hkey : (openPackage .pypi request.name (env.normalizedFor .pypi request.name) grant).key =
        package.key := by
      unfold openPackage
      rw [hpackage]
      rfl
    split
    · next hmirrored =>
      rw [putPackage_content_iff hmem hkey, openPackage_eq_iff hpackage]
      refine not_congr ⟨fun hopens => ⟨package, rfl, hmirrored, hopens⟩, ?_⟩
      rintro ⟨package', hsome, -, hopens⟩
      obtain rfl := Option.some.inj hsome
      exact hopens
    · next hmirrored =>
      refine iff_of_true rfl ?_
      rintro ⟨package', hsome, hmirrored', -⟩
      obtain rfl := Option.some.inj hsome
      exact hmirrored hmirrored'

end Pypi

/-- **A publish that is refused** leaves everything but the audit log as it was, exactly
if it does not adopt the name of a mirrored release. -/
theorem publish_refused_iff (env : RegistryEnv) (identity : Identity) (db : Database)
    (call : PublishCall) (h : call.reply env identity db ≠ .ok) :
    (call.after env identity db).content = db.content ↔ ¬ Adopts env identity db call := by
  cases call with
  | npm name body => exact iff_of_true (publish_unchanged h) id
  | pypi form => exact upload_unchanged_iff h

/-! ## A refused upload to a mirrored release -/

/-- An environment for uploads of `demo`, whose namespace is reserved. -/
def demoEnv : RegistryEnv where
  codec :=
    { caseMap := .ascii
      str := fun _ => ""
      b64decode := fun _ => none
      b64encode := fun _ => ""
      hash := fun _ data => data
      hex := fun data => String.ofList (data.map fun b => Char.ofNat b.toNat)
      hasBindingGyp := fun _ => false
      maxPublishBytes := 1000 }
  pep440 :=
    { key? := fun v => if v = "1.0" then some "1" else none
      canonical := id
      legacy := id }
  sqlLower := Py.CaseMap.ascii.lower
  floatText := fun _ => ""
  sortPypiVersions := id
  specifierContains := fun _ _ => none
  parseWheelFilename := fun _ => none
  parseSdistFilename := fun f => if f = "demo-1.0.tar.gz" then some ("demo", "1.0") else none
  openWheel := fun _ => .error "File is not a zip file"
  parseMetadata := fun _ => []
  namespaces := fun _ => ["demo"]
  resolution := fun _ _ => (false, .ok none)
  inlineScan := fun _ _ _ => {}
  engine := {}
  now := 0

/-- `demo` 1.0, as an upstream serves it or as it was published here. -/
def demoDatabase (isLocal : Bool) : Database where
  packages := ⟨[
    { ecosystem := .pypi, name := "demo", normalizedName := "demo"
      isLocal := isLocal
      ownerUserId := if isLocal then some 1 else none
      versions := ⟨[
        { version := "1.0", normalizedVersion := "1.0", isLocal := isLocal
          files := ⟨[{ filename := "demo-1.0.tar.gz", packagetype := some "sdist" }], by decide⟩ }],
        List.nodup_singleton _⟩ }], List.nodup_singleton _⟩

def demoUpload : PublishCall :=
  .pypi
    { fields := [("name", .one "demo"), ("version", .one "1.0")]
      filename := "demo-1.0.tar.gz"
      content := [1] }

/-- The upload is refused, and the mirrored package is local and owned from then on. -/
theorem publish_refused_adopts :
    demoUpload.reply demoEnv { userId := some 1 } (demoDatabase false) = .refused 403
      "demo 1.0 is mirrored from an upstream registry; files cannot be added to it here." ∧
    (demoUpload.after demoEnv { userId := some 1 } (demoDatabase false)).content ≠
      (demoDatabase false).content := by
  decide +kernel

/-- A file that exists is refused, and the package stays as it is. -/
theorem publish_refused_duplicate :
    demoUpload.reply demoEnv { userId := some 1 } (demoDatabase true) ≠ .ok ∧
    (demoUpload.after demoEnv { userId := some 1 } (demoDatabase true)).content =
      (demoDatabase true).content := by
  have hrefused : demoUpload.reply demoEnv { userId := some 1 } (demoDatabase true) ≠ .ok := by
    decide +kernel
  refine ⟨hrefused, (publish_refused_iff _ _ _ demoUpload hrefused).mpr ?_⟩
  rintro ⟨request, metadata, verdict, grant, package, hread, -, -, hgrant, hpackage, -, hopens⟩
  have hmem := Table.find?_mem ((authorizeUpload_package hgrant).symm.trans hpackage)
  obtain rfl := List.mem_singleton.mp hmem
  rcases hopens with hlocal | ⟨howner, -⟩
  · cases hlocal
  · cases howner

end Minireg
