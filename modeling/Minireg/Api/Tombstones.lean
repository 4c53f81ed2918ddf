import Minireg.Api.Requests
import Minireg.Lib.Run

/-!
# Tombstones are permanent

A version that was published here and withdrawn never comes back, and no two local
versions of a package are equal in the sense of their ecosystem. PyPI compares releases
by PEP 440 equality, npm by text, so npm depends on versions being canonical: a final
newline and the digits of other scripts are accepted, and equal what they do not spell.
-/

namespace Minireg

open Py Lib Semver

/-! ## Runs -/

/-- Equal in the sense of the ecosystem. -/
def versionsEqual (pep : Pep440) (ecosystem : Ecosystem) (a b : String) : Bool :=
  if ecosystem = .pypi then pep.equal a b else semverEqual a b

/-- A version that was published here. -/
structure Release where
  ecosystem : Ecosystem
  normalizedName : String
  version : String
  deriving DecidableEq, Repr

/-- Releases of one package that are equal. -/
def Release.same (pep : Pep440) (a b : Release) : Bool :=
  a.ecosystem = b.ecosystem && a.normalizedName = b.normalizedName &&
    versionsEqual pep a.ecosystem a.version b.version

def Package.release (p : Package) (v : PackageVersion) : Release where
  ecosystem := p.ecosystem
  normalizedName := p.normalizedName
  version := v.version

def Database.releases (db : Database) : List Release :=
  db.packages.rows.flatMap fun p => (p.versions.rows.filter (·.isLocal)).map p.release

/-- The tables, and the releases that were there and are gone. -/
structure History where
  db : Database := {}
  withdrawn : List Release := []

def History.next (h : History) (r : Request) : History where
  db := r.after h.db
  withdrawn := h.withdrawn ++ h.db.releases.filter (· ∉ (r.after h.db).releases)

/-- Requests in any order, on a registry that starts empty. -/
def registry (pep : Pep440) : System History Request where
  init h := h = {}
  Step h r h' := r.env.pep440 = pep ∧ h' = h.next r

/-- What a request is about to publish. -/
def Request.publishes (r : Request) : List Release :=
  match r.operation with
  | .publish name body =>
    match NpmPublish.parsePublishDocument r.env.codec body name with
    | .ok parsed =>
      if parsed.intent = .deprecate then []
      else parsed.versions.map fun e =>
        { ecosystem := .npm
          normalizedName := r.env.normalizedFor .npm parsed.name
          version := e.1 }
    | .error _ => []
  | .upload form =>
    match Pypi.readUpload r.env form with
    | .ok (request, _) =>
      [{ ecosystem := .pypi
         normalizedName := r.env.normalizedFor .pypi request.name
         version := request.version }]
    | .error _ => []
  | _ => []

/-- Every npm version in it is spelled as the parser prints it. -/
def Request.Canonical (r : Request) : Prop :=
  ∀ name body parsed, r.operation = .publish name body →
    NpmPublish.parsePublishDocument r.env.codec body name = .ok parsed →
      ∀ e ∈ parsed.versions, IsCanonical e.1

/-- What is withdrawn stays withdrawn, and no two releases of a package are equal. -/
structure Permanent (pep : Pep440) (h : History) : Prop where
  refused : ∀ r : Request, r.env.pep440 = pep → r.Canonical →
    ∀ a ∈ h.withdrawn, ∀ b ∈ r.publishes, a.same pep b = true → r.reply h.db ≠ .ok
  gone : ∀ a ∈ h.withdrawn, ∀ b ∈ h.db.releases, a.same pep b = false
  distinct : ∀ p ∈ h.db.packages, ∀ v ∈ p.versions, ∀ w ∈ p.versions,
    v.isLocal = true → w.isLocal = true →
      versionsEqual pep p.ecosystem v.version w.version = true → v = w

theorem mem_releases {db : Database} {a : Release} :
    a ∈ db.releases ↔ ∃ p ∈ db.packages, ∃ v ∈ p.versions, v.isLocal = true ∧ p.release v = a := by
  unfold Database.releases
  simp only [List.mem_flatMap, List.mem_map, List.mem_filter, Table.mem_rows, and_assoc]

/-! ## The invariant -/

/-- The local versions of a package: on npm canonical, stored under their own text and not
tombstoned; on PyPI stored under their normal form, and unequal. -/
structure Package.Sound (pep : Pep440) (retired : Table RetiredVersion.key) (p : Package) :
    Prop where
  npm : p.ecosystem = .npm → ∀ v ∈ p.versions, v.isLocal = true →
    (IsCanonical v.version ∧ '+' ∉ v.version.toList) ∧ v.normalizedVersion = v.version ∧
      ∀ t ∈ retired, t.key ≠ (.npm, p.normalizedName, v.version)
  pypi : p.ecosystem = .pypi → ∀ v ∈ p.versions, v.isLocal = true →
    (pep.key? v.version).isSome = true ∧ v.normalizedVersion = pep.normalize v.version
  apart : p.ecosystem = .pypi → ∀ v ∈ p.versions, ∀ w ∈ p.versions, v.isLocal = true →
    w.isLocal = true → pep.equal v.version w.version = true → v = w
  elsewhere : p.ecosystem ≠ .npm → p.ecosystem ≠ .pypi → ∀ v ∈ p.versions, v.isLocal = false

/-- Whatever was withdrawn is an npm version with a tombstone. -/
structure History.Sound (pep : Pep440) (h : History) : Prop where
  packages : ∀ p ∈ h.db.packages, p.Sound pep h.db.retired
  withdrawn : ∀ a ∈ h.withdrawn, a.ecosystem = .npm ∧
    (IsCanonical a.version ∧ '+' ∉ a.version.toList) ∧
      ∃ t ∈ h.db.retired, t.key = (.npm, a.normalizedName, a.version)

section Consequences

variable {pep : Pep440} {h : History}

theorem Package.Sound.distinct {retired : Table RetiredVersion.key} {p : Package}
    (hp : p.Sound pep retired) {v w : PackageVersion} (hv : v ∈ p.versions) (hw : w ∈ p.versions)
    (hlv : v.isLocal = true) (hlw : w.isLocal = true)
    (heq : versionsEqual pep p.ecosystem v.version w.version = true) : v = w := by
  unfold versionsEqual at heq
  split at heq
  · next hpypi => exact hp.apart hpypi v hv w hw hlv hlw heq
  · next hpypi =>
    by_cases hnpm : p.ecosystem = .npm
    · obtain ⟨⟨hcv, hplusv⟩, hnv, -⟩ := hp.npm hnpm v hv hlv
      obtain ⟨⟨hcw, hplusw⟩, hnw, -⟩ := hp.npm hnpm w hw hlw
      have hsame := eq_of_semverEqual hcv hcw hplusv hplusw heq
      exact Table.eq_of_key hv hw (hnv.trans (hsame.trans hnw.symm))
    · rw [hp.elsewhere hnpm hpypi v hv] at hlv
      cases hlv

theorem Release.same_npm {a b : Release} (ha : a.ecosystem = .npm) (h : a.same pep b = true) :
    b.ecosystem = .npm ∧ a.normalizedName = b.normalizedName ∧
      semverEqual a.version b.version = true := by
  unfold Release.same versionsEqual at h
  simp only [ha, Bool.and_eq_true, decide_eq_true_eq] at h
  obtain ⟨⟨heco, hname⟩, heq⟩ := h
  exact ⟨heco.symm, hname, by simpa using heq⟩

theorem History.Sound.gone (hs : h.Sound pep) {a b : Release} (ha : a ∈ h.withdrawn)
    (hb : b ∈ h.db.releases) : a.same pep b = false := by
  by_contra hsame
  obtain ⟨hnpm, ⟨hca, hplusa⟩, t, ht, hkey⟩ := hs.withdrawn a ha
  obtain ⟨heco, hname, heq⟩ := Release.same_npm hnpm (by simpa using hsame)
  obtain ⟨p, hp, v, hv, hlocal, rfl⟩ := mem_releases.mp hb
  obtain ⟨⟨hcv, hplusv⟩, -, hno⟩ := (hs.packages p hp).npm heco v hv hlocal
  have htext := eq_of_semverEqual hca hcv hplusa hplusv heq
  rw [hname, htext] at hkey
  exact hno t ht hkey

/-- A publish of a withdrawn version is refused. -/
theorem History.Sound.refused (hs : h.Sound pep) {r : Request} (hr : r.Canonical) {a b : Release}
    (ha : a ∈ h.withdrawn) (hb : b ∈ r.publishes) (hsame : a.same pep b = true) :
    r.reply h.db ≠ .ok := by
  obtain ⟨hnpm, ⟨hca, hplusa⟩, t, ht, hkey⟩ := hs.withdrawn a ha
  obtain ⟨heco, hname, heq⟩ := Release.same_npm hnpm hsame
  unfold Request.publishes at hb
  split at hb
  · next name body hop =>
    split at hb
    · next parsed hparse =>
      split at hb
      · cases hb
      · next hintent =>
        obtain ⟨e, he, rfl⟩ := List.mem_map.mp hb
        have hce := hr name body parsed hop hparse e he
        have hpluse := ((NpmPublish.parsePublishDocument_versions hparse).2 e he).2
        have htext : a.version = e.1 := eq_of_semverEqual hca hce hplusa hpluse heq
        intro hok
        unfold Request.reply Request.handle at hok
        rw [hop] at hok
        obtain ⟨grant, hgrant⟩ := publish_ok hparse hintent hok
        obtain ⟨hteco, htname, htversion⟩ : t.ecosystem = .npm ∧ t.normalizedName =
            r.env.normalizedFor .npm parsed.name ∧ t.normalizedVersion = e.1 := by
          obtain ⟨h1, h2⟩ := Prod.mk.inj hkey
          obtain ⟨h2, h3⟩ := Prod.mk.inj h2
          exact ⟨h1, h2.trans hname, h3.trans htext⟩
        exact (authorizeVersions_ok hgrant).2 e he t ht hteco htname htversion
    · cases hb
  · split at hb
    · obtain rfl := List.mem_singleton.mp hb
      cases heco
    · cases hb
  · cases hb

/-- **What the invariant is for.** -/
theorem History.Sound.permanent (hs : h.Sound pep) : Permanent pep h where
  refused _ _ hr _ ha _ hb hsame := hs.refused hr ha hb hsame
  gone _ ha _ hb := hs.gone ha hb
  distinct p hp _ hv _ hw hlv hlw heq := (hs.packages p hp).distinct hv hw hlv hlw heq

end Consequences

/-! ## Local versions -/

/-- Every local version of `p'` is one of `p`, as far as it is identified. -/
structure LocalFrom (p p' : Package) : Prop where
  key : p'.key = p.key
  rows : ∀ v' ∈ p'.versions, v'.isLocal = true → ∃ v ∈ p.versions, v.isLocal = true ∧
    v.version = v'.version ∧ v.normalizedVersion = v'.normalizedVersion

namespace LocalFrom

variable {p p' p'' : Package}

theorem of_versions (hkey : p'.key = p.key) (h : ∀ v ∈ p'.versions, v.isLocal = true → v ∈ p.versions) :
    LocalFrom p p' where
  key := hkey
  rows v hv hlocal := ⟨v, h v hv hlocal, hlocal, rfl, rfl⟩

theorem trans (h : LocalFrom p p') (h' : LocalFrom p' p'') : LocalFrom p p'' where
  key := h'.key.trans h.key
  rows v hv hlocal := by
    obtain ⟨w, hw, hlw, hver, hnorm⟩ := h'.rows v hv hlocal
    obtain ⟨u, hu, hlu, hver', hnorm'⟩ := h.rows w hw hlw
    exact ⟨u, hu, hlu, hver'.trans hver, hnorm'.trans hnorm⟩

theorem of_applyDeprecations (submitted : List (String × Json)) (missing : Bool)
    (among : String → Bool) (p : Package) :
    LocalFrom p (Npm.applyDeprecations submitted missing among p) ∧
      LocalFrom (Npm.applyDeprecations submitted missing among p) p := by
  have hframe : ∀ v, (Npm.deprecateRow submitted missing among v).version = v.version ∧
      (Npm.deprecateRow submitted missing among v).isLocal = v.isLocal := by
    intro v
    unfold Npm.deprecateRow
    split
    · split <;> exact ⟨rfl, rfl⟩
    · exact ⟨rfl, rfl⟩
  constructor
  · refine ⟨rfl, fun v hv hlocal => ?_⟩
    obtain ⟨w, hw, rfl⟩ := Npm.mem_applyDeprecations.mp hv
    exact ⟨w, hw, (hframe w).2.symm.trans hlocal, (hframe w).1.symm,
      (Npm.deprecateRow_normalizedVersion submitted missing among w).symm⟩
  · refine ⟨rfl, fun v hv hlocal => ?_⟩
    exact ⟨_, Npm.mem_applyDeprecations.mpr ⟨v, hv, rfl⟩, (hframe v).2.trans hlocal, (hframe v).1,
      Npm.deprecateRow_normalizedVersion submitted missing among v⟩

/-- A refresh leaves local versions alone. -/
theorem of_pruneUnsourced {nm : Naming} {table : UpstreamTable} {ecosystem : Ecosystem}
    {answer : Option (RemotePackage × Int)} {purged : List PackageFile} {changed : Bool}
    (h : pruneUnsourced nm table ecosystem p answer = (p', purged, changed)) :
    LocalFrom p p' ∧ LocalFrom p' p := by
  have hfst : p' = (pruneUnsourced nm table ecosystem p answer).1 := (congrArg Prod.fst h).symm
  have hkey : p'.key = p.key := hfst ▸ pruneUnsourced_key nm table ecosystem p answer
  have hmem := pruneUnsourced_versions nm table ecosystem p answer
  rw [← hfst] at hmem
  refine ⟨of_versions hkey fun v hv hlocal => ?_, of_versions hkey.symm fun v hv hlocal => ?_⟩
  · obtain ⟨w, hw, -, rfl⟩ := (hmem v).mp hv
    by_cases hlw : w.isLocal = true
    · rwa [dropFiles_local hlw]
    · exact absurd (dropFiles_isLocal _ _ w ▸ hlocal) hlw
  · refine (hmem v).mpr ⟨v, hv, ?_, dropFiles_local hlocal _⟩
    unfold doomedVersion
    exact if_pos hlocal

variable {pep : Pep440} {retired : Table RetiredVersion.key}

theorem sound (h : LocalFrom p p') (hp : p.Sound pep retired) : p'.Sound pep retired := by
  have heco : p'.ecosystem = p.ecosystem := congrArg Prod.fst h.key
  have hname : p'.normalizedName = p.normalizedName := congrArg Prod.snd h.key
  constructor
  · intro hnpm v hv hlocal
    obtain ⟨w, hw, hlw, hver, hnorm⟩ := h.rows v hv hlocal
    rw [← hver, ← hnorm, hname]
    exact hp.npm (heco ▸ hnpm) w hw hlw
  · intro hpypi v hv hlocal
    obtain ⟨w, hw, hlw, hver, hnorm⟩ := h.rows v hv hlocal
    rw [← hver, ← hnorm]
    exact hp.pypi (heco ▸ hpypi) w hw hlw
  · intro hpypi v hv w hw hlv hlw heq
    obtain ⟨v', hv', hlv', hver, hnorm⟩ := h.rows v hv hlv
    obtain ⟨w', hw', hlw', hver', hnorm'⟩ := h.rows w hw hlw
    rw [← hver, ← hver'] at heq
    have hsame := hp.apart (heco ▸ hpypi) v' hv' w' hw' hlv' hlw' heq
    exact Table.eq_of_key hv hw (hnorm.symm.trans (hsame ▸ hnorm'))
  · intro hnpm hpypi v hv
    by_contra hlocal
    obtain ⟨w, hw, hlw, -⟩ := h.rows v hv (by simpa using hlocal)
    rw [hp.elsewhere (heco ▸ hnpm) (heco ▸ hpypi) w hw] at hlw
    cases hlw

end LocalFrom

/-! ## One step -/

section Step

variable {pep : Pep440} {h : History} {db' : Database}

/-- Tombstones of another package say nothing about this one. -/
theorem Package.Sound.mono {retired retired' : Table RetiredVersion.key} {p : Package}
    (hp : p.Sound pep retired)
    (hadds : ∀ t ∈ retired', t ∈ retired ∨ (t.ecosystem, t.normalizedName) ≠ p.key) :
    p.Sound pep retired' where
  npm hnpm v hv hlocal := by
    obtain ⟨hcanonical, hnorm, hno⟩ := hp.npm hnpm v hv hlocal
    refine ⟨hcanonical, hnorm, fun t ht hkey => ?_⟩
    rcases hadds t ht with ht | hother
    · exact hno t ht hkey
    · obtain ⟨heco, hrest⟩ := Prod.mk.inj hkey
      exact hother (Prod.ext (heco.trans hnpm.symm) (Prod.mk.inj hrest).1)
  pypi := hp.pypi
  apart := hp.apart
  elsewhere := hp.elsewhere

/-- What a step has to show: its packages are sound, and what they lost has a tombstone. -/
theorem History.Sound.step (hs : h.Sound pep)
    (hkeeps : ∀ t ∈ h.db.retired, t ∈ db'.retired)
    (hpackages : ∀ p ∈ db'.packages, p.Sound pep db'.retired)
    (hlost : ∀ p ∈ h.db.packages, ∀ v ∈ p.versions, v.isLocal = true →
      p.release v ∈ db'.releases ∨ p.ecosystem = .npm ∧
        ∃ t ∈ db'.retired, t.key = (.npm, p.normalizedName, v.version)) :
    History.Sound pep { db := db'
                        withdrawn := h.withdrawn ++ h.db.releases.filter (· ∉ db'.releases) } where
  packages := hpackages
  withdrawn a ha := by
    rcases List.mem_append.mp ha with ha | ha
    · obtain ⟨hnpm, hcanonical, t, ht, hkey⟩ := hs.withdrawn a ha
      exact ⟨hnpm, hcanonical, t, hkeeps t ht, hkey⟩
    · obtain ⟨ha, hgone⟩ := List.mem_filter.mp ha
      obtain ⟨p, hp, v, hv, hlocal, rfl⟩ := mem_releases.mp ha
      rcases hlost p hp v hv hlocal with hthere | ⟨hnpm, hstone⟩
      · exact absurd hthere (by simpa using hgone)
      · exact ⟨hnpm, ((hs.packages p hp).npm hnpm v hv hlocal).1, hstone⟩

/-- A step that writes one package. -/
theorem History.Sound.put (hs : h.Sound pep) {p' : Package}
    (hput : db'.packages = h.db.packages.put p')
    (hkeeps : ∀ t ∈ h.db.retired, t ∈ db'.retired)
    (hadds : ∀ t ∈ db'.retired, t ∈ h.db.retired ∨ (t.ecosystem, t.normalizedName) = p'.key)
    (hsound : p'.Sound pep db'.retired)
    (hlost : ∀ p ∈ h.db.packages, p.key = p'.key → ∀ v ∈ p.versions, v.isLocal = true →
      (∃ v' ∈ p'.versions, v'.isLocal = true ∧ v'.version = v.version) ∨ p.ecosystem = .npm ∧
        ∃ t ∈ db'.retired, t.key = (.npm, p.normalizedName, v.version)) :
    History.Sound pep { db := db'
                        withdrawn := h.withdrawn ++ h.db.releases.filter (· ∉ db'.releases) } := by
  refine hs.step hkeeps (fun q hq => ?_) fun p hp v hv hlocal => ?_
  · rw [hput] at hq
    rcases Table.mem_put.mp hq with rfl | ⟨hq, hne⟩
    · exact hsound
    · refine (hs.packages q hq).mono fun t ht => (hadds t ht).imp_right fun hkey heq => ?_
      exact hne (heq.symm.trans hkey)
  · by_cases hkey : p.key = p'.key
    · refine (hlost p hp hkey v hv hlocal).imp_left fun ⟨v', hv', hlocal', hver⟩ => ?_
      refine mem_releases.mpr ⟨p', hput ▸ Table.mem_put.mpr (.inl rfl), v', hv', hlocal', ?_⟩
      obtain ⟨heco, hname⟩ := Prod.mk.inj hkey
      unfold Package.release
      rw [heco, hname, hver]
    · exact .inl (mem_releases.mpr
        ⟨p, hput ▸ Table.mem_put.mpr (.inr ⟨hp, hkey⟩), v, hv, hlocal, rfl⟩)

/-- A step that keeps the local versions of the one package it writes. -/
theorem History.Sound.rewrite (hs : h.Sound pep) {p p' : Package} (hp : p ∈ h.db.packages)
    (hput : db'.packages = h.db.packages.put p') (hretired : db'.retired = h.db.retired)
    (hfrom : LocalFrom p p') (hto : LocalFrom p' p) :
    History.Sound pep { db := db'
                        withdrawn := h.withdrawn ++ h.db.releases.filter (· ∉ db'.releases) } := by
  refine hs.put hput (fun t ht => hretired ▸ ht) (fun t ht => .inl (hretired ▸ ht))
    (hretired ▸ hfrom.sound (hs.packages p hp)) fun q hq hkey v hv hlocal => ?_
  obtain rfl := Table.eq_of_key hq hp (hkey.trans hfrom.key)
  obtain ⟨v', hv', hlocal', hver, -⟩ := hto.rows v hv hlocal
  exact .inl ⟨v', hv', hlocal', hver⟩

/-- A step that takes versions off one package, and retires them. -/
theorem History.Sound.retire (hs : h.Sound pep) {p p' : Package} {vs : List PackageVersion}
    {mid : Database} (hp : p ∈ h.db.packages) (hnpm : p.ecosystem = .npm)
    (hput : db'.packages = h.db.packages.put p') (hretires : Retires p vs h.db mid)
    (hretired : db'.retired = mid.retired) (hfrom : LocalFrom p p')
    (hgone : ∀ v ∈ vs, ∀ v' ∈ p'.versions, v'.normalizedVersion ≠ v.normalizedVersion)
    (hstays : ∀ v ∈ p.versions, v.isLocal = true →
      v ∈ vs ∨ ∃ v' ∈ p'.versions, v'.isLocal = true ∧ v'.version = v.version) :
    History.Sound pep { db := db'
                        withdrawn := h.withdrawn ++ h.db.releases.filter (· ∉ db'.releases) } := by
  have hname : p'.normalizedName = p.normalizedName := congrArg Prod.snd hfrom.key
  have hadds := hretired ▸ hretires.adds
  have hsound := hfrom.sound (hs.packages p hp)
  refine hs.put hput (hretired ▸ hretires.keeps) (fun t ht => ?_) ?_ fun q hq hkey v hv hlocal => ?_
  · refine (hadds t ht).imp_right fun ⟨v, _, hkey⟩ => ?_
    obtain ⟨heco, hrest⟩ := Prod.mk.inj hkey
    rw [hfrom.key]
    exact Prod.ext (heco.trans hnpm.symm) (Prod.mk.inj hrest).1
  · refine { hsound with npm := fun hnpm' v' hv' hlocal => ?_ }
    obtain ⟨hcanonical, hnorm, hno⟩ := hsound.npm hnpm' v' hv' hlocal
    refine ⟨hcanonical, hnorm, fun t ht hkey => ?_⟩
    rcases hadds t ht with ht | ⟨v, hv, hkey'⟩
    · exact hno t ht hkey
    · have hsame := (Prod.mk.inj (Prod.mk.inj (hkey.symm.trans hkey')).2).2
      exact hgone v hv v' hv' (hnorm.trans hsame)
  · obtain rfl := Table.eq_of_key hq hp (hkey.trans hfrom.key)
    refine (hstays v hv hlocal).symm.imp_right fun hmem => ⟨hnpm, ?_⟩
    obtain ⟨t, ht, hkey'⟩ := hretires.has v hmem
    rw [((hs.packages _ hq).npm hnpm v hv hlocal).2.1] at hkey'
    exact ⟨t, hretired ▸ ht, hkey'⟩

end Step

/-! ## Every request -/

section Requests

variable {pep : Pep440} {h : History} {db' : Database} {r : Request}

theorem mem_openPackage {ecosystem : Ecosystem} {name normalized : String} {grant : PublishGrant}
    {v : PackageVersion} :
    v ∈ (openPackage ecosystem name normalized grant).versions ↔
      ∃ p, grant.package = some p ∧ v ∈ p.versions := by
  unfold openPackage
  rcases grant.package with _ | p
  · exact ⟨fun hv => absurd hv List.not_mem_nil, fun ⟨p, hp, _⟩ => nomatch hp⟩
  · exact ⟨fun hv => ⟨p, rfl, hv⟩, fun ⟨q, hq, hv⟩ => Option.some.inj hq ▸ hv⟩

/-- Opening a package does nothing to its versions. -/
theorem openPackage_sound (hs : h.Sound pep) {ecosystem : Ecosystem} (name : String)
    {normalized : String} {grant : PublishGrant} (hgrant : grant.package = h.db.package? ecosystem normalized) :
    (openPackage ecosystem name normalized grant).Sound pep h.db.retired := by
  have hkey := openPackage_key name hgrant
  rcases hfound : h.db.package? ecosystem normalized with _ | p
  · have hnone : ∀ v, v ∉ (openPackage ecosystem name normalized grant).versions := by
      intro v hv
      obtain ⟨p, hp, -⟩ := mem_openPackage.mp hv
      rw [hgrant, hfound] at hp
      cases hp
    exact ⟨fun _ v hv => absurd hv (hnone v), fun _ v hv => absurd hv (hnone v),
      fun _ v hv => absurd hv (hnone v), fun _ _ v hv => absurd hv (hnone v)⟩
  · obtain ⟨hmem, hpkey⟩ := Table.find?_eq_some_iff.mp hfound
    refine LocalFrom.sound (.of_versions (hkey.trans hpkey.symm) fun v hv _ => ?_)
      (hs.packages p hmem)
    obtain ⟨q, hq, hv⟩ := mem_openPackage.mp hv
    rw [hgrant, hfound] at hq
    exact Option.some.inj hq ▸ hv

/-- A step that writes an opened package, in which the local versions stay. -/
theorem History.Sound.opened (hs : h.Sound pep) {ecosystem : Ecosystem} {name normalized : String}
    {grant : PublishGrant} (hgrant : grant.package = h.db.package? ecosystem normalized)
    {p' : Package} (hput : db'.packages = h.db.packages.put p')
    (hretired : db'.retired = h.db.retired)
    (hkey : p'.key = (openPackage ecosystem name normalized grant).key)
    (hsound : p'.Sound pep h.db.retired)
    (hstays : ∀ v ∈ (openPackage ecosystem name normalized grant).versions, v.isLocal = true →
      ∃ v' ∈ p'.versions, v'.isLocal = true ∧ v'.version = v.version) :
    History.Sound pep { db := db'
                        withdrawn := h.withdrawn ++ h.db.releases.filter (· ∉ db'.releases) } := by
  refine hs.put hput (fun t ht => hretired ▸ ht) (fun t ht => .inl (hretired ▸ ht))
    (hretired ▸ hsound) fun p hp hpkey v hv hlocal => .inl (hstays v ?_ hlocal)
  rw [hkey, openPackage_key _ hgrant] at hpkey
  exact mem_openPackage.mpr
    ⟨p, hgrant.trans (Table.find?_eq_some_iff.mpr ⟨hp, hpkey⟩), hv⟩

theorem History.Sound.published (hs : h.Sound pep) {parsed : NpmPublish.PublishRequest}
    {normalized : String} {grant : PublishGrant} {description : Option String}
    {rows : List PackageVersion} {p' : Package}
    (hcanonical : ∀ e ∈ parsed.versions, IsCanonical e.1 ∧ '+' ∉ e.1.toList)
    (hgrant : grant.package = h.db.package? .npm normalized)
    (hfresh : ∀ old, grant.package = some old → ∀ e ∈ parsed.versions, e.1 ∉ Npm.versionNames old)
    (hnot : ∀ e ∈ parsed.versions, ∀ t ∈ h.db.retired, t.ecosystem = .npm →
      t.normalizedName = normalized → t.normalizedVersion ≠ e.1)
    (hnames : rows.map PackageVersion.version = parsed.versions.map Prod.fst)
    (hstored : ∀ v ∈ rows, v.isLocal = true ∧ v.normalizedVersion = v.version)
    (hsame : Npm.SameVersions
      (filledPackage (openPackage .npm parsed.name normalized grant) description rows) p')
    (hput : db'.packages = h.db.packages.put p') (hretired : db'.retired = h.db.retired) :
    History.Sound pep { db := db'
                        withdrawn := h.withdrawn ++ h.db.releases.filter (· ∉ db'.releases) } := by
  have hopened := openPackage_sound hs parsed.name hgrant
  have hopenedKey := openPackage_key parsed.name hgrant
  have hkey : p'.key = (.npm, normalized) := hsame.key.trans hopenedKey
  have hentry : ∀ v ∈ rows, ∃ e ∈ parsed.versions, e.1 = v.version := by
    intro v hv
    have hmem : v.version ∈ parsed.versions.map Prod.fst := hnames ▸ List.mem_map_of_mem hv
    exact List.mem_map.mp hmem
  have hmem : ∀ v, v ∈ p'.versions ↔ v ∈ rows.foldl Table.put
      (openPackage .npm parsed.name normalized grant).versions := fun v => by
    rw [hsame.versions]
    rfl
  refine hs.opened hgrant hput hretired hsame.key ?_ fun v hv hlocal => ?_
  · have heco : p'.ecosystem = .npm := congrArg Prod.fst hkey
    have hname : p'.normalizedName = normalized := congrArg Prod.snd hkey
    refine ⟨fun _ v hv hlocal => ?_, fun hpypi => (nomatch heco.symm.trans hpypi),
      fun hpypi => (nomatch heco.symm.trans hpypi), fun hne => absurd heco hne⟩
    rcases Table.mem_of_mem_foldl_put ((hmem v).mp hv) with hv | hv
    · obtain ⟨e, he, hver⟩ := hentry v hv
      refine ⟨hver ▸ hcanonical e he, (hstored v hv).2, fun t ht htkey => ?_⟩
      obtain ⟨hteco, hrest⟩ := Prod.mk.inj htkey
      obtain ⟨htname, htversion⟩ := Prod.mk.inj hrest
      exact hnot e he t ht hteco (htname.trans hname) (htversion.trans hver.symm)
    · have hrow := hopened.npm (congrArg Prod.fst hopenedKey) v hv hlocal
      rw [show (openPackage .npm parsed.name normalized grant).normalizedName = p'.normalizedName from
        (congrArg Prod.snd hopenedKey).trans hname.symm] at hrow
      exact hrow
  · refine ⟨v, (hmem v).mpr (Table.mem_foldl_put_of_ne hv fun row hrow heq => ?_), hlocal, rfl⟩
    obtain ⟨-, hnorm, -⟩ := hopened.npm (congrArg Prod.fst hopenedKey) v hv hlocal
    obtain ⟨e, he, hver⟩ := hentry row hrow
    obtain ⟨old, hold, hvold⟩ := mem_openPackage.mp hv
    refine hfresh old hold e he (List.mem_map.mpr ⟨v, hvold, ?_⟩)
    exact hnorm.symm.trans (heq.trans ((hstored row hrow).2.trans hver.symm))

/-- A release is stored under a text that equals it. -/
theorem equal_normalize (hpep : pep.Lawful) {a b : String} (ha : (pep.key? a).isSome = true) :
    pep.equal (pep.normalize a) b = pep.equal a b ∨ (pep.key? b).isSome = false := by
  unfold Pep440.equal
  rw [show pep.normalize a = pep.canonical a from if_pos ha, hpep a ha]
  obtain ⟨x, hx⟩ := Option.isSome_iff_exists.mp ha
  rcases hb : pep.key? b with _ | y
  · exact .inr rfl
  · rw [hx]
    exact .inl rfl

theorem equal_symm (a b : String) : pep.equal a b = pep.equal b a := by
  unfold Pep440.equal
  rcases pep.key? a with _ | x <;> rcases pep.key? b with _ | y <;> simp [eq_comm]

/-- An upload that opens a release which nothing stored equals. -/
theorem newRelease_sound (hpep : pep.Lawful) {package : Package}
    {retired : Table RetiredVersion.key} (hsound : package.Sound pep retired)
    (hpypi : package.ecosystem = .pypi) (row : PackageVersion)
    (hparses : (pep.key? row.version).isSome = true)
    (hnormal : row.normalizedVersion = pep.normalize row.version)
    (hnone : ∀ v ∈ package.versions, pep.equal v.normalizedVersion row.version = false)
    {p' : Package} (hkey : p'.key = package.key) (hversions : p'.versions = package.versions.put row) :
    p'.Sound pep retired ∧ ∀ v ∈ package.versions, v ∈ p'.versions := by
  have heco : p'.ecosystem = .pypi := (congrArg Prod.fst hkey).trans hpypi
  have hself : pep.equal row.normalizedVersion row.version = true := by
    unfold Pep440.equal
    rw [hnormal, show pep.normalize row.version = pep.canonical row.version from if_pos hparses,
      hpep _ hparses]
    obtain ⟨x, hx⟩ := Option.isSome_iff_exists.mp hparses
    rw [hx]
    exact decide_eq_true rfl
  -- no stored release is spelled as the new one, so none is overwritten
  have hnew : ∀ v ∈ package.versions, v.normalizedVersion ≠ row.normalizedVersion := by
    intro v hv heq
    have hno := hnone v hv
    rw [heq, hself] at hno
    cases hno
  have hapart : ∀ v ∈ package.versions, v.isLocal = true → pep.equal v.version row.version = false := by
    intro v hv hlocal
    obtain ⟨hvparses, hvnormal⟩ := hsound.pypi hpypi v hv hlocal
    have hno := hnone v hv
    rw [hvnormal] at hno
    rcases equal_normalize hpep (b := row.version) hvparses with heq | hnot
    · exact heq.symm.trans hno
    · rw [hparses] at hnot
      cases hnot
  have hcases : ∀ v ∈ p'.versions, v = row ∨ v ∈ package.versions := fun v hv => by
    rw [hversions] at hv
    exact (Table.mem_put.mp hv).imp_right And.left
  refine ⟨⟨fun hnpm => (nomatch heco.symm.trans hnpm), ?_, ?_, fun _ hne => absurd heco hne⟩, ?_⟩
  · intro _ v hv hlocal
    rcases hcases v hv with rfl | hv
    · exact ⟨hparses, hnormal⟩
    · exact hsound.pypi hpypi v hv hlocal
  · intro _ v hv w hw hlv hlw heq
    rcases hcases v hv with rfl | hv <;> rcases hcases w hw with rfl | hw
    · rfl
    · rw [equal_symm, hapart w hw hlw] at heq
      cases heq
    · rw [hapart v hv hlv] at heq
      cases heq
    · exact hsound.apart hpypi v hv w hw hlv hlw heq
  · exact fun v hv => hversions ▸ Table.mem_put.mpr (.inr ⟨hv, hnew v hv⟩)

theorem readUpload_parses {env : RegistryEnv} {form : Pypi.UploadForm}
    {request : PypiPublish.UploadRequest} {metadata : Option NpmPublish.Bytes}
    (h : Pypi.readUpload env form = .ok (request, metadata)) :
    (env.pep440.key? request.version).isSome = true := by
  unfold Pypi.readUpload at h
  obtain ⟨parsed, hparsed, h⟩ := bind_ok h
  have hparses := PypiPublish.parseUpload_version hparsed
  split at h
  · obtain ⟨⟨requiresPython, raw⟩, -, h⟩ := bind_ok h
    obtain ⟨rfl, -⟩ := Prod.mk.inj (Except.ok.inj h)
    exact hparses
  · obtain ⟨rfl, -⟩ := Prod.mk.inj (Except.ok.inj h)
    exact hparses

/-- The release an upload is added to is a local one; without one, no release equals it. -/
theorem targetRow_cases {env : RegistryEnv} {package : Package} {version : String}
    (h : Pypi.mirroredRow env package version = none) :
    (∃ v ∈ package.versions, v.isLocal = true ∧ Pypi.targetRow env package version = some v) ∨
      Pypi.targetRow env package version = none ∧
        ∀ v ∈ package.versions, env.pep440.equal v.normalizedVersion version = false := by
  have hlocal : ∀ v ∈ Pypi.equalRows env package version, v ∈ package.versions ∧ v.isLocal = true := by
    intro v hv
    exact ⟨(List.mem_filter.mp hv).1, by simpa using List.find?_eq_none.mp h v hv⟩
  rcases htarget : Pypi.targetRow env package version with _ | v
  · refine .inr ⟨rfl, fun v hv => ?_⟩
    have hnil := List.head?_eq_none_iff.mp ((Option.orElse_eq_none _ _).mp htarget).2
    by_contra heq
    have hmem : v ∈ Pypi.equalRows env package version :=
      List.mem_filter.mpr ⟨hv, by simpa using heq⟩
    rw [hnil] at hmem
    cases hmem
  · refine .inl ⟨v, ?_⟩
    have hmem : v ∈ Pypi.equalRows env package version := Pypi.targetRow_mem htarget
    exact ⟨(hlocal v hmem).1, (hlocal v hmem).2, rfl⟩

theorem storeUpload_sound (hpep : r.env.pep440.Lawful) {package : Package}
    {retired : Table RetiredVersion.key} (hsound : package.Sound r.env.pep440 retired)
    (hpypi : package.ecosystem = .pypi) {request : PypiPublish.UploadRequest}
    (metadata : Option NpmPublish.Bytes) (scan : Scan)
    (hparses : (r.env.pep440.key? request.version).isSome = true)
    (hmirrored : Pypi.mirroredRow r.env package request.version = none) :
    (Pypi.storeUpload r.env request metadata scan package).Sound r.env.pep440 retired ∧
      ∀ v ∈ package.versions, v.isLocal = true →
        ∃ v' ∈ (Pypi.storeUpload r.env request metadata scan package).versions,
          v'.isLocal = true ∧ v'.version = v.version := by
  rcases targetRow_cases hmirrored with ⟨old, hold, hlocal, htarget⟩ | ⟨htarget, hnone⟩
  · obtain ⟨hver, hnorm, hloc⟩ := Pypi.rescanRow_frame r.env scan old
    have hversions : ∃ files, (Pypi.storeUpload r.env request metadata scan package).versions =
        package.versions.put { Pypi.rescanRow r.env scan old with files := files } := by
      unfold Pypi.storeUpload
      rw [htarget]
      exact ⟨_, rfl⟩
    obtain ⟨files, hversions⟩ := hversions
    refine ⟨LocalFrom.sound (p := package) ⟨rfl, fun v hv hlv => ?_⟩ hsound, fun v hv hlv => ?_⟩
    · rw [hversions] at hv
      rcases Table.mem_put.mp hv with rfl | ⟨hv, -⟩
      · exact ⟨old, hold, hlocal, hver.symm, hnorm.symm⟩
      · exact ⟨v, hv, hlv, rfl, rfl⟩
    · rw [hversions]
      by_cases hsame : v.normalizedVersion = old.normalizedVersion
      · obtain rfl := Table.eq_of_key hv hold hsame
        exact ⟨_, Table.mem_put.mpr (.inl rfl), hloc.trans hlv, hver⟩
      · exact ⟨v, Table.mem_put.mpr (.inr ⟨hv, fun heq => hsame (heq.trans hnorm)⟩), hlv, rfl⟩
  · obtain ⟨hver, hnorm, -⟩ := Pypi.rescanRow_frame r.env scan (Pypi.newRelease r.env request scan)
    have hversions : ∃ files, (Pypi.storeUpload r.env request metadata scan package).versions =
        package.versions.put
          { Pypi.rescanRow r.env scan (Pypi.newRelease r.env request scan) with files := files } := by
      unfold Pypi.storeUpload
      rw [htarget]
      exact ⟨_, rfl⟩
    obtain ⟨files, hversions⟩ := hversions
    have hkey : (Pypi.storeUpload r.env request metadata scan package).key = package.key := rfl
    obtain ⟨hnew, hstays⟩ := newRelease_sound hpep hsound hpypi
      { Pypi.rescanRow r.env scan (Pypi.newRelease r.env request scan) with files := files }
      (by rw [show PackageVersion.version _ = _ from hver]; exact hparses)
      (by rw [show PackageVersion.version _ = _ from hver,
            show PackageVersion.normalizedVersion _ = _ from hnorm]; rfl)
      (by rw [show PackageVersion.version _ = _ from hver]; exact hnone) hkey hversions
    exact ⟨hnew, fun v hv hlv => ⟨v, hstays v hv, hlv, rfl⟩⟩

/-- An answer is persisted around the local versions. -/
theorem mem_persisted_local {nm : Naming} {ecosystem : Ecosystem} {stored : Option Package}
    {remote : RemotePackage} {upstream : Upstream} {name : String} {validators : Option Validators}
    {now : Time} {persisted : Package}
    (h : persistRemotePackage nm ecosystem stored remote (some upstream) (some name) validators now =
      .ok persisted) {v : PackageVersion} (hlocal : v.isLocal = true) :
    v ∈ persisted.versions ↔ ∃ p, stored = some p ∧ v ∈ p.versions := by
  have hsources : ∀ rv ∈ remote.versions, Sources (fun _ => True) ((some upstream).map Upstream.id) rv :=
    fun rv _ => ⟨⟨upstream.id, rfl, trivial⟩, fun _ _ _ _ => trivial⟩
  have hstored : v ∈ storedVersions stored ↔ ∃ p, stored = some p ∧ v ∈ p.versions := by
    unfold storedVersions
    rcases stored with _ | p
    · exact ⟨fun hv => absurd hv Table.not_mem_empty, fun ⟨p, hp, _⟩ => nomatch hp⟩
    · exact ⟨fun hv => ⟨p, rfl, hv⟩, fun ⟨q, hq, hv⟩ => Option.some.inj hq ▸ hv⟩
  rw [persist_versions h, ← hstored]
  constructor
  · exact fun hv => mem_of_persistVersions_local hsources hv hlocal
  · exact fun hv => persistVersions_keeps nm ecosystem remote.versions hsources _ hv (.inl hlocal)

theorem History.Sound.same (hs : h.Sound pep) (hpackages : db'.packages = h.db.packages)
    (hretired : db'.retired = h.db.retired) :
    History.Sound pep { db := db'
                        withdrawn := h.withdrawn ++ h.db.releases.filter (· ∉ db'.releases) } := by
  refine hs.step (fun t ht => hretired ▸ ht) (fun p hp => ?_) fun p hp v hv hlocal => .inl ?_
  · exact hretired ▸ hs.packages p (hpackages ▸ hp)
  · exact mem_releases.mpr ⟨p, hpackages ▸ hp, v, hv, hlocal, rfl⟩

theorem History.Sound.refreshed (hs : h.Sound pep) {env : RegistryEnv} {ecosystem : Ecosystem}
    {name : String} {resolution : Resolution}
    (hchange : RefreshChange env ecosystem name resolution h.db db') (hretired : db'.retired = h.db.retired) :
    History.Sound pep { db := db'
                        withdrawn := h.withdrawn ++ h.db.releases.filter (· ∉ db'.releases) } := by
  cases hchange with
  | nothing packages => exact hs.same packages hretired
  | settled _ found pruned _ packages =>
    obtain ⟨hfrom, hto⟩ := LocalFrom.of_pruneUnsourced pruned
    exact hs.rewrite (Table.find?_mem found) packages hretired ⟨hfrom.key, hfrom.rows⟩ ⟨hto.key, hto.rows⟩
  | @answered _ normalized persisted package _ _ _ _ _ _ _ _ persists keyed _ pruned _ packages =>
    obtain ⟨hfrom, hto⟩ := LocalFrom.of_pruneUnsourced pruned
    rcases hstored : h.db.package? ecosystem normalized with _ | stored
    · have hnone : ∀ v ∈ package.versions, v.isLocal = false := by
        intro v hv
        by_contra hlocal
        obtain ⟨w, hw, hlw, -⟩ := hfrom.rows v hv (by simpa using hlocal)
        obtain ⟨p, hp, -⟩ := (mem_persisted_local persists hlw).mp hw
        exact nomatch hstored.symm.trans hp
      have hvacuous : ∀ {P : PackageVersion → Prop}, ∀ v ∈ package.versions, v.isLocal = true → P v :=
        fun v hv hlocal => (nomatch (hnone v hv).symm.trans hlocal)
      refine hs.put packages (fun t ht => hretired ▸ ht) (fun t ht => .inl (hretired ▸ ht))
        ⟨fun _ => hvacuous, fun _ => hvacuous, fun _ v hv _ _ hlv => absurd hlv (by simp [hnone v hv]),
          fun _ _ => hnone⟩ fun p hp hkey => ?_
      exact absurd (hkey.trans (hfrom.key.trans keyed)) (Table.find?_eq_none_iff.mp hstored p hp)
    · obtain ⟨hmem, hkey⟩ := Table.find?_eq_some_iff.mp hstored
      have hkeys : persisted.key = stored.key := keyed.trans hkey.symm
      have hfrom' : LocalFrom stored persisted := .of_versions hkeys fun v hv hlocal => by
        obtain ⟨p, hp, hv⟩ := (mem_persisted_local persists hlocal).mp hv
        exact Option.some.inj (hstored.symm.trans hp) ▸ hv
      have hto' : LocalFrom persisted stored := .of_versions hkeys.symm fun v hv hlocal =>
        (mem_persisted_local persists hlocal).mpr ⟨stored, hstored, hv⟩
      exact hs.rewrite hmem packages hretired (hfrom'.trans hfrom) (hto.trans hto')

/-- `unpublish_package`. -/
theorem History.Sound.removed (hs : h.Sound pep) {package : Package} {mid : Database}
    (hp : package ∈ h.db.packages) (hnpm : package.ecosystem = .npm)
    (hpackages : db'.packages = h.db.packages.filter (·.key ≠ package.key))
    (hretires : Retires package (package.versions.rows.filter (·.isLocal)) h.db mid)
    (hretired : db'.retired = mid.retired) :
    History.Sound pep { db := db'
                        withdrawn := h.withdrawn ++ h.db.releases.filter (· ∉ db'.releases) } := by
  have hmem : ∀ q, q ∈ db'.packages ↔ q ∈ h.db.packages ∧ q.key ≠ package.key := by
    intro q
    rw [hpackages]
    simp
  refine hs.step (hretired ▸ hretires.keeps) (fun q hq => ?_) fun q hq v hv hlocal => ?_
  · obtain ⟨hq, hne⟩ := (hmem q).mp hq
    refine (hs.packages q hq).mono fun t ht => ?_
    refine (hretires.adds t (hretired ▸ ht)).imp_right fun ⟨v, _, hkey⟩ heq => hne ?_
    obtain ⟨heco, hrest⟩ := Prod.mk.inj hkey
    rw [← heq]
    exact Prod.ext (heco.trans hnpm.symm) (Prod.mk.inj hrest).1
  · by_cases hkey : q.key = package.key
    · obtain rfl := Table.eq_of_key hq hp hkey
      obtain ⟨t, ht, htkey⟩ := hretires.has v (List.mem_filter.mpr ⟨hv, hlocal⟩)
      rw [((hs.packages _ hq).npm hnpm v hv hlocal).2.1] at htkey
      exact .inr ⟨hnpm, t, hretired ▸ ht, htkey⟩
    · exact .inl (mem_releases.mpr ⟨q, (hmem q).mpr ⟨hq, hkey⟩, v, hv, hlocal, rfl⟩)

/-- `update_packument`. -/
theorem History.Sound.updated (hs : h.Sound pep) {package p' : Package}
    {update : Npm.PackumentUpdate} {hidden : List String} {mid : Database}
    (hp : package ∈ h.db.packages) (hnpm : package.ecosystem = .npm)
    (hput : db'.packages = h.db.packages.put p')
    (hsame : Npm.SameVersions (Npm.keptPackage update hidden package) p')
    (hretires : Retires package
      (package.versions.rows.filter fun v => !Npm.survives update hidden v.version) h.db mid)
    (hretired : db'.retired = mid.retired) :
    History.Sound pep { db := db'
                        withdrawn := h.withdrawn ++ h.db.releases.filter (· ∉ db'.releases) } := by
  -- `keptPackage` deprecates what is left after the removed versions are gone
  obtain ⟨hfrom, hto⟩ := LocalFrom.of_applyDeprecations update.submitted false
    (· ∈ (Npm.versionNames package).filter (Npm.survives update hidden))
    { package with versions := package.versions.filter fun v => Npm.survives update hidden v.version }
  have hkept : ∀ v' ∈ p'.versions, ∃ w ∈ package.versions,
      Npm.survives update hidden w.version = true ∧ v'.normalizedVersion = w.normalizedVersion := by
    intro v' hv'
    rw [hsame.versions] at hv'
    obtain ⟨w, hw, rfl⟩ := Npm.mem_applyDeprecations.mp hv'
    obtain ⟨hw, hsurvives⟩ := Table.mem_filter.mp hw
    exact ⟨w, hw, hsurvives, Npm.deprecateRow_normalizedVersion _ _ _ w⟩
  refine hs.retire hp hnpm hput hretires hretired ⟨hsame.key, fun v' hv' hlocal => ?_⟩
    (fun v hv v' hv' heq => ?_) fun v hv hlocal => ?_
  · obtain ⟨v, hv, hrest⟩ := hfrom.rows v' (hsame.versions ▸ hv') hlocal
    exact ⟨v, (Table.mem_filter.mp hv).1, hrest⟩
  · obtain ⟨hv, hgone⟩ := List.mem_filter.mp hv
    obtain ⟨w, hw, hsurvives, hnorm⟩ := hkept v' hv'
    rw [Table.eq_of_key hv hw (heq.symm.trans hnorm), hsurvives] at hgone
    cases hgone
  · by_cases hsurvives : Npm.survives update hidden v.version = true
    · obtain ⟨v', hv', hlocal', hver, -⟩ := hto.rows v (Table.mem_filter.mpr ⟨hv, hsurvives⟩) hlocal
      exact .inr ⟨v', hsame.versions ▸ hv', hlocal', hver⟩
    · exact .inl (List.mem_filter.mpr ⟨hv, by simpa using hsurvives⟩)

/-- **Every request** keeps the invariant, if what it publishes to npm is canonical. -/
theorem History.Sound.next (hpep : pep.Lawful) (hs : h.Sound pep) (hr : r.env.pep440 = pep)
    (hcanonical : r.Canonical) : (h.next r).Sound pep := by
  subst hr
  have hchange := r.change h.db
  unfold History.next
  generalize r.after h.db = db' at hchange ⊢
  cases hchange with
  | nothing packages retired => exact hs.same packages retired
  | @published name body parsed grant description rows package operation parse granted fresh
      notRetired names stored tagged packages retired =>
    have hsame := Npm.tagPackage_frame tagged
    refine hs.published (fun e he => ?_) granted fresh notRetired names stored hsame packages retired
    exact ⟨hcanonical name body parsed operation parse e he,
      ((NpmPublish.parsePublishDocument_versions parse).2 e he).2⟩
  | deprecated found _ packages retired =>
    obtain ⟨hfrom, hto⟩ := LocalFrom.of_applyDeprecations _ true (fun _ => true) _
    exact hs.rewrite found packages retired hfrom hto
  | opened granted packages retired =>
    exact hs.opened granted packages retired rfl (openPackage_sound hs _ granted)
      fun v hv hlocal => ⟨v, hv, hlocal, rfl⟩
  | @uploaded form request metadata grant scan package operation read granted _ opens notMirrored
      packages retired =>
    subst opens
    have hkey := openPackage_key request.name granted
    obtain ⟨hsound, hstays⟩ := storeUpload_sound hpep (openPackage_sound hs _ granted)
      (congrArg Prod.fst hkey) metadata scan (readUpload_parses read) notMirrored
    exact hs.opened granted packages retired rfl hsound hstays
  | tagged found _ _ packages retired =>
    exact hs.rewrite found packages retired (.of_versions rfl fun _ hv _ => hv)
      (.of_versions rfl fun _ hv _ => hv)
  | untagged found _ packages retired =>
    exact hs.rewrite found packages retired (.of_versions rfl fun _ hv _ => hv)
      (.of_versions rfl fun _ hv _ => hv)
  | @unpublished package v name filename file mid operation found target retires packages retired =>
    obtain ⟨hmem, heco⟩ := found_npm found
    have hdrop : ∀ w, w ∈ (Npm.dropVersion package v).versions ↔
        w ∈ package.versions ∧ w.normalizedVersion ≠ v.normalizedVersion := by
      intro w
      unfold Npm.dropVersion
      simp
    refine hs.retire hmem heco packages retires retired
      (.of_versions rfl fun w hw _ => ((hdrop w).mp hw).1) (fun u hu w hw => ?_) fun w hw hlocal => ?_
    · rw [List.mem_singleton.mp hu]
      exact ((hdrop w).mp hw).2
    · by_cases hsame : w.normalizedVersion = v.normalizedVersion
      · have hv : v ∈ package.versions := fileTarget_mem target
        exact .inl (List.mem_singleton.mpr (Table.eq_of_key hw hv hsame))
      · exact .inr ⟨w, (hdrop w).mpr ⟨hw, hsame⟩, hlocal, rfl⟩
  | removed found ecosystem retires packages retired =>
    exact hs.removed found ecosystem packages retires retired
  | updated found ecosystem _ edited retires packages retired =>
    exact hs.updated found ecosystem packages (Npm.updatedPackage_frame edited) retires retired
  | refreshed operation stored =>
    obtain ⟨hchange, hretired⟩ := refresh_change stored
    exact hs.refreshed hchange hretired

end Requests

/-- **Tombstones are permanent** in every run in which what is published to npm is spelled
as the parser prints it. -/
theorem tombstones_permanent (pep : Pep440) (hpep : pep.Lawful) {h : History}
    (hreach : (registry pep).Reach (fun _ r => r.Canonical) h) : Permanent pep h := by
  refine History.Sound.permanent (System.Reach.invariant ?_ ?_ hreach)
  · rintro h rfl
    exact ⟨fun p hp => absurd hp Table.not_mem_empty, fun a ha => absurd ha List.not_mem_nil⟩
  · rintro h r h' hs hcanonical ⟨hr, rfl⟩
    exact hs.next hpep hr hcanonical

/-! ## A final newline -/

def demoUnpublish : Request where
  env := demoEnv
  identity := { userId := some 1 }
  operation := .unpublishPackage "demo"

def demoPublished : History := History.next {} (demoPublish "1.0.0")

def demoWithdrawn : History := demoPublished.next demoUnpublish

/-- `"1.0.0\n"` is published beside `"1.0.0"`, and after `"1.0.0"` was withdrawn. -/
theorem tombstones_escape :
    (∃ h, (registry demoEnv.pep440).Reach (fun _ _ => True) h ∧
      ∃ p ∈ h.db.packages, ∃ v ∈ p.versions, ∃ w ∈ p.versions, v.isLocal = true ∧
        w.isLocal = true ∧ versionsEqual demoEnv.pep440 p.ecosystem v.version w.version = true ∧
          v ≠ w) ∧
    ∃ h, (registry demoEnv.pep440).Reach (fun _ _ => True) h ∧
      ∃ a ∈ h.withdrawn, ∃ b ∈ (demoPublish "1.0.0\n").publishes,
        a.same demoEnv.pep440 b = true ∧ (demoPublish "1.0.0\n").reply h.db = .ok := by
  have hpublished : (registry demoEnv.pep440).Reach (fun _ _ => True) demoPublished :=
    .step (.init rfl) trivial ⟨rfl, rfl⟩
  constructor
  · refine ⟨demoPublished.next (demoPublish "1.0.0\n"), .step hpublished trivial ⟨rfl, rfl⟩, ?_⟩
    have hboth : ∃ p ∈ (demoPublished.next (demoPublish "1.0.0\n")).db.packages.rows,
        ∃ v ∈ p.versions.rows, ∃ w ∈ p.versions.rows, v.isLocal = true ∧ w.isLocal = true ∧
          versionsEqual demoEnv.pep440 p.ecosystem v.version w.version = true ∧ v ≠ w := by
      decide +kernel
    exact hboth
  · exact ⟨demoWithdrawn, .step hpublished trivial ⟨rfl, rfl⟩, by decide +kernel⟩

/-- `"1.0.0"` is published, withdrawn, and gone for good. -/
theorem tombstones_permanent_demo :
    demoWithdrawn.withdrawn = [{ ecosystem := .npm, normalizedName := "demo", version := "1.0.0" }] ∧
      Permanent demoEnv.pep440 demoWithdrawn := by
  refine ⟨by decide +kernel, tombstones_permanent _ (fun _ _ => rfl) ?_⟩
  refine .step (.step (.init rfl) ?_ ⟨rfl, rfl⟩) (fun _ _ _ hop => by cases hop) ⟨rfl, rfl⟩
  intro name body parsed hop hparse e he
  obtain ⟨rfl, rfl⟩ := Operation.publish.inj hop
  have hnames : (NpmPublish.parsePublishDocument (demoPublish "1.0.0").env.codec
      (demoDocument "1.0.0") "demo").map (fun parsed => parsed.versions.map Prod.fst) =
        .ok ["1.0.0"] := by decide +kernel
  rw [hparse] at hnames
  have hversions : parsed.versions.map Prod.fst = ["1.0.0"] := Except.ok.inj hnames
  have hmem : e.1 ∈ parsed.versions.map Prod.fst := List.mem_map_of_mem he
  rw [hversions] at hmem
  rw [List.mem_singleton.mp hmem]
  intro v hv
  have hspelled : (SemVer.parse "1.0.0").map (Option.map SemVer.text) = .ok (some "1.0.0") := by
    decide +kernel
  rw [hv] at hspelled
  exact Option.some.inj (Except.ok.inj hspelled)

end Minireg
