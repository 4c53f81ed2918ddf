import Minireg.Api.Requests
import Minireg.Lib.Run

/-!
# Tags name versions that exist

The dist-tags and `latest_version` of a local npm package name versions it has.
Packument updates and pruning repoint what a removed version was named by. A tarball
DELETE does not, and what an upstream's answer names is never checked: `KeepsTags` is the
condition on a request under which neither matters.
-/

namespace Minireg

open Py Lib

/-! ## Runs -/

/-- Every tag, and `latest_version`, names a version of the package. -/
structure Package.InOrder (p : Package) : Prop where
  tags : ∀ t ∈ p.distTags, t.version ∈ Npm.versionNames p
  latest : ∀ version, p.latestVersion = some version → version ∈ Npm.versionNames p

/-- Requests in any order, on a registry that starts empty. -/
def npmRegistry : System Database Request where
  init db := db = {}
  Step db r db' := db' = r.after db

/-- The npm package that a request finds. -/
def Request.target (r : Request) (db : Database) : Option Package :=
  match r.operation with
  | .publish name _ | .setDistTag name _ _ | .deleteDistTag name _ | .updatePackument name _
  | .unpublishVersion name _ | .unpublishPackage name =>
    db.package? .npm (r.env.normalizedFor .npm name)
  | .refresh .npm _ name (.answered remote _ _ _) =>
    db.package? .npm (r.env.normalizedFor .npm (if remote.name ≠ "" then remote.name else name))
  | .refresh .npm _ name _ => db.package? .npm (r.env.normalizedFor .npm name)
  | _ => none

/-- What an answer adds to the tags of a local package names versions. -/
structure Fits (env : RegistryEnv) (remote : RemotePackage) (p : Package) : Prop where
  named : ∀ rv ∈ remote.versions, rv.version ≠ ""
  tags : ∀ e ∈ remote.distTags, p.distTags.find? e.1 = none →
    e.2 ∈ Npm.versionNames p ∨ ∃ rv ∈ remote.versions, rv.version = e.2
  latest : ∀ version, answeredLatest env remote = some version →
    version ∈ Npm.versionNames p ∨ ∃ rv ∈ remote.versions, rv.version = version

/-- The package that becomes local has its tags in order; the version that a tarball DELETE
removes is not named by them; and the refresh that ends on a package which became local
leaves no version without a name, and adds only tags that name versions. -/
def Request.KeepsTags (r : Request) (db : Database) : Prop :=
  ∀ p, r.target db = some p → match r.operation with
    | .publish _ _ => p.isLocal = false → p.InOrder
    | .unpublishVersion _ filename => p.isLocal = true →
      ∀ v file, Npm.fileTarget p filename = some (v, file) →
        p.latestVersion ≠ some v.version ∧ ∀ t ∈ p.distTags, t.version ≠ v.version
    | .refresh _ _ _ resolution => p.isLocal = true →
      (resolution matches .fresh) ∨ "" ∉ Npm.versionNames p ∧
        ∀ remote upstream validators tier,
          resolution = .answered remote upstream validators tier → Fits r.env remote p
    | _ => True

/-! ## The invariant -/

/-- An npm package stores versions under their own text; a local one has its tags in order. -/
structure Package.NpmSound (p : Package) : Prop where
  named : p.ecosystem = .npm → ∀ v ∈ p.versions, v.normalizedVersion = v.version
  inOrder : p.ecosystem = .npm → p.isLocal = true → p.InOrder

def Database.TagsSound (db : Database) : Prop := ∀ p ∈ db.packages, p.NpmSound

section

variable {db db' : Database} {p p' : Package}

theorem mem_versionNames {version : String} :
    version ∈ Npm.versionNames p ↔ ∃ v ∈ p.versions, v.version = version := List.mem_map

theorem Package.InOrder.of_frame (h : p.InOrder) (htags : p'.distTags = p.distTags)
    (hlatest : p'.latestVersion = p.latestVersion)
    (hnames : ∀ version ∈ Npm.versionNames p, version ∈ Npm.versionNames p') : p'.InOrder where
  tags t ht := hnames _ (h.tags t (htags ▸ ht))
  latest version hv := hnames _ (h.latest version (hlatest ▸ hv))

theorem Database.TagsSound.put (hs : db.TagsSound) (hput : db'.packages = db.packages.put p')
    (hp' : p'.NpmSound) : db'.TagsSound := by
  intro q hq
  rw [hput] at hq
  rcases Table.mem_put.mp hq with rfl | ⟨hq, -⟩
  · exact hp'
  · exact hs q hq

end

/-! ## Setting tags -/

section Tagging

variable {package package' : Package}

theorem Package.InOrder.applyTag (h : package.InOrder) {tag version : String}
    (hnamed : version ∈ Npm.versionNames package) : (Npm.applyTag package (tag, version)).InOrder where
  tags t ht := by
    rcases Table.mem_put.mp ht with rfl | ⟨ht, -⟩
    · exact hnamed
    · exact h.tags t ht
  latest v hv := by
    have hv : (if tag = "latest" then some version else package.latestVersion) = some v := hv
    split at hv
    · obtain rfl := Option.some.inj hv
      exact hnamed
    · exact h.latest v hv

theorem foldl_applyTag_inOrder {tags : List (String × String)}
    (hnamed : ∀ t ∈ tags, t.2 ∈ Npm.versionNames package) (h : package.InOrder) :
    (tags.foldl Npm.applyTag package).InOrder := by
  induction tags generalizing package with
  | nil => exact h
  | cons t tags ih =>
    have hnext : (Npm.applyTag package t).InOrder := h.applyTag (hnamed t List.mem_cons_self)
    refine ih (fun t' ht' => ?_) hnext
    exact hnamed t' (List.mem_cons_of_mem _ ht')

/-- `max_semver` of versions that are there is there. -/
theorem publishedTags_named {distTags tags : List (String × String)} {published : List String}
    (hpublished : ∀ version ∈ published, version ∈ Npm.versionNames package)
    (h : Npm.publishedTags package distTags published = .ok tags) :
    ∀ t ∈ tags, t.2 ∈ Npm.versionNames package := by
  unfold Npm.publishedTags at h
  dsimp only at h
  split at h
  · next hempty =>
    obtain ⟨greatest, hmax, rfl⟩ := map_ok h
    intro t ht
    obtain rfl := List.mem_singleton.mp ht
    rcases greatest with _ | version
    · have hne : published ≠ [] := by
        simp only [Bool.and_eq_true, decide_eq_true_eq] at hempty
        exact hempty.2
      exact absurd hmax (maxSemver_ne_none hne)
    · exact hpublished version (maxSemver_mem hmax)
  · obtain rfl := Except.ok.inj h
    exact fun t ht => by simpa using (List.mem_filter.mp ht).2

/-- A publish leaves the tags in order, if they were. -/
theorem tagPackage_inOrder {distTags : List (String × String)} {published : List String}
    (hpublished : ∀ version ∈ published, version ∈ Npm.versionNames package)
    (h : package.InOrder) (htag : Npm.tagPackage package distTags published = .ok package') :
    package'.InOrder := by
  unfold Npm.tagPackage at htag
  obtain ⟨tags, htags, htag⟩ := bind_ok htag
  have hset := foldl_applyTag_inOrder (publishedTags_named hpublished htags) h
  dsimp only at htag
  split at htag
  · obtain ⟨latest, hmax, htag⟩ := bind_ok htag
    obtain rfl := Except.ok.inj htag
    refine ⟨hset.tags, fun version hv => ?_⟩
    obtain rfl : latest = some version := hv
    exact maxSemver_mem hmax
  · obtain rfl := Except.ok.inj htag
    exact hset

end Tagging

/-! ## Removing versions -/

section Updating

variable {package package' : Package} {update : Npm.PackumentUpdate} {hidden : List String}

theorem deprecateRow_version (submitted : List (String × Json)) (missing : Bool)
    (among : String → Bool) (v : PackageVersion) :
    (Npm.deprecateRow submitted missing among v).version = v.version := by
  unfold Npm.deprecateRow
  split
  · split <;> rfl
  · rfl

theorem versionNames_applyDeprecations (submitted : List (String × Json)) (missing : Bool)
    (among : String → Bool) (package : Package) :
    Npm.versionNames (Npm.applyDeprecations submitted missing among package) =
      Npm.versionNames package := by
  have hrows : Npm.versionNames (Npm.applyDeprecations submitted missing among package) =
      (package.versions.rows.map (Npm.deprecateRow submitted missing among)).map
        PackageVersion.version := rfl
  rw [hrows, List.map_map]
  exact List.map_congr_left fun v _ => deprecateRow_version submitted missing among v

theorem mem_keptPackage {version : String} :
    version ∈ Npm.versionNames (Npm.keptPackage update hidden package) ↔
      version ∈ Npm.versionNames package ∧ Npm.survives update hidden version = true := by
  unfold Npm.keptPackage
  rw [versionNames_applyDeprecations, mem_versionNames, mem_versionNames]
  constructor
  · rintro ⟨v, hv, rfl⟩
    obtain ⟨hv, hsurvives⟩ := Table.mem_filter.mp hv
    exact ⟨⟨v, hv, rfl⟩, hsurvives⟩
  · rintro ⟨⟨v, hv, rfl⟩, hsurvives⟩
    exact ⟨v, Table.mem_filter.mpr ⟨hv, hsurvives⟩, rfl⟩

/-- Where `latest` goes is a survivor. -/
theorem wantedLatest_mem {survivors : List String} {wanted : Option String}
    (hne : survivors ≠ []) (h : Npm.wantedLatest update hidden survivors = .ok wanted) :
    wanted.getD "" ∈ survivors := by
  unfold Npm.wantedLatest at h
  split at h
  · next chosen hchosen =>
    obtain rfl := Except.ok.inj h
    obtain ⟨-, hmem⟩ := Option.filter_eq_some_iff.mp hchosen
    exact of_decide_eq_true hmem
  · dsimp only at h
    obtain ⟨greatest, hmax, rfl⟩ := map_ok h
    generalize hpool : (if survivors.filter (· ∉ hidden) = [] then survivors
      else survivors.filter (· ∉ hidden)) = pool at hmax
    have hsub : ∀ v ∈ pool, v ∈ survivors := by
      intro v hv
      rw [← hpool] at hv
      split at hv
      · exact hv
      · exact (List.mem_filter.mp hv).1
    have hpoolne : pool ≠ [] := by
      rw [← hpool]
      split
      · exact hne
      · assumption
    rcases greatest with _ | version
    · exact absurd hmax (maxSemver_ne_none hpoolne)
    · exact hsub version (maxSemver_mem hmax)

/-- Tags of removed versions go, or follow `latest`. -/
theorem retagPackage_inOrder {removed : List String} {wanted : String}
    (htags : ∀ t ∈ package.distTags, t.version ∉ removed → t.version ∈ Npm.versionNames package)
    (hwanted : wanted ∈ Npm.versionNames package) :
    (Npm.retagPackage removed wanted package).InOrder := by
  have hretagged : ∀ t ∈ (package.distTags.filter fun t =>
      t.version ∉ removed || t.tag = "latest").modify (Npm.retag removed wanted)
        (Npm.retag_tag removed wanted), t.version ∈ Npm.versionNames package := by
    intro t ht
    obtain ⟨t₀, ht₀, rfl⟩ := Table.mem_modify.mp ht
    obtain ⟨ht₀, hkept⟩ := Table.mem_filter.mp ht₀
    unfold Npm.retag
    split
    · exact hwanted
    · next hstays =>
      refine htags t₀ ht₀ fun hgone => hstays ?_
      simpa [hgone] using hkept
  unfold Npm.retagPackage
  dsimp only
  split
  · next latest hlatest =>
    refine ⟨hretagged, fun version hv => ?_⟩
    obtain rfl := Option.some.inj hv
    exact hretagged latest (Table.find?_mem hlatest)
  · refine ⟨fun t ht => ?_, fun version hv => ?_⟩
    · rcases Table.mem_put.mp ht with rfl | ⟨ht, -⟩
      · exact hwanted
      · exact hretagged t ht
    · obtain rfl := Option.some.inj hv
      exact hwanted

/-- `update_packument` leaves the tags in order. -/
theorem updatedPackage_inOrder (h : package.InOrder)
    (hsurvivor : (∃ v ∈ package.versions, Npm.survives update hidden v.version = false) →
      ∃ v ∈ package.versions, Npm.survives update hidden v.version = true)
    (hedited : Npm.updatedPackage update hidden package = .ok package') : package'.InOrder := by
  unfold Npm.updatedPackage at hedited
  dsimp only at hedited
  split at hedited
  · next hnone =>
    obtain rfl := Except.ok.inj hedited
    have hkept : ∀ version ∈ Npm.versionNames package,
        version ∈ Npm.versionNames (Npm.keptPackage update hidden package) := by
      intro version hv
      refine mem_keptPackage.mpr ⟨hv, ?_⟩
      simpa using List.filter_eq_nil_iff.mp hnone version hv
    exact h.of_frame rfl rfl hkept
  · next hsome =>
    obtain ⟨wanted, hwanted, hedited⟩ := bind_ok hedited
    obtain rfl := Except.ok.inj hedited
    obtain ⟨gone, hgone⟩ := List.exists_mem_of_ne_nil _ hsome
    obtain ⟨hgone, hdropped⟩ := List.mem_filter.mp hgone
    obtain ⟨v, hv, rfl⟩ := mem_versionNames.mp hgone
    obtain ⟨w, hw, hsurvives⟩ := hsurvivor ⟨v, hv, by simpa using hdropped⟩
    have hne : (Npm.versionNames package).filter (Npm.survives update hidden) ≠ [] :=
      List.ne_nil_of_mem (List.mem_filter.mpr ⟨mem_versionNames.mpr ⟨w, hw, rfl⟩, hsurvives⟩)
    refine @retagPackage_inOrder (Npm.keptPackage update hidden package) _ _
      (fun t ht hstays => mem_keptPackage.mpr ⟨h.tags t ht, ?_⟩)
      (mem_keptPackage.mpr (List.mem_filter.mp (wantedLatest_mem hne hwanted)))
    by_contra hlost
    exact hstays (List.mem_filter.mpr ⟨h.tags t ht, by simpa using hlost⟩)

end Updating

/-! ## Refreshing -/

section Refreshing

variable {env : RegistryEnv} {table : UpstreamTable} {answer : Option (RemotePackage × Int)}
variable {p p' : Package}

/-- What is derived is a version that is there. -/
theorem deriveLatest_mem {versions : Table PackageVersion.normalizedVersion} {version : String}
    (h : deriveLatest env.naming .npm versions = some version) :
    ∃ v ∈ versions, v.version = version := by
  unfold deriveLatest at h
  dsimp only at h
  generalize hnames : (if (versions.rows.filter fun v => !v.yanked).map PackageVersion.version = []
    then versions.rows.map PackageVersion.version
    else (versions.rows.filter fun v => !v.yanked).map PackageVersion.version) = names at h
  split at h
  · cases h
  · have hmax : maxSemver names = .ok (some version) := by
      have h : ((maxSemver names).toOption).join = some version := h
      rcases hm : maxSemver names with e | greatest
      · rw [hm] at h
        cases h
      · rw [hm] at h
        exact congrArg Except.ok h
    have hmem := maxSemver_mem hmax
    rw [← hnames] at hmem
    split at hmem
    · exact List.mem_map.mp hmem
    · obtain ⟨v, hv, hver⟩ := List.mem_map.mp hmem
      exact ⟨v, (List.mem_filter.mp hv).1, hver⟩

/-- Where there are versions, one is derived, unless the order raises. -/
theorem deriveLatest_isSome {versions : Table PackageVersion.normalizedVersion}
    (hne : versions.rows ≠ []) (hreturns : latestRaises .npm versions = false) :
    (deriveLatest env.naming .npm versions).isSome = true := by
  have hnone : deriveLatest env.naming .npm versions = none ↔ versions.rows = [] :=
    deriveLatest_eq_none (by simp) fun _ => hreturns
  exact Option.isSome_iff_ne_none.mpr fun h => hne (hnone.mp h)

/-- Pruning leaves a package as it is, or moves its tags off what it removed. -/
theorem pruneUnsourced_tags {nm : Naming} {ecosystem : Ecosystem} {purged : List PackageFile}
    {changed : Bool} (h : pruneUnsourced nm table ecosystem p answer = (p', purged, changed)) :
    p' = p ∨ ∃ removed : List String,
      (∀ version, version ∈ removed ↔ ∃ v ∈ p.versions,
        doomedVersion (liveSources nm.caseMap table ecosystem p.normalizedName)
          (presentIn nm ecosystem answer) v = true ∧ v.version = version) ∧
      p'.distTags = pruneTags removed (deriveLatest nm ecosystem p'.versions)
        (p'.versions.rows = []) p.distTags ∧
      p'.latestVersion = match p.latestVersion with
        | some v => if v ∈ removed then deriveLatest nm ecosystem p'.versions else some v
        | none => none := by
  unfold pruneUnsourced at h
  dsimp only at h
  split at h
  · exact .inl (Prod.mk.inj h).1.symm
  · obtain ⟨rfl, -⟩ := Prod.mk.inj h
    refine .inr ⟨_, fun version => ?_, rfl, rfl⟩
    simp only [List.mem_map, List.mem_filter, Table.mem_rows, and_assoc]

variable {purged : List PackageFile} {changed : Bool}

theorem mem_pruned_names {nm : Naming} {ecosystem : Ecosystem}
    (h : pruneUnsourced nm table ecosystem p answer = (p', purged, changed)) {version : String} :
    version ∈ Npm.versionNames p' ↔ ∃ v ∈ p.versions,
      doomedVersion (liveSources nm.caseMap table ecosystem p.normalizedName)
        (presentIn nm ecosystem answer) v = false ∧ v.version = version := by
  have hfst : p' = (pruneUnsourced nm table ecosystem p answer).1 := (congrArg Prod.fst h).symm
  rw [mem_versionNames, hfst]
  constructor
  · rintro ⟨v', hv', rfl⟩
    obtain ⟨v, hv, hstays, rfl⟩ := (pruneUnsourced_versions nm table ecosystem p answer v').mp hv'
    exact ⟨v, hv, hstays, (dropFiles_version _ _ v).symm⟩
  · rintro ⟨v, hv, hstays, rfl⟩
    exact ⟨_, (pruneUnsourced_versions nm table ecosystem p answer _).mpr ⟨v, hv, hstays, rfl⟩,
      dropFiles_version _ _ v⟩

theorem pruned_isLocal {nm : Naming} {ecosystem : Ecosystem}
    (h : pruneUnsourced nm table ecosystem p answer = (p', purged, changed)) :
    p'.isLocal = p.isLocal := by
  unfold pruneUnsourced at h
  dsimp only at h
  split at h <;> (obtain ⟨rfl, -⟩ := Prod.mk.inj h; rfl)

theorem pruned_named {nm : Naming} {ecosystem : Ecosystem}
    (h : pruneUnsourced nm table ecosystem p answer = (p', purged, changed))
    (hp : ∀ v ∈ p.versions, v.normalizedVersion = v.version) :
    ∀ v ∈ p'.versions, v.normalizedVersion = v.version := by
  have hfst : p' = (pruneUnsourced nm table ecosystem p answer).1 := (congrArg Prod.fst h).symm
  intro v' hv'
  rw [hfst] at hv'
  obtain ⟨v, hv, -, rfl⟩ := (pruneUnsourced_versions nm table ecosystem p answer v').mp hv'
  rw [dropFiles_normalizedVersion, dropFiles_version]
  exact hp v hv

/-- **Pruning** leaves the tags in order. -/
theorem pruneUnsourced_inOrder
    (h : pruneUnsourced env.naming table .npm p answer = (p', purged, changed))
    (hreturns : latestAsked p p' = true → latestRaises .npm p'.versions = false)
    (hunnamed : "" ∉ Npm.versionNames p) (hp : p.InOrder) : p'.InOrder := by
  rcases pruneUnsourced_tags h with rfl | ⟨removed, hremoved, htags, hlatest⟩
  · exact hp
  have hnames : ∀ version, version ∈ Npm.versionNames p' ↔ _ := fun _ => mem_pruned_names h
  -- what is named and was not removed is still there
  have hstays : ∀ version ∈ Npm.versionNames p, version ∉ removed →
      version ∈ Npm.versionNames p' := by
    intro version hversion hnot
    obtain ⟨v, hv, rfl⟩ := mem_versionNames.mp hversion
    refine (hnames _).mpr ⟨v, hv, ?_, rfl⟩
    by_contra hdoomed
    exact hnot ((hremoved _).mpr ⟨v, hv, by simpa using hdoomed, rfl⟩)
  have hderived : ∀ version, deriveLatest env.naming .npm p'.versions = some version →
      version ∈ Npm.versionNames p' :=
    fun version hv => mem_versionNames.mpr (deriveLatest_mem hv)
  -- a removed version has no row left, which is how `latestAsked` sees it
  have hasked : ∀ version ∈ removed, version ∈ (p.versions.rows.filter fun v =>
      (p'.versions.find? v.normalizedVersion).isNone).map PackageVersion.version := by
    intro version hversion
    obtain ⟨v, hv, hdoomed, rfl⟩ := (hremoved version).mp hversion
    refine List.mem_map_of_mem (List.mem_filter.mpr ⟨hv, ?_⟩)
    rw [Option.isNone_iff_eq_none, Table.find?_eq_none_iff]
    intro v' hv' hkey
    have hfst : p' = (pruneUnsourced env.naming table .npm p answer).1 := (congrArg Prod.fst h).symm
    rw [hfst] at hv'
    obtain ⟨w, hw, hstays, rfl⟩ := (pruneUnsourced_versions _ _ _ p answer v').mp hv'
    rw [dropFiles_normalizedVersion] at hkey
    rw [Table.eq_of_key hw hv hkey, hdoomed] at hstays
    cases hstays
  constructor
  · intro t' ht'
    rw [htags] at ht'
    obtain ⟨t, ht, hprune⟩ := mem_pruneTags.mp ht'
    unfold pruneTag at hprune
    split at hprune
    · next hgone =>
      split at hprune
      · next hlatestTag =>
        simp only [Bool.and_eq_true, decide_eq_true_eq, Bool.not_eq_true',
          decide_eq_false_iff_not] at hlatestTag
        have hreturns := hreturns (by
          unfold latestAsked
          rw [Bool.or_eq_true]
          refine .inl (List.any_eq_true.mpr ⟨t, ht, ?_⟩)
          simpa [hlatestTag.1] using hasked t.version hgone)
        obtain ⟨version, hversion⟩ := Option.isSome_iff_exists.mp
          (deriveLatest_isSome hlatestTag.2 hreturns : (deriveLatest env.naming .npm _).isSome = true)
        have hmem := hderived version hversion
        have hne : version ≠ "" := by
          rintro rfl
          obtain ⟨v, hv, -, hver⟩ := (hnames "").mp hmem
          exact hunnamed (mem_versionNames.mpr ⟨v, hv, hver⟩)
        obtain rfl := Option.some.inj hprune
        rw [hversion, Option.filter_some, if_pos (by simpa using hne)]
        exact hmem
      · cases hprune
    · next hthere =>
      obtain rfl := Option.some.inj hprune
      exact hstays t.version (hp.tags t ht) hthere
  · intro version hversion
    rw [hlatest] at hversion
    split at hversion
    · next named hnamed =>
      split at hversion
      · exact hderived version hversion
      · next hthere =>
        obtain rfl := Option.some.inj hversion
        exact hstays _ (hp.latest _ hnamed) hthere
    · cases hversion

end Refreshing

section Persisting

variable {env : RegistryEnv} {stored : Option Package} {remote : RemotePackage}
variable {upstream : Upstream} {name : String} {validators : Option Validators} {persisted : Package}

theorem persist_fields
    (h : persistRemotePackage env.naming .npm stored remote (some upstream) (some name) validators
      env.now = .ok persisted) :
    persisted.isLocal = (stored.map Package.isLocal).getD false ∧
    persisted.distTags = persistTags persisted.isLocal
      ((stored.map Package.distTags).getD (.empty _)) remote.distTags ∧
    ∀ version, persisted.latestVersion = some version →
      answeredLatest env remote = some version ∨
        (stored.bind Package.latestVersion) = some version ∨
        deriveLatest env.naming .npm persisted.versions = some version := by
  unfold persistRemotePackage at h
  extract_lets requested displayName normalized upstreamId row keywords versions latest at h
  split at h
  · cases h
  · obtain rfl := Except.ok.inj h
    refine ⟨by cases stored <;> rfl, by cases stored <;> rfl, fun version hv => ?_⟩
    have hv : (if latest = none then deriveLatest env.naming .npm versions else latest) =
        some version := hv
    have hrow : row.latestVersion = stored.bind Package.latestVersion := by cases stored <;> rfl
    split at hv
    · exact .inr (.inr hv)
    · have hv : (if remote.distTags = [] then row.latestVersion
          else answeredLatest env remote <|> row.latestVersion) = some version := hv
      split at hv
      · exact .inr (.inl (hrow.symm.trans hv))
      · rcases (Option.orElse_eq_some _ _ _).mp hv with hv | ⟨-, hv⟩
        · exact .inl hv
        · exact .inr (.inl (hrow.symm.trans hv))

/-- The tags of a local package after an answer: those it had, and new ones. -/
theorem persistTags_local {tags : Table DistTag.tag} {distTags : Dict String String} {t : DistTag}
    (h : t ∈ persistTags true tags distTags) :
    t ∈ tags ∨ ∃ e ∈ distTags, tags.find? e.1 = none ∧ e.2 = t.version := by
  unfold persistTags at h
  induction distTags generalizing tags with
  | nil => exact .inl h
  | cons e rest ih =>
    rw [List.foldl_cons] at h
    rcases hf : tags.find? e.1 with _ | old
    · rw [hf] at h
      rcases ih h with ht | ⟨e', he', hnone, hver⟩
      · rcases Table.mem_put.mp ht with rfl | ⟨ht, -⟩
        · exact .inr ⟨e, List.mem_cons_self, hf, rfl⟩
        · exact .inl ht
      · refine .inr ⟨e', List.mem_cons_of_mem _ he', ?_, hver⟩
        refine Table.find?_eq_none_iff.mpr fun old hold hk => ?_
        refine Table.find?_eq_none_iff.mp hnone old (Table.mem_put.mpr (.inr ⟨hold, ?_⟩)) hk
        exact Table.find?_eq_none_iff.mp hf old hold
    · rw [hf] at h
      rcases ih h with ht | ⟨e', he', hrest⟩
      · exact .inl ht
      · exact .inr ⟨e', List.mem_cons_of_mem _ he', hrest⟩

/-- The versions after an answer: those that were there, and those of the answer. -/
theorem persist_names
    (h : persistRemotePackage env.naming .npm stored remote (some upstream) (some name) validators
      env.now = .ok persisted)
    (hnamed : ∀ v ∈ storedVersions stored, v.normalizedVersion = v.version) :
    (∀ v ∈ persisted.versions, v.normalizedVersion = v.version) ∧
    ∀ version, version ∈ Npm.versionNames persisted ↔
      (∃ v ∈ storedVersions stored, v.version = version) ∨
        ∃ rv ∈ remote.versions, rv.version = version := by
  have hsources : ∀ rv ∈ remote.versions,
      Sources (fun _ => True) ((some upstream).map Upstream.id) rv :=
    fun rv _ => ⟨⟨upstream.id, rfl, trivial⟩, fun _ _ _ _ => trivial⟩
  have hresult : ∀ v ∈ remote.versions.foldl (persistVersion env.naming .npm
      ((some upstream).map Upstream.id)) (storedVersions stored), v.normalizedVersion = v.version :=
    persistVersions_named hsources hnamed
  have hkeys := persistVersions_keys env.naming .npm hsources (storedVersions stored)
  rw [← persist_versions h] at hresult
  rw [← persist_versions h] at hkeys
  refine ⟨hresult, fun version => ?_⟩
  have hkey := hkeys version
  rw [mem_versionNames]
  constructor
  · rintro ⟨v, hv, rfl⟩
    rcases (hkeys v.version).mp ⟨v, hv, hresult v hv⟩ with ⟨w, hw, hk⟩ | hanswer
    · exact .inl ⟨w, hw, (hnamed w hw).symm.trans hk⟩
    · exact .inr hanswer
  · intro hthere
    obtain ⟨v, hv, hk⟩ := hkey.mpr (hthere.imp_left fun ⟨v, hv, hver⟩ =>
      ⟨v, hv, (hnamed v hv).trans hver⟩)
    exact ⟨v, hv, (hresult v hv).symm.trans hk⟩

/-- **An answer that fits** a local package leaves its tags in order. -/
theorem persist_inOrder {p : Package}
    (h : persistRemotePackage env.naming .npm (some p) remote (some upstream) (some name) validators
      env.now = .ok persisted)
    (hnamed : ∀ v ∈ p.versions, v.normalizedVersion = v.version) (hlocal : p.isLocal = true)
    (hfits : Fits env remote p) (hp : p.InOrder) : persisted.InOrder := by
  obtain ⟨hisLocal, htags, hlatest⟩ := persist_fields h
  obtain ⟨-, hnames⟩ := persist_names h hnamed
  have hold : ∀ version ∈ Npm.versionNames p, version ∈ Npm.versionNames persisted :=
    fun version hv => (hnames version).mpr (.inl (mem_versionNames.mp hv))
  have hanswer : ∀ version, (version ∈ Npm.versionNames p ∨
      ∃ rv ∈ remote.versions, rv.version = version) → version ∈ Npm.versionNames persisted :=
    fun version hv => (hnames version).mpr (hv.imp_left mem_versionNames.mp)
  constructor
  · intro t ht
    have hisLocal : persisted.isLocal = true := hisLocal.trans hlocal
    rw [htags, hisLocal] at ht
    rcases persistTags_local ht with ht | ⟨e, he, hnew, hver⟩
    · exact hold _ (hp.tags t ht)
    · exact hver ▸ hanswer _ (hfits.tags e he hnew)
  · intro version hv
    rcases hlatest version hv with hv | hv | hv
    · exact hanswer _ (hfits.latest version hv)
    · exact hold _ (hp.latest version hv)
    · exact mem_versionNames.mpr (deriveLatest_mem hv)

end Persisting

/-! ## Every request -/

section Requests

variable {db db' : Database} {r : Request}

theorem Package.NpmSound.of_ecosystem {p : Package} (h : p.ecosystem ≠ .npm) : p.NpmSound :=
  ⟨fun hnpm => absurd hnpm h, fun hnpm => absurd hnpm h⟩

/-- The package that a publish opens. -/
theorem openPackage_npm (name : String) {normalized : String} {grant : PublishGrant}
    (hs : db.TagsSound) (hgrant : grant.package = db.package? .npm normalized)
    (hadopts : ∀ p, db.package? .npm normalized = some p → p.isLocal = false → p.InOrder) :
    (∀ v ∈ (openPackage .npm name normalized grant).versions, v.normalizedVersion = v.version) ∧
      (openPackage .npm name normalized grant).InOrder := by
  unfold openPackage
  rw [hgrant]
  rcases hfound : db.package? .npm normalized with _ | p
  · exact ⟨fun v hv => absurd hv Table.not_mem_empty,
      fun t ht => absurd ht Table.not_mem_empty, fun version hv => nomatch hv⟩
  · obtain ⟨hmem, hnpm⟩ := found_npm hfound
    have horder : p.InOrder := by
      rcases hlocal : p.isLocal with _ | _
      · exact hadopts p hfound hlocal
      · exact (hs p hmem).inOrder hnpm hlocal
    exact ⟨(hs p hmem).named hnpm, horder.tags, horder.latest⟩

/-- Filling a package with rows stored under their text keeps its versions. -/
theorem filledPackage_names {package : Package} (description : Option String)
    {rows : List PackageVersion} (hnamed : ∀ v ∈ package.versions, v.normalizedVersion = v.version)
    (hrows : ∀ v ∈ rows, v.normalizedVersion = v.version) :
    (∀ v ∈ (filledPackage package description rows).versions, v.normalizedVersion = v.version) ∧
    ∀ version, (version ∈ rows.map PackageVersion.version ∨ version ∈ Npm.versionNames package) →
      version ∈ Npm.versionNames (filledPackage package description rows) := by
  have hfilled : ∀ v ∈ (filledPackage package description rows).versions,
      v.normalizedVersion = v.version := by
    intro v hv
    rcases Table.mem_of_mem_foldl_put hv with hv | hv
    · exact hrows v hv
    · exact hnamed v hv
  refine ⟨hfilled, fun version hversion => ?_⟩
  obtain ⟨v, hv, hk⟩ : ∃ v ∈ rows.foldl Table.put package.versions,
      v.normalizedVersion = version := by
    refine Table.exists_mem_foldl_put (hversion.imp (fun h => ?_) fun h => ?_)
    · obtain ⟨v, hv, rfl⟩ := List.mem_map.mp h
      exact ⟨v, hv, hrows v hv⟩
    · obtain ⟨v, hv, rfl⟩ := mem_versionNames.mp h
      exact ⟨v, hv, hnamed v hv⟩
  exact mem_versionNames.mpr ⟨v, hv, (hfilled v hv).symm.trans hk⟩

theorem Database.TagsSound.refreshed (hs : db.TagsSound) {ecosystem : Ecosystem}
    {table : UpstreamTable} {name : String} {resolution : Resolution}
    (operation : r.operation = .refresh ecosystem table name resolution) (hkeeps : r.KeepsTags db)
    (hchange : RefreshChange r.env ecosystem name resolution db db') : db'.TagsSound := by
  cases hchange with
  | nothing packages => exact fun p hp => hs p (packages ▸ hp)
  | @settled table' stored package cachedAt purged changed resolved found pruned returns packages =>
    refine hs.put packages ?_
    have hkey : package.key = stored.key :=
      (congrArg (fun x => x.1.key) pruned).symm.trans (pruneUnsourced_key _ _ _ _ _)
    obtain ⟨hmem, hstored⟩ := Table.find?_eq_some_iff.mp found
    have heco : package.ecosystem = ecosystem := congrArg Prod.fst (hkey.trans hstored)
    by_cases hnpm : ecosystem = .npm
    · subst hnpm
      have hnamed := (hs stored hmem).named (congrArg Prod.fst hstored)
      refine ⟨fun _ => pruned_named pruned hnamed, fun _ hlocal => ?_⟩
      have hlocal : stored.isLocal = true := (pruned_isLocal pruned).symm.trans hlocal
      have htarget : r.target db = some stored := by
        unfold Request.target
        rw [operation]
        rcases resolved with rfl | rfl <;> exact found
      have hcondition := hkeeps stored htarget
      rw [operation] at hcondition
      rcases hcondition hlocal with hfresh | ⟨hunnamed, -⟩
      · rcases resolved with rfl | rfl <;> cases hfresh
      · have horder := (hs stored hmem).inOrder (congrArg Prod.fst hstored) hlocal
        exact pruneUnsourced_inOrder pruned returns hunnamed ⟨horder.tags, horder.latest⟩
    · exact .of_ecosystem (heco ▸ hnpm)
  | @answered table' normalized persisted package remote upstream validators tier purged changed named
      resolved persists keyed derives pruned returns packages =>
    refine hs.put packages ?_
    have hkey : package.key = persisted.key :=
      (congrArg (fun x => x.1.key) pruned).symm.trans (pruneUnsourced_key _ _ _ _ _)
    have heco : package.ecosystem = ecosystem := congrArg Prod.fst (hkey.trans keyed)
    by_cases hnpm : ecosystem = .npm
    · subst hnpm
      have hnamed : ∀ v ∈ storedVersions (db.package? .npm normalized),
          v.normalizedVersion = v.version := by
        intro v hv
        rcases hfound : db.package? .npm normalized with _ | p
        · rw [hfound] at hv
          exact absurd hv Table.not_mem_empty
        · rw [hfound] at hv
          exact (hs p (found_npm hfound).1).named (found_npm hfound).2 v hv
      obtain ⟨hnamed', hnames⟩ := persist_names persists hnamed
      refine ⟨fun _ => pruned_named pruned hnamed', fun _ hlocal => ?_⟩
      have hlocal : persisted.isLocal = true := (pruned_isLocal pruned).symm.trans hlocal
      obtain ⟨hisLocal, -⟩ := persist_fields persists
      rcases hfound : db.package? .npm normalized with _ | p
      · rw [hfound, hlocal] at hisLocal
        cases hisLocal
      · rw [hfound] at persists hisLocal hnames
        have hplocal : p.isLocal = true := hisLocal.symm.trans hlocal
        have htarget : r.target db = some p := by
          unfold Request.target
          rw [operation, resolved]
          dsimp only
          rw [← named]
          exact hfound
        have hcondition := hkeeps p htarget
        rw [operation] at hcondition
        rcases hcondition hplocal with hfresh | ⟨hunnamed, hfits⟩
        · rw [resolved] at hfresh
          cases hfresh
        · have hfits := hfits remote upstream validators tier resolved
          obtain ⟨hmem, hpnpm⟩ := found_npm hfound
          refine pruneUnsourced_inOrder pruned returns (fun hempty => ?_)
            (persist_inOrder persists ((hs p hmem).named hpnpm) hplocal hfits
              ((hs p hmem).inOrder hpnpm hplocal))
          rcases (hnames "").mp hempty with ⟨v, hv, hver⟩ | ⟨rv, hrv, hver⟩
          · exact hunnamed (mem_versionNames.mpr ⟨v, hv, hver⟩)
          · exact hfits.named rv hrv hver
    · exact .of_ecosystem (heco ▸ hnpm)

/-- **Every request** that keeps the tags keeps them in order. -/
theorem Database.TagsSound.after (hs : db.TagsSound) (hkeeps : r.KeepsTags db) :
    (r.after db).TagsSound := by
  have hchange := r.change db
  generalize r.after db = db' at hchange ⊢
  cases hchange with
  | nothing packages _ => exact fun p hp => hs p (packages ▸ hp)
  | @published name body parsed grant description rows package operation parse granted fresh
      notRetired names stored tagged packages _ =>
    obtain ⟨hname, -⟩ := NpmPublish.parsePublishDocument_versions parse
    have hframe := Npm.tagPackage_frame tagged
    have hrows : ∀ v ∈ rows, v.normalizedVersion = v.version := fun v hv => (stored v hv).2
    obtain ⟨hopened, horder⟩ := openPackage_npm parsed.name hs granted fun p hfound => by
      have hcondition := hkeeps p (by
        unfold Request.target
        rw [operation]
        exact hname ▸ hfound)
      rwa [operation] at hcondition
    obtain ⟨hfilled, hnames⟩ := filledPackage_names description hopened hrows
    refine hs.put packages ⟨fun _ => hframe.versions ▸ hfilled, fun _ _ => ?_⟩
    refine tagPackage_inOrder (fun version hv => hnames version (.inl (names ▸ hv))) ?_ tagged
    exact horder.of_frame rfl rfl fun version hv => hnames version (.inr hv)
  | @deprecated package submitted found ecosystem packages _ =>
    have hp := hs package found
    refine hs.put packages ⟨fun _ v hv => ?_, fun _ hlocal => ?_⟩
    · obtain ⟨w, hw, rfl⟩ := Npm.mem_applyDeprecations.mp hv
      rw [Npm.deprecateRow_normalizedVersion, deprecateRow_version]
      exact hp.named ecosystem w hw
    · refine (hp.inOrder ecosystem hlocal).of_frame rfl rfl fun version hv => ?_
      rwa [versionNames_applyDeprecations]
  | @opened name grant granted packages _ =>
    have hkey := openPackage_key name granted
    refine hs.put packages (.of_ecosystem ?_)
    have heco : (openPackage .pypi name (r.env.normalizedFor .pypi name) grant).ecosystem = .pypi :=
      congrArg Prod.fst hkey
    rw [heco]
    decide
  | @uploaded form request metadata grant scan package operation read granted _ opens _ packages _ =>
    have hkey := openPackage_key request.name granted
    refine hs.put packages (.of_ecosystem ?_)
    have heco : (Pypi.storeUpload r.env request metadata scan package).ecosystem = .pypi := by
      rw [opens]
      exact congrArg Prod.fst hkey
    rw [heco]
    decide
  | @tagged package tag version found ecosystem named packages _ =>
    have hp := hs package found
    exact hs.put packages ⟨fun _ => hp.named ecosystem,
      fun _ hlocal => (hp.inOrder ecosystem hlocal).applyTag named⟩
  | @untagged package tag found ecosystem packages _ =>
    have hp := hs package found
    refine hs.put packages ⟨fun _ => hp.named ecosystem, fun _ hlocal => ?_⟩
    have horder := hp.inOrder ecosystem hlocal
    exact ⟨fun t ht => horder.tags t (Table.mem_filter.mp ht).1, horder.latest⟩
  | @unpublished package v name filename file mid operation found target _ packages _ =>
    obtain ⟨hmem, hnpm⟩ := found_npm found
    have hp := hs package hmem
    have hdrop : ∀ w, w ∈ (Npm.dropVersion package v).versions ↔
        w ∈ package.versions ∧ w.normalizedVersion ≠ v.normalizedVersion := by
      intro w
      unfold Npm.dropVersion
      simp
    refine hs.put packages ⟨fun _ w hw => hp.named hnpm w ((hdrop w).mp hw).1, fun _ hlocal => ?_⟩
    have horder := hp.inOrder hnpm hlocal
    have hcondition := hkeeps package (by
      unfold Request.target
      rw [operation]
      exact found)
    rw [operation] at hcondition
    obtain ⟨hlatest, htags⟩ := hcondition hlocal v file target
    have hstays : ∀ version ∈ Npm.versionNames package, version ≠ v.version →
        version ∈ Npm.versionNames (Npm.dropVersion package v) := by
      intro version hversion hne
      obtain ⟨w, hw, rfl⟩ := mem_versionNames.mp hversion
      refine mem_versionNames.mpr ⟨w, (hdrop w).mpr ⟨hw, fun heq => hne ?_⟩, rfl⟩
      exact congrArg PackageVersion.version (Table.eq_of_key hw (fileTarget_mem target) heq)
    exact ⟨fun t ht => hstays _ (horder.tags t ht) (htags t ht),
      fun version hv => hstays _ (horder.latest version hv) fun heq => hlatest (heq ▸ hv)⟩
  | removed _ _ _ packages _ =>
    intro p hp
    rw [packages] at hp
    exact hs p (Table.mem_filter.mp hp).1
  | @updated package package' update hidden mid found ecosystem survivor edited _ packages _ =>
    have hp := hs package found
    have hframe := Npm.updatedPackage_frame edited
    refine hs.put packages ⟨fun _ v hv => ?_, fun _ hlocal => ?_⟩
    · rw [hframe.versions] at hv
      obtain ⟨w, hw, rfl⟩ := Npm.mem_applyDeprecations.mp hv
      rw [Npm.deprecateRow_normalizedVersion, deprecateRow_version]
      exact hp.named ecosystem w (Table.mem_filter.mp hw).1
    · have hlocal : package.isLocal = true := hframe.isLocal.symm.trans hlocal
      exact updatedPackage_inOrder (hp.inOrder ecosystem hlocal) survivor edited
  | refreshed operation stored =>
    exact hs.refreshed operation hkeeps (refresh_change stored).1

/-- **Dist-tags and `latest_version`** of every local npm package name versions it has, in
every run whose requests keep the tags. -/
theorem tags_in_order {db : Database} (h : npmRegistry.Reach (fun db r => r.KeepsTags db) db) :
    ∀ p ∈ db.packages, p.ecosystem = .npm → p.isLocal = true → p.InOrder := by
  have hs : db.TagsSound := by
    refine System.Reach.invariant (I := Database.TagsSound) ?_ ?_ h
    · rintro db rfl
      exact fun p hp => absurd hp Table.not_mem_empty
    · rintro db r db' hs hkeeps rfl
      exact hs.after hkeeps
  exact fun p hp => (hs p hp).inOrder

end Requests

/-! ## A tarball DELETE -/

def demoDelete (filename : String) : Request where
  env := demoEnv
  identity := { userId := some 1 }
  operation := .unpublishVersion "demo" filename

/-- `demo` with 1.0.0 and 1.1.0, which is `latest`. -/
def demoReleases : Database := (demoPublish "1.1.0").after ((demoPublish "1.0.0").after {})

/-- The tarball of `latest` is deleted, and `latest` names a version that is gone. -/
theorem tags_dangle : ∃ db, npmRegistry.Reach (fun _ _ => True) db ∧
    ∃ p ∈ db.packages, p.ecosystem = .npm ∧ p.isLocal = true ∧ ¬ p.InOrder := by
  refine ⟨(demoDelete "demo-1.1.0.tgz").after demoReleases,
    .step (.step (.step (.init rfl) trivial rfl) trivial rfl) trivial rfl, ?_⟩
  have hdangles : ∃ p ∈ ((demoDelete "demo-1.1.0.tgz").after demoReleases).packages.rows,
      p.ecosystem = .npm ∧ p.isLocal = true ∧
        ∃ t ∈ p.distTags.rows, t.version ∉ Npm.versionNames p := by
    decide +kernel
  obtain ⟨p, hp, hnpm, hlocal, t, ht, hgone⟩ := hdangles
  exact ⟨p, hp, hnpm, hlocal, fun horder => hgone (horder.tags t ht)⟩

theorem demoPublish_keepsTags {version : String} {db : Database}
    (h : ∀ p, db.package? .npm "demo" = some p → p.isLocal = true) :
    (demoPublish version).KeepsTags db := by
  intro p hp hlocal
  rw [h p hp] at hlocal
  cases hlocal

/-- The tarball of the other version is deleted, and the tags stay in order. -/
theorem tags_in_order_demo :
    ((demoDelete "demo-1.0.0.tgz").after demoReleases).packages.rows.map Npm.versionNames =
      [["1.1.0"]] ∧
    ∀ p ∈ ((demoDelete "demo-1.0.0.tgz").after demoReleases).packages,
      p.ecosystem = .npm → p.isLocal = true → p.InOrder := by
  refine ⟨by decide +kernel, tags_in_order (.step (.step (.step (.init rfl) ?_ rfl) ?_ rfl) ?_ rfl)⟩
  · exact demoPublish_keepsTags fun p hp => nomatch hp
  · refine demoPublish_keepsTags fun p hp => ?_
    have hlocal : (((demoPublish "1.0.0").after {}).package? .npm "demo").all (·.isLocal) = true := by
      decide +kernel
    rwa [hp] at hlocal
  · intro p hp _ v file htarget
    have hunnamed : (demoReleases.package? .npm "demo").all (fun p =>
        (Npm.fileTarget p "demo-1.0.0.tgz").all fun target =>
          p.latestVersion ≠ some target.1.version &&
            p.distTags.rows.all fun t => t.version ≠ target.1.version) = true := by
      decide +kernel
    have hp : demoReleases.package? .npm "demo" = some p := hp
    rw [hp] at hunnamed
    have hunnamed : (Npm.fileTarget p "demo-1.0.0.tgz").all (fun target =>
        p.latestVersion ≠ some target.1.version &&
          p.distTags.rows.all fun t => t.version ≠ target.1.version) = true := hunnamed
    rw [htarget] at hunnamed
    have hboth : p.latestVersion ≠ some v.version ∧ ∀ t ∈ p.distTags.rows, t.version ≠ v.version := by
      simpa using hunnamed
    exact hboth

end Minireg
