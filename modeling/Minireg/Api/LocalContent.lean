import Minireg.Api.Requests

/-!
# A refresh and what was published here

`persistRemotePackage` upserts an upstream's document around local rows. It never
touches a local version, drops no version and leaves the tags of a local package, but
it takes the document's `latest` for the package: `KeepsLatest` says when that changes
nothing.
-/

namespace Minireg

open Py Lib

/-- What a refresh must leave as it was published. -/
structure LeavesLocal (p p' : Package) : Prop where
  locals : ∀ v ∈ p.versions, v.isLocal = true → v ∈ p'.versions
  versions : ∀ v ∈ p.versions, ∃ v' ∈ p'.versions,
    v'.version = v.version ∧ v'.normalizedVersion = v.normalizedVersion
  tags : p.isLocal = true → ∀ t ∈ p.distTags, t ∈ p'.distTags
  latest : p.isLocal = true → p'.latestVersion = p.latestVersion

/-- The answer names no other `latest`, and where none is stored there is no version
to derive one from. -/
def KeepsLatest (env : RegistryEnv) (p : Package) (remote : RemotePackage) : Prop :=
  (∀ version, answeredLatest env remote = some version → p.latestVersion = some version) ∧
    (p.latestVersion = none → p.versions.rows = [] ∧ remote.versions = [])

instance (env : RegistryEnv) (p : Package) (remote : RemotePackage) :
    Decidable (KeepsLatest env p remote) :=
  decidable_of_iff ((∀ version ∈ (answeredLatest env remote).toList,
    p.latestVersion = some version) ∧
      (p.latestVersion = none → p.versions.rows = [] ∧ remote.versions = []))
    (by simp [KeepsLatest])

/-! ## One version of the answer -/

section Versions

variable {nm : Naming} {ecosystem : Ecosystem} {defaultSource : Option Nat}
  {versions : Table PackageVersion.normalizedVersion}

/-- **What persisting one version does**: nothing where the row is local, and else it
writes that row, or a new one. -/
theorem persistVersion_writes (remote : RemoteVersion) :
    (persistVersion nm ecosystem defaultSource versions remote = versions ∧
      ∃ v ∈ versions, v.isLocal = true) ∨
    ∃ v', persistVersion nm ecosystem defaultSource versions remote = versions.put v' ∧
      ∀ v ∈ versions, v.normalizedVersion = v'.normalizedVersion →
        v.isLocal = false ∧ v'.version = v.version := by
  unfold persistVersion
  dsimp only
  rcases hf : versions.find? (normalizedVersion nm ecosystem remote.version) with _ | row
  · refine .inr ⟨_, rfl, fun v hv hk => absurd ?_ (Table.find?_eq_none_iff.mp hf v hv)⟩
    exact hk.trans (persistFields_sameRow remote true _).normalizedVersion
  · obtain ⟨hrow, -⟩ := Table.find?_eq_some_iff.mp hf
    dsimp only
    split
    · next hl => exact .inl ⟨rfl, row, hrow, hl⟩
    · next hl =>
      have hsame : SameRow row (persistFields defaultSource remote false row).1 :=
        persistFields_sameRow remote false row
      have hwritten : SameRow row
          (if (persistFields defaultSource remote false row).2 && remote.metadata ≠ [] then
            { (persistFields defaultSource remote false row).1 with metadataJson := remote.metadata }
          else (persistFields defaultSource remote false row).1) := by
        split
        · exact ⟨hsame.version, hsame.normalizedVersion, hsame.isLocal⟩
        · exact hsame
      refine .inr ⟨_, rfl, fun v hv hk => ?_⟩
      obtain rfl := Table.eq_of_key hv hrow (hk.trans hwritten.normalizedVersion)
      exact ⟨by simpa using hl, hwritten.version⟩

theorem persistVersion_local {v : PackageVersion} (remote : RemoteVersion) (hv : v ∈ versions)
    (hl : v.isLocal = true) : v ∈ persistVersion nm ecosystem defaultSource versions remote := by
  rcases persistVersion_writes remote with ⟨he, -⟩ | ⟨v', he, hwrites⟩
  · rw [he]
    exact hv
  · rw [he]
    refine Table.mem_put.mpr (.inr ⟨hv, fun hk => ?_⟩)
    rw [(hwrites v hv hk).1] at hl
    cases hl

theorem persistVersion_stays {v : PackageVersion} (remote : RemoteVersion) (hv : v ∈ versions) :
    ∃ v' ∈ persistVersion nm ecosystem defaultSource versions remote,
      v'.version = v.version ∧ v'.normalizedVersion = v.normalizedVersion := by
  rcases persistVersion_writes remote with ⟨he, -⟩ | ⟨v', he, hwrites⟩
  · rw [he]
    exact ⟨v, hv, rfl, rfl⟩
  · rw [he]
    by_cases hk : v.normalizedVersion = v'.normalizedVersion
    · exact ⟨v', Table.mem_put.mpr (.inl rfl), (hwrites v hv hk).2, hk.symm⟩
    · exact ⟨v, Table.mem_put.mpr (.inr ⟨hv, hk⟩), rfl, rfl⟩

theorem persistVersion_nonempty (remote : RemoteVersion) :
    (persistVersion nm ecosystem defaultSource versions remote).rows ≠ [] := by
  rcases persistVersion_writes remote with ⟨he, v, hv, -⟩ | ⟨v', he, -⟩
  · rw [he]
    exact List.ne_nil_of_mem hv
  · rw [he]
    have hmem : v' ∈ versions.put v' := Table.mem_put.mpr (.inl rfl)
    exact List.ne_nil_of_mem hmem

theorem persistVersions_local (remotes : List RemoteVersion) {v : PackageVersion}
    (hv : v ∈ versions) (hl : v.isLocal = true) :
    v ∈ remotes.foldl (persistVersion nm ecosystem defaultSource) versions := by
  induction remotes generalizing versions with
  | nil => exact hv
  | cons remote remotes ih => exact ih (persistVersion_local remote hv hl)

theorem persistVersions_stay (remotes : List RemoteVersion) {v : PackageVersion}
    (hv : v ∈ versions) :
    ∃ v' ∈ remotes.foldl (persistVersion nm ecosystem defaultSource) versions,
      v'.version = v.version ∧ v'.normalizedVersion = v.normalizedVersion := by
  induction remotes generalizing versions v with
  | nil => exact ⟨v, hv, rfl, rfl⟩
  | cons remote remotes ih =>
    obtain ⟨w, hw, hversion, hnormalized⟩ := persistVersion_stays remote hv
    obtain ⟨v', hv', hversion', hnormalized'⟩ := ih hw
    exact ⟨v', hv', hversion'.trans hversion, hnormalized'.trans hnormalized⟩

theorem persistVersions_empty (remotes : List RemoteVersion) :
    (remotes.foldl (persistVersion nm ecosystem defaultSource) versions).rows = [] ↔
      versions.rows = [] ∧ remotes = [] := by
  induction remotes generalizing versions with
  | nil => simp
  | cons remote remotes ih =>
    rw [List.foldl_cons, ih]
    simp [persistVersion_nonempty]

end Versions

/-! ## Tags and the latest version -/

theorem mem_persistTags_local {tags : Table DistTag.tag} (distTags : Dict String String) {t : DistTag}
    (ht : t ∈ tags) : t ∈ persistTags true tags distTags := by
  unfold persistTags
  induction distTags generalizing tags with
  | nil => exact ht
  | cons e distTags ih =>
    rw [List.foldl_cons]
    refine ih ?_
    split
    · next hnone =>
      exact Table.mem_put.mpr (.inr ⟨ht, Table.find?_eq_none_iff.mp hnone t ht⟩)
    · exact ht

/-- **A refresh leaves local content alone** but for the latest version. -/
theorem persist_leavesLocal {env : RegistryEnv} {ecosystem : Ecosystem} {p p' : Package}
    {remote : RemotePackage} {upstream : Option Upstream} {name : Option String}
    {validators : Option Validators} {now : Time}
    (hsorts : ∀ vs, (env.sortPypiVersions vs).Perm vs)
    (h : persistRemotePackage env.naming ecosystem (some p) remote upstream name validators now =
      .ok p')
    (hreturns : p'.latestVersion = none → ecosystem ≠ .pypi → latestRaises .npm p'.versions = false) :
    LeavesLocal p p' ↔ (p.isLocal = true → KeepsLatest env p remote) := by
  unfold persistRemotePackage at h
  extract_lets requested displayName normalized upstreamId row keywords versions latest at h
  split at h
  · cases h
  · obtain rfl := Except.ok.inj h
    have hlatest : latest = (answeredLatest env remote <|> p.latestVersion) := by
      unfold latest answeredLatest
      split
      · next hnone =>
        rw [hnone]
        rfl
      · rfl
    have hversions : versions.rows = [] ↔ p.versions.rows = [] ∧ remote.versions = [] :=
      persistVersions_empty remote.versions
    have hkeeps : (if latest = none then deriveLatest env.naming ecosystem versions else latest) =
        p.latestVersion ↔ KeepsLatest env p remote := by
      unfold KeepsLatest
      rw [← hversions]
      rcases hanswered : answeredLatest env remote with _ | answered
      · rcases hp : p.latestVersion with _ | stored
        · have hnone : latest = none := by rw [hlatest, hanswered, hp]; rfl
          rw [if_pos hnone]
          dsimp only at hreturns
          rw [if_pos hnone] at hreturns
          constructor
          · intro hderived
            exact ⟨by simp, fun _ =>
              (deriveLatest_eq_none (fun _ => hsorts) (hreturns hderived)).mp hderived⟩
          · intro hempty
            unfold deriveLatest
            simp [hempty.2 rfl]
        · have hsome : latest = some stored := by rw [hlatest, hanswered, hp]; rfl
          simp [hsome]
      · have hsome : latest = some answered := by rw [hlatest, hanswered]; rfl
        rw [if_neg (by simp [hsome]), hsome]
        constructor
        · intro hsame
          exact ⟨fun version hversion => hsame ▸ hversion, fun hnone => by
            rw [hnone] at hsame
            cases hsame⟩
        · exact fun hk => (hk.1 answered rfl).symm
    constructor
    · exact fun hleaves hlocal => hkeeps.mp (hleaves.latest hlocal)
    · intro hk
      refine ⟨fun v hv hl => persistVersions_local remote.versions hv hl,
        fun v hv => persistVersions_stay remote.versions hv, fun hlocal t ht => ?_,
        fun hlocal => hkeeps.mpr (hk hlocal)⟩
      have hstays := mem_persistTags_local remote.distTags ht
      rwa [← hlocal] at hstays

/-! ## A private package that shadows a public one -/

/-- A package published here, with its tag. -/
def privateTool : Package where
  ecosystem := .npm
  name := "tool"
  normalizedName := "tool"
  isLocal := true
  latestVersion := some "1.0.0"
  versions := { rows := [{ version := "1.0.0", normalizedVersion := "1.0.0", isLocal := true }] }
  distTags := { rows := [{ tag := "latest", version := "1.0.0" }] }

/-- What the public registry has under the name. -/
def shadowedTool : RemotePackage where
  name := "tool"
  versions := [{ version := "1.0.0" }, { version := "2.0.0" }]
  distTags := [("latest", "2.0.0"), ("next", "2.0.0")]

def persistShadowed (remote : RemotePackage) : Except String Package :=
  persistRemotePackage demoEnv.naming .npm (some privateTool) remote (some publicSource)
    (some "tool") none 0

/-- The version and the tag stay, and `latest_version` becomes the public one. -/
theorem persist_moves_latest : ∃ p', persistShadowed shadowedTool = .ok p' ∧
    p'.latestVersion = some "2.0.0" ∧ ¬ LeavesLocal privateTool p' := by
  refine ⟨_, rfl, by decide, fun hleaves => ?_⟩
  exact absurd (hleaves.latest rfl) (by decide)

theorem persist_leavesLocal_demo :
    ∃ p', persistShadowed { shadowedTool with distTags := [("next", "2.0.0")] } = .ok p' ∧
      (LeavesLocal privateTool p' ↔ (privateTool.isLocal = true →
        KeepsLatest demoEnv privateTool
          { shadowedTool with distTags := [("next", "2.0.0")] })) ∧ LeavesLocal privateTool p' := by
  refine ⟨_, rfl, ?_⟩
  have hiff := persist_leavesLocal (p := privateTool) (fun vs => .refl vs) (rfl : persistShadowed
    { shadowedTool with distTags := [("next", "2.0.0")] } = .ok _) (fun _ _ => by decide)
  exact ⟨hiff, hiff.mpr fun _ => by decide⟩

end Minireg
