import Mathlib.Data.String.Basic
import Minireg.Api.Downloads
import Minireg.Api.Tags

/-!
# Three views of the dist-tags

The tags of the packument, the dist-tags endpoint, and the version that a request for a tag
is answered with. Each filters what the policy hides on its own, and each finds a `latest` of
its own where the stored one is missing or hidden. Each has a lemma here on what it shows.
-/

namespace Minireg.Npm

open Py Lib Semver

/-! ## The views -/

/-- `tags["latest"] = version`, of a version that has a text. -/
def addLatest (tags : Dict String String) (version : Option String) : Dict String String :=
  match version.filter (· ≠ "") with
  | some version => Dict.set tags "latest" version
  | none => tags

/-- `package.latest_version or max_semver(...)`. -/
def derivedLatest (package : Package) : Except ValueError (Option String) :=
  if package.latestVersion.getD "" ≠ "" then .ok package.latestVersion
  else maxSemver (versionNames package)

/-- `_dist_tags`. -/
def distTags (package : Package) : Except ValueError (Dict String String) := do
  let tags := package.distTags.rows.map fun t => (t.tag, t.version)
  if (Dict.get? tags "latest").isSome then return tags
  else return addLatest tags (← derivedLatest package)

section Views

variable (env : RegistryEnv) (package : Package)

/-- `_packument_response`, as far as the `dist-tags` of the document. -/
def packumentTags : Except ValueError (Page (String × String)) := do
  let name ← isNameBlocked env.policy env.engine .npm package.normalizedName
  if !name.allowed then return .forbidden name.reason
  else if package.versions.rows = [] then return .notFound
  else
    let tags ← distTags package
    let blocked ← blockedVersions env .npm package.normalizedName package
    if blocked = [] then return .document tags
    else
      -- `render_packument` has put the versions in the order of their texts
      let versions := ((versionNames package).insertionSort (· ≤ ·)).filter (· ∉ blocked)
      let tags := tags.filter fun e => e.2 ∉ blocked
      if versions = [] then
        return .forbidden (some "all versions of this package are blocked by policy")
      else if (Dict.get? tags "latest").isSome then return .document tags
      else return .document (addLatest tags (← maxSemver versions))

/-- `_blocked_from_rows`. -/
def blockedFromRows (rows : List PackageVersion) : Except ValueError (List String) := do
  let blocked ← rows.filterM fun v => do
    return !(← evaluate env.policy env.engine
      (storedSubject .npm package.normalizedName v)).allowed
  return blocked.map PackageVersion.version

theorem blockedVersions_eq : blockedVersions env .npm package.normalizedName package =
    blockedFromRows env package package.versions.rows := rfl

-- what `_version_columns` selects, in the order of the database
variable (rows : List PackageVersion)

/-- `_visible_dist_tags`. -/
def visibleDistTags : Except ValueError (Dict String String) := do
  let blocked ← blockedFromRows env package rows
  let tags := (package.distTags.rows.filter fun t => t.version ∉ blocked).map fun t =>
    (t.tag, t.version)
  if (Dict.get? tags "latest").isSome then return tags
  else
    let survivors := (rows.map PackageVersion.version).filter (· ∉ blocked)
    return addLatest tags (← maxSemver survivors)

/-- `get_dist_tags`. -/
def getDistTags : Except ValueError (Page (String × String)) := do
  let verdict ← evaluate env.policy env.engine
    { ecosystem := .npm, normalizedName := package.normalizedName }
  if !verdict.allowed then return .forbidden verdict.reason
  else return .document (← visibleDistTags env package rows)

/-- `load_version`. -/
def loadVersion (wanted : String) : Option PackageVersion :=
  package.versions.rows.find? (·.version = wanted)

/-- The row that `_version_response` answers with, if its policy lets it. -/
def resolveVersion (wanted : String) : Except ValueError (Option PackageVersion) :=
  match loadVersion package wanted with
  | some v => .ok (some v)
  | none => do
    let tags ← visibleDistTags env package rows
    let resolved := Dict.get? tags wanted <|> (package.distTags.find? wanted).map DistTag.version
    return resolved.bind (loadVersion package)

/-- `_version_response`. -/
def versionResponse (wanted : String) : Except ValueError (Page PackageVersion) := do
  match ← resolveVersion env package rows wanted with
  | none => return .notFound
  | some v =>
    let verdict ← evaluate env.policy env.engine (storedSubject .npm package.normalizedName v)
    if !verdict.allowed then return .forbidden verdict.reason
    else return .document [v]

end Views

/-- A map that is answered shows a tag at a version. -/
def Shows (page : Except ValueError (Page (String × String))) (tag version : String) : Prop :=
  ∃ tags, page = .ok (.document tags) ∧ Dict.get? tags tag = some version

/-- A request for a tag is answered with a version. -/
def Resolves (env : RegistryEnv) (package : Package) (rows : List PackageVersion)
    (tag version : String) : Prop :=
  ∃ v, versionResponse env package rows tag = .ok (.document [v]) ∧ v.version = version

/-- A version that the policy lets through has that text. -/
def Allowed (env : RegistryEnv) (package : Package) (version : String) : Prop :=
  ∃ v ∈ package.versions, v.version = version ∧ Lets env .npm package v

/-- A stored tag, or `latest`. -/
def IsTag (package : Package) (tag : String) : Prop :=
  tag = "latest" ∨ ∃ t ∈ package.distTags, t.tag = tag

/-! ## Maps of tags -/

section Maps

variable {package : Package} {tags : Dict String String} {tag version : String}

theorem nodup_tags (p : DistTag → Bool) :
    (((package.distTags.rows.filter p).map fun t => (t.tag, t.version)).map Prod.fst).Nodup := by
  rw [List.map_map]
  exact package.distTags.nodup.sublist (List.filter_sublist.map _)

theorem get?_tags {p : DistTag → Bool} :
    Dict.get? ((package.distTags.rows.filter p).map fun t => (t.tag, t.version)) tag =
      some version ↔ ∃ t ∈ package.distTags, t.tag = tag ∧ t.version = version ∧ p t = true := by
  rw [Dict.get?_eq_some_iff (nodup_tags p), List.mem_map]
  constructor
  · rintro ⟨t, ht, heq⟩
    obtain ⟨ht, hp⟩ := List.mem_filter.mp ht
    exact ⟨t, ht, congrArg Prod.fst heq, congrArg Prod.snd heq, hp⟩
  · rintro ⟨t, ht, rfl, rfl, hp⟩
    exact ⟨t, List.mem_filter.mpr ⟨ht, hp⟩, rfl⟩

theorem get?_filter {p : String × String → Bool} (h : (tags.map Prod.fst).Nodup) :
    Dict.get? (tags.filter p) tag = some version ↔
      Dict.get? tags tag = some version ∧ p (tag, version) = true := by
  rw [Dict.get?_eq_some_iff (h.sublist (List.filter_sublist.map _)), Dict.get?_eq_some_iff h,
    List.mem_filter]

theorem nodup_addLatest (h : (tags.map Prod.fst).Nodup) (latest : Option String) :
    ((addLatest tags latest).map Prod.fst).Nodup := by
  unfold addLatest
  split
  · exact Dict.nodup_keys_set h _ _
  · exact h

theorem get?_addLatest (h : Dict.get? tags "latest" = none) {latest : Option String} :
    Dict.get? (addLatest tags latest) tag = some version ↔
      Dict.get? tags tag = some version ∨
        tag = "latest" ∧ latest.filter (· ≠ "") = some version := by
  unfold addLatest
  split
  · next v hv =>
    rw [hv, Dict.get?_set]
    split
    · next htag =>
      rw [htag, h]
      simp
    · next htag => simp [htag]
  · next hnone =>
    rw [hnone]
    simp

end Maps

/-! ## What is hidden -/

/-- A stored version that the policy does not let through. -/
def Hidden (env : RegistryEnv) (package : Package) (version : String) : Prop :=
  version ∈ versionNames package ∧ ¬ Allowed env package version

/-- The texts of the rows that the policy lets through, in their order. -/
def allowedVersions (env : RegistryEnv) (package : Package) (rows : List PackageVersion) :
    List String :=
  (rows.filter fun v => allowedBit env.policy env.engine
    (storedSubject .npm package.normalizedName v) = some true).map PackageVersion.version

/-- `max_semver`, of versions with a text. -/
def greatest (versions : List String) : Option String :=
  ((maxSemver versions).toOption.join).filter (· ≠ "")

section Hiding

variable {env : RegistryEnv} {package : Package} {rows : List PackageVersion}
  {version : String}

theorem same_version (h : Catalogued env .npm package) {v w : PackageVersion}
    (hv : v ∈ package.versions) (hw : w ∈ package.versions) (heq : v.version = w.version) :
    v = w :=
  Table.eq_of_key hv hw (by rw [h.versions v hv, h.versions w hw, heq])

theorem allowed_iff (h : Catalogued env .npm package) {v : PackageVersion}
    (hv : v ∈ package.versions) : Allowed env package v.version ↔ Lets env .npm package v := by
  constructor
  · rintro ⟨w, hw, heq, hlets⟩
    rwa [same_version h hw hv heq] at hlets
  · exact fun hlets => ⟨v, hv, rfl, hlets⟩

theorem hidden_iff (h : Catalogued env .npm package) {v : PackageVersion}
    (hv : v ∈ package.versions) : Hidden env package v.version ↔ ¬ Lets env .npm package v := by
  rw [← allowed_iff h hv]
  exact and_iff_right (mem_versionNames.mpr ⟨v, hv, rfl⟩)

theorem allowedBit_iff (h : Catalogued env .npm package) {v : PackageVersion}
    (hv : v ∈ package.versions) : allowedBit env.policy env.engine
      (storedSubject .npm package.normalizedName v) = some true ↔ Lets env .npm package v := by
  obtain ⟨verdict, hverdict, hallowed⟩ := h.verdict hv
  unfold allowedBit
  rw [hverdict, ← hallowed]
  exact Option.some_inj

theorem mem_allowedVersions (h : Catalogued env .npm package)
    (hrows : rows.Perm package.versions.rows) :
    version ∈ allowedVersions env package rows ↔ Allowed env package version := by
  unfold allowedVersions
  rw [List.mem_map]
  constructor
  · rintro ⟨v, hv, rfl⟩
    obtain ⟨hv, hbit⟩ := List.mem_filter.mp hv
    have hv : v ∈ package.versions := hrows.mem_iff.mp hv
    exact ⟨v, hv, rfl, (allowedBit_iff h hv).mp (of_decide_eq_true hbit)⟩
  · rintro ⟨v, hv, rfl, hlets⟩
    exact ⟨v, List.mem_filter.mpr
      ⟨hrows.mem_iff.mpr hv, decide_eq_true ((allowedBit_iff h hv).mpr hlets)⟩, rfl⟩

/-- The rows are judged one by one, and what is blocked is what is hidden. -/
theorem blockedFromRows_ok (h : Catalogued env .npm package)
    (hrows : rows.Perm package.versions.rows) :
    ∃ blocked, blockedFromRows env package rows = .ok blocked ∧
      ∀ version, version ∈ blocked ↔ Hidden env package version := by
  have hfilter : rows.filterM (fun v => do
      return !(← evaluate env.policy env.engine
        (storedSubject .npm package.normalizedName v)).allowed) =
      .ok (rows.filter fun v => allowedBit env.policy env.engine
        (storedSubject .npm package.normalizedName v) ≠ some true) := by
    refine filterM_ok fun v hv => ?_
    obtain ⟨verdict, hverdict, -⟩ := h.verdict (hrows.mem_iff.mp hv)
    unfold allowedBit
    rw [hverdict]
    cases hallowed : verdict.allowed <;> simp [hallowed, bind, Except.bind, pure, Except.pure,
      Except.toOption]
  refine ⟨_, by unfold blockedFromRows; rw [hfilter]; rfl, fun version => ?_⟩
  rw [List.mem_map]
  constructor
  · rintro ⟨v, hv, rfl⟩
    obtain ⟨hv, hbit⟩ := List.mem_filter.mp hv
    have hv : v ∈ package.versions := hrows.mem_iff.mp hv
    rw [hidden_iff h hv, ← allowedBit_iff h hv]
    exact of_decide_eq_true hbit
  · rintro ⟨hnamed, hhidden⟩
    obtain ⟨v, hv, rfl⟩ := mem_versionNames.mp hnamed
    rw [allowed_iff h hv, ← allowedBit_iff h hv] at hhidden
    exact ⟨v, List.mem_filter.mpr ⟨hrows.mem_iff.mpr hv, decide_eq_true hhidden⟩, rfl⟩

/-- What is not blocked is what is allowed, in the same order. -/
theorem survivors_eq (h : Catalogued env .npm package)
    (hrows : rows.Perm package.versions.rows) {blocked : List String}
    (hblocked : ∀ version, version ∈ blocked ↔ Hidden env package version) :
    (rows.map PackageVersion.version).filter (· ∉ blocked) = allowedVersions env package rows := by
  unfold allowedVersions
  rw [List.filter_map]
  refine congrArg (List.map PackageVersion.version) (List.filter_congr fun v hv => ?_)
  have hv : v ∈ package.versions := hrows.mem_iff.mp hv
  refine decide_eq_decide.mpr ?_
  rw [hblocked, hidden_iff h hv, not_not, allowedBit_iff h hv]

/-- The stored versions are short enough to be put in order. -/
theorem maxSemver_ok (h : Catalogued env .npm package) {versions : List String}
    (hsub : versions ⊆ versionNames package) :
    ∃ latest, maxSemver versions = .ok latest ∧ latest.filter (· ≠ "") = greatest versions := by
  have hkey : ∀ version ∈ versions, Returns (semverKey version) := by
    intro version hversion
    obtain ⟨v, hv, rfl⟩ := mem_versionNames.mp (hsub hversion)
    have hwidth : v.version.length ≤ 128 := (h.fits v hv).2
    exact (parse_returns (hwidth.trans (by decide))).map
  have hreturns : Returns (maxSemver versions) := by
    unfold maxSemver
    split
    · exact Avoids.ok _
    · dsimp only
      unfold sortSemver
      refine (Avoids.bind (Avoids.mapM fun version hversion => ?_) fun keyed _ => Avoids.ok _).map
      refine (hkey version ?_).map
      split at hversion
      · exact hversion
      · exact (List.mem_filter.mp hversion).1
  obtain ⟨latest, hlatest⟩ := hreturns.exists_ok
  refine ⟨latest, hlatest, ?_⟩
  unfold greatest
  rw [hlatest]
  rfl

end Hiding

/-! ## What each view shows -/

/-- A stored tag that no view filters out. -/
def Kept (env : RegistryEnv) (package : Package) (tag version : String) : Prop :=
  ∃ t ∈ package.distTags, t.tag = tag ∧ t.version = version ∧ ¬ Hidden env package t.version

/-- The policy lets the name through when it is asked about no version. -/
def Plain (env : RegistryEnv) (package : Package) : Prop :=
  ∃ verdict, evaluate env.policy env.engine
    { ecosystem := .npm, normalizedName := package.normalizedName } = .ok verdict ∧
    verdict.allowed = true

/-- The `latest` that the packument derives, if it derives one. -/
def derived (package : Package) : Option String :=
  ((derivedLatest package).toOption.join).filter (· ≠ "")

/-- The packument derives a `latest` and does not filter it out. -/
structure KeepsDerived (env : RegistryEnv) (package : Package) : Prop where
  missing : package.distTags.find? "latest" = none
  shown : ∀ version, derived package = some version → ¬ Hidden env package version
  absent : derived package = none → ∀ version, ¬ Hidden env package version

/-- The allowed versions in the order of their texts. -/
def sortedAllowed (env : RegistryEnv) (package : Package) : List String :=
  ((versionNames package).insertionSort (· ≤ ·)).filter
    (· ∈ allowedVersions env package package.versions.rows)

section Showing

variable {env : RegistryEnv} {package : Package} {rows : List PackageVersion}
  {tag version : String}

theorem visibleDistTags_ok (h : Catalogued env .npm package)
    (hrows : rows.Perm package.versions.rows) :
    ∃ tags, visibleDistTags env package rows = .ok tags ∧ ∀ tag version,
      Dict.get? tags tag = some version ↔ Kept env package tag version ∨
        tag = "latest" ∧ (∀ kept, ¬ Kept env package "latest" kept) ∧
          greatest (allowedVersions env package rows) = some version := by
  obtain ⟨blocked, hblocked, hhidden⟩ := blockedFromRows_ok h hrows
  have hsub : allowedVersions env package rows ⊆ versionNames package := by
    intro version hversion
    obtain ⟨v, hv, rfl, -⟩ := (mem_allowedVersions h hrows).mp hversion
    exact mem_versionNames.mpr ⟨v, hv, rfl⟩
  obtain ⟨latest, hlatest, hgreatest⟩ := maxSemver_ok h hsub
  have hkept : ∀ tag version, Dict.get?
      ((package.distTags.rows.filter fun t => t.version ∉ blocked).map fun t =>
        (t.tag, t.version)) tag = some version ↔ Kept env package tag version := by
    intro tag version
    rw [get?_tags]
    unfold Kept
    simp only [decide_eq_true_eq, hhidden]
  set tags := (package.distTags.rows.filter fun t => t.version ∉ blocked).map fun t =>
    (t.tag, t.version) with htags
  have hrun : visibleDistTags env package rows =
      if (Dict.get? tags "latest").isSome then .ok tags else .ok (addLatest tags latest) := by
    unfold visibleDistTags
    rw [hblocked]
    change (if (Dict.get? tags "latest").isSome then Except.ok tags else do
      return addLatest tags
        (← maxSemver ((rows.map PackageVersion.version).filter (· ∉ blocked)))) = _
    rw [survivors_eq h hrows hhidden, hlatest]
    rfl
  rw [hrun]
  split
  · next hsome =>
    obtain ⟨kept, hsome⟩ := Option.isSome_iff_exists.mp hsome
    refine ⟨tags, rfl, fun tag version => ?_⟩
    rw [hkept]
    refine (or_iff_left ?_).symm
    exact fun hnone => hnone.2.1 kept ((hkept _ _).mp hsome)
  · next hnone =>
    rw [Option.not_isSome_iff_eq_none] at hnone
    refine ⟨addLatest tags latest, rfl, fun tag version => ?_⟩
    rw [get?_addLatest hnone, hkept, hgreatest]
    have hlost : ∀ kept, ¬ Kept env package "latest" kept := by
      intro kept hkeeps
      rw [(hkept _ _).mpr hkeeps] at hnone
      cases hnone
    exact or_congr_right (and_congr_right fun _ => (and_iff_right hlost).symm)

/-- The endpoint shows its map where the policy lets the bare name through. -/
theorem shows_getDistTags_iff (h : Catalogued env .npm package)
    (hrows : rows.Perm package.versions.rows) :
    Shows (getDistTags env package rows) tag version ↔
      Plain env package ∧ (Kept env package tag version ∨
        tag = "latest" ∧ (∀ kept, ¬ Kept env package "latest" kept) ∧
          greatest (allowedVersions env package rows) = some version) := by
  obtain ⟨tags, htags, hget⟩ := visibleDistTags_ok h hrows
  unfold Shows Plain getDistTags
  rw [← hget]
  rcases evaluate env.policy env.engine
    { ecosystem := .npm, normalizedName := package.normalizedName } with e | verdict
  · constructor
    · rintro ⟨tags', htags', -⟩
      cases htags'
    · rintro ⟨⟨verdict, hverdict, -⟩, -⟩
      cases hverdict
  · have hrun : (Except.ok verdict >>= fun verdict =>
        if (!verdict.allowed) = true then Except.ok (Page.forbidden verdict.reason)
        else do return .document (← visibleDistTags env package rows) :
          Except ValueError (Page (String × String))) =
        if (!verdict.allowed) = true then .ok (.forbidden verdict.reason)
        else .ok (.document tags) := by
      rw [htags]
      rfl
    constructor
    · rintro ⟨tags', htags', hshown⟩
      have htags' := hrun.symm.trans htags'
      split at htags'
      · cases htags'
      · next hallowed =>
        obtain rfl := Page.document.inj (Except.ok.inj htags')
        exact ⟨⟨verdict, rfl, by simpa using hallowed⟩, hshown⟩
    · rintro ⟨⟨verdict', hverdict', hallowed⟩, hshown⟩
      obtain rfl := Except.ok.inj hverdict'
      refine ⟨tags, hrun.trans ?_, hshown⟩
      rw [hallowed]
      rfl

theorem mem_sortedAllowed (h : Catalogued env .npm package) :
    version ∈ sortedAllowed env package ↔ Allowed env package version := by
  unfold sortedAllowed
  rw [List.mem_filter, List.mem_insertionSort, decide_eq_true_eq, mem_allowedVersions h (.refl _)]
  refine and_iff_right_of_imp ?_
  rintro ⟨v, hv, rfl, -⟩
  exact mem_versionNames.mpr ⟨v, hv, rfl⟩

/-- The tags as `render_packument` has them, before anything is filtered. -/
theorem distTags_ok (h : Catalogued env .npm package) :
    ∃ tags, distTags package = .ok tags ∧ (tags.map Prod.fst).Nodup ∧ ∀ tag version,
      Dict.get? tags tag = some version ↔
        (∃ t ∈ package.distTags, t.tag = tag ∧ t.version = version) ∨
        tag = "latest" ∧ package.distTags.find? "latest" = none ∧
          derived package = some version := by
  obtain ⟨latest, hlatest, hderived⟩ : ∃ latest, derivedLatest package = .ok latest ∧
      latest.filter (· ≠ "") = derived package := by
    unfold derived derivedLatest
    split
    · exact ⟨_, rfl, rfl⟩
    · obtain ⟨latest, hmax, hgreatest⟩ := maxSemver_ok h (List.Subset.refl (versionNames package))
      refine ⟨latest, hmax, ?_⟩
      rw [hmax]
      rfl
  have hall : package.distTags.rows.filter (fun _ => true) = package.distTags.rows :=
    List.filter_eq_self.mpr fun _ _ => rfl
  have hnodup := @nodup_tags package fun _ => true
  have hstored : ∀ tag version, Dict.get?
      (package.distTags.rows.map fun t => (t.tag, t.version)) tag = some version ↔
        ∃ t ∈ package.distTags, t.tag = tag ∧ t.version = version := by
    intro tag version
    rw [← hall, get?_tags]
    simp only [and_true]
  have hmissing : Dict.get? (package.distTags.rows.map fun t => (t.tag, t.version)) "latest" =
      none ↔ package.distTags.find? "latest" = none := by
    rw [Table.find?_eq_none_iff, Option.eq_none_iff_forall_ne_some]
    constructor
    · exact fun hnone t ht htag => hnone t.version ((hstored _ _).mpr ⟨t, ht, htag, rfl⟩)
    · intro hnone version hsome
      obtain ⟨t, ht, htag, -⟩ := (hstored _ _).mp hsome
      exact hnone t ht htag
  rw [hall] at hnodup
  set tags := package.distTags.rows.map fun t => (t.tag, t.version) with htags
  have hrun : distTags package =
      if (Dict.get? tags "latest").isSome then .ok tags else .ok (addLatest tags latest) := by
    unfold distTags
    rw [hlatest]
    rfl
  rw [hrun]
  split
  · next hsome =>
    refine ⟨tags, rfl, hnodup, fun tag version => ?_⟩
    rw [hstored]
    refine (or_iff_left fun hother => ?_).symm
    rw [hmissing.mpr hother.2.1] at hsome
    cases hsome
  · next hnone =>
    rw [Option.not_isSome_iff_eq_none] at hnone
    refine ⟨addLatest tags latest, rfl, nodup_addLatest hnodup latest, fun tag version => ?_⟩
    rw [get?_addLatest hnone, hstored, hderived]
    exact or_congr_right (and_congr_right fun _ => (and_iff_right (hmissing.mp hnone)).symm)

/-- The `latest` of the packument, where no stored one is left. -/
def StandsIn (env : RegistryEnv) (package : Package) (version : String) : Prop :=
  KeepsDerived env package ∧ derived package = some version ∨
    ¬ KeepsDerived env package ∧ greatest (sortedAllowed env package) = some version

/-- What `_packument_response` makes of the rendered tags, once the name was let through. -/
def filteredTags (tags : Dict String String) (blocked : List String) (latest : Option String) :
    Dict String String :=
  let shown := tags.filter fun e => e.2 ∉ blocked
  if blocked = [] then tags
  else if (Dict.get? shown "latest").isSome then shown else addLatest shown latest

theorem packumentTags_run (h : Catalogued env .npm package) (hne : package.versions.rows ≠ [])
    (hname : ∃ verdict, isNameBlocked env.policy env.engine .npm package.normalizedName =
      .ok verdict ∧ verdict.allowed = true) :
    ∃ tags blocked latest, distTags package = .ok tags ∧
      (∀ version, version ∈ blocked ↔ Hidden env package version) ∧
      latest.filter (· ≠ "") = greatest (sortedAllowed env package) ∧
      packumentTags env package = .ok (
        if blocked ≠ [] ∧ sortedAllowed env package = [] then
          .forbidden (some "all versions of this package are blocked by policy")
        else .document (filteredTags tags blocked latest)) := by
  obtain ⟨verdict, hverdict, hpasses⟩ := hname
  obtain ⟨tags, htags, -⟩ := distTags_ok h
  obtain ⟨blocked, hblocked, hhidden⟩ := blockedFromRows_ok h (.refl package.versions.rows)
  rw [← blockedVersions_eq] at hblocked
  have hsub : sortedAllowed env package ⊆ versionNames package := fun version hversion =>
    (List.mem_insertionSort _).mp (List.mem_filter.mp hversion).1
  obtain ⟨latest, hlatest, hgreatest⟩ := maxSemver_ok h hsub
  have hversions : ((versionNames package).insertionSort (· ≤ ·)).filter (· ∉ blocked) =
      sortedAllowed env package := by
    refine List.filter_congr fun version hversion => decide_eq_decide.mpr ?_
    have hnamed := (List.mem_insertionSort _).mp hversion
    rw [hhidden, mem_allowedVersions h (.refl _)]
    exact ⟨fun hshown => by_contra fun hno => hshown ⟨hnamed, hno⟩, fun hin hno => hno.2 hin⟩
  refine ⟨tags, blocked, latest, htags, hhidden, hgreatest, ?_⟩
  unfold packumentTags filteredTags
  rw [hverdict]
  change (if (!verdict.allowed) = true then _ else if package.versions.rows = [] then _
    else distTags package >>= fun tags => _ : Except ValueError (Page (String × String))) = _
  rw [hpasses, if_neg (by decide), if_neg hne, htags]
  change (blockedVersions env .npm package.normalizedName package >>= fun blocked => _ :
    Except ValueError (Page (String × String))) = _
  rw [hblocked]
  change (if blocked = [] then _ else if _ = [] then _ else if _ then _ else _ :
    Except ValueError (Page (String × String))) = _
  rw [hversions]
  by_cases hempty : blocked = []
  · simp only [hempty, if_true, ne_eq, not_true_eq_false, false_and, if_false]
    rfl
  · by_cases hnone : sortedAllowed env package = []
    · rw [if_neg hempty, if_pos hnone, if_pos ⟨hempty, hnone⟩]
      rfl
    · have hboth : ¬(blocked ≠ [] ∧ sortedAllowed env package = []) := fun hboth => hnone hboth.2
      rw [if_neg hempty, if_neg hnone, if_neg hboth, hlatest]
      dsimp only
      rw [if_neg hempty]
      split <;> rfl

theorem get?_filteredTags (h : Catalogued env .npm package) {tags : Dict String String}
    {blocked : List String} {latest : Option String} (htags : distTags package = .ok tags)
    (hhidden : ∀ version, version ∈ blocked ↔ Hidden env package version)
    (hgreatest : latest.filter (· ≠ "") = greatest (sortedAllowed env package)) :
    Dict.get? (filteredTags tags blocked latest) tag = some version ↔
      Kept env package tag version ∨ tag = "latest" ∧
        (∀ kept, ¬ Kept env package "latest" kept) ∧ StandsIn env package version := by
  obtain ⟨tags', htags', hnodup, hget⟩ := distTags_ok h
  obtain rfl := Except.ok.inj (htags.symm.trans htags')
  have hstored : (∃ t ∈ package.distTags, t.tag = "latest") ↔
      package.distTags.find? "latest" ≠ none := by
    rw [Ne, Table.find?_eq_none_iff]
    push Not
    rfl
  unfold filteredTags
  set shown := tags.filter fun e => e.2 ∉ blocked with hshown
  by_cases hempty : blocked = []
  · have hnothing : ∀ version, ¬ Hidden env package version := by
      intro version
      rw [← hhidden, hempty]
      exact List.not_mem_nil
    have hkept : ∀ tag version, Kept env package tag version ↔
        ∃ t ∈ package.distTags, t.tag = tag ∧ t.version = version := by
      intro tag version
      unfold Kept
      simp only [hnothing, not_false_eq_true, and_true]
    rw [if_pos hempty, hget, hkept]
    refine or_congr_right (and_congr_right fun _ => ?_)
    constructor
    · rintro ⟨hmissing, hderived⟩
      refine ⟨fun kept hkeeps => ?_, .inl ⟨⟨hmissing, fun v _ => hnothing v, fun _ => hnothing⟩,
        hderived⟩⟩
      obtain ⟨t, ht, htag, -⟩ := (hkept _ _).mp hkeeps
      exact hstored.mp ⟨t, ht, htag⟩ hmissing
    · rintro ⟨hlost, hstands⟩
      have hmissing : package.distTags.find? "latest" = none := by
        by_contra hfound
        obtain ⟨t, ht, htag⟩ := hstored.mpr hfound
        exact hlost _ ((hkept _ _).mpr ⟨t, ht, htag, rfl⟩)
      rcases hstands with ⟨-, hderived⟩ | ⟨hno, -⟩
      · exact ⟨hmissing, hderived⟩
      · exact absurd ⟨hmissing, fun v _ => hnothing v, fun _ => hnothing⟩ hno
  · have hshownGet : ∀ tag version, Dict.get? shown tag = some version ↔
        Kept env package tag version ∨ tag = "latest" ∧
          package.distTags.find? "latest" = none ∧ derived package = some version ∧
            ¬ Hidden env package version := by
      intro tag version
      rw [hshown, get?_filter hnodup, hget, decide_eq_true_eq, hhidden]
      unfold Kept
      constructor
      · rintro ⟨⟨t, ht, htag, rfl⟩ | ⟨htag, hmissing, hderived⟩, hshown⟩
        · exact .inl ⟨t, ht, htag, rfl, hshown⟩
        · exact .inr ⟨htag, hmissing, hderived, hshown⟩
      · rintro (⟨t, ht, htag, rfl, hshown⟩ | ⟨htag, hmissing, hderived, hshown⟩)
        · exact ⟨.inl ⟨t, ht, htag, rfl⟩, hshown⟩
        · exact ⟨.inr ⟨htag, hmissing, hderived⟩, hshown⟩
    have hlost : package.distTags.find? "latest" = none →
        ∀ kept, ¬ Kept env package "latest" kept := by
      rintro hmissing kept ⟨t, ht, htag, -⟩
      exact hstored.mp ⟨t, ht, htag⟩ hmissing
    rw [if_neg hempty]
    split
    · next hpresent =>
      obtain ⟨latest, hpresent⟩ := Option.isSome_iff_exists.mp hpresent
      rw [hshownGet]
      refine or_congr_right (and_congr_right fun _ => ?_)
      rcases (hshownGet _ _).mp hpresent with hkept | ⟨-, hmissing, hderived, hvisible⟩
      · refine iff_of_false (fun h => hlost h.1 latest hkept) fun h => h.1 latest hkept
      · have hkeeps : KeepsDerived env package :=
          { missing := hmissing
            shown := fun v hv => Option.some.inj (hderived.symm.trans hv) ▸ hvisible
            absent := fun hnone => absurd (hnone.symm.trans hderived) (Option.some_ne_none _).symm }
        constructor
        · rintro ⟨-, hv, -⟩
          exact ⟨hlost hmissing, .inl ⟨hkeeps, hv⟩⟩
        · rintro ⟨-, ⟨-, hv⟩ | ⟨hno, -⟩⟩
          · exact ⟨hmissing, hv, hkeeps.shown _ hv⟩
          · exact absurd hkeeps hno
    · next habsent =>
      rw [Option.not_isSome_iff_eq_none] at habsent
      have hnone : ∀ version, Dict.get? shown "latest" ≠ some version := by simp [habsent]
      have hdrops : ¬ KeepsDerived env package := by
        intro hkeeps
        rcases hderived : derived package with _ | v
        · refine hempty (List.eq_nil_iff_forall_not_mem.mpr fun version hversion => ?_)
          exact hkeeps.absent hderived version ((hhidden _).mp hversion)
        · refine hnone v ((hshownGet _ _).mpr (.inr ⟨rfl, hkeeps.missing, hderived, ?_⟩))
          exact hkeeps.shown v hderived
      rw [get?_addLatest habsent, hshownGet, hgreatest]
      constructor
      · rintro ((hkept | hother) | ⟨htag, hv⟩)
        · exact .inl hkept
        · exact absurd ((hshownGet _ _).mpr (.inr ⟨rfl, hother.2⟩)) (hnone version)
        · exact .inr ⟨htag, fun kept hkept => hnone kept ((hshownGet _ _).mpr (.inl hkept)),
            .inr ⟨hdrops, hv⟩⟩
      · rintro (hkept | ⟨htag, -, ⟨hkeeps, -⟩ | ⟨-, hv⟩⟩)
        · exact .inl (.inl hkept)
        · exact absurd hkeeps hdrops
        · exact .inr ⟨htag, hv⟩

/-- The packument shows its map where some version is allowed. -/
theorem shows_packumentTags_iff (h : Catalogued env .npm package) :
    Shows (packumentTags env package) tag version ↔
      (∃ allowed, Allowed env package allowed) ∧ (Kept env package tag version ∨
        tag = "latest" ∧ (∀ kept, ¬ Kept env package "latest" kept) ∧
          StandsIn env package version) := by
  constructor
  · rintro ⟨shown, hpage, hget⟩
    obtain ⟨hne, hname⟩ : package.versions.rows ≠ [] ∧ ∃ verdict,
        isNameBlocked env.policy env.engine .npm package.normalizedName = .ok verdict ∧
          verdict.allowed = true := by
      unfold packumentTags at hpage
      obtain ⟨verdict, hverdict, hpage⟩ := bind_ok hpage
      split at hpage
      · cases hpage
      · next hpasses =>
        split at hpage
        · cases hpage
        · next hne => exact ⟨hne, verdict, hverdict, by simpa using hpasses⟩
    obtain ⟨tags, blocked, latest, htags, hhidden, hgreatest, hrun⟩ :=
      packumentTags_run h hne hname
    have hpage := Except.ok.inj (hrun.symm.trans hpage)
    split at hpage
    · cases hpage
    · next hsome =>
      obtain rfl := Page.document.inj hpage
      refine ⟨?_, (get?_filteredTags h htags hhidden hgreatest).mp hget⟩
      by_contra hnone
      obtain ⟨v, hv⟩ := List.exists_mem_of_ne_nil _ hne
      have hin : v.version ∈ blocked := (hhidden _).mpr
        ⟨mem_versionNames.mpr ⟨v, hv, rfl⟩, fun hallowed => hnone ⟨_, hallowed⟩⟩
      refine hsome ⟨List.ne_nil_of_mem hin, List.eq_nil_iff_forall_not_mem.mpr fun w hw => ?_⟩
      exact hnone ⟨w, (mem_sortedAllowed h).mp hw⟩
  · rintro ⟨⟨allowed, v, hv, rfl, hlets⟩, hshown⟩
    obtain ⟨verdict, hverdict, hpasses⟩ := h.nameVerdict (List.ne_nil_of_mem hv)
    obtain ⟨tags, blocked, latest, htags, hhidden, hgreatest, hrun⟩ :=
      packumentTags_run h (List.ne_nil_of_mem hv) ⟨verdict, hverdict, hpasses v hlets⟩
    have hsome : sortedAllowed env package ≠ [] :=
      List.ne_nil_of_mem ((mem_sortedAllowed h).mpr ⟨v, hv, rfl, hlets⟩)
    rw [if_neg fun hboth => hsome hboth.2] at hrun
    exact ⟨_, hrun, (get?_filteredTags h htags hhidden hgreatest).mpr hshown⟩

theorem loadVersion_some {wanted : String} {v : PackageVersion}
    (h : loadVersion package wanted = some v) : v ∈ package.versions ∧ v.version = wanted := by
  have hfound := List.find?_some h
  exact ⟨List.mem_of_find?_eq_some h, by simpa using hfound⟩

theorem loadVersion_of_mem (h : Catalogued env .npm package) {v : PackageVersion}
    (hv : v ∈ package.versions) : loadVersion package v.version = some v := by
  rcases hload : loadVersion package v.version with _ | w
  · exact absurd (decide_eq_true rfl) (List.find?_eq_none.mp hload v hv)
  · obtain ⟨hw, heq⟩ := loadVersion_some hload
    rw [same_version h hw hv heq]

theorem loadVersion_none {wanted : String} :
    loadVersion package wanted = none ↔ wanted ∉ versionNames package := by
  unfold loadVersion
  rw [List.find?_eq_none, mem_versionNames]
  constructor
  · rintro hnone ⟨v, hv, rfl⟩
    exact hnone v hv (decide_eq_true rfl)
  · exact fun hno v hv heq => hno ⟨v, hv, of_decide_eq_true heq⟩

theorem resolveVersion_mem {wanted : String} {v : PackageVersion}
    (h : resolveVersion env package rows wanted = .ok (some v)) : v ∈ package.versions := by
  unfold resolveVersion at h
  split at h
  · next w hload =>
    obtain rfl := Option.some.inj (Except.ok.inj h)
    exact (loadVersion_some hload).1
  · obtain ⟨tags, -, h⟩ := bind_ok h
    obtain ⟨resolved, -, hload⟩ := Option.bind_eq_some_iff.mp (Except.ok.inj h)
    exact (loadVersion_some hload).1

theorem resolveVersion_ok (h : Catalogued env .npm package)
    (hrows : rows.Perm package.versions.rows) {wanted : String} {v : PackageVersion}
    (hv : v ∈ package.versions) (hlets : Lets env .npm package v) :
    resolveVersion env package rows wanted = .ok (some v) ↔
      wanted ∈ versionNames package ∧ v.version = wanted ∨
        wanted ∉ versionNames package ∧ (Kept env package wanted v.version ∨
          wanted = "latest" ∧ (∀ kept, ¬ Kept env package "latest" kept) ∧
            greatest (allowedVersions env package rows) = some v.version) := by
  unfold resolveVersion
  rcases hload : loadVersion package wanted with _ | w
  · have hnamed := loadVersion_none.mp hload
    obtain ⟨tags, htags, hget⟩ := visibleDistTags_ok h hrows
    rw [htags]
    simp only [hnamed, false_and, not_false_eq_true, true_and, false_or]
    rw [← hget]
    change Except.ok ((Dict.get? tags wanted <|>
      (package.distTags.find? wanted).map DistTag.version).bind (loadVersion package)) = _ ↔ _
    rw [Except.ok.injEq, Option.bind_eq_some_iff]
    constructor
    · rintro ⟨version, hversion, hfound⟩
      obtain ⟨-, rfl⟩ := loadVersion_some hfound
      rcases hraw : Dict.get? tags wanted with _ | shown
      · -- a tag that was filtered out names a version that is hidden
        rw [hraw] at hversion
        obtain ⟨t, ht, heq⟩ := Option.map_eq_some_iff.mp hversion
        obtain ⟨hmem, htag⟩ := Table.find?_eq_some_iff.mp ht
        have hkept : Kept env package wanted t.version :=
          ⟨t, hmem, htag, rfl, by rw [heq, hidden_iff h hv, not_not]; exact hlets⟩
        rw [(hget _ _).mpr (.inl hkept)] at hraw
        cases hraw
      · rw [hraw] at hversion
        exact hversion
    · intro hshown
      rw [hshown]
      exact ⟨v.version, rfl, loadVersion_of_mem h hv⟩
  · obtain ⟨hw, rfl⟩ := loadVersion_some hload
    have hnamed : w.version ∈ versionNames package := mem_versionNames.mpr ⟨w, hw, rfl⟩
    simp only [hnamed, true_and, not_true_eq_false, false_and, or_false, Except.ok.injEq,
      Option.some.injEq]
    exact ⟨fun heq => congrArg _ heq.symm, fun heq => (same_version h hv hw heq).symm⟩

/-- A request is answered with an allowed version: the one of that text, else what the tag
is shown at. -/
theorem resolves_iff (h : Catalogued env .npm package)
    (hrows : rows.Perm package.versions.rows) :
    Resolves env package rows tag version ↔ Allowed env package version ∧
      (tag ∈ versionNames package ∧ version = tag ∨
        tag ∉ versionNames package ∧ (Kept env package tag version ∨
          tag = "latest" ∧ (∀ kept, ¬ Kept env package "latest" kept) ∧
            greatest (allowedVersions env package rows) = some version)) := by
  unfold Resolves versionResponse
  constructor
  · rintro ⟨v, hanswer, rfl⟩
    obtain ⟨found, hfound, hanswer⟩ := bind_ok hanswer
    rcases found with _ | w
    · cases hanswer
    obtain ⟨verdict, hverdict, hanswer⟩ := bind_ok hanswer
    split at hanswer
    · cases hanswer
    next hpasses =>
    obtain rfl := List.singleton_injective (Page.document.inj (Except.ok.inj hanswer))
    have hv := resolveVersion_mem hfound
    have hlets : Lets env .npm package w :=
      (evaluate_allowed_iff hverdict).mp (by simpa using hpasses)
    exact ⟨(allowed_iff h hv).mpr hlets, (resolveVersion_ok h hrows hv hlets).mp hfound⟩
  · rintro ⟨⟨v, hv, rfl, hlets⟩, hfound⟩
    obtain ⟨verdict, hverdict, hallowed⟩ := h.verdict hv
    refine ⟨v, ?_, rfl⟩
    rw [(resolveVersion_ok h hrows hv hlets).mpr hfound]
    change (evaluate env.policy env.engine (storedSubject .npm package.normalizedName v) >>=
      fun verdict => _ : Except ValueError (Page PackageVersion)) = _
    rw [hverdict]
    change (if (!verdict.allowed) = true then _ else _) = _
    rw [hallowed.mpr hlets]
    rfl

end Showing

end Minireg.Npm
