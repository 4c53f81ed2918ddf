import Minireg.Api.TagMaps
import Minireg.Core.Precedence

/-!
# When the tag views agree

`TagsAgree` says that the packument, the dist-tags endpoint and a request for a tag show one
map, with a stored tag in it exactly where its version is allowed. `Straight` is when they do.
-/

namespace Minireg.Npm

open Py Lib Semver

/-- **The views agree**: on each tag, and on a stored one they show its version exactly
where that is allowed. -/
structure TagsAgree (env : RegistryEnv) (package : Package) (rows : List PackageVersion) :
    Prop where
  endpoint : ∀ tag version,
    Shows (getDistTags env package rows) tag version ↔ Shows (packumentTags env package) tag version
  request : ∀ tag, IsTag package tag → ∀ version,
    Resolves env package rows tag version ↔ Shows (packumentTags env package) tag version
  stored : ∀ t ∈ package.distTags,
    Shows (packumentTags env package) t.tag t.version ↔ Allowed env package t.version

/-! ## The greatest version -/

/-- No other version has the key of the empty text. -/
theorem semverKey_empty {version : String} (h : semverKey version = semverKey "") :
    version = "" := by
  have hempty : semverKey "" =
      .ok (toLex (0, toLex (toLex (0, toLex (0, toLex (0, toLex (1, [])))), ""))) := rfl
  rw [hempty] at h
  unfold semverKey at h
  obtain ⟨parsed, -, h⟩ := map_ok h
  rcases parsed with _ | v
  · exact (Prod.mk.inj (toLex.injective (Prod.mk.inj (toLex.injective h)).2)).2
  · exact absurd (Prod.mk.inj (toLex.injective h)).1 Nat.one_ne_zero

theorem mem_stablePool {l l' : List String} (h : ∀ version, version ∈ l ↔ version ∈ l')
    {version : String} : version ∈ stablePool l ↔ version ∈ stablePool l' := by
  have hfilter : ∀ v, v ∈ l.filter isStableSemver ↔ v ∈ l'.filter isStableSemver := by
    intro v
    rw [List.mem_filter, List.mem_filter, h]
  have hempty : l.filter isStableSemver = [] ↔ l'.filter isStableSemver = [] := by
    rw [List.eq_nil_iff_forall_not_mem, List.eq_nil_iff_forall_not_mem]
    exact forall_congr' fun v => not_congr (hfilter v)
  unfold stablePool
  by_cases hnone : l'.filter isStableSemver = []
  · rw [if_pos hnone, if_pos (hempty.mpr hnone)]
    exact h version
  · rw [if_neg hnone, if_neg (hempty.not.mpr hnone)]
    exact hfilter version

/-- Whether there is a greatest version does not depend on the order of the versions. -/
theorem greatest_isSome {l l' : List String} (h : ∀ version, version ∈ l ↔ version ∈ l')
    (hreturns : ∃ latest, maxSemver l' = .ok latest) {version : String}
    (hgreatest : greatest l = some version) : ∃ version', greatest l' = some version' := by
  obtain ⟨hjoin, hne⟩ := Option.filter_eq_some_iff.mp hgreatest
  have hmax := toOption_ok (Option.join_eq_some_iff.mp hjoin)
  obtain ⟨latest, hmax'⟩ := hreturns
  rcases latest with _ | version'
  · have hnonempty : l' ≠ [] := List.ne_nil_of_mem ((h version).mp (maxSemver_mem hmax))
    exact absurd hmax' (maxSemver_ne_none hnonempty)
  refine ⟨version', ?_⟩
  unfold greatest
  rw [hmax']
  refine Option.filter_eq_some_iff.mpr ⟨rfl, decide_eq_true ?_⟩
  -- two greatest versions have one key, which a text shares with the empty one only if it is empty
  rintro rfl
  obtain ⟨hin, k, hk, hall⟩ := maxSemver_key hmax
  obtain ⟨hin', k', hk', hall'⟩ := maxSemver_key hmax'
  obtain ⟨j, hj, hle⟩ := hall _ ((mem_stablePool h).mpr hin')
  obtain ⟨j', hj', hle'⟩ := hall' _ ((mem_stablePool h).mp hin)
  obtain rfl := Except.ok.inj (hj.symm.trans hk')
  obtain rfl := Except.ok.inj (hj'.symm.trans hk)
  have hsame := le_antisymm hle' hle
  rw [semverKey_empty (hk.trans ((congrArg _ hsame).trans hk'.symm))] at hne
  simp at hne

/-! ## One map -/

/-- The map that the views are after: stored tags at allowed versions, and `latest` at the
greatest one where no stored `latest` is allowed. -/
inductive Offers (env : RegistryEnv) (package : Package) (rows : List PackageVersion) :
    String → String → Prop where
  | stored {t : DistTag} (found : t ∈ package.distTags) (allowed : Allowed env package t.version) :
    Offers env package rows t.tag t.version
  | latest {version : String}
      (none : ∀ t ∈ package.distTags, t.tag = "latest" → ¬ Allowed env package t.version)
      (greatest : greatest (allowedVersions env package rows) = some version) :
    Offers env package rows "latest" version

/-- When the views agree. -/
structure Straight (env : RegistryEnv) (package : Package) (rows : List PackageVersion) :
    Prop where
  plain : ∀ tag version, Offers env package rows tag version → Plain env package
  named : Plain env package ∨ (∃ version, Allowed env package version) →
    ∀ t ∈ package.distTags, t.version ∈ versionNames package
  apart : ∀ tag, IsTag package tag → tag ∈ versionNames package →
    (Allowed env package tag → Offers env package rows tag tag) ∧
      ∀ version, Offers env package rows tag version → version = tag
  latest : (∃ version, Allowed env package version) →
    (∀ t ∈ package.distTags, t.tag = "latest" → ¬ Allowed env package t.version) →
      ∀ version, StandsIn env package version ↔
        greatest (allowedVersions env package rows) = some version

section Agreeing

variable {env : RegistryEnv} {package : Package} {rows : List PackageVersion}
  {tag version : String}

theorem Offers.allowed (h : Catalogued env .npm package)
    (hrows : rows.Perm package.versions.rows) (hoffers : Offers env package rows tag version) :
    Allowed env package version := by
  cases hoffers with
  | stored _ hallowed => exact hallowed
  | latest _ hgreatest =>
    refine (mem_allowedVersions h hrows).mp (maxSemver_mem ?_)
    obtain ⟨hjoin, -⟩ := Option.filter_eq_some_iff.mp hgreatest
    exact toOption_ok (Option.join_eq_some_iff.mp hjoin)

/-- Where the stored tags name stored versions, what the endpoint has is the map. -/
theorem offers_iff (hnamed : ∀ t ∈ package.distTags, t.version ∈ versionNames package) :
    Offers env package rows tag version ↔ Kept env package tag version ∨
      tag = "latest" ∧ (∀ kept, ¬ Kept env package "latest" kept) ∧
        greatest (allowedVersions env package rows) = some version := by
  have hshown : ∀ t ∈ package.distTags,
      ¬ Hidden env package t.version ↔ Allowed env package t.version := by
    intro t ht
    unfold Hidden
    rw [and_iff_right (hnamed t ht), not_not]
  have hlost : (∀ kept, ¬ Kept env package "latest" kept) ↔
      ∀ t ∈ package.distTags, t.tag = "latest" → ¬ Allowed env package t.version := by
    constructor
    · exact fun hnone t ht htag hallowed =>
        hnone _ ⟨t, ht, htag, rfl, (hshown t ht).mpr hallowed⟩
    · rintro hnone kept ⟨t, ht, htag, -, hvisible⟩
      exact hnone t ht htag ((hshown t ht).mp hvisible)
  constructor
  · rintro (⟨ht, hallowed⟩ | ⟨hnone, hgreatest⟩)
    · exact .inl ⟨_, ht, rfl, rfl, (hshown _ ht).mpr hallowed⟩
    · exact .inr ⟨rfl, hlost.mpr hnone, hgreatest⟩
  · rintro (⟨t, ht, rfl, rfl, hvisible⟩ | ⟨rfl, hnone, hgreatest⟩)
    · exact .stored ht ((hshown t ht).mp hvisible)
    · exact .latest (hlost.mp hnone) hgreatest

/-- Where some version is the greatest allowed one, the packument has a `latest`. -/
theorem standsIn_exists (h : Catalogued env .npm package)
    (hrows : rows.Perm package.versions.rows)
    (hgreatest : greatest (allowedVersions env package rows) = some version) :
    ∃ latest, StandsIn env package latest := by
  have hsub : sortedAllowed env package ⊆ versionNames package := fun version hversion =>
    (List.mem_insertionSort _).mp (List.mem_filter.mp hversion).1
  by_cases hkeeps : KeepsDerived env package
  · rcases hderived : derived package with _ | latest
    · -- nothing is hidden, so that the greatest version of all is the greatest allowed one
      have hall : ∀ version, version ∈ allowedVersions env package rows ↔
          version ∈ versionNames package := by
        intro version
        rw [mem_allowedVersions h hrows]
        have hvisible := hkeeps.absent hderived version
        unfold Hidden at hvisible
        refine ⟨?_, fun hnamed => by_contra fun hno => hvisible ⟨hnamed, hno⟩⟩
        rintro ⟨v, hv, rfl, -⟩
        exact mem_versionNames.mpr ⟨v, hv, rfl⟩
      obtain ⟨latest, hmax, -⟩ := maxSemver_ok h (List.Subset.refl (versionNames package))
      obtain ⟨version', hversion'⟩ := greatest_isSome hall ⟨latest, hmax⟩ hgreatest
      unfold derived derivedLatest at hderived
      split at hderived
      · next hstored =>
        rcases hlatest : package.latestVersion with _ | stored
        · exact absurd (congrArg (·.getD "") hlatest) hstored
        · rw [hlatest] at hstored hderived
          have hne : stored ≠ "" := hstored
          exact absurd hderived (by simp [hne, Except.toOption])
      · exact absurd (hderived.symm.trans hversion') (Option.some_ne_none _).symm
    · exact ⟨latest, .inl ⟨hkeeps, hderived⟩⟩
  · obtain ⟨latest, hmax, -⟩ := maxSemver_ok h hsub
    have hsame : ∀ version, version ∈ allowedVersions env package rows ↔
        version ∈ sortedAllowed env package := by
      intro version
      rw [mem_allowedVersions h hrows, mem_sortedAllowed h]
    obtain ⟨version', hversion'⟩ := greatest_isSome hsame ⟨latest, hmax⟩ hgreatest
    exact ⟨version', .inr ⟨hkeeps, hversion'⟩⟩

theorem Offers.isTag (hoffers : Offers env package rows tag version) : IsTag package tag := by
  cases hoffers with
  | stored ht _ => exact .inr ⟨_, ht, rfl⟩
  | latest _ _ => exact .inl rfl

/-- Where the views are straight, the packument shows the map. -/
theorem Straight.shows_iff (h : Catalogued env .npm package)
    (hrows : rows.Perm package.versions.rows) (hs : Straight env package rows) :
    Shows (packumentTags env package) tag version ↔ Offers env package rows tag version := by
  rw [shows_packumentTags_iff h]
  constructor
  · rintro ⟨hallowed, hshown⟩
    have hnamed := hs.named (.inr hallowed)
    rw [offers_iff hnamed]
    refine hshown.imp_right fun ⟨htag, hlost, hstands⟩ => ⟨htag, hlost, ?_⟩
    refine (hs.latest hallowed (fun t ht htag hallowed => ?_) version).mp hstands
    exact hlost _ ⟨t, ht, htag, rfl, fun hhidden => hhidden.2 hallowed⟩
  · intro hoffers
    have hallowed : ∃ version, Allowed env package version := ⟨_, hoffers.allowed h hrows⟩
    refine ⟨hallowed, ?_⟩
    have hnamed := hs.named (.inr hallowed)
    cases hoffers with
    | stored ht hin => exact .inl ⟨_, ht, rfl, rfl, fun hhidden => hhidden.2 hin⟩
    | latest hnone hgreatest =>
      refine .inr ⟨rfl, ?_, (hs.latest hallowed hnone _).mpr hgreatest⟩
      rintro kept ⟨t, ht, htag, -, hvisible⟩
      exact hvisible ⟨hnamed t ht, hnone t ht htag⟩

theorem Straight.agree (h : Catalogued env .npm package)
    (hrows : rows.Perm package.versions.rows) (hs : Straight env package rows) :
    TagsAgree env package rows where
  endpoint tag version := by
    rw [hs.shows_iff h hrows, shows_getDistTags_iff h hrows]
    constructor
    · rintro ⟨hplain, hshown⟩
      exact (offers_iff (hs.named (.inl hplain))).mpr hshown
    · intro hoffers
      have hplain := hs.plain tag version hoffers
      exact ⟨hplain, (offers_iff (hs.named (.inl hplain))).mp hoffers⟩
  request tag htag version := by
    rw [hs.shows_iff h hrows, resolves_iff h hrows]
    constructor
    · rintro ⟨hallowed, ⟨hnamed, rfl⟩ | ⟨-, hshown⟩⟩
      · exact (hs.apart _ htag hnamed).1 hallowed
      · exact (offers_iff (hs.named (.inr ⟨_, hallowed⟩))).mpr hshown
    · intro hoffers
      have hallowed := hoffers.allowed h hrows
      refine ⟨hallowed, ?_⟩
      by_cases hnamed : tag ∈ versionNames package
      · exact .inl ⟨hnamed, (hs.apart tag htag hnamed).2 version hoffers⟩
      · exact .inr ⟨hnamed, (offers_iff (hs.named (.inr ⟨_, hallowed⟩))).mp hoffers⟩
  stored t ht := by
    rw [hs.shows_iff h hrows]
    exact ⟨fun hoffers => hoffers.allowed h hrows, .stored ht⟩

theorem TagsAgree.straight (h : Catalogued env .npm package)
    (hrows : rows.Perm package.versions.rows) (ha : TagsAgree env package rows) :
    Straight env package rows := by
  have hnamed : Plain env package ∨ (∃ version, Allowed env package version) →
      ∀ t ∈ package.distTags, t.version ∈ versionNames package := by
    intro hcase t ht
    by_contra hdangles
    have hkept : Kept env package t.tag t.version :=
      ⟨t, ht, rfl, rfl, fun hhidden => hdangles hhidden.1⟩
    have hshown : Shows (packumentTags env package) t.tag t.version := by
      rcases hcase with hplain | hallowed
      · exact (ha.endpoint _ _).mp ((shows_getDistTags_iff h hrows).mpr ⟨hplain, .inl hkept⟩)
      · exact (shows_packumentTags_iff h).mpr ⟨hallowed, .inl hkept⟩
    obtain ⟨v, hv, heq, -⟩ := (ha.stored t ht).mp hshown
    exact hdangles (mem_versionNames.mpr ⟨v, hv, heq⟩)
  have hlost : (∃ version, Allowed env package version) →
      (∀ t ∈ package.distTags, t.tag = "latest" → ¬ Allowed env package t.version) →
        ∀ kept, ¬ Kept env package "latest" kept := by
    rintro hallowed hnone kept ⟨t, ht, htag, -, hvisible⟩
    exact hvisible ⟨hnamed (.inr hallowed) t ht, hnone t ht htag⟩
  have hplain : ∀ tag version, Offers env package rows tag version → Plain env package := by
    intro tag version hoffers
    have hallowed : ∃ version, Allowed env package version := ⟨_, hoffers.allowed h hrows⟩
    cases hoffers with
    | @stored t ht hin =>
      have hshown := (ha.stored t ht).mpr hin
      exact ((shows_getDistTags_iff h hrows).mp ((ha.endpoint _ _).mpr hshown)).1
    | latest hnone hgreatest =>
      obtain ⟨latest, hstands⟩ := standsIn_exists h hrows hgreatest
      have hshown : Shows (packumentTags env package) "latest" latest :=
        (shows_packumentTags_iff h).mpr ⟨hallowed, .inr ⟨rfl, hlost hallowed hnone, hstands⟩⟩
      exact ((shows_getDistTags_iff h hrows).mp ((ha.endpoint _ _).mpr hshown)).1
  have hoffered : ∀ tag version, Offers env package rows tag version →
      Shows (packumentTags env package) tag version := by
    intro tag version hoffers
    have hplain := hplain tag version hoffers
    exact (ha.endpoint _ _).mp ((shows_getDistTags_iff h hrows).mpr
      ⟨hplain, (offers_iff (hnamed (.inl hplain))).mp hoffers⟩)
  have hshows : ∀ tag version, Shows (packumentTags env package) tag version →
      Offers env package rows tag version := by
    intro tag version hshown
    obtain ⟨hplain, hin⟩ := (shows_getDistTags_iff h hrows).mp ((ha.endpoint _ _).mpr hshown)
    exact (offers_iff (hnamed (.inl hplain))).mpr hin
  refine ⟨hplain, hnamed, fun tag htag hin => ⟨fun hallowed => ?_, fun version hoffers => ?_⟩,
    fun hallowed hnone version => ⟨fun hstands => ?_, fun hgreatest => ?_⟩⟩
  · refine hshows tag tag ((ha.request tag htag tag).mp ?_)
    exact (resolves_iff h hrows).mpr ⟨hallowed, .inl ⟨hin, rfl⟩⟩
  · have hresolves := (ha.request tag htag version).mpr (hoffered tag version hoffers)
    rcases ((resolves_iff h hrows).mp hresolves).2 with ⟨-, heq⟩ | ⟨hout, -⟩
    · exact heq
    · exact absurd hin hout
  · have hshown : Shows (packumentTags env package) "latest" version :=
      (shows_packumentTags_iff h).mpr ⟨hallowed, .inr ⟨rfl, hlost hallowed hnone, hstands⟩⟩
    have hin := (offers_iff (hnamed (.inr hallowed))).mp (hshows _ _ hshown)
    rcases hin with hkept | ⟨-, -, hgreatest⟩
    · exact absurd hkept (hlost hallowed hnone version)
    · exact hgreatest
  · have hshown := hoffered "latest" version (.latest hnone hgreatest)
    rcases ((shows_packumentTags_iff h).mp hshown).2 with hkept | ⟨-, -, hstands⟩
    · exact absurd hkept (hlost hallowed hnone version)
    · exact hstands

end Agreeing

/-- **The three tag views** show one map exactly where they are straight: the bare name
passes the policy if anything is offered, every stored tag names a stored version, no tag is
called like another version, and the two ways to a `latest` that is not stored or hidden end
at the same version. -/
theorem tag_views_agree_iff {env : RegistryEnv} {package : Package} {rows : List PackageVersion}
    (h : Catalogued env .npm package) (hrows : rows.Perm package.versions.rows) :
    TagsAgree env package rows ↔ Straight env package rows :=
  ⟨TagsAgree.straight h hrows, Straight.agree h hrows⟩

/-! ## A package on the allowlist -/

def taggedPackage : Package where
  ecosystem := .npm
  name := "demo"
  normalizedName := "demo"
  versions := ⟨[{ version := "1.0.0", normalizedVersion := "1.0.0" }], List.nodup_singleton _⟩
  distTags := ⟨[{ tag := "latest", version := "1.0.0" }], List.nodup_singleton _⟩

def allowDemo : PackageRule :=
  { id := 1, pattern := "demo", action := .allow, versionSpec := some "<2.0.0" }

/-- The registry in allowlist mode, with the versions of `demo` before 2.0.0 on the list. -/
def allowlistEnv : RegistryEnv :=
  { demoEnv with engine := { rules := [allowDemo], allowlistMode := true } }

theorem demo_normalized : demoEnv.normalizedFor .npm "demo" = "demo" := by decide +kernel

theorem taggedPackage_catalogued {engine : PolicyEngine}
    (hspec : ∀ r ∈ engine.rules, (r.versionSpec.getD "").length ≤ 255) :
    Catalogued { demoEnv with engine := engine } .npm taggedPackage where
  inEcosystem := rfl
  key := demo_normalized.symm
  fixed := demo_normalized
  versions v hv := by
    rw [List.mem_singleton.mp hv]
    rfl
  fits v hv := by
    rw [List.mem_singleton.mp hv]
    exact ⟨hspec, by decide⟩

/-- The map of a view, empty where it refuses. -/
def shownTags (page : Except ValueError (Page (String × String))) : Dict String String :=
  match page with
  | .ok (.document tags) => tags
  | _ => []

theorem shows_iff {page : Except ValueError (Page (String × String))} {tag version : String} :
    Shows page tag version ↔ Dict.get? (shownTags page) tag = some version := by
  unfold Shows shownTags
  constructor
  · rintro ⟨tags, rfl, hget⟩
    exact hget
  · split
    · exact fun hget => ⟨_, rfl, hget⟩
    · intro hnone
      cases hnone

/-- The packument shows `latest`, which the endpoint refuses: it asks about the name alone,
and the rule that lists the package is about versions. -/
theorem allowlist_tags_differ : Catalogued allowlistEnv .npm taggedPackage ∧
    ¬ TagsAgree allowlistEnv taggedPackage taggedPackage.versions.rows := by
  have hspec : ∀ r ∈ [allowDemo], (r.versionSpec.getD "").length ≤ 255 := by
    intro r hr
    rw [List.mem_singleton.mp hr]
    decide
  refine ⟨taggedPackage_catalogued hspec, fun hagree => ?_⟩
  have hshown : Shows (packumentTags allowlistEnv taggedPackage) "latest" "1.0.0" :=
    shows_iff.mpr (by decide +kernel)
  have hrefused : shownTags (getDistTags allowlistEnv taggedPackage taggedPackage.versions.rows) =
      [] := by decide +kernel
  have hendpoint := shows_iff.mp ((hagree.endpoint _ _).mpr hshown)
  rw [hrefused] at hendpoint
  cases hendpoint

/-- Without rules the views of the same package agree. -/
theorem plain_tags_agree : TagsAgree demoEnv taggedPackage taggedPackage.versions.rows := by
  have hcatalogued : Catalogued demoEnv .npm taggedPackage :=
    taggedPackage_catalogued fun r hr => absurd hr List.not_mem_nil
  refine (tag_views_agree_iff hcatalogued (.refl _)).mpr
    { plain := fun _ _ _ => ⟨.allow, by decide +kernel, rfl⟩
      named := fun _ t ht => ?_
      apart := fun tag htag hin => ?_
      latest := fun _ hnone => ?_ }
  · rw [List.mem_singleton.mp ht]
    exact List.mem_singleton_self _
  · have hlatest : tag = "latest" := by
      rcases htag with htag | ⟨t, ht, htag⟩
      · exact htag
      · rw [← htag, List.mem_singleton.mp ht]
    rw [hlatest] at hin
    exact absurd hin (by decide)
  · refine absurd ?_ (hnone _ (List.mem_singleton_self _) rfl)
    refine (allowed_iff hcatalogued (List.mem_singleton_self _)).mpr ?_
    exact (allowedBit_iff hcatalogued (List.mem_singleton_self _)).mp (by decide +kernel)

end Minireg.Npm
