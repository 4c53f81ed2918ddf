import Minireg.Services.Tiers

/-!
# Reserved names

A name that some configured upstream claims is never sent to an upstream that
does not claim it (`Reserved`). The claims are looked at after the disabled
upstreams are left out, so a name claimed by disabled upstreams only goes to the
general pool: `resolve_reserved_iff` gives the exact condition.
-/

namespace Minireg

open Py Lib

/-- Some configured upstream of the ecosystem claims the name. -/
def Claimed (cm : CaseMap) (table : UpstreamTable) (ecosystem : Ecosystem) (name : String) : Prop :=
  ∃ u ∈ table.rows, u.ecosystem = ecosystem ∧ u.claims cm ecosystem name = true

/-- Some enabled upstream of the ecosystem claims the name. -/
def ClaimedEnabled (cm : CaseMap) (table : UpstreamTable) (ecosystem : Ecosystem)
    (name : String) : Prop :=
  ∃ u ∈ table.rows, u.ecosystem = ecosystem ∧ u.enabled = true ∧ u.claims cm ecosystem name = true

/-- A claimed name is sent only to upstreams that claim it. -/
def Reserved (net : Network) (table : UpstreamTable) (ecosystem : Ecosystem) (name : String)
    (mergeTier : Option Bool) (validators : Option Validators) : Prop :=
  Claimed net.caseMap table ecosystem name →
    ∀ v ∈ (resolve net table ecosystem name mergeTier validators).2.asked,
      v.claims net.caseMap ecosystem name = true

/-- The enabled upstreams without patterns. -/
def generalPool (table : UpstreamTable) (ecosystem : Ecosystem) : List Upstream :=
  (loadUpstreams table ecosystem).filter fun u => u.namePatterns = []

/-- The lowest tier of the general pool, if there is one, is quarantined. -/
def PoolQuarantined (net : Network) (table : UpstreamTable) (ecosystem : Ecosystem) : Prop :=
  ∀ g, (groupByTier (generalPool table ecosystem)).head? = some g →
    ∀ u ∈ g.2, isQuarantined (net.now u) u = true

section

variable {cm : CaseMap} {table : UpstreamTable} {ecosystem : Ecosystem} {name : String}

/-- An upstream without patterns claims nothing. -/
theorem claims_of_no_patterns {u : Upstream} (h : u.namePatterns = []) :
    u.claims cm ecosystem name = false := by
  simp [Upstream.claims, h]

/-- Where an enabled upstream claims the name, only such upstreams are claimants. -/
theorem claimantsFor_claimed (h : ClaimedEnabled cm table ecosystem name) :
    ∀ v ∈ claimantsFor cm (loadUpstreams table ecosystem) name ecosystem,
      v.claims cm ecosystem name = true := by
  obtain ⟨u, hu, he, hen, hcl⟩ := h
  have hmem : u ∈ (loadUpstreams table ecosystem).filter (Upstream.claims cm ecosystem name) :=
    List.mem_filter.mpr ⟨mem_loadUpstreams.mpr ⟨hu, he, fun _ => hen⟩, hcl⟩
  intro v hv
  unfold claimantsFor at hv
  dsimp only at hv
  rw [if_pos (List.ne_nil_of_mem hmem)] at hv
  exact (List.mem_filter.mp hv).2

/-- Where no enabled upstream claims the name, the claimants are the general pool. -/
theorem claimantsFor_unclaimed (h : ¬ ClaimedEnabled cm table ecosystem name) :
    claimantsFor cm (loadUpstreams table ecosystem) name ecosystem =
      generalPool table ecosystem := by
  have hnil : (loadUpstreams table ecosystem).filter (Upstream.claims cm ecosystem name) = [] := by
    refine List.filter_eq_nil_iff.mpr fun u hu hcl => h ?_
    obtain ⟨hu, he, hen⟩ := mem_loadUpstreams.mp hu
    exact ⟨u, hu, he, hen rfl, hcl⟩
  unfold claimantsFor
  dsimp only
  rw [if_neg (not_not.mpr hnil)]
  rfl

end

section

variable {net : Network} {table : UpstreamTable} {ecosystem : Ecosystem} {name : String}
  {mergeTier : Option Bool} {validators : Option Validators}

/-- Only claimants are asked. -/
theorem resolve_asked (heco : ecosystem ≠ .docker) :
    ∀ v ∈ (resolve net table ecosystem name mergeTier validators).2.asked,
      v ∈ claimantsFor net.caseMap (loadUpstreams table ecosystem) name ecosystem := by
  rw [resolve_eq_walk]
  have ht := groupByTier_tiered
    (claimantsFor net.caseMap (loadUpstreams table ecosystem) name ecosystem)
  refine cascade_invariant (I := fun s : ResolverState => ∀ v ∈ s.asked,
    v ∈ claimantsFor net.caseMap (loadUpstreams table ecosystem) name ecosystem) _ ?_ (by simp)
  intro g hg s v s' hs he w hw
  rcases tierStep_cases net name _ validators g (ht.nonempty g hg)
    (claimants_hasProvider _ _ _ heco g hg) s with ⟨-, msg, he'⟩ | ⟨v', s1, he', hq, -⟩
  · rw [he] at he'
    cases he'
    exact hs w hw
  · rw [he] at he'
    cases he'
    rcases hq.asked_sub w hw with h1 | h1
    · exact hs w h1
    · exact mem_groupByTier.mpr ⟨g, hg, ((mem_candidatesOf net).mp h1).1⟩

/-- The lowest tier is asked unless it is quarantined as a whole. -/
theorem resolve_asks_first (heco : ecosystem ≠ .docker) {g : Int × List Upstream}
    {rest : List (Int × List Upstream)}
    (hg : groupByTier (claimantsFor net.caseMap (loadUpstreams table ecosystem) name ecosystem) =
      g :: rest) (hc : candidatesOf net g.2 ≠ []) :
    ∃ w ∈ g.2, w ∈ (resolve net table ecosystem name mergeTier validators).2.asked := by
  rw [resolve_eq_walk, hg]
  have ht := groupByTier_tiered
    (claimantsFor net.caseMap (loadUpstreams table ecosystem) name ecosystem)
  have hus := claimants_hasProvider net.caseMap table name heco
  rw [hg] at ht hus
  rcases tierStep_cases net name (mergeTier.getD (ecosystem = .pypi)) validators g
    (ht.nonempty g List.mem_cons_self) (hus g List.mem_cons_self) { rows := table.rows } with
    ⟨hnone, -⟩ | ⟨v, s1, he, -, ⟨w, hw, hwa⟩, -⟩
  · exact absurd hnone hc
  · refine ⟨w, ((mem_candidatesOf net).mp hw).1, ?_⟩
    unfold walk
    rcases v with _ | r
    · rw [cascade_pass he]
      exact walk_asked_mono (fun h hh => ht.nonempty h (List.mem_cons_of_mem _ hh))
        (fun h hh => hus h (List.mem_cons_of_mem _ hh)) w hwa
    · rw [cascade_stop he]
      exact hwa

/-- A lowest tier that is quarantined as a whole ends the walk before anything is asked. -/
theorem resolve_asked_nil {groups : List (Int × List Upstream)}
    (hg : groupByTier (claimantsFor net.caseMap (loadUpstreams table ecosystem) name ecosystem) =
      groups)
    (hq : ∀ g, groups.head? = some g → ∀ u ∈ g.2, isQuarantined (net.now u) u = true) :
    (resolve net table ecosystem name mergeTier validators).2.asked = [] := by
  rw [resolve_eq_walk, hg]
  rcases groups with _ | ⟨g, rest⟩
  · rfl
  · have hne := (groupByTier_tiered
      (claimantsFor net.caseMap (loadUpstreams table ecosystem) name ecosystem)).nonempty g
      (by rw [hg]; exact List.mem_cons_self)
    have hnone : candidatesOf net g.2 = [] := by
      refine List.filter_eq_nil_iff.mpr fun u hu => ?_
      simp [hq g rfl u hu]
    have hstep : tierStep net name (mergeTier.getD (ecosystem = .pypi)) validators g
        { rows := table.rows } = (.stop (.error (tierQuarantined g.1)), { rows := table.rows }) := by
      simp [tierStep, hnone, hne]
    unfold walk
    rw [cascade_stop hstep]

/-- **A claimed name stays with its claimants exactly when an enabled upstream
claims it or the general pool's lowest tier is quarantined.** -/
theorem resolve_reserved_iff (net : Network) (table : UpstreamTable) (ecosystem : Ecosystem)
    (name : String) (mergeTier : Option Bool) (validators : Option Validators)
    (heco : ecosystem ≠ .docker) :
    Reserved net table ecosystem name mergeTier validators ↔
      (Claimed net.caseMap table ecosystem name →
        ClaimedEnabled net.caseMap table ecosystem name ∨ PoolQuarantined net table ecosystem) := by
  refine forall_congr' fun _ => ⟨fun h => ?_, ?_⟩
  · by_contra hnot
    obtain ⟨hen, hpool⟩ := not_or.mp hnot
    obtain ⟨g, hg⟩ := not_forall.mp hpool
    obtain ⟨hhead, hq⟩ := Classical.not_imp.mp hg
    obtain ⟨rest, hrest⟩ : ∃ rest, groupByTier (generalPool table ecosystem) = g :: rest :=
      List.head?_eq_some_iff.mp hhead
    have hcand : candidatesOf net g.2 ≠ [] := by
      intro h0
      refine hq fun u hu => ?_
      by_contra hu'
      have : u ∈ candidatesOf net g.2 := (mem_candidatesOf net).mpr ⟨hu, by simpa using hu'⟩
      rw [h0] at this
      cases this
    obtain ⟨w, hw, hwa⟩ : ∃ w ∈ g.2,
        w ∈ (resolve net table ecosystem name mergeTier validators).2.asked :=
      resolve_asks_first heco (by rw [claimantsFor_unclaimed hen]; exact hrest) hcand
    have hwp : w ∈ generalPool table ecosystem :=
      mem_groupByTier.mpr ⟨g, by rw [hrest]; exact List.mem_cons_self, hw⟩
    have hwn : w.namePatterns = [] := by simpa using (List.mem_filter.mp hwp).2
    have := h w hwa
    rw [claims_of_no_patterns hwn] at this
    cases this
  · rintro (hen | hpool) v hv
    · exact claimantsFor_claimed hen v (resolve_asked heco v hv)
    · by_cases hen : ClaimedEnabled net.caseMap table ecosystem name
      · exact claimantsFor_claimed hen v (resolve_asked heco v hv)
      · rw [resolve_asked_nil (congrArg groupByTier (claimantsFor_unclaimed hen)) hpool] at hv
        cases hv

end

/-! ## A reserved namespace whose upstream is disabled -/

/-- The upstream that reserves `@corp/*` is disabled; the public one is not. -/
def pausedCorp : UpstreamTable where
  rows :=
    [{ id := 1, name := "corp", ecosystem := .npm, kind := .npm, namePatterns := ["@corp/*"],
       enabled := false, validKind := npm_validKind },
     { id := 2, name := "npmjs", ecosystem := .npm, kind := .npm, tier := 2,
       validKind := npm_validKind }]

/-- The public upstream is asked for a reserved name. -/
theorem resolve_not_reserved : ¬ Reserved publicOnly pausedCorp .npm "@corp/payroll" none none := by
  intro h
  have hcl : Claimed publicOnly.caseMap pausedCorp .npm "@corp/payroll" :=
    ⟨pausedCorp.rows[0], by decide, by decide, by decide⟩
  exact absurd (h hcl pausedCorp.rows[1] (by decide)) (by decide)

theorem resolve_reserved_iff_pausedCorp : Ecosystem.npm ≠ .docker ∧
    (Reserved publicOnly pausedCorp .npm "@corp/payroll" none none ↔
      (Claimed publicOnly.caseMap pausedCorp .npm "@corp/payroll" →
        ClaimedEnabled publicOnly.caseMap pausedCorp .npm "@corp/payroll" ∨
          PoolQuarantined publicOnly pausedCorp .npm)) :=
  ⟨by decide, resolve_reserved_iff publicOnly pausedCorp .npm "@corp/payroll" none none (by decide)⟩

end Minireg
