import Minireg.Services.Ownership
import Minireg.Services.Query

/-!
# Tier isolation

A lower tier is consulted only after the tiers above it said "not found".
`Isolation` says so of one call. A tier that has some members quarantined
passes when the others answer 404, so the walk isolates the tiers exactly when
`QuarantineCaught` holds: a passing tier with a quarantined member is followed
by a tier that is quarantined as a whole.
-/

namespace Minireg

open Py Lib

/-- The upstream was asked in this call and answered an authoritative 404. -/
def Missed (u : Upstream) (st : ResolverState) : Prop := u ∈ st.asked ∧ u ∈ st.notFound

/-- No tier answers, or is consulted, before every claimant of the earlier
tiers has said "not found". -/
structure Isolation (claimants : List Upstream)
    (run : Except ResolveError (Option ResolveResult) × ResolverState) : Prop where
  consulted : ∀ u ∈ claimants, ∀ v ∈ run.2.asked, u.tier < v.tier → Missed u run.2
  answered : ∀ r, run.1 = .ok (some r) → ∀ u ∈ claimants, u.tier < r.tier → Missed u run.2
  absent : run.1 = .ok none → ∀ u ∈ claimants, Missed u run.2
  unavailable : ∀ u ∈ claimants, ¬ Missed u run.2 →
    (∃ msg, run.1 = .error (.tierUnavailable msg)) ∨ ∃ r, run.1 = .ok (some r) ∧ r.tier ≤ u.tier
  shadowing : ∀ timedOut, resolvesUpstream timedOut run.1 = .ok false →
    ∀ u ∈ claimants, Missed u run.2

/-! ## The groups -/

/-- Groups in strictly ascending tiers, each of it non-empty and of one tier. -/
structure Tiered (groups : List (Int × List Upstream)) : Prop where
  ascending : groups.Pairwise fun g h => g.1 < h.1
  tier : ∀ g ∈ groups, ∀ u ∈ g.2, u.tier = g.1
  nonempty : ∀ g ∈ groups, g.2 ≠ []

theorem groupByTier_tiered (upstreams : List Upstream) : Tiered (groupByTier upstreams) where
  ascending := by
    have hle := List.pairwise_insertionSort (· ≤ ·) (upstreams.map Upstream.tier).dedup
    have hnd : ((upstreams.map Upstream.tier).dedup.insertionSort (· ≤ ·)).Nodup :=
      (List.perm_insertionSort _ _).nodup_iff.mpr (List.nodup_dedup _)
    refine List.pairwise_map.mpr ?_
    exact hle.imp₂ (fun a b hab hne => lt_of_le_of_ne hab hne) hnd
  tier g hg u hu := by
    obtain ⟨t, -, rfl⟩ := List.mem_map.mp hg
    simpa using (List.mem_filter.mp hu).2
  nonempty g hg := by
    obtain ⟨t, ht, rfl⟩ := List.mem_map.mp hg
    obtain ⟨u, hu, rfl⟩ := List.mem_map.mp (List.mem_dedup.mp ((List.mem_insertionSort _).mp ht))
    exact List.ne_nil_of_mem (List.mem_filter.mpr ⟨hu, by simp⟩)

theorem mem_groupByTier {upstreams : List Upstream} {u : Upstream} :
    u ∈ upstreams ↔ ∃ g ∈ groupByTier upstreams, u ∈ g.2 := by
  constructor
  · intro hu
    refine ⟨(u.tier, upstreams.filter fun v => v.tier = u.tier), ?_, ?_⟩
    · refine List.mem_map.mpr ⟨u.tier, ?_, rfl⟩
      exact (List.mem_insertionSort _).mpr (List.mem_dedup.mpr (List.mem_map_of_mem hu))
    · exact List.mem_filter.mpr ⟨hu, by simp⟩
  · rintro ⟨g, hg, hu⟩
    obtain ⟨t, -, rfl⟩ := List.mem_map.mp hg
    exact (List.mem_filter.mp hu).1

namespace Tiered

variable {groups pre post : List (Int × List Upstream)} {g h : Int × List Upstream}

/-- A group of a lower tier comes earlier. -/
theorem mem_pre (ht : Tiered (pre ++ g :: post)) (hh : h ∈ pre ++ g :: post) (hlt : h.1 < g.1) :
    h ∈ pre := by
  rcases List.mem_append.mp hh with hp | hp
  · exact hp
  · have hasc := (List.pairwise_append.mp ht.ascending).2.1
    rcases List.mem_cons.mp hp with rfl | hp
    · exact absurd hlt (lt_irrefl _)
    · exact absurd ((List.pairwise_cons.mp hasc).1 h hp) (not_lt_of_gt hlt)

/-- Every group before this one has a lower tier. -/
theorem lt_of_mem_pre (ht : Tiered (pre ++ g :: post)) (hh : h ∈ pre) : h.1 < g.1 :=
  (List.pairwise_append.mp ht.ascending).2.2 h hh g List.mem_cons_self

end Tiered

/-! ## The walk -/

section Walk

variable (net : Network) (name : String) (mergeTier : Bool) (validators : Option Validators)

/-- A tier that passes with a member quarantined is followed by a tier all of
whose upstreams are quarantined. -/
def QuarantineCaught (groups : List (Int × List Upstream)) : Prop :=
  ∀ pre g post, groups = pre ++ g :: post →
    (∀ h ∈ pre, Absent net name mergeTier validators h.2) →
    Absent net name mergeTier validators g.2 →
    (∃ q ∈ g.2, isQuarantined (net.now q) q = true) →
    ∃ h post', post = h :: post' ∧ ∀ u ∈ h.2, isQuarantined (net.now u) u = true

variable {net name mergeTier validators} {groups : List (Int × List Upstream)}
  {st st' : ResolverState}

/-- What the tiers that passed have said. -/
theorem passes_absent (hne : ∀ g ∈ groups, g.2 ≠ [])
    (hus : ∀ g ∈ groups, ∀ u ∈ g.2, u.kind.hasProvider = true)
    (h : Passes (tierStep net name mergeTier validators) groups st st') :
    ∀ g ∈ groups, Absent net name mergeTier validators g.2 ∧
      ∀ u ∈ candidatesOf net g.2, Missed u st' := by
  refine h.establish (P := fun g s => Absent net name mergeTier validators g.2 ∧
    ∀ u ∈ candidatesOf net g.2, Missed u s) ?_ ?_
  · intro g hg s s' hs
    rcases tierStep_cases net name mergeTier validators g (hne g hg) (hus g hg) s with
      ⟨-, msg, he⟩ | ⟨v, s1, he, -, -, ⟨-, habs, hm⟩ | ⟨-, ⟨msg, rfl⟩ | ⟨_, _, _, rfl, -⟩⟩⟩
    · rw [he] at hs
      cases hs
    · rw [he] at hs
      cases hs
      exact ⟨habs, hm⟩
    · rw [he] at hs
      cases hs
    · rw [he] at hs
      cases hs
  · intro g hg k hk s s' ⟨habs, hm⟩ hs
    refine ⟨habs, fun u hu => ?_⟩
    rcases tierStep_cases net name mergeTier validators k (hne k hk) (hus k hk) s with
      ⟨-, msg, he⟩ | ⟨v, s1, he, hq, -⟩
    · rw [he] at hs
      cases hs
    · rw [he] at hs
      cases hs
      exact ⟨hq.asked_mono u (hm u hu).1, hq.notFound_mono u (hm u hu).2⟩

/-- What was asked stays recorded. -/
theorem walk_asked_mono (hne : ∀ g ∈ groups, g.2 ≠ [])
    (hus : ∀ g ∈ groups, ∀ u ∈ g.2, u.kind.hasProvider = true) :
    ∀ w ∈ st.asked, w ∈ (walk net name mergeTier validators groups st).2.asked := by
  intro w hw
  refine cascade_invariant (I := fun s : ResolverState => w ∈ s.asked) groups ?_ hw
  intro g hg s v s' hs he
  rcases tierStep_cases net name mergeTier validators g (hne g hg) (hus g hg) s with
    ⟨-, msg, he'⟩ | ⟨v', s1, he', hq, -⟩
  · rw [he] at he'
    cases he'
    exact hs
  · rw [he] at he'
    cases he'
    exact hq.asked_mono w hs

/-- Only candidates of the groups walked are asked. -/
theorem walk_asked (hne : ∀ g ∈ groups, g.2 ≠ [])
    (hus : ∀ g ∈ groups, ∀ u ∈ g.2, u.kind.hasProvider = true)
    (h : Passes (tierStep net name mergeTier validators) groups st st') (h0 : st.asked = []) :
    ∀ v ∈ st'.asked, ∃ g ∈ groups, v ∈ g.2 := by
  refine h.invariant (I := fun s => ∀ v ∈ s.asked, ∃ g ∈ groups, v ∈ g.2) ?_ (by simp [h0])
  intro g hg s s' hs he v hv
  rcases tierStep_cases net name mergeTier validators g (hne g hg) (hus g hg) s with
    ⟨-, msg, he'⟩ | ⟨w, s1, he', hq, -⟩
  · rw [he] at he'
    cases he'
  · rw [he] at he'
    cases he'
    rcases hq.asked_sub v hv with h1 | h1
    · exact hs v h1
    · exact ⟨g, hg, ((mem_candidatesOf net).mp h1).1⟩

/-- A quarantined upstream never says anything. -/
theorem walk_notFound (hne : ∀ g ∈ groups, g.2 ≠ [])
    (hus : ∀ g ∈ groups, ∀ u ∈ g.2, u.kind.hasProvider = true) (h0 : st.notFound = []) :
    ∀ v ∈ (walk net name mergeTier validators groups st).2.notFound,
      isQuarantined (net.now v) v = false := by
  refine cascade_invariant
    (I := fun s : ResolverState => ∀ v ∈ s.notFound, isQuarantined (net.now v) v = false) groups ?_ (by simp [h0])
  intro g hg s v s' hs he w hw
  rcases tierStep_cases net name mergeTier validators g (hne g hg) (hus g hg) s with
    ⟨-, msg, he'⟩ | ⟨v', s1, he', hq, -⟩
  · rw [he] at he'
    cases he'
    exact hs w hw
  · rw [he] at he'
    cases he'
    rcases hq.notFound_sub w hw with h1 | h1
    · exact hs w h1
    · exact ((mem_candidatesOf net).mp h1.1).2

/-- A passing tier whose next tier has a candidate misses none of its members. -/
theorem QuarantineCaught.missed {pre post : List (Int × List Upstream)}
    {g k : Int × List Upstream} (hc : QuarantineCaught net name mergeTier validators groups)
    (hg : groups = pre ++ g :: k :: post)
    (hp : ∀ h ∈ pre ++ [g], Absent net name mergeTier validators h.2 ∧
      ∀ u ∈ candidatesOf net h.2, Missed u st')
    (hk : candidatesOf net k.2 ≠ []) : ∀ u ∈ g.2, Missed u st' := by
  intro u hu
  by_cases hq : isQuarantined (net.now u) u = true
  · obtain ⟨k', post', hk', hall⟩ := hc pre g (k :: post) hg
      (fun h hh => (hp h (List.mem_append_left _ hh)).1) (hp g (by simp)).1 ⟨u, hu, hq⟩
    cases hk'
    obtain ⟨v, hv⟩ := List.exists_mem_of_ne_nil _ hk
    obtain ⟨hv, hvq⟩ := (mem_candidatesOf net).mp hv
    rw [hall v hv] at hvq
    cases hvq
  · exact (hp g (by simp)).2 u ((mem_candidatesOf net).mpr ⟨hu, by simpa using hq⟩)

/-- The members of every group that is followed by a group with candidates. -/
theorem QuarantineCaught.missed_before {pre post : List (Int × List Upstream)}
    {x : Int × List Upstream} (hc : QuarantineCaught net name mergeTier validators groups)
    (hg : groups = pre ++ x :: post) (hx : candidatesOf net x.2 ≠ [])
    (hp : ∀ h ∈ pre, Absent net name mergeTier validators h.2 ∧
      ∀ u ∈ candidatesOf net h.2, Missed u st') : ∀ g ∈ pre, ∀ u ∈ g.2, Missed u st' := by
  intro g hgp
  obtain ⟨a, c, rfl⟩ := List.append_of_mem hgp
  have hpa : ∀ h ∈ a ++ [g], Absent net name mergeTier validators h.2 ∧
      ∀ u ∈ candidatesOf net h.2, Missed u st' := by
    intro h hh
    refine hp h ?_
    simp only [List.mem_append, List.mem_cons, List.not_mem_nil, or_false] at hh ⊢
    tauto
  rcases c with _ | ⟨k, c⟩
  · have hsplit : groups = a ++ g :: x :: post := by simp [hg]
    exact hc.missed hsplit hpa hx
  · have hsplit : groups = a ++ g :: k :: (c ++ x :: post) := by simp [hg]
    refine hc.missed hsplit hpa ?_
    exact (hp k (by simp)).1.1

end Walk

/-! ## Isolation -/

section Main

variable {net : Network} {name : String} {mergeTier : Bool} {validators : Option Validators}
  {groups : List (Int × List Upstream)} {claimants : List Upstream} {st : ResolverState}

/-- A walk in which a quarantined member is always caught isolates the tiers. -/
theorem walk_isolation (ht : Tiered groups)
    (hmem : ∀ u, u ∈ claimants ↔ ∃ g ∈ groups, u ∈ g.2)
    (hus : ∀ g ∈ groups, ∀ u ∈ g.2, u.kind.hasProvider = true)
    (ha0 : st.asked = [])
    (hc : QuarantineCaught net name mergeTier validators groups) :
    Isolation claimants (walk net name mergeTier validators groups st) := by
  rcases cascade_cases (tierStep net name mergeTier validators) (.ok none) groups st with
    ⟨s', hp, he⟩ | ⟨pre, x, post, s', r, s'', hg, hp, hx, he⟩
  · -- every tier says "not found"
    have habs := passes_absent ht.nonempty hus hp
    have hall : ∀ u ∈ claimants, Missed u s' := by
      intro u hu
      obtain ⟨g, hg, hug⟩ := (hmem u).mp hu
      obtain ⟨a, c, hgroups⟩ := List.append_of_mem hg
      have hcand : isQuarantined (net.now u) u = false := by
        by_contra hq
        obtain ⟨k, c', rfl, hk⟩ := hc a g c hgroups
          (fun h hh => (habs h (by simp [hgroups, hh])).1) (habs g hg).1
          ⟨u, hug, by simpa using hq⟩
        obtain ⟨v, hv⟩ := List.exists_mem_of_ne_nil _ (habs k (by simp [hgroups])).1.1
        obtain ⟨hv, hvq⟩ := (mem_candidatesOf net).mp hv
        rw [hk v hv] at hvq
        cases hvq
      exact (habs g hg).2 u ((mem_candidatesOf net).mpr ⟨hug, hcand⟩)
    have hrun : walk net name mergeTier validators groups st = (.ok none, s') := he
    rw [hrun]
    refine ⟨fun u hu _ _ _ => hall u hu, ?_, fun _ => hall, ?_, fun _ _ => hall⟩
    · intro r hr
      cases hr
    · intro u hu hnot
      exact absurd (hall u hu) hnot
  · have hrun : walk net name mergeTier validators groups st = (r, s'') := he
    have hpne : ∀ g ∈ pre, g.2 ≠ [] := fun g hgp => ht.nonempty g (by simp [hg, hgp])
    have hpus : ∀ g ∈ pre, ∀ u ∈ g.2, u.kind.hasProvider = true :=
      fun g hgp => hus g (by simp [hg, hgp])
    have habs := passes_absent hpne hpus hp
    have hasked := walk_asked hpne hpus hp ha0
    have htx : ∀ u ∈ claimants, ∃ g ∈ pre ++ x :: post, u ∈ g.2 ∧ u.tier = g.1 := by
      intro u hu
      obtain ⟨g, hgm, hug⟩ := (hmem u).mp hu
      exact ⟨g, hg ▸ hgm, hug, ht.tier g hgm u hug⟩
    have ht' : Tiered (pre ++ x :: post) := hg ▸ ht
    rw [hrun]
    rcases tierStep_cases net name mergeTier validators x (ht.nonempty x (by simp [hg]))
        (hus x (by simp [hg])) s' with ⟨hnone, msg, he'⟩ | ⟨v, s1, he', hq, ⟨w, hw, hwa⟩, hcase⟩
    · -- the tier is quarantined as a whole: nothing below it is consulted
      rw [hx] at he'
      cases he'
      refine ⟨?_, by simp, by simp, fun u _ _ => .inl ⟨msg, rfl⟩, ?_⟩
      · intro u hu v hv hlt
        obtain ⟨gv, hgv, hvg⟩ := hasked v hv
        obtain ⟨gu, hgu, hug, htu⟩ := htx u hu
        obtain ⟨a, c, rfl⟩ := List.append_of_mem hgv
        have htv : v.tier = gv.1 := ht.tier gv (by simp [hg]) v hvg
        have hsplit : groups = a ++ gv :: (c ++ x :: post) := by simp [hg]
        have hlt' : gu.1 < gv.1 := by omega
        have hgu' : gu ∈ a := (hsplit ▸ ht).mem_pre (by rw [← hsplit, hg]; exact hgu) hlt'
        exact hc.missed_before hsplit (habs gv hgv).1.1
          (fun h hh => habs h (List.mem_append_left _ hh)) gu hgu' u hug
      · intro timedOut hf
        have := resolvesUpstream_false hf
        cases this
    · rw [hx] at he'
      cases he'
      obtain ⟨hv, -, -⟩ | ⟨-, hstop⟩ := hcase
      · cases hv
      have hbefore : ∀ g ∈ pre, ∀ u ∈ g.2, Missed u s'' := by
        intro g hgp u hu
        have hm := hc.missed_before hg (List.ne_nil_of_mem hw) habs g hgp u hu
        exact ⟨hq.asked_mono u hm.1, hq.notFound_mono u hm.2⟩
      have hlow : ∀ u ∈ claimants, u.tier < x.1 → Missed u s'' := by
        intro u hu hlt
        obtain ⟨gu, hgu, hug, htu⟩ := htx u hu
        exact hbefore gu (ht'.mem_pre hgu (by omega)) u hug
      have hcons : ∀ u ∈ claimants, ∀ v ∈ s''.asked, u.tier < v.tier → Missed u s'' := by
        intro u hu v hv hlt
        have hvx : v.tier ≤ x.1 := by
          rcases hq.asked_sub v hv with h1 | h1
          · obtain ⟨gv, hgv, hvg⟩ := hasked v h1
            rw [ht.tier gv (by simp [hg, hgv]) v hvg]
            exact le_of_lt (ht'.lt_of_mem_pre hgv)
          · rw [ht.tier x (by simp [hg]) v ((mem_candidatesOf net).mp h1).1]
        exact hlow u hu (by omega)
      obtain ⟨msg, hv⟩ | ⟨responses, first, rest, hv, -⟩ := hstop
      · cases hv
        refine ⟨hcons, by simp, by simp, fun u _ _ => .inl ⟨msg, rfl⟩, ?_⟩
        intro timedOut hf
        have := resolvesUpstream_false hf
        cases this
      · cases hv
        have hres := tierResult_tier mergeTier x.1 responses first rest
        refine ⟨hcons, ?_, by simp, ?_, ?_⟩
        · rintro r hr u hu hlt
          cases hr
          exact hlow u hu (by omega)
        · intro u hu hnot
          refine .inr ⟨_, rfl, ?_⟩
          by_contra hlt
          exact hnot (hlow u hu (by omega))
        · intro timedOut hf
          have := resolvesUpstream_false hf
          cases this

/-- A walk that isolates the tiers catches every quarantined member. -/
theorem walk_caught (ht : Tiered groups)
    (hmem : ∀ u, u ∈ claimants ↔ ∃ g ∈ groups, u ∈ g.2)
    (hus : ∀ g ∈ groups, ∀ u ∈ g.2, u.kind.hasProvider = true) (hn0 : st.notFound = [])
    (hi : Isolation claimants (walk net name mergeTier validators groups st)) :
    QuarantineCaught net name mergeTier validators groups := by
  rintro pre g post hg hpre habs ⟨q, hq, hqq⟩
  have hqn : ¬ Missed q (walk net name mergeTier validators groups st).2 := by
    rintro ⟨-, hn⟩
    rw [walk_notFound ht.nonempty hus hn0 q hn] at hqq
    cases hqq
  have hqc : q ∈ claimants := (hmem q).mpr ⟨g, by simp [hg], hq⟩
  -- the walk passes every tier up to this one
  have hpass : ∀ l, (∀ h ∈ l, h ∈ groups ∧ Absent net name mergeTier validators h.2) →
      ∀ s, ∃ s', Passes (tierStep net name mergeTier validators) l s s' := by
    intro l
    induction l with
    | nil => exact fun _ s => ⟨s, .nil s⟩
    | cons h l ih =>
      intro hl s
      obtain ⟨hh, hhabs⟩ := hl h List.mem_cons_self
      rcases tierStep_cases net name mergeTier validators h (ht.nonempty h hh) (hus h hh) s with
        ⟨hnone, -⟩ | ⟨v, s1, he, -, -, ⟨rfl, -⟩ | ⟨hnot, -⟩⟩
      · exact absurd hnone hhabs.1
      · obtain ⟨s', hs'⟩ := ih (fun k hk => hl k (List.mem_cons_of_mem _ hk)) s1
        exact ⟨s', .cons he hs'⟩
      · exact absurd hhabs hnot
  obtain ⟨s1, hs1⟩ := hpass (pre ++ [g]) (by
    intro h hh
    rcases List.mem_append.mp hh with h1 | h1
    · exact ⟨by simp [hg, h1], hpre h h1⟩
    · obtain rfl := List.mem_singleton.mp h1
      exact ⟨by simp [hg], habs⟩) st
  have hwalk : walk net name mergeTier validators groups st =
      walk net name mergeTier validators post s1 := by
    unfold walk
    rw [hg, show pre ++ g :: post = (pre ++ [g]) ++ post by simp, cascade_append hs1]
  rcases post with _ | ⟨k, post⟩
  · rw [hwalk] at hi hqn
    exact absurd (hi.absent rfl q hqc) hqn
  · refine ⟨k, post, rfl, ?_⟩
    by_contra hnot
    have hkm : k ∈ groups := by simp [hg]
    have hkc : candidatesOf net k.2 ≠ [] := by
      intro h0
      refine hnot fun u hu => ?_
      by_contra hu'
      have : u ∈ candidatesOf net k.2 := (mem_candidatesOf net).mpr ⟨hu, by simpa using hu'⟩
      rw [h0] at this
      cases this
    have hlt : g.1 < k.1 := by
      have hasc := (hg ▸ ht).ascending
      exact (List.pairwise_cons.mp (List.pairwise_append.mp hasc).2.1).1 k List.mem_cons_self
    rcases tierStep_cases net name mergeTier validators k (ht.nonempty k hkm) (hus k hkm) s1 with
      ⟨hnone, -⟩ | ⟨v, s2, he, hqd, ⟨w, hw, hwa⟩, -⟩
    · exact absurd hnone hkc
    · have hmono : w ∈ (walk net name mergeTier validators (k :: post) s1).2.asked := by
        unfold walk
        rcases v with _ | r
        · rw [cascade_pass he]
          exact walk_asked_mono (fun h hh => ht.nonempty h (by simp [hg, hh]))
            (fun h hh => hus h (by simp [hg, hh])) w hwa
        · rw [cascade_stop he]
          exact hwa
      rw [hwalk] at hi hqn
      have hwk := ((mem_candidatesOf net).mp hw).1
      refine hqn (hi.consulted q hqc w hmono ?_)
      rw [ht.tier g (by simp [hg]) q hq, ht.tier k hkm w hwk]
      exact hlt

end Main

theorem mem_loadUpstreams {table : UpstreamTable} {ecosystem : Ecosystem} {enabledOnly : Bool}
    {u : Upstream} : u ∈ loadUpstreams table ecosystem enabledOnly ↔
      u ∈ table.rows ∧ u.ecosystem = ecosystem ∧ (enabledOnly = true → u.enabled = true) := by
  unfold loadUpstreams
  rw [List.mem_insertionSort, List.mem_filter]
  cases enabledOnly <;> simp

theorem mem_of_mem_claimantsFor {cm : CaseMap} {upstreams : List Upstream} {name : String}
    {ecosystem : Ecosystem} {u : Upstream} (h : u ∈ claimantsFor cm upstreams name ecosystem) :
    u ∈ upstreams := by
  unfold claimantsFor at h
  dsimp only at h
  split at h
  · exact (List.mem_filter.mp h).1
  · exact (List.mem_filter.mp h).1

/-- A package ecosystem's claimants all have a provider. -/
theorem claimants_hasProvider (cm : CaseMap) (table : UpstreamTable) (name : String)
    {ecosystem : Ecosystem} (heco : ecosystem ≠ .docker) : ∀ g ∈ groupByTier
      (claimantsFor cm (loadUpstreams table ecosystem) name ecosystem),
      ∀ u ∈ g.2, u.kind.hasProvider = true := by
  intro g hg u hu
  have hc := mem_of_mem_claimantsFor (mem_groupByTier.mpr ⟨g, hg, hu⟩)
  obtain ⟨-, he, -⟩ := mem_loadUpstreams.mp hc
  exact u.hasProvider (he ▸ heco)

/-- Without claimants there is nothing to walk. -/
theorem resolve_eq_walk (net : Network) (table : UpstreamTable) (ecosystem : Ecosystem)
    (name : String) (mergeTier : Option Bool) (validators : Option Validators) :
    resolve net table ecosystem name mergeTier validators =
      walk net name (mergeTier.getD (ecosystem = .pypi)) validators
        (groupByTier (claimantsFor net.caseMap (loadUpstreams table ecosystem) name ecosystem))
        { rows := table.rows } := by
  unfold resolve
  simp only
  split
  · next h => rw [h]; rfl
  · split
    · next h => rw [h]; rfl
    · rfl

/-- **Resolution isolates the tiers exactly when every quarantined member of a
tier that passes is caught by the next tier.** -/
theorem resolve_isolation_iff (net : Network) (table : UpstreamTable) (ecosystem : Ecosystem)
    (name : String) (mergeTier : Option Bool) (validators : Option Validators)
    (heco : ecosystem ≠ .docker) :
    Isolation (claimantsFor net.caseMap (loadUpstreams table ecosystem) name ecosystem)
        (resolve net table ecosystem name mergeTier validators) ↔
      QuarantineCaught net name (mergeTier.getD (ecosystem = .pypi)) validators
        (groupByTier (claimantsFor net.caseMap (loadUpstreams table ecosystem) name ecosystem)) := by
  rw [resolve_eq_walk]
  constructor
  · exact walk_caught (groupByTier_tiered _) (fun _ => mem_groupByTier)
      (claimants_hasProvider _ _ _ heco) rfl
  · exact walk_isolation (groupByTier_tiered _) (fun _ => mem_groupByTier)
      (claimants_hasProvider _ _ _ heco) rfl

/-! ## An internal tier with one member quarantined -/

/-- Two internal npm upstreams in tier 1, the first quarantined, and a public one in tier 2. -/
def splitTier : UpstreamTable where
  rows :=
    [{ id := 1, name := "corp-a", ecosystem := .npm, kind := .npm, healthy := false,
       consecutiveFailures := 5, lastCheckAt := some 0, validKind := npm_validKind },
     { id := 2, name := "corp-b", ecosystem := .npm, kind := .npm, validKind := npm_validKind },
     { id := 3, name := "npmjs", ecosystem := .npm, kind := .npm, tier := 2,
       validKind := npm_validKind }]

/-- Only the public upstream has the package. -/
def publicOnly : Network where
  caseMap := .ascii
  fetch u name _ := if u.id = 3 then .package { name := name } none else .notFound
  fetch_unconditional u name := by split <;> simp
  fetch_untagged u name v p w h := by
    split at h
    · cases h
      simp
    · cases h
  now _ := 1000000
  checkedAt _ := 1000000
  tierParallel := true
  completion us := us
  completion_perm us := .refl us
  finishesLate _ := false

/-- The public tier answers for a name whose internal upstream is quarantined. -/
theorem resolve_not_isolated :
    ¬ Isolation (claimantsFor publicOnly.caseMap (loadUpstreams splitTier .npm) "payroll" .npm)
      (resolve publicOnly splitTier .npm "payroll") := by
  intro h
  have hmissed := h.consulted splitTier.rows[0] (by decide) splitTier.rows[2] (by decide) (by decide)
  exact absurd hmissed.1 (by decide)

theorem resolve_isolation_iff_splitTier : Ecosystem.npm ≠ .docker ∧
    (Isolation (claimantsFor publicOnly.caseMap (loadUpstreams splitTier .npm) "payroll" .npm)
        (resolve publicOnly splitTier .npm "payroll") ↔
      QuarantineCaught publicOnly "payroll" false none
        (groupByTier
          (claimantsFor publicOnly.caseMap (loadUpstreams splitTier .npm) "payroll" .npm))) :=
  ⟨by decide, resolve_isolation_iff publicOnly splitTier .npm "payroll" none none (by decide)⟩

end Minireg
