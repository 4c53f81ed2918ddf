import Minireg.Services.Displaced
import Minireg.Services.Reserved

/-!
# Where an answer comes from

The document `resolve` returns is stamped with sources of the tier that
answered: the files of a single document by `tagFilesWithUpstream`, those of a
merged one by `mergeFile`. So every answer a refresh persists meets `AnswerFrom`.
-/

namespace Minireg

open Py Lib

/-- Every file of the document is stamped with an upstream in `us`. -/
def StampedBy (us : List Upstream) (p : RemotePackage) : Prop :=
  ∀ rv ∈ p.versions, ∀ f ∈ rv.files, ∃ u ∈ us, f.upstreamId = some u.id

theorem tagFilesWithUpstream_stamped {p : RemotePackage} {u : Upstream}
    (h : ∀ rv ∈ p.versions, ∀ f ∈ rv.files, f.upstreamId = none) :
    StampedBy [u] (tagFilesWithUpstream p u) := by
  intro rv hrv f hf
  obtain ⟨rv', hrv', rfl⟩ := List.mem_map.mp hrv
  obtain ⟨f', hf', rfl⟩ := List.mem_map.mp hf
  refine ⟨u, List.mem_singleton_self u, ?_⟩
  simp [h rv' hrv' f' hf']

/-! ## Merged documents -/

section Merge

variable {us : List Upstream}

/-- The files collected so far are stamped with upstreams in `us`. -/
def StampedFiles (us : List Upstream) (files : List RemoteFile) : Prop :=
  ∀ f ∈ files, ∃ u ∈ us, f.upstreamId = some u.id

theorem mergeFile_stamped {u : Upstream} (hu : u ∈ us) (acc : RemoteVersion × List String)
    (file : RemoteFile) (h : StampedFiles us acc.1.files) :
    StampedFiles us (mergeFile u acc file).1.files := by
  unfold mergeFile
  dsimp only
  split
  · exact h
  · intro f hf
    rcases List.mem_append.mp hf with hf | hf
    · exact h f hf
    · obtain rfl := List.mem_singleton.mp hf
      exact ⟨u, hu, rfl⟩

theorem mergeFiles_stamped {u : Upstream} (hu : u ∈ us) (files : List RemoteFile)
    (acc : RemoteVersion × List String) (h : StampedFiles us acc.1.files) :
    StampedFiles us (files.foldl (mergeFile u) acc).1.files := by
  induction files generalizing acc with
  | nil => exact h
  | cons f fs ih => exact ih _ (mergeFile_stamped hu acc f h)

theorem mergeVersion_stamped {u : Upstream} (hu : u ∈ us)
    (acc : Dict String RemoteVersion × List String) (version : RemoteVersion)
    (h : ∀ e ∈ acc.1, StampedFiles us e.2.files) :
    ∀ e ∈ (mergeVersion u acc version).1, StampedFiles us e.2.files := by
  intro e he
  unfold mergeVersion at he
  dsimp only at he
  rcases Dict.mem_of_mem_set he with rfl | he
  · refine mergeFiles_stamped hu _ _ ?_
    split
    · intro f hf
      cases hf
    · next target hg =>
      have htarget := h _ (Dict.mem_of_get? hg)
      split
      · exact htarget
      · exact htarget
  · exact h e he

theorem merge_stamped (base : RemotePackage) (baseUpstream : Upstream)
    (results : List (RemotePackage × Upstream)) :
    StampedBy (results.map Prod.snd) (merge base baseUpstream results) := by
  have hversions : ∀ (u : Upstream), u ∈ results.map Prod.snd → ∀ (versions : List RemoteVersion)
      (acc : Dict String RemoteVersion × List String),
      (∀ e ∈ acc.1, StampedFiles (results.map Prod.snd) e.2.files) →
      ∀ e ∈ (versions.foldl (mergeVersion u) acc).1,
        StampedFiles (results.map Prod.snd) e.2.files := by
    intro u hu versions
    induction versions with
    | nil => exact fun _ h => h
    | cons v vs ih => exact fun acc h => ih _ (mergeVersion_stamped hu acc v h)
  have hresults : ∀ (rs : List (RemotePackage × Upstream)), (∀ r ∈ rs, r ∈ results) →
      ∀ acc : Dict String RemoteVersion × List String,
      (∀ e ∈ acc.1, StampedFiles (results.map Prod.snd) e.2.files) →
      ∀ e ∈ (rs.foldl (fun acc r => r.1.versions.foldl (mergeVersion r.2) acc) acc).1,
        StampedFiles (results.map Prod.snd) e.2.files := by
    intro rs
    induction rs with
    | nil => exact fun _ _ h => h
    | cons r rs ih =>
      intro hrs acc h
      refine ih (fun r' hr' => hrs r' (List.mem_cons_of_mem _ hr')) _ ?_
      exact hversions r.2 (List.mem_map_of_mem (hrs r List.mem_cons_self)) _ acc h
  intro rv hrv f hf
  obtain ⟨e, he, rfl⟩ := List.mem_map.mp hrv
  refine hresults results (fun _ h => h) ([], []) (by simp) e he f ?_
  unfold rederiveYanked at hf
  split at hf
  · exact hf
  · split at hf
    · exact hf
    · exact hf

end Merge

/-! ## The answer of a tier -/

section Resolve

variable {net : Network} {name : String} {sent : Upstream → Option Validators}

theorem tierResult_stamped {mergeTier : Bool} {tier : Int} {us : List Upstream}
    {responses : Dict Nat (Option Validators)} {first : Answer × Upstream}
    {rest : List (Answer × Upstream)} (h : Answered net name sent us (first :: rest))
    {p : RemotePackage} (hp : (tierResult mergeTier tier responses first rest).package = some p) :
    (tierResult mergeTier tier responses first rest).upstream ∈ us ∧ StampedBy us p := by
  obtain ⟨p0 | _, u⟩ := first
  · obtain ⟨hu, w, hw⟩ := h _ List.mem_cons_self
    unfold tierResult at hp ⊢
    dsimp only at hp ⊢
    split at hp
    · next hc =>
      rw [if_pos hc]
      obtain rfl := Option.some.inj hp
      refine ⟨hu, fun rv hrv f hf => ?_⟩
      obtain ⟨v, hv, hfv⟩ := tagFilesWithUpstream_stamped
        (net.fetch_untagged _ _ _ _ _ hw) rv hrv f hf
      obtain rfl := List.mem_singleton.mp hv
      exact ⟨v, hu, hfv⟩
    · next hc =>
      rw [if_neg hc]
      obtain rfl := Option.some.inj hp
      refine ⟨hu, fun rv hrv f hf => ?_⟩
      obtain ⟨v, hv, hfv⟩ := merge_stamped _ _ _ rv hrv f hf
      refine ⟨v, ?_, hfv⟩
      rcases List.mem_cons.mp hv with rfl | hv
      · exact hu
      · obtain ⟨⟨q, v'⟩, hq, rfl⟩ := List.mem_map.mp hv
        obtain ⟨⟨a, v''⟩, ha, hsome⟩ := List.mem_filterMap.mp hq
        have hv'' := (h (a, v'') (List.mem_cons_of_mem _ ha)).1
        rcases a with q' | _
        · cases hsome
          exact hv''
        · cases hsome
  · cases hp

/-- A claimant is a live source, at its tier. -/
theorem liveSources_claimant {cm : CaseMap} {table : UpstreamTable} {ecosystem : Ecosystem}
    {u : Upstream}
    (hu : u ∈ claimantsFor cm (loadUpstreams table ecosystem) name ecosystem) :
    Dict.get? (liveSources cm table ecosystem name) u.id = some u.tier := by
  have hset : ∀ (us : List Upstream) (d : Dict Nat Int),
      (∀ v ∈ us, v.id = u.id → v.tier = u.tier) →
      ((∃ v ∈ us, v.id = u.id) ∨ Dict.get? d u.id = some u.tier) →
      Dict.get? (us.foldl (fun d v => Dict.set d v.id v.tier) d) u.id = some u.tier := by
    intro us
    induction us with
    | nil =>
      rintro d - (⟨v, hv, -⟩ | hd)
      · cases hv
      · exact hd
    | cons v us ih =>
      intro d hsame hd
      refine ih _ (fun w hw => hsame w (List.mem_cons_of_mem _ hw)) ?_
      rw [Dict.get?_set]
      by_cases hv : u.id = v.id
      · rw [if_pos hv, hsame v List.mem_cons_self hv.symm]
        exact .inr rfl
      · rw [if_neg hv]
        refine hd.imp_left ?_
        rintro ⟨w, hw, hwu⟩
        rcases List.mem_cons.mp hw with rfl | hw
        · exact absurd hwu.symm hv
        · exact ⟨w, hw, hwu⟩
  have hdefault : ∀ (us : List Upstream) (d : Dict Nat Int), Dict.get? d u.id = some u.tier →
      Dict.get? (us.foldl (fun d v => if v.enabled then d else Dict.setdefault d v.id v.tier) d)
        u.id = some u.tier := by
    intro us
    induction us with
    | nil => exact fun _ h => h
    | cons v us ih =>
      intro d hd
      refine ih _ ?_
      dsimp only
      split
      · exact hd
      · exact Dict.get?_setdefault_of_some hd _ _
  refine hdefault _ _ (hset _ _ (fun v hv hid => ?_) (.inl ⟨u, hu, rfl⟩))
  have hrow : ∀ w ∈ claimantsFor cm (loadUpstreams table ecosystem) name ecosystem, w ∈ table :=
    fun w hw => (mem_loadUpstreams.mp (mem_of_mem_claimantsFor hw)).1
  rw [Table.eq_of_key (hrow v hv) (hrow u hu) hid]

/-- **How a resolution ends**: without an answer, or with what a tier makes of the answers
of its candidates. -/
theorem resolve_cases (net : Network) (name : String) (table : UpstreamTable)
    {ecosystem : Ecosystem} (mergeTier : Option Bool) (validators : Option Validators)
    (heco : ecosystem ≠ .docker) :
    (∃ msg, (resolve net table ecosystem name mergeTier validators).1 =
      .error (.tierUnavailable msg)) ∨
    (resolve net table ecosystem name mergeTier validators).1 = .ok none ∨
    ∃ g ∈ groupByTier (claimantsFor net.caseMap (loadUpstreams table ecosystem) name ecosystem),
      ∃ responses first rest, (resolve net table ecosystem name mergeTier validators).1 =
          .ok (some (tierResult (mergeTier.getD (ecosystem = .pypi)) g.1 responses first rest)) ∧
        Answered net name (sentTo net (mergeTier.getD (ecosystem = .pypi)) validators g.2)
          (candidatesOf net g.2) (first :: rest) := by
  rw [resolve_eq_walk]
  have ht := groupByTier_tiered
    (claimantsFor net.caseMap (loadUpstreams table ecosystem) name ecosystem)
  have hus := claimants_hasProvider net.caseMap table name heco
  rcases cascade_cases (tierStep net name (mergeTier.getD (ecosystem = .pypi)) validators)
    (.ok none) (groupByTier (claimantsFor net.caseMap (loadUpstreams table ecosystem) name
      ecosystem)) { rows := table.rows } with
    ⟨s', -, he⟩ | ⟨pre, x, post, s', b, s'', hg, -, hx, he⟩
  · exact .inr (.inl (congrArg Prod.fst he))
  · have hxm : x ∈ groupByTier (claimantsFor net.caseMap (loadUpstreams table ecosystem) name
        ecosystem) := by simp [hg]
    have hwalk : (walk net name (mergeTier.getD (ecosystem = .pypi)) validators (groupByTier
        (claimantsFor net.caseMap (loadUpstreams table ecosystem) name ecosystem))
        { rows := table.rows }).1 = b := congrArg Prod.fst he
    rw [hwalk]
    rcases tierStep_cases net name (mergeTier.getD (ecosystem = .pypi)) validators x
      (ht.nonempty x hxm) (hus x hxm) s' with ⟨-, msg, he'⟩ | ⟨v, s1, he', -, -, hcase⟩
    · rw [hx] at he'
      cases he'
      exact .inl ⟨msg, rfl⟩
    · rw [hx] at he'
      cases he'
      obtain ⟨hv, -⟩ | ⟨-, ⟨msg, hv⟩ | ⟨responses, first, rest, hv, hans⟩⟩ := hcase
      · cases hv
      · cases hv
        exact .inl ⟨msg, rfl⟩
      · cases hv
        exact .inr (.inr ⟨x, hxm, responses, first, rest, rfl, hans⟩)

/-- **The answer of `resolve` comes from the tier it names.** -/
theorem resolve_answerFrom {table : UpstreamTable} {ecosystem : Ecosystem}
    {mergeTier : Option Bool} {validators : Option Validators} (heco : ecosystem ≠ .docker)
    {r : ResolveResult} {p : RemotePackage}
    (hr : (resolve net table ecosystem name mergeTier validators).1 = .ok (some r))
    (hp : r.package = some p) :
    AnswerFrom (liveSources net.caseMap table ecosystem name) r.tier r.upstream p := by
  obtain ⟨msg, he⟩ | he | ⟨x, hxm, responses, first, rest, he, hans⟩ :=
    resolve_cases net name table mergeTier validators heco
  · rw [hr] at he
    cases he
  · rw [hr] at he
    cases he
  · rw [hr] at he
    obtain rfl := Option.some.inj (Except.ok.inj he)
    have ht := groupByTier_tiered
      (claimantsFor net.caseMap (loadUpstreams table ecosystem) name ecosystem)
    obtain ⟨hup, hstamp⟩ := tierResult_stamped hans hp
    have hlive : ∀ u ∈ candidatesOf net x.2, Dict.get?
        (liveSources net.caseMap table ecosystem name) u.id = some x.1 := by
      intro u hu
      have hug := ((mem_candidatesOf net).mp hu).1
      rw [← ht.tier x hxm u hug]
      exact liveSources_claimant (mem_groupByTier.mpr ⟨x, hxm, hug⟩)
    rw [tierResult_tier]
    refine ⟨hlive _ hup, fun rv hrv f hf s hs => ?_⟩
    obtain ⟨u, hu, hfu⟩ := hstamp rv hrv f hf
    rw [hfu] at hs
    cases hs
    exact hlive u hu

end Resolve

end Minireg
