import Minireg.Services.Resolver

/-!
# What querying a tier does

`Queried net name sent us st st'`: from `st` to `st'` nothing but the upstreams
`us` was asked, and every new 404 is one of theirs. `queryTier_spec` says what
the answers and the recorded failures of a tier mean, `tierStep_cases` what one
round of the loop can do.
-/

namespace Minireg

open Py Lib

variable {net : Network} {name : String}

section State

variable (u : Upstream) (us : List Upstream) (why : String) (v : Option Validators)
  (st : ResolverState)

@[simp] theorem markHealthy_asked : (st.markHealthy net u).asked = st.asked := rfl
@[simp] theorem markHealthy_notFound : (st.markHealthy net u).notFound = st.notFound := rfl
@[simp] theorem markHealthy_tierErrors : (st.markHealthy net u).tierErrors = st.tierErrors := rfl
@[simp] theorem markFailure_asked : (st.markFailure net u why).asked = st.asked := rfl
@[simp] theorem markFailure_notFound : (st.markFailure net u why).notFound = st.notFound := rfl
@[simp] theorem markFailure_tierErrors : (st.markFailure net u why).tierErrors = st.tierErrors :=
  rfl
@[simp] theorem tierError_asked : (st.tierError u why).asked = st.asked := rfl
@[simp] theorem tierError_notFound : (st.tierError u why).notFound = st.notFound := rfl
@[simp] theorem tierError_tierErrors :
    (st.tierError u why).tierErrors = st.tierErrors ++ [(u, why)] := rfl
@[simp] theorem setValidators_asked : (st.setValidators u v).asked = st.asked := rfl
@[simp] theorem setValidators_notFound : (st.setValidators u v).notFound = st.notFound := rfl
@[simp] theorem setValidators_tierErrors : (st.setValidators u v).tierErrors = st.tierErrors := rfl
@[simp] theorem ask_asked : (st.ask us).asked = st.asked ++ us := rfl
@[simp] theorem ask_notFound : (st.ask us).notFound = st.notFound := rfl
@[simp] theorem ask_tierErrors : (st.ask us).tierErrors = st.tierErrors := rfl
@[simp] theorem recordNotFound_asked : (st.recordNotFound u).asked = st.asked := rfl
@[simp] theorem recordNotFound_notFound : (st.recordNotFound u).notFound = st.notFound ++ [u] := rfl
@[simp] theorem recordNotFound_tierErrors : (st.recordNotFound u).tierErrors = st.tierErrors := rfl

end State

/-- From `st` to `st'`, only upstreams in `us` were asked; `sent` are the validators. -/
structure Queried (net : Network) (name : String) (sent : Upstream → Option Validators)
    (us : List Upstream) (st st' : ResolverState) : Prop where
  asked_mono : ∀ v ∈ st.asked, v ∈ st'.asked
  asked_sub : ∀ v ∈ st'.asked, v ∈ st.asked ∨ v ∈ us
  notFound_mono : ∀ v ∈ st.notFound, v ∈ st'.notFound
  notFound_sub : ∀ v ∈ st'.notFound, v ∈ st.notFound ∨
    v ∈ us ∧ v ∈ st'.asked ∧ net.fetch v name (sent v) = .notFound
  errors_mono : ∀ e ∈ st.tierErrors, e ∈ st'.tierErrors

namespace Queried

variable {sent : Upstream → Option Validators} {us vs : List Upstream}
  {st st' st'' : ResolverState}

theorem refl (st : ResolverState) : Queried net name sent us st st :=
  ⟨fun _ h => h, fun _ h => .inl h, fun _ h => h, fun _ h => .inl h, fun _ h => h⟩

theorem trans (h : Queried net name sent us st st') (h' : Queried net name sent us st' st'') :
    Queried net name sent us st st'' where
  asked_mono v hv := h'.asked_mono v (h.asked_mono v hv)
  asked_sub v hv := by
    rcases h'.asked_sub v hv with h1 | h1
    · exact h.asked_sub v h1
    · exact .inr h1
  notFound_mono v hv := h'.notFound_mono v (h.notFound_mono v hv)
  notFound_sub v hv := by
    rcases h'.notFound_sub v hv with h1 | h1
    · rcases h.notFound_sub v h1 with h2 | ⟨hu, ha, hf⟩
      · exact .inl h2
      · exact .inr ⟨hu, h'.asked_mono v ha, hf⟩
    · exact .inr h1
  errors_mono e he := h'.errors_mono e (h.errors_mono e he)

theorem mono (hsub : ∀ u ∈ us, u ∈ vs) (h : Queried net name sent us st st') :
    Queried net name sent vs st st' where
  asked_mono := h.asked_mono
  asked_sub v hv := (h.asked_sub v hv).imp_right (hsub v)
  notFound_mono := h.notFound_mono
  notFound_sub v hv := (h.notFound_sub v hv).imp_right fun ⟨hu, ha⟩ => ⟨hsub v hu, ha⟩
  errors_mono := h.errors_mono

theorem ask {as : List Upstream} (h : ∀ u ∈ as, u ∈ us) (st : ResolverState) :
    Queried net name sent us st (st.ask as) where
  asked_mono v hv := by simp [hv]
  asked_sub v hv := by
    rcases List.mem_append.mp hv with h1 | h1
    · exact .inl h1
    · exact .inr (h v h1)
  notFound_mono _ hv := hv
  notFound_sub _ hv := .inl hv
  errors_mono _ he := he

end Queried

/-- The answer is what the upstream responded with. -/
def RespondsWith (response : Response) (answer : Answer) : Prop :=
  match answer with
  | .notModified => response = .notModified
  | .package p => ∃ w, response = .package p w

/-- Every answer is the response of an upstream in `us`. -/
def Answered (net : Network) (name : String) (sent : Upstream → Option Validators)
    (us : List Upstream) (found : List (Answer × Upstream)) : Prop :=
  ∀ e ∈ found, e.2 ∈ us ∧ RespondsWith (net.fetch e.2 name (sent e.2)) e.1

theorem Answered.ne_notFound {net : Network} {name : String}
    {sent : Upstream → Option Validators} {us : List Upstream} {found : List (Answer × Upstream)}
    (h : Answered net name sent us found) {e : Answer × Upstream} (he : e ∈ found) :
    net.fetch e.2 name (sent e.2) ≠ .notFound := by
  obtain ⟨-, hr⟩ := h e he
  intro hf
  rw [hf] at hr
  obtain ⟨p | _, u⟩ := e
  · obtain ⟨w, hw⟩ := hr
    cases hw
  · cases hr

/-- Every upstream in `us` was asked, and said 404 or is recorded as failed. -/
def Silent (net : Network) (name : String) (sent : Upstream → Option Validators)
    (us : List Upstream) (st : ResolverState) : Prop :=
  ∀ u ∈ us, u ∈ st.asked ∧
    (net.fetch u name (sent u) = .notFound ∧ u ∈ st.notFound ∨ ∃ why, (u, why) ∈ st.tierErrors)

section Query

variable (net : Network) (name : String)

/-- What asking one upstream with a provider does. -/
theorem queryOne_cases {u : Upstream} (hu : u.kind.hasProvider = true)
    (sent : Upstream → Option Validators) (st : ResolverState) :
    ∃ r st', queryOne net u name (sent u) st = (.ok r, st') ∧
      Queried net name sent [u] st st' ∧ u ∈ st'.asked ∧
      ((r = none ∧ net.fetch u name (sent u) = .notFound ∧ u ∈ st'.notFound ∧
          st'.tierErrors = st.tierErrors) ∨
       (r = none ∧ net.fetch u name (sent u) ≠ .notFound ∧
          ∃ why, (u, why) ∈ st'.tierErrors) ∨
       ∃ a, r = some a ∧ Answered net name sent [u] [(a, u)]) := by
  unfold queryOne
  rw [if_pos hu]
  cases hf : net.fetch u name (sent u) with
  | notModified =>
    refine ⟨_, _, rfl, ⟨?_, ?_, ?_, ?_, ?_⟩, ?_, .inr (.inr ⟨_, rfl, ?_⟩)⟩ <;>
      simp +contextual [or_comm, Answered, RespondsWith, hf]
  | notFound =>
    refine ⟨_, _, rfl, ⟨?_, ?_, ?_, ?_, ?_⟩, ?_, .inl ⟨rfl, ?_, ?_, ?_⟩⟩ <;>
      simp +contextual [or_comm]
    exact .inr hf
  | failure why =>
    refine ⟨_, _, rfl, ⟨?_, ?_, ?_, ?_, ?_⟩, ?_, .inr (.inl ⟨rfl, ?_, why, ?_⟩)⟩ <;>
      simp +contextual [or_comm]
  | package p v =>
    refine ⟨_, _, rfl, ⟨?_, ?_, ?_, ?_, ?_⟩, ?_, .inr (.inr ⟨_, rfl, ?_⟩)⟩ <;>
      simp +contextual [or_comm, Answered, RespondsWith, hf]

/-- What asking one upstream after another does. -/
theorem queryEach_spec (collectAll : Bool) (validators : Option Validators)
    (us : List Upstream) (hus : ∀ u ∈ us, u.kind.hasProvider = true) (st : ResolverState) :
    ∃ found left st', queryEach net name collectAll validators us st = (.ok (found, left), st') ∧
      Queried net name (validatorsFor validators) us st st' ∧ (∀ u ∈ left, u ∈ us) ∧
      (us ≠ [] → ∃ u ∈ us, u ∈ st'.asked) ∧
      Answered net name (validatorsFor validators) us found ∧
      (found = [] → left = [] ∧ Silent net name (validatorsFor validators) us st') ∧
      ((∀ u ∈ us, net.fetch u name (validatorsFor validators u) = .notFound) →
        found = [] ∧ st'.tierErrors = st.tierErrors) := by
  induction us generalizing st with
  | nil =>
    refine ⟨[], [], st, rfl, .refl st, ?_, ?_, ?_, ?_, fun _ => ⟨rfl, rfl⟩⟩ <;>
      simp [Answered, Silent]
  | cons u rest ih =>
    obtain ⟨r, st1, hr, hq1, hu1, hcase⟩ :=
      queryOne_cases net name (hus u List.mem_cons_self) (validatorsFor validators) st
    obtain ⟨found, left, st2, he, hq2, hleft, -, hfound, hnone, herr⟩ :=
      ih (fun v hv => hus v (List.mem_cons_of_mem _ hv)) st1
    have hq1' : Queried net name (validatorsFor validators) (u :: rest) st st1 :=
      hq1.mono (by simp)
    have hq2' := hq1'.trans (hq2.mono fun v hv => List.mem_cons_of_mem u hv)
    have hleft' : ∀ v ∈ left, v ∈ u :: rest := fun v hv => List.mem_cons_of_mem u (hleft v hv)
    have hfound' : Answered net name (validatorsFor validators) (u :: rest) found :=
      fun e he => ⟨List.mem_cons_of_mem u (hfound e he).1, (hfound e he).2⟩
    have hasked : u ∈ st2.asked := hq2.asked_mono u hu1
    -- an upstream that answered nothing leaves the rest of the tier to decide
    have hgo : r = none → (net.fetch u name (validatorsFor validators u) = .notFound ∧
          u ∈ st2.notFound ∨ ∃ why, (u, why) ∈ st2.tierErrors) →
        (net.fetch u name (validatorsFor validators u) = .notFound →
          st1.tierErrors = st.tierErrors) →
        ∃ found left st', queryEach net name collectAll validators (u :: rest) st =
            (.ok (found, left), st') ∧
          Queried net name (validatorsFor validators) (u :: rest) st st' ∧
          (∀ v ∈ left, v ∈ u :: rest) ∧ (u :: rest ≠ [] → ∃ v ∈ u :: rest, v ∈ st'.asked) ∧
          Answered net name (validatorsFor validators) (u :: rest) found ∧
          (found = [] → left = [] ∧ Silent net name (validatorsFor validators) (u :: rest) st') ∧
          ((∀ v ∈ u :: rest, net.fetch v name (validatorsFor validators v) = .notFound) →
            found = [] ∧ st'.tierErrors = st.tierErrors) := by
      rintro rfl hsilent hkeep
      refine ⟨found, left, st2, by rw [queryEach, hr]; exact he, hq2', hleft',
        fun _ => ⟨u, List.mem_cons_self, hasked⟩, hfound', ?_, ?_⟩
      · intro h0
        refine ⟨(hnone h0).1, fun v hv => ?_⟩
        rcases List.mem_cons.mp hv with rfl | hv
        · exact ⟨hasked, hsilent⟩
        · exact (hnone h0).2 v hv
      · intro hall
        obtain ⟨h0, h1⟩ := herr fun v hv => hall v (List.mem_cons_of_mem u hv)
        exact ⟨h0, h1.trans (hkeep (hall u List.mem_cons_self))⟩
    rcases hcase with ⟨hr0, hf, hn, ht⟩ | ⟨hr0, hf, why, hw⟩ | ⟨a, rfl, hself⟩
    · exact hgo hr0 (.inl ⟨hf, hq2.notFound_mono u hn⟩) fun _ => ht
    · exact hgo hr0 (.inr ⟨why, hq2.errors_mono _ hw⟩) fun h => absurd h hf
    · have hf : net.fetch u name (validatorsFor validators u) ≠ .notFound :=
        hself.ne_notFound (e := (a, u)) List.mem_cons_self
      have hself' : Answered net name (validatorsFor validators) (u :: rest) [(a, u)] := by
        intro e he
        obtain rfl := List.mem_singleton.mp he
        exact ⟨List.mem_cons_self, (hself _ List.mem_cons_self).2⟩
      cases collectAll with
      | true =>
        refine ⟨(a, u) :: found, left, st2, by rw [queryEach, hr]; simp only [if_true]; rw [he],
          hq2', hleft', fun _ => ⟨u, List.mem_cons_self, hasked⟩, ?_, by simp, ?_⟩
        · intro e hmem
          rcases List.mem_cons.mp hmem with rfl | hmem
          · exact hself' _ List.mem_cons_self
          · exact hfound' e hmem
        · intro hall
          exact absurd (hall u List.mem_cons_self) hf
      | false =>
        refine ⟨[(a, u)], rest, st1, by rw [queryEach, hr]; rfl, hq1',
          fun v hv => List.mem_cons_of_mem u hv, fun _ => ⟨u, List.mem_cons_self, hu1⟩, hself',
          by simp, ?_⟩
        intro hall
        exact absurd (hall u List.mem_cons_self) hf

theorem finishLate_queried (validators : Option Validators) (left : List Upstream)
    (hleft : ∀ u ∈ left, u.kind.hasProvider = true) (st : ResolverState) :
    Queried net name (validatorsFor validators) left st
      (finishLate net name validators left st) := by
  unfold finishLate
  have hsub : ∀ u ∈ left.filter net.finishesLate, u ∈ left :=
    fun u hu => (List.mem_filter.mp hu).1
  revert hsub
  generalize left.filter net.finishesLate = late
  intro hsub
  induction late generalizing st with
  | nil => exact .refl st
  | cons u rest ih =>
    have hu := hsub u List.mem_cons_self
    obtain ⟨r, st1, hr, hq, -⟩ := queryOne_cases net name (hleft u hu) (validatorsFor validators) st
    rw [List.foldl_cons, hr]
    exact (hq.mono (by simpa using hu)).trans
      (ih st1 fun v hv => hsub v (List.mem_cons_of_mem u hv))

/-- **What querying a tier does**, whatever the order of completion. -/
theorem queryTier_spec (candidates : List Upstream)
    (hus : ∀ u ∈ candidates, u.kind.hasProvider = true) (collectAll : Bool)
    (validators : Option Validators) (st : ResolverState) :
    ∃ found st', queryTier net candidates name collectAll validators st = (.ok found, st') ∧
      Queried net name (validatorsFor validators) candidates st st' ∧
      (candidates ≠ [] → ∃ u ∈ candidates, u ∈ st'.asked) ∧
      Answered net name (validatorsFor validators) candidates found ∧
      (found = [] → Silent net name (validatorsFor validators) candidates st') ∧
      ((∀ u ∈ candidates, net.fetch u name (validatorsFor validators u) = .notFound) →
        found = [] ∧ st'.tierErrors = st.tierErrors) := by
  unfold queryTier
  rcases net.tierParallel with _ | _
  · obtain ⟨found, left, st1, he, hq, -, hask, hfound, hnone, herr⟩ :=
      queryEach_spec net name collectAll validators candidates hus st
    exact ⟨found, st1, by simp [he], hq, hask, hfound, fun h0 => (hnone h0).2, herr⟩
  · have hperm := net.completion_perm candidates
    have hmem : ∀ u, u ∈ net.completion candidates ↔ u ∈ candidates := fun u => hperm.mem_iff
    obtain ⟨found, left, st1, he, hq, hleft, hask, hfound, hnone, herr⟩ :=
      queryEach_spec net name collectAll validators
        (net.completion candidates) (fun u hu => hus u ((hmem u).mp hu))
        (st.ask (candidates.filter fun u => u.kind.hasProvider))
    have hall : Queried net name (validatorsFor validators) candidates st st1 :=
      (Queried.ask (fun u hu => (List.mem_filter.mp hu).1) st).trans
        (hq.mono fun u hu => (hmem u).mp hu)
    have hlate := (finishLate_queried net name validators left
      (fun u hu => hus u ((hmem u).mp (hleft u hu))) st1).mono
      fun u hu => (hmem u).mp (hleft u hu)
    have hsort := List.perm_insertionSort
      (fun a b => candidateOrder candidates a ≤ candidateOrder candidates b) found
    refine ⟨found.insertionSort fun a b => candidateOrder candidates a ≤ candidateOrder candidates b,
      finishLate net name validators left st1, by simp only [if_true, he],
      hall.trans hlate, ?_, ?_, ?_, ?_⟩
    · intro hne
      have hne' : net.completion candidates ≠ [] := by
        intro h0
        rw [h0] at hperm
        exact hne hperm.symm.eq_nil
      obtain ⟨u, hu, ha⟩ := hask hne'
      exact ⟨u, (hmem u).mp hu, hlate.asked_mono u ha⟩
    · intro e hmem'
      have h1 := hfound e (hsort.mem_iff.mp hmem')
      exact ⟨(hmem _).mp h1.1, h1.2⟩
    · intro h0 u hu
      rw [h0] at hsort
      obtain ⟨-, hn⟩ := hnone hsort.symm.eq_nil
      rcases hn u ((hmem u).mpr hu) with ⟨ha, ⟨hf, hn⟩ | ⟨why, hw⟩⟩
      · exact ⟨hlate.asked_mono u ha, .inl ⟨hf, hlate.notFound_mono u hn⟩⟩
      · exact ⟨hlate.asked_mono u ha, .inr ⟨why, hlate.errors_mono _ hw⟩⟩
    · intro hf
      obtain ⟨rfl, ht⟩ := herr fun u hu => hf u ((hmem u).mp hu)
      obtain ⟨rfl, -⟩ := hnone rfl
      exact ⟨rfl, by simpa [finishLate] using ht⟩

end Query

/-! ## One tier of the walk -/

section Step

variable (net : Network) (name : String) (mergeTier : Bool) (validators : Option Validators)

/-- The validators a candidate of the group is asked with. -/
def sentTo (group : List Upstream) : Upstream → Option Validators :=
  validatorsFor (tierValidators mergeTier validators (candidatesOf net group))

/-- The tier answers "not found": it has candidates and each of them says 404. -/
def Absent (group : List Upstream) : Prop :=
  candidatesOf net group ≠ [] ∧ ∀ u ∈ candidatesOf net group,
    net.fetch u name (sentTo net mergeTier validators group u) = .notFound

theorem mem_candidatesOf {group : List Upstream} {u : Upstream} :
    u ∈ candidatesOf net group ↔ u ∈ group ∧ isQuarantined (net.now u) u = false := by
  simp [candidatesOf]

theorem tierResult_tier (tier : Int) (responses : Dict Nat (Option Validators))
    (first : Answer × Upstream) (rest : List (Answer × Upstream)) :
    (tierResult mergeTier tier responses first rest).tier = tier := by
  unfold tierResult
  obtain ⟨p | _, u⟩ := first
  · dsimp only
    split <;> rfl
  · rfl

/-- **What one round of the loop does.** A tier passes when it says "not found",
stops with an error when all of it is quarantined or it could not answer, and
stops with an answer of its own otherwise. -/
theorem tierStep_cases (g : Int × List Upstream) (hne : g.2 ≠ [])
    (hus : ∀ u ∈ g.2, u.kind.hasProvider = true) (st : ResolverState) :
    (candidatesOf net g.2 = [] ∧
      ∃ msg, tierStep net name mergeTier validators g st = (.stop (.error (.tierUnavailable msg)), st)) ∨
    ∃ verdict st', tierStep net name mergeTier validators g st = (verdict, st') ∧
      Queried net name (sentTo net mergeTier validators g.2) (candidatesOf net g.2)
        { st with tierErrors := [] } st' ∧
      (∃ u ∈ candidatesOf net g.2, u ∈ st'.asked) ∧
      ((verdict = .pass ∧ Absent net name mergeTier validators g.2 ∧
          ∀ u ∈ candidatesOf net g.2, u ∈ st'.asked ∧ u ∈ st'.notFound) ∨
       (¬ Absent net name mergeTier validators g.2 ∧
          ((∃ msg, verdict = .stop (.error (.tierUnavailable msg))) ∨
            ∃ responses first rest, verdict = .stop (.ok (some
                (tierResult mergeTier g.1 responses first rest))) ∧
              Answered net name (sentTo net mergeTier validators g.2) (candidatesOf net g.2)
                (first :: rest)))) := by
  obtain ⟨tier, group⟩ := g
  by_cases hc : candidatesOf net group = []
  · have hstep : tierStep net name mergeTier validators (tier, group) st =
        (.stop (.error (tierQuarantined tier)), st) := by
      unfold tierStep
      simp only [hc, if_true]
      rw [if_pos hne]
    exact .inl ⟨hc, _, hstep⟩
  · right
    obtain ⟨found, st1, he, hq, hask, hfound, hnone, hall⟩ := queryTier_spec net name
      (candidatesOf net group) (fun u hu => hus u ((mem_candidatesOf net).mp hu).1) mergeTier
      (tierValidators mergeTier validators (candidatesOf net group)) { st with tierErrors := [] }
    rcases found with _ | ⟨first, rest⟩
    · by_cases herr : st1.tierErrors = []
      · have hmiss : ∀ u ∈ candidatesOf net group, u ∈ st1.asked ∧
            net.fetch u name (sentTo net mergeTier validators group u) = .notFound ∧
            u ∈ st1.notFound := by
          intro u hu
          obtain ⟨ha, hf | ⟨why, hw⟩⟩ := hnone rfl u hu
          · exact ⟨ha, hf⟩
          · rw [herr] at hw
            cases hw
        refine ⟨.pass, st1, ?_, hq, hask hc, .inl ⟨rfl, ⟨hc, fun u hu => (hmiss u hu).2.1⟩,
          fun u hu => ⟨(hmiss u hu).1, (hmiss u hu).2.2⟩⟩⟩
        simp [tierStep, hc, he, herr]
      · have hstep : tierStep net name mergeTier validators (tier, group) st =
            (.stop (.error (tierFailed tier st1.tierErrors)), st1) := by
          simp [tierStep, hc, he, herr]
        refine ⟨_, st1, hstep, hq, hask hc, .inr ⟨?_, .inl ⟨_, rfl⟩⟩⟩
        intro habs
        exact herr (hall habs.2).2
    · have hstep : tierStep net name mergeTier validators (tier, group) st =
          (.stop (.ok (some (tierResult mergeTier tier st1.responseValidators first rest))),
            st1) := by
        simp [tierStep, hc, he]
      refine ⟨_, st1, hstep, hq, hask hc, .inr ⟨?_, .inr ⟨_, first, rest, rfl, hfound⟩⟩⟩
      intro habs
      have := (hall habs.2).1
      cases this

end Step

end Minireg
