import Minireg.Docker.Fills

/-!
# What an opening of a blob fill holds

`_start_fill` and `_open_fill` take the lease of a blob, open the upstream, create the partial file
and then start the fill. An `Attempt` is one such opening with what it has taken so far; an event is
what it is told at an await, where the shared cache may execute a command whose answer never comes,
or what becomes of the key of the lease meanwhile.
-/

namespace Minireg.Docker.OciStore

open Lib.SingleFlight Artifacts

/-! ## The lease -/

/-- The key of a lease, in the shared cache. -/
inductive Key where
  | free
  | ours
  | theirs
  deriving DecidableEq

/-- What becomes of a command: `redis_client()` may be `None`, and a command that fails or is
cancelled may have been executed. -/
inductive CacheReply where
  | absent
  | answered
  | failed (executed : Bool)
  | cancelled (executed : Bool)
  deriving DecidableEq

def CacheReply.executed : CacheReply → Bool
  | .absent => false
  | .answered => true
  | .failed executed | .cancelled executed => executed

def CacheReply.raises : CacheReply → Bool
  | .cancelled _ => true
  | _ => false

/-- `client.set(self.key, self.token, nx=True, ex=LEASE_SECONDS)`. -/
def setKey (key : Key) (reply : CacheReply) : Key :=
  if key = .free ∧ reply.executed then .ours else key

/-- `_RELEASE`, which deletes the key of our token. -/
def deleteKey (key : Key) (reply : CacheReply) : Key :=
  if key = .ours ∧ reply.executed then .free else key

/-- Whether `_Lease.acquire` is given the lease, where it does not raise: also without an answer. -/
def acquires (key : Key) (reply : CacheReply) : Bool :=
  match reply with
  | .answered => key = .free
  | _ => true

/-! ## The opening -/

/-- How `_start_fill` ends. -/
inductive Exit where
  | started
  | peer
  | cached
  | raised
  deriving DecidableEq

inductive Stage where
  | entering
  | awaiting (o : OpenBlob)
  | exited (e : Exit)
  deriving DecidableEq

structure Attempt where
  stage : Stage := .entering
  key : Key := .free
  /-- `lease.held` -/
  held : Bool := false
  /-- The upstream response is open. -/
  source : Bool := false
  /-- `digest in self._fills` -/
  registered : Bool := false
  /-- `digest in self._opening` -/
  opening : Bool := false
  deriving DecidableEq

inductive OpenEvent where
  /-- The lease lapses, or another replica takes or releases it. -/
  | elapsed (key : Key)
  /-- Whether `ensure_dirs` and `hex_of` return. -/
  | entered (returns : Bool)
  /-- `lease.acquire()`, and what `self.exists(digest)` says or that it raises. -/
  | acquired (reply : CacheReply) (present : Option Bool)
  /-- `opener()` returns, and whether `fill.path.touch()` does. -/
  | opened (touched : Bool)
  /-- `opener()` raises, or is cancelled. -/
  | refused
  | released (reply : CacheReply)
  deriving DecidableEq

namespace Attempt

/-- The `finally` of `_start_fill`. -/
def leave (a : Attempt) (e : Exit) : Attempt := { a with stage := .exited e, opening := false }

/-- What follows `lease.acquire()`. -/
def checkAgain (a : Attempt) (present : Option Bool) : Attempt :=
  match present with
  | none => a.leave .raised
  | some true => { a with stage := .awaiting (.releasing true) }
  | some false => { a with stage := .awaiting .fetching }

def acquire (a : Attempt) (reply : CacheReply) (present : Option Bool) : Attempt :=
  let next := { a with key := setKey a.key reply }
  if reply.raises then next.leave .raised
  else if acquires a.key reply then { next with held := true }.checkAgain present
  else next.leave .peer

/-- `lease.release()`, of a blob that is present or before an exception is raised again. -/
def release (a : Attempt) (present : Bool) (reply : CacheReply) : Attempt :=
  let next :=
    if a.held then
      { a with
        key := deleteKey a.key reply
        held := decide (reply.raises = true ∨ reply = CacheReply.absent) }
    else a
  next.leave (if present ∧ !reply.raises then .cached else .raised)

def step (a : Attempt) (event : OpenEvent) : Option Attempt :=
  match a.stage, event with
  | .exited _, _ => none
  | _, .elapsed key => if key = .ours then none else some { a with key := key }
  | .entering, .entered returns =>
    some (if returns then { a with stage := .awaiting .leasing, opening := true }
      else a.leave .raised)
  | .awaiting .leasing, .acquired reply present => some (a.acquire reply present)
  | .awaiting .fetching, .opened touched =>
    some (if touched then { a with source := true, registered := true }.leave .started
      else { a with source := true }.leave .raised)
  | .awaiting .fetching, .refused => some { a with stage := .awaiting (.releasing false) }
  | .awaiting (.releasing present), .released reply => some (a.release present reply)
  | _, _ => none

/-- Nothing of an opening is left. -/
structure NothingLeft (a : Attempt) : Prop where
  key : a.key ≠ .ours
  source : a.source = false
  registered : a.registered = false
  opening : a.opening = false

/-- The partial file is created, and each command that takes the lease or gives it back is executed
and its caller told so. -/
def Clean (a : Attempt) : OpenEvent → Prop
  | .acquired reply present =>
    a.key = .free → reply.executed = true → reply.raises = false ∧ present ≠ none
  | .opened touched => touched = true
  | .released reply => a.key = .ours → reply.executed = true
  | _ => True

/-- Every step of a run is clean. -/
def CleanRun : Attempt → List OpenEvent → Prop
  | _, [] => True
  | a, event :: events => a.Clean event ∧ ∀ next, a.step event = some next → next.CleanRun events

/-- What an opening holds while it lasts: at most the lease, and that behind `lease.acquire()`. -/
structure Lasting (a : Attempt) : Prop where
  stage : ∀ e, a.stage ≠ .exited e
  leased : a.key = .ours → ∃ o, a.stage = .awaiting o ∧ o ≠ .leasing
  held : ∀ o, a.stage = .awaiting o → o ≠ .leasing → a.held = true
  source : a.source = false
  registered : a.registered = false

/-- An opening that has not begun. -/
structure Fresh (a : Attempt) : Prop where
  stage : a.stage = .entering
  key : a.key ≠ .ours
  source : a.source = false
  registered : a.registered = false

variable {a next : Attempt} {event : OpenEvent}

theorem Fresh.lasting (h : a.Fresh) : a.Lasting where
  stage e he := by
    rw [h.stage] at he
    cases he
  leased hkey := absurd hkey h.key
  held o ho := by
    rw [h.stage] at ho
    cases ho
  source := h.source
  registered := h.registered

/-- What is left of an opening that is left without its source and its entry. -/
theorem nothingLeft_leave {e : Exit} (hsource : a.source = false)
    (hregistered : a.registered = false) : (a.leave e).NothingLeft ↔ a.key ≠ .ours :=
  ⟨fun h => h.key, fun h => ⟨h, hsource, hregistered, rfl⟩⟩

/-- What a step comes to: the opening goes on with what it may hold, or it is over and has left
nothing exactly where the step is clean. -/
def StepEnds (a : Attempt) (event : OpenEvent) (next : Attempt) : Prop :=
  (next.Lasting ∧ a.Clean event) ∨
    ∃ e, next.stage = .exited e ∧ (e = .started ∧ a.Clean event ∨
      e ≠ .started ∧ (next.NothingLeft ↔ a.Clean event))

/-- The lease is taken, where the key is free and the command executed. -/
theorem setKey_eq_ours (hkey : a.key ≠ .ours) (reply : CacheReply) :
    setKey a.key reply = .ours ↔ a.key = .free ∧ reply.executed = true := by
  unfold setKey
  split
  · next h => exact ⟨fun _ => h, fun _ => rfl⟩
  · next h => exact ⟨fun heq => absurd heq hkey, fun hset => absurd hset h⟩

/-- An opening goes on, with the lease. -/
theorem lasting_awaiting {o : OpenBlob} (hne : o ≠ .leasing) (hstage : a.stage = .awaiting o)
    (hheld : a.held = true) (hsource : a.source = false) (hregistered : a.registered = false) :
    a.Lasting where
  stage e he := by
    rw [hstage] at he
    cases he
  leased _ := ⟨o, hstage, hne⟩
  held _ _ _ := hheld
  source := hsource
  registered := hregistered

theorem Lasting.stepEnds_enter (h : a.Lasting) (hstage : a.stage = .entering) (returns : Bool) :
    a.StepEnds (.entered returns)
      (if returns then { a with stage := .awaiting .leasing, opening := true }
        else a.leave .raised) := by
  have hkey : a.key ≠ .ours := by
    intro hours
    obtain ⟨o, ho, -⟩ := h.leased hours
    rw [hstage] at ho
    cases ho
  cases returns with
  | true =>
    refine .inl ⟨⟨?_, fun hours => absurd hours hkey, ?_, h.source, h.registered⟩, trivial⟩
    · rintro e ⟨⟩
    · rintro o ⟨⟩ hne
      exact absurd rfl hne
  | false =>
    refine .inr ⟨.raised, rfl, .inr ⟨by decide, ?_⟩⟩
    exact iff_of_true ((nothingLeft_leave h.source h.registered).mpr hkey) trivial

theorem Lasting.stepEnds_acquire (h : a.Lasting) (hstage : a.stage = .awaiting .leasing)
    (reply : CacheReply) (present : Option Bool) :
    a.StepEnds (.acquired reply present) (a.acquire reply present) := by
  have hkey : a.key ≠ .ours := by
    intro hours
    obtain ⟨o, ho, hne⟩ := h.leased hours
    rw [hstage] at ho
    cases ho
    exact hne rfl
  have hset := setKey_eq_ours hkey reply
  have hclean : a.Clean (.acquired reply present) ↔
      (setKey a.key reply = .ours → reply.raises = false ∧ present ≠ none) := by
    rw [hset, and_imp]
    rfl
  unfold Attempt.acquire
  dsimp only
  split
  · next hraises =>
    -- cancelled: the key is ours where the command was executed
    refine .inr ⟨.raised, rfl, .inr ⟨by decide, ?_⟩⟩
    refine (nothingLeft_leave ?_ ?_).trans ?_
    · exact h.source
    · exact h.registered
    rw [hclean, hraises]
    simp
  · next hraises =>
    split
    · next hacquires =>
      cases present with
      | none =>
        refine .inr ⟨.raised, rfl, .inr ⟨by decide, ?_⟩⟩
        refine (nothingLeft_leave ?_ ?_).trans ?_
        · exact h.source
        · exact h.registered
        rw [hclean]
        simp
      | some present =>
        have hclean : a.Clean (.acquired reply (some present)) :=
          hclean.mpr fun _ => ⟨Bool.eq_false_iff.mpr hraises, Option.some_ne_none _⟩
        cases present with
        | true => exact .inl ⟨lasting_awaiting (by decide) rfl rfl h.source h.registered, hclean⟩
        | false => exact .inl ⟨lasting_awaiting (by decide) rfl rfl h.source h.registered, hclean⟩
    · next hacquires =>
      -- the key is another replica's
      have hother : setKey a.key reply ≠ .ours := by
        rw [Ne, hset]
        rintro ⟨hfree, -⟩
        unfold acquires at hacquires
        split at hacquires
        · exact hacquires (decide_eq_true hfree)
        · exact hacquires rfl
      refine .inr ⟨.peer, rfl, .inr ⟨by decide, ?_⟩⟩
      refine (nothingLeft_leave ?_ ?_).trans ?_
      · exact h.source
      · exact h.registered
      rw [hclean]
      exact iff_of_true hother fun hours => absurd hours hother

theorem Lasting.stepEnds_release {present : Bool} (h : a.Lasting)
    (hstage : a.stage = .awaiting (.releasing present)) (reply : CacheReply) :
    a.StepEnds (.released reply) (a.release present reply) := by
  have hheld := h.held _ hstage (by rintro ⟨⟩)
  have hdeleted : deleteKey a.key reply ≠ .ours ↔ a.Clean (.released reply) := by
    unfold deleteKey Clean
    split
    · next hdeletes => exact iff_of_true (by decide) fun _ => hdeletes.2
    · next hdeletes =>
      exact ⟨fun hne hours => absurd hours hne, fun hclean hours => hdeletes ⟨hours, hclean hours⟩⟩
  unfold Attempt.release
  rw [hheld, if_pos rfl]
  dsimp only
  refine .inr ⟨_, rfl, .inr ⟨?_, ?_⟩⟩
  · split <;> decide
  · refine (nothingLeft_leave ?_ ?_).trans hdeleted
    · exact h.source
    · exact h.registered

/-- One step of an opening. -/
theorem Lasting.stepEnds (h : a.Lasting) (hstep : a.step event = some next) :
    a.StepEnds event next := by
  unfold step at hstep
  split at hstep
  · cases hstep
  · next key hexited =>
    split at hstep
    · cases hstep
    · next hother =>
      obtain rfl := Option.some.inj hstep
      exact .inl ⟨⟨h.stage, fun hours => absurd hours hother, h.held, h.source, h.registered⟩,
        trivial⟩
  · next returns hentering =>
    obtain rfl := Option.some.inj hstep
    exact h.stepEnds_enter hentering returns
  · next reply present hleasing =>
    obtain rfl := Option.some.inj hstep
    exact h.stepEnds_acquire hleasing reply present
  · next touched hfetching =>
    obtain rfl := Option.some.inj hstep
    cases touched with
    | true => exact .inr ⟨.started, rfl, .inl ⟨rfl, rfl⟩⟩
    | false =>
      -- the lease is not released either, but the source decides
      refine .inr ⟨.raised, rfl, .inr ⟨by decide, iff_of_false ?_ (by rintro ⟨⟩)⟩⟩
      intro hnothing
      cases hnothing.source
  · next hfetching =>
    obtain rfl := Option.some.inj hstep
    exact .inl ⟨lasting_awaiting (by rintro ⟨⟩) rfl (h.held _ hfetching (by decide)) h.source
      h.registered, trivial⟩
  · next present reply hreleasing =>
    obtain rfl := Option.some.inj hstep
    exact h.stepEnds_release hreleasing reply
  · cases hstep

/-- An opening that is over takes no step. -/
theorem step_exited {e : Exit} (h : a.stage = .exited e) (event : OpenEvent) :
    a.step event = none := by
  unfold step
  rw [h]

theorem cleanRun_exited {e : Exit} {events : List OpenEvent} (h : a.stage = .exited e)
    (hrun : events.foldlM step a = some next) : next = a ∧ events = [] := by
  cases events with
  | nil => exact ⟨(Option.some.inj hrun).symm, rfl⟩
  | cons event events =>
    rw [List.foldlM_cons, step_exited h] at hrun
    cases hrun

/-- A run of an opening that does not start the fill leaves nothing exactly where each step of it
is clean. -/
theorem Lasting.run {events : List OpenEvent} (h : a.Lasting)
    (hrun : events.foldlM step a = some next) {e : Exit} (hexit : next.stage = .exited e)
    (hstarted : e ≠ .started) : next.NothingLeft ↔ a.CleanRun events := by
  induction events generalizing a with
  | nil =>
    obtain rfl := Option.some.inj hrun
    exact absurd hexit (h.stage e)
  | cons event events ih =>
    rw [List.foldlM_cons] at hrun
    obtain ⟨mid, hstep, hrest⟩ := Option.bind_eq_some_iff.mp hrun
    have hcleanRun : a.CleanRun (event :: events) ↔ a.Clean event ∧ mid.CleanRun events := by
      constructor
      · exact fun hall => ⟨hall.1, hall.2 mid hstep⟩
      · rintro ⟨hclean, hmid⟩
        exact ⟨hclean, fun next hnext => Option.some.inj (hstep.symm.trans hnext) ▸ hmid⟩
    rw [hcleanRun]
    rcases h.stepEnds hstep with ⟨hlasting, hclean⟩ | ⟨exit, hmid, hends⟩
    · rw [ih hlasting hrest, and_iff_right hclean]
    · obtain ⟨rfl, rfl⟩ := cleanRun_exited hmid hrest
      obtain rfl : exit = e := by
        rw [hmid] at hexit
        cases hexit
        rfl
      rcases hends with ⟨rfl, -⟩ | ⟨-, hiff⟩
      · exact absurd rfl hstarted
      · rw [hiff]
        exact (and_iff_left trivial).symm

end Attempt

open Attempt

/-- **An opening that starts no fill leaves nothing**, neither the lease nor the response nor an
entry, exactly where each step of its run is clean. -/
theorem openFill_leaves_nothing_iff (a a' : Attempt) (hfresh : a.Fresh) (events : List OpenEvent)
    (hrun : events.foldlM Attempt.step a = some a') (e : Exit) (hexit : a'.stage = .exited e)
    (hstarted : e ≠ .started) : a'.NothingLeft ↔ a.CleanRun events :=
  hfresh.lasting.run hrun hexit hstarted

/-! ## Openings among calls -/

/-- What `openFill` is told of an event. -/
def Attempt.reply (a : Attempt) : OpenEvent → Option OpenBlobReply
  | .elapsed _ => none
  | .entered returns => some (.begun returns)
  | .acquired reply present =>
    some <|
      if reply.raises then .cancelled
      else if acquires a.key reply then
        match present with
        | none => .failed
        | some present => .acquired true present
      else .acquired false false
  | .opened touched => some (.source touched)
  | .refused => some .failed
  | .released reply => some (if reply.raises then .cancelled else .returned)

/-- What `openFill` says of a stage that was reached. -/
def Attempt.outcome (a : Attempt) : Option (Opening OpenBlob RunBlob NoFill) :=
  match a.stage with
  | .entering => none
  | .awaiting o => some (.awaits o)
  | .exited .started => some (.registers .created)
  | .exited .peer => some (.returns .peer)
  | .exited .cached => some (.returns .cached)
  | .exited .raised => some (.raises a.source)

theorem outcome_raised {a : Attempt} (h : a.source = false) :
    (a.leave .raised).outcome = some (.raises false) := congrArg (some <| Opening.raises ·) h

/-- An attempt goes as `openFill` says, and leaks there what it has open. -/
theorem Attempt.Lasting.openFill_eq {a next : Attempt} {event : OpenEvent} {o : OpenBlob}
    {r : OpenBlobReply} (h : a.Lasting) (hstage : a.stage = .awaiting o)
    (hr : a.reply event = some r) (hstep : a.step event = some next) :
    openFill o r = next.outcome := by
  unfold step at hstep
  rw [hstage] at hstep
  split at hstep
  · cases hstep
  · cases hr
  · next returns hentering => cases hentering
  · next reply present hleasing =>
    cases hleasing
    obtain rfl := Option.some.inj hstep
    obtain rfl := Option.some.inj hr
    unfold Attempt.acquire
    dsimp only
    split
    · exact (outcome_raised h.source).symm
    split
    · cases present with
      | none => exact (outcome_raised h.source).symm
      | some present => cases present <;> rfl
    · rfl
  · next touched hfetching =>
    cases hfetching
    obtain rfl := Option.some.inj hstep
    obtain rfl := Option.some.inj hr
    cases touched <;> rfl
  · next hfetching =>
    cases hfetching
    obtain rfl := Option.some.inj hstep
    obtain rfl := Option.some.inj hr
    rfl
  · next present reply hreleasing =>
    cases hreleasing
    obtain rfl := Option.some.inj hstep
    obtain rfl := Option.some.inj hr
    unfold Attempt.release
    rw [h.held _ hstage (by rintro ⟨⟩), if_pos rfl]
    dsimp only
    cases hraises : reply.raises with
    | true =>
      rw [if_pos rfl, if_neg (by simp)]
      refine Eq.trans ?_ (outcome_raised h.source).symm
      cases present <;> rfl
    | false =>
      cases present with
      | true => rfl
      | false => exact (outcome_raised h.source).symm
  · cases hstep

/-! ## A partial file that cannot be created -/

/-- The lease is taken and the upstream answers, and then the file cannot be created. -/
def untouched : List OpenEvent :=
  [.entered true, .acquired .answered (some false), .opened false]

/-- The lease and the response stay. -/
theorem untouched_left : ∃ a, untouched.foldlM Attempt.step {} = some a ∧
    a.stage = .exited .raised ∧ a.key = .ours ∧ a.source = true ∧ ¬ a.NothingLeft := by
  refine ⟨_, rfl, rfl, rfl, rfl, ?_⟩
  intro hnothing
  cases hnothing.source

/-- The upstream refuses, and the lease is released. -/
theorem refused_left : ∃ a, [OpenEvent.entered true, .acquired .answered (some false), .refused,
    .released .answered].foldlM Attempt.step {} = some a ∧
      (a.NothingLeft ↔ ({} : Attempt).CleanRun [.entered true, .acquired .answered (some false),
        .refused, .released .answered]) :=
  ⟨_, rfl, openFill_leaves_nothing_iff {} _ ⟨rfl, by decide, rfl, rfl⟩ _ rfl .raised rfl
    (by decide)⟩

end Minireg.Docker.OciStore
