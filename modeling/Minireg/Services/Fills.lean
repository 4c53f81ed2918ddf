import Minireg.Lib.SingleFlight

/-!
# Fills

`_start_or_join` and `_run_fill` of the package store, from one await to the next: one call asks
for a file that is not cached, and a fill is the download that it joins or opens. What the database,
the lease, the upstream and the disk do is what the awaits are told. A fill is taken out of `_fills`
before `finish` and the release of its lease, which touch nothing that another call looks at.
-/

namespace Minireg.Artifacts

open Lib.SingleFlight

/-- Why a call needs no fill. -/
inductive NoFill where
  /-- `"peer"`: another replica holds the download. -/
  | peer
  | cached
  deriving DecidableEq

/-- The awaits of `_open_fill`. -/
inductive OpenFill where
  /-- `lease.acquire()` -/
  | leasing
  /-- `session.refresh(file_row)` -/
  | refreshing
  /-- `_end_transaction(session)`, of a file that is cached or of one that is not -/
  | committing (cached : Bool)
  /-- `lease.release()`: of a file that is cached, or of an exception that is raised again -/
  | releasing (cached : Bool)
  /-- `session.get(Upstream, file_row.upstream_id)` -/
  | finding
  /-- `_make_room(...)` -/
  | makingRoom
  /-- `_open_upstream(...)`, under the deadline -/
  | fetching
  /-- `response.aclose()` of a response that is refused -/
  | closing
  deriving DecidableEq

/-- What the row says after its refresh. -/
inductive RowState where
  | cached
  /-- No upstream URL. -/
  | unsourced
  | sourced (hasUpstream : Bool)
  deriving DecidableEq

/-- How an await of `_open_fill` ends. -/
inductive OpenReply where
  | acquired (got : Bool)
  | refreshed (row : RowState)
  /-- The upstream is there and enabled, or not. -/
  | found (usable : Bool)
  | returned
  /-- The response's length is within the limit, and the partial file could be created. -/
  | response (fits touched : Bool)
  | failed
  | cancelled
  deriving DecidableEq

/-- The awaits of `_run_fill`. -/
inductive RunFill where
  /-- The task has not run yet. -/
  | created
  /-- Anything up to the last chunk and the `fsync`. -/
  | filling
  /-- `response.aclose()`, after an exception or not -/
  | closing (failed : Bool)
  /-- The verification, `adopt` and `_record`. -/
  | recording
  deriving DecidableEq

inductive RunEvent where
  | returned
  /-- Another chunk was written. -/
  | progressed
  | failed
  | cancelled
  deriving DecidableEq

/-- How an await of `_run_fill` ends, and whether the partial file can be removed if that has to
be done next. -/
structure RunReply where
  event : RunEvent
  unlinks : Bool := true
  deriving DecidableEq

/-- `_open_fill`, with what `_start_or_join` makes of its end. -/
def openFill : OpenFill → OpenReply → Option (Opening OpenFill RunFill NoFill)
  | .leasing, .acquired true => some (.awaits .refreshing)
  | .leasing, .acquired false => some (.returns .peer)
  | .leasing, .failed | .leasing, .cancelled => some (.raises false)
  | .refreshing, .refreshed .cached => some (.awaits (.committing true))
  | .refreshing, .refreshed .unsourced => some (.awaits (.releasing false))
  | .refreshing, .refreshed (.sourced true) => some (.awaits .finding)
  | .refreshing, .refreshed (.sourced false) => some (.awaits (.committing false))
  | .finding, .found true => some (.awaits (.committing false))
  | .finding, .found false => some (.awaits (.releasing false))
  | .committing true, .returned => some (.awaits (.releasing true))
  | .committing false, .returned => some (.awaits .makingRoom)
  | .releasing true, .returned => some (.returns .cached)
  | .makingRoom, .returned => some (.awaits .fetching)
  | .fetching, .response true true => some (.registers .created)
  | .fetching, .response _ _ => some (.awaits .closing)
  | .closing, .returned => some (.awaits (.releasing false))
  -- the lease is released, and the exception raised again
  | .releasing false, .returned | .releasing false, .failed | .releasing false, .cancelled =>
    some (.raises false)
  | .refreshing, .failed | .refreshing, .cancelled | .finding, .failed | .finding, .cancelled
  | .committing _, .failed | .committing _, .cancelled
  | .releasing true, .failed | .releasing true, .cancelled
  | .makingRoom, .failed | .makingRoom, .cancelled | .fetching, .failed | .fetching, .cancelled
  | .closing, .failed | .closing, .cancelled => some (.awaits (.releasing false))
  | _, _ => none

/-- The `finally` of `_run_fill` after an exception: the fill stays where `unlink` raises. -/
def cleanUp (unlinks : Bool) : Running RunFill := if unlinks then .leaves else .ends false

/-- `_run_fill`. A task that is cancelled before it has run does nothing at all. -/
def runFill : RunFill → RunReply → Option (Running RunFill)
  | .created, ⟨.returned, _⟩ => some (.awaits .filling)
  | .created, ⟨.cancelled, _⟩ => some (.ends true)
  | .filling, ⟨.progressed, _⟩ => some (.awaits .filling)
  | .filling, ⟨.returned, _⟩ => some (.awaits (.closing false))
  | .filling, ⟨.failed, _⟩ | .filling, ⟨.cancelled, _⟩ => some (.awaits (.closing true))
  -- an exception of `aclose` is suppressed, a cancellation is not
  | .closing false, ⟨.returned, _⟩ | .closing false, ⟨.failed, _⟩ => some (.awaits .recording)
  | .closing true, ⟨.returned, unlinks⟩ | .closing true, ⟨.failed, unlinks⟩
  | .closing _, ⟨.cancelled, unlinks⟩ => some (cleanUp unlinks)
  | .recording, ⟨.progressed, _⟩ => some (.awaits .recording)
  | .recording, ⟨.returned, _⟩ => some .leaves
  | .recording, ⟨.failed, unlinks⟩ | .recording, ⟨.cancelled, unlinks⟩ => some (cleanUp unlinks)
  | _, _ => none

/-- `if _fills.get(fill.key) is fill: del _fills[fill.key]`. -/
def dropFill (self : Nat) (registered : Option Nat) : Option Nat :=
  if registered = some self then none else registered

/-- `_start_or_join` and `_run_fill`. -/
def fillProgram : Program OpenFill RunFill OpenReply RunReply NoFill where
  first _ := some .leasing
  opens := openFill
  runs := runFill
  deregister := dropFill

/-- `_fills` and `_opening` by file id, and the calls and tasks of a process. -/
abbrev Fills := Flights Nat OpenFill RunFill NoFill

def fills : Lib.System Fills (Act Nat OpenReply RunReply) := fillProgram.flights Nat

/-- No fill is cancelled before it has run, and every `unlink` of a partial file returns. -/
def Cleans (f : Fills) (a : Act Nat OpenReply RunReply) : Prop :=
  ∀ i s, a = .run i s → s.unlinks = true ∧
    ∀ c, f.calls i = some c → c.task = .flying .created → s.event ≠ .cancelled

theorem openFill_tight (o : OpenFill) (r : OpenReply) : openFill o r ≠ some (.raises true) := by
  unfold openFill
  split <;> simp

theorem runFill_leaves {t : RunFill} {s : RunReply} (hunlinks : s.unlinks = true)
    (hstarts : t = .created → s.event ≠ .cancelled) (leaks : Bool) :
    runFill t s ≠ some (.ends leaks) := by
  unfold runFill
  split
  all_goals first
    | exact absurd rfl (hstarts rfl)
    | (obtain rfl : _ = true := hunlinks; simp [cleanUp])
    | simp

theorem Cleans.tidy {f : Fills} {a : Act Nat OpenReply RunReply} (h : Cleans f a) :
    fillProgram.Tidy f a := by
  refine fun i c hc => ⟨fun r o _ _ => openFill_tight o r, fun s t ha ht leaks => ?_⟩
  obtain ⟨hunlinks, hstarts⟩ := h i s ha
  exact runFill_leaves hunlinks (fun hcreated => hstarts c hc (hcreated ▸ ht)) leaks

theorem dropFill_self (i : Nat) : dropFill i (some i) = none := if_pos rfl

/-- **One fill of a file at a time.** -/
theorem fills_single {f : Fills} (h : fills.Reach Cleans f) : f.Single fillProgram :=
  Flights.single_of_reach dropFill_self (h.mono fun _ _ hcleans => hcleans.tidy)

end Minireg.Artifacts
