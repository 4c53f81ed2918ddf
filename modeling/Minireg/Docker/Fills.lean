import Minireg.Services.Fills

/-!
# Blob fills

`fill_and_stream`, `_open_fill` and `_run_fill` of the image store, as `Services.Fills` has those of
the package store. Two awaits are other ones here: a partial file that cannot be created is not
caught, and the source is closed in the outer `finally`, where a cancellation cuts short what comes
after it.
-/

namespace Minireg.Docker.OciStore

open Lib.SingleFlight Artifacts

/-- Whether `ensure_dirs` and `hex_of` return before the opening is registered. -/
inductive OpenBlobReply where
  | begun (returns : Bool)
  /-- Whether the lease was acquired, and whether the blob is there then. -/
  | acquired (got present : Bool)
  | returned
  /-- The upstream stream is open, and whether the partial file could be created. -/
  | source (touched : Bool)
  | failed
  | cancelled
  deriving DecidableEq

/-- The awaits of `_open_fill`. -/
inductive OpenBlob where
  | leasing
  /-- `opener()` -/
  | fetching
  /-- `lease.release()`: of a blob that is present, or of an exception that is raised again -/
  | releasing (present : Bool)
  deriving DecidableEq

/-- The awaits of `_run_fill`. -/
inductive RunBlob where
  | created
  | filling
  /-- `on_complete(...)`, of a blob that is in its place -/
  | completing
  /-- `source.aclose()` -/
  | closing (failed : Bool)
  deriving DecidableEq

def openFill : OpenBlob → OpenBlobReply → Option (Opening OpenBlob RunBlob NoFill)
  | .leasing, .acquired false _ => some (.returns .peer)
  | .leasing, .acquired true true => some (.awaits (.releasing true))
  | .leasing, .acquired true false => some (.awaits .fetching)
  | .leasing, .failed | .leasing, .cancelled => some (.raises false)
  | .fetching, .source true => some (.registers .created)
  -- nobody closes the source
  | .fetching, .source false => some (.raises true)
  | .fetching, .failed | .fetching, .cancelled => some (.awaits (.releasing false))
  | .releasing true, .returned => some (.returns .cached)
  | .releasing true, .failed | .releasing true, .cancelled => some (.raises false)
  | .releasing false, .returned | .releasing false, .failed | .releasing false, .cancelled =>
    some (.raises false)
  | _, _ => none

/-- `_run_fill`. A task that is cancelled before it has run does nothing at all. -/
def runFill : RunBlob → RunReply → Option (Running RunBlob)
  | .created, ⟨.returned, _⟩ => some (.awaits .filling)
  | .created, ⟨.cancelled, _⟩ => some (.ends true)
  | .filling, ⟨.progressed, _⟩ => some (.awaits .filling)
  | .filling, ⟨.returned, _⟩ => some (.awaits .completing)
  | .filling, ⟨.failed, _⟩ | .filling, ⟨.cancelled, _⟩ => some (.awaits (.closing true))
  -- an exception of `on_complete` is suppressed
  | .completing, ⟨.returned, _⟩ | .completing, ⟨.failed, _⟩ => some (.awaits (.closing false))
  | .completing, ⟨.cancelled, _⟩ => some (.awaits (.closing true))
  | .closing failed, ⟨.returned, unlinks⟩ | .closing failed, ⟨.failed, unlinks⟩ =>
    some (if failed && !unlinks then .ends false else .leaves)
  | .closing _, ⟨.cancelled, _⟩ => some (.ends false)
  | _, _ => none

/-- `self._fills.pop(fill.digest, None)`. -/
def dropFill (_self : Nat) (_registered : Option Nat) : Option Nat := none

/-- `fill_and_stream` of a blob that is not there, and `_run_fill`. -/
def fillProgram : Program OpenBlob RunBlob OpenBlobReply RunReply NoFill where
  first r := if r = .begun false then none else some .leasing
  opens := openFill
  runs := runFill
  deregister := dropFill

/-- `_fills` and `_opening` by digest, and the calls and tasks of a process. -/
abbrev Fills := Flights String OpenBlob RunBlob NoFill

def fills : Lib.System Fills (Act String OpenBlobReply RunReply) := fillProgram.flights String

/-- No fill is cancelled before it has run or while it closes its source, every `unlink` of a
partial file returns, and every partial file can be created. -/
def Cleans (f : Fills) (a : Act String OpenBlobReply RunReply) : Prop :=
  (∀ i, a ≠ .turn i (.source false)) ∧
    ∀ i s, a = .run i s → s.unlinks = true ∧
      ∀ c, f.calls i = some c → c.task = .flying .created ∨ (∃ b, c.task = .flying (.closing b)) →
        s.event ≠ .cancelled

theorem openFill_tight (o : OpenBlob) {r : OpenBlobReply} (hr : r ≠ .source false) :
    openFill o r ≠ some (.raises true) := by
  unfold openFill
  split <;> simp_all

theorem runFill_leaves {t : RunBlob} {s : RunReply} (hunlinks : s.unlinks = true)
    (hstarts : t = .created ∨ (∃ b, t = .closing b) → s.event ≠ .cancelled) (leaks : Bool) :
    runFill t s ≠ some (.ends leaks) := by
  unfold runFill
  split
  all_goals first
    | exact absurd rfl (hstarts (.inl rfl))
    | exact absurd rfl (hstarts (.inr ⟨_, rfl⟩))
    | (obtain rfl : _ = true := hunlinks; simp)
    | simp

theorem Cleans.tidy {f : Fills} {a : Act String OpenBlobReply RunReply} (h : Cleans f a) :
    fillProgram.Tidy f a := by
  refine fun i c hc => ⟨fun r o ha _ => ?_, fun s t ha ht leaks => ?_⟩
  · exact openFill_tight o fun hr => h.1 i (hr ▸ ha)
  · obtain ⟨hunlinks, hstarts⟩ := h.2 i s ha
    refine runFill_leaves hunlinks (fun hcut => hstarts c hc ?_) leaks
    rcases hcut with rfl | ⟨b, rfl⟩
    · exact .inl ht
    · exact .inr ⟨b, ht⟩

/-- **One fill of a file and one of a blob at a time**, in every run of clean steps. -/
theorem single_flight {files : Artifacts.Fills} {blobs : Fills}
    (hfiles : Artifacts.fills.Reach Artifacts.Cleans files) (hblobs : fills.Reach Cleans blobs) :
    files.Single Artifacts.fillProgram ∧ blobs.Single fillProgram := by
  refine ⟨fills_single hfiles, ?_⟩
  exact Flights.single_of_reach (fun _ => rfl) (hblobs.mono fun _ _ hcleans => hcleans.tidy)

/-- A file that is opened from its upstream. -/
def opensFile : List (Act Nat OpenReply RunReply) :=
  [.turn 0 (.acquired true), .turn 0 (.refreshed (.sourced true)), .turn 0 (.found true),
   .turn 0 .returned, .turn 0 .returned, .turn 0 (.response true true)]

/-- Two calls ask for a file, one of them opens it and the fill ends. -/
def sharedFill : List (Act Nat OpenReply RunReply) :=
  [.call 0 7 .returned, .call 1 7 .returned] ++ opensFile ++
    [.turn 1 .returned, .run 0 { event := .returned }, .run 0 { event := .returned },
     .run 0 { event := .returned }, .run 0 { event := .returned }]

theorem sharedFill_cleans : ∀ a ∈ sharedFill, ∀ f, Artifacts.Cleans f a := by
  intro a ha f i s hrun
  subst hrun
  have hrun : i = 0 ∧ s = { event := .returned } := by
    simpa [sharedFill, opensFile] using ha
  obtain ⟨-, rfl⟩ := hrun
  exact ⟨rfl, fun _ _ _ => by decide⟩

theorem single_flight_shared : ∃ files : Artifacts.Fills, files.Single Artifacts.fillProgram ∧
    files.registered 7 = none ∧
    files.calls 1 = some ⟨7, .returned (.flight 0), .pending, .absent, false⟩ := by
  have hrun : ∃ files, sharedFill.foldlM Artifacts.fillProgram.step {} = some files ∧
      files.registered 7 = none ∧
      files.calls 1 = some ⟨7, .returned (.flight 0), .pending, .absent, false⟩ := ⟨_, rfl, rfl, rfl⟩
  obtain ⟨files, hexec, hregistered, hjoined⟩ := hrun
  have hreach : Artifacts.fills.Reach Artifacts.Cleans files :=
    Lib.System.Reach.exec_mem (fun a ha f f' hstep => ⟨sharedFill_cleans a ha f, hstep⟩)
      (.init rfl) hexec
  exact ⟨files, (single_flight hreach (.init rfl)).1, hregistered, hjoined⟩

/-- The partial file of a blob cannot be created, and the next call opens the upstream again. -/
def openedTwice : List (Act String OpenBlobReply RunReply) :=
  [.call 0 "sha256:d" (.begun true), .call 1 "sha256:d" (.begun true),
   .turn 0 (.acquired true false), .turn 0 (.source false),
   .turn 1 (.begun true), .turn 1 (.acquired true false)]

/-- The partial file of a download that failed cannot be removed. -/
def endedFill : List (Act Nat OpenReply RunReply) :=
  .call 0 7 .returned :: opensFile ++
    [.run 0 { event := .returned }, .run 0 { event := .failed },
     .run 0 { event := .returned, unlinks := false }, .call 1 7 .returned]

theorem two_flights :
    (∃ blobs, fills.Reach (fun _ _ => True) blobs ∧
      blobs.calls 0 = some ⟨"sha256:d", .raised, .raised, .absent, true⟩ ∧
      blobs.calls 1 = some ⟨"sha256:d", .opens .fetching, .pending, .absent, false⟩ ∧
      ¬ blobs.Single fillProgram) ∧
    ∃ files, Artifacts.fills.Reach (fun _ _ => True) files ∧ files.registered 7 = some 0 ∧
      files.calls 0 = some ⟨7, .returned (.flight 0), .result (.flight 0), .over, false⟩ ∧
      files.calls 1 = some ⟨7, .returned (.flight 0), .pending, .absent, false⟩ := by
  constructor
  · have hrun : ∃ blobs, openedTwice.foldlM fillProgram.step {} = some blobs ∧
        blobs.calls 0 = some ⟨"sha256:d", .raised, .raised, .absent, true⟩ ∧
        blobs.calls 1 = some ⟨"sha256:d", .opens .fetching, .pending, .absent, false⟩ :=
      ⟨_, rfl, rfl, rfl⟩
    obtain ⟨blobs, hexec, hleaked, hfetching⟩ := hrun
    refine ⟨blobs, Lib.System.Reach.exec (fun f a f' hstep => ⟨trivial, hstep⟩) (.init rfl) hexec,
      hleaked, hfetching, fun hsingle => ?_⟩
    have hopens : blobs.openers 1 = some "sha256:d" := by
      unfold Flights.openers
      rw [hfetching]
      rfl
    have hsame := hsingle.alone "sha256:d" 0 1 (.inr (.inr ⟨_, hleaked, rfl, rfl⟩)) (.inl hopens)
    cases hsame
  · have hrun : ∃ files, endedFill.foldlM Artifacts.fillProgram.step {} = some files ∧
        files.registered 7 = some 0 ∧
        files.calls 0 = some ⟨7, .returned (.flight 0), .result (.flight 0), .over, false⟩ ∧
        files.calls 1 = some ⟨7, .returned (.flight 0), .pending, .absent, false⟩ :=
      ⟨_, rfl, rfl, rfl, rfl⟩
    obtain ⟨files, hexec, hends⟩ := hrun
    exact ⟨files, Lib.System.Reach.exec (fun f a f' hstep => ⟨trivial, hstep⟩) (.init rfl) hexec,
      hends⟩

end Minireg.Docker.OciStore
