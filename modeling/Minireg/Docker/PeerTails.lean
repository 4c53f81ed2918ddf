import Minireg.Lib.Run

/-!
# Following a peer's fill

Fills of a blob in other processes write one partial file on the shared volume and rename it into
place; `_tail_peer` sends that file to a client as it grows. Both see it by its path, and keep what
they have opened: a file that is unlinked, renamed or opened again for writing is still there for
those who have it open. A state is the volume with all fills and one follower.
-/

namespace Minireg.Docker.PeerTails

open Lib

/-! ## The volume -/

abbrev Bytes := List UInt8

/-- Files by their number, and the two paths of a blob. -/
structure Volume where
  files : List Bytes := []
  /-- `partial/<hex>` -/
  partialAt : Option Nat := none
  /-- `blobs/sha256/ab/<hex>` -/
  finalAt : Option Nat := none
  deriving DecidableEq

/-- Bytes written at an offset; what is skipped reads as zeros. -/
def writeAt (offset : Nat) (data content : Bytes) : Bytes :=
  content.take offset ++ List.replicate (offset - content.length) 0 ++ data ++
    content.drop (offset + data.length)

namespace Volume

variable (v : Volume)

def content (i : Nat) : Bytes := v.files[i]?.getD []

/-- `path.touch()`. -/
def touch : Volume :=
  match v.partialAt with
  | some _ => v
  | none => { v with files := v.files ++ [[]], partialAt := some v.files.length }

/-- The file that opening the partial path for writing gives. -/
def writable : Nat := v.partialAt.getD v.files.length

/-- `open(path, "wb")`, which empties a file that is there. -/
def truncate : Volume :=
  match v.partialAt with
  | some i => { v with files := v.files.set i [] }
  | none => v.touch

def write (i offset : Nat) (data : Bytes) : Volume :=
  { v with files := v.files.set i (writeAt offset data (v.content i)) }

/-- `path.unlink(missing_ok=True)`. -/
def unlink : Volume := { v with partialAt := none }

/-- `os.replace(partial, final)`, which may raise. -/
def rename : Option Volume :=
  v.partialAt.map fun i => { v with partialAt := none, finalAt := some i }

end Volume

/-! ## The fills -/

structure Env where
  /-- `"sha256:" + hasher.hexdigest()` -/
  sha256 : Bytes → String
  digest : String
  /-- `docker_max_blob_bytes` -/
  limit : Nat := 0
  chunkSize : Nat
  chunkSize_pos : 0 < chunkSize

/-- The awaits of `_open_fill` from `opener()` on, and those of `_run_fill`. -/
inductive FillPhase where
  /-- `opener()` -/
  | opening
  /-- The partial file is there, and the task has not run. -/
  | created
  /-- `aiofiles.open(fill.path, "wb")` -/
  | creating
  /-- `async for chunk in source` -/
  | fetching
  /-- `fh.write(chunk)` and `fh.flush()` -/
  | writing
  /-- `fill.advance(...)` and `lease.renew()` -/
  | advancing
  /-- `os.fsync`, and closing the file -/
  | syncing
  /-- An exception closes the file. -/
  | aborting
  | verifying
  /-- `on_complete(...)` -/
  | completing
  /-- `source.aclose()` -/
  | closing (failed : Bool)
  | ended
  deriving DecidableEq

structure Fill where
  phase : FillPhase := .opening
  expectedSize : Option Nat := none
  /-- What the hash has seen. -/
  received : Bytes := []
  file : Nat := 0
  /-- How much of it is in the file. -/
  flushed : Nat := 0
  deriving DecidableEq

inductive FillEvent where
  | returned
  | chunk (data : Bytes)
  | exhausted
  /-- `count` more bytes of what was written are in the file. -/
  | shown (count : Nat)
  | raised
  /-- The process or the task ends here. -/
  | died
  deriving DecidableEq

section Steps

variable (env : Env)

/-- The bytes that a flush puts into the file. -/
def Fill.shows (f : Fill) (count : Nat) : Bytes := (f.received.drop f.flushed).take count

def Fill.flush (f : Fill) (v : Volume) (count : Nat) : Volume :=
  v.write f.file f.flushed (f.shows count)

/-- The checks of `_run_fill`, of what was downloaded. -/
def Fill.verified (f : Fill) : Bool :=
  env.sha256 f.received = env.digest ∧ ∀ size ∈ f.expectedSize, f.received.length = size

/-- Whether a chunk goes past the limit, or what the manifest declared. -/
def Fill.exceeds (f : Fill) (data : Bytes) : Bool :=
  (env.limit ≠ 0 ∧ env.limit < f.received.length + data.length) ∨
    ∃ size ∈ f.expectedSize, size < f.received.length + data.length

/-- `_open_fill` from the opener on, and `_run_fill`. -/
def Fill.step (f : Fill) (v : Volume) (e : FillEvent) : Option (Volume × Fill) :=
  match f.phase, e with
  | .ended, _ => none
  | _, .died => some (v, { f with phase := .ended })
  | .opening, .returned => some (v.touch, { f with phase := .created })
  | .opening, .raised => some (v, { f with phase := .ended })
  | .created, .returned => some (v, { f with phase := .creating })
  | .creating, .returned =>
    some (v.truncate, { f with phase := .fetching, file := v.writable })
  | .creating, .raised => some (v, { f with phase := .closing true })
  | .fetching, .chunk data =>
    if data = [] then some (v, f)
    else if f.exceeds env data then some (v, { f with phase := .aborting })
    else some (v, { f with phase := .writing, received := f.received ++ data })
  | .fetching, .exhausted => some (v, { f with phase := .syncing })
  | .writing, .shown count | .aborting, .shown count =>
    some (f.flush v count, { f with flushed := f.flushed + (f.shows count).length })
  | .writing, .returned =>
    some (f.flush v f.received.length,
      { f with phase := .advancing, flushed := f.received.length })
  | .advancing, .returned => some (v, { f with phase := .fetching })
  | .syncing, .returned => some (v, { f with phase := .verifying })
  | .fetching, .raised | .writing, .raised | .advancing, .raised | .syncing, .raised =>
    some (v, { f with phase := .aborting })
  | .aborting, .returned => some (v, { f with phase := .closing true })
  | .verifying, .returned =>
    if f.verified env then
      match v.rename with
      | some next => some (next, { f with phase := .completing })
      | none => some (v, { f with phase := .closing true })
    else some (v, { f with phase := .closing true })
  | .verifying, .raised | .completing, .raised => some (v, { f with phase := .closing true })
  | .completing, .returned => some (v, { f with phase := .closing false })
  | .closing true, .returned => some (v.unlink, { f with phase := .ended })
  | .closing false, .returned => some (v, { f with phase := .ended })
  | _, _ => none

/-! ## The follower -/

/-- Where `_tail_peer` is. -/
inductive TailPhase where
  /-- `while not partial.exists() ...` -/
  | seeking
  /-- `... and not final.is_file()` -/
  | seekingFinal
  /-- `if final.is_file()`, behind the loop -/
  | choosing
  /-- `aiofiles.open(partial, "rb")` -/
  | opening
  /-- `if final.is_file()`, behind `FileNotFoundError` -/
  | missing
  /-- `iter_file` opens the file. -/
  | openingFinal
  /-- `iter_file` reads. -/
  | sending
  /-- `fh.read(CHUNK)` -/
  | following
  /-- `if final.is_file()`, at the end of the partial file -/
  | atFinal
  /-- `if not partial.exists()` -/
  | atPartial
  | returned
  /-- `FillFailed`, or the client is gone. -/
  | cut
  deriving DecidableEq

/-- The follower has a file open. -/
def TailPhase.hasOpen : TailPhase → Bool
  | .sending | .following | .atFinal | .atPartial => true
  | _ => false

def TailPhase.isOver : TailPhase → Bool
  | .returned | .cut => true
  | _ => false

structure Reader where
  phase : TailPhase := .seeking
  file : Nat := 0
  /-- What the client has; `sent` is its length. -/
  yielded : Bytes := []
  deriving DecidableEq

inductive TailEvent where
  /-- A look at a path, or opening one. -/
  | turn
  | read (count : Nat)
  /-- No progress for `PEER_STALL_SECONDS`. -/
  | stalled
  | left
  deriving DecidableEq

/-- A read of a file returns nothing only at its end. -/
def Reads (rest : Bytes) (count : Nat) : Prop :=
  count ≤ env.chunkSize ∧ count ≤ rest.length ∧ (count = 0 → rest = [])

instance (rest : Bytes) (count : Nat) : Decidable (Reads env rest count) := by
  unfold Reads; infer_instance

namespace Reader

variable (v : Volume) (r : Reader)

def rest : Bytes := (v.content r.file).drop r.yielded.length

/-- A read of the open file, which goes to `last` at its end. -/
def read (count : Nat) (last : TailPhase) : Option Reader :=
  if Reads env (r.rest v) count then
    some (if count = 0 then { r with phase := last }
      else { r with yielded := r.yielded ++ (r.rest v).take count })
  else none

/-- `_tail_peer`, with `iter_file`. -/
def step (e : TailEvent) : Option Reader :=
  match r.phase, e with
  | .returned, _ | .cut, _ => none
  | _, .left => some { r with phase := .cut }
  | .seeking, .turn =>
    some { r with phase := if v.partialAt.isSome then .choosing else .seekingFinal }
  | .seekingFinal, .turn =>
    some { r with phase := if v.finalAt.isSome then .choosing else .seeking }
  | .seekingFinal, .stalled => if v.finalAt.isSome then none else some { r with phase := .cut }
  | .choosing, .turn =>
    some { r with phase := if v.finalAt.isSome then .openingFinal else .opening }
  | .opening, .turn =>
    some <|
      match v.partialAt with
      | some i => { r with phase := .following, file := i }
      | none => { r with phase := .missing }
  | .missing, .turn =>
    some { r with phase := if v.finalAt.isSome then .openingFinal else .cut }
  | .openingFinal, .turn =>
    some <|
      match v.finalAt with
      | some j => { r with phase := .sending, file := j }
      | none => { r with phase := .cut }
  | .sending, .read count => r.read env v count .returned
  | .following, .read count => r.read env v count .atFinal
  | .atFinal, .turn =>
    some <|
      match v.finalAt with
      | some j =>
        { r with
          phase := if (v.content j).length ≤ r.yielded.length then .returned else .following }
      | none => { r with phase := .atPartial }
  | .atPartial, .turn =>
    some { r with phase := if v.partialAt.isSome then .following else .cut }
  | .atPartial, .stalled => if v.partialAt.isSome then some { r with phase := .cut } else none
  | _, _ => none

/-- What the client has, and what the open file has behind that. -/
def whole : Bytes := r.yielded ++ r.rest v

end Reader

/-! ## The system -/

structure State where
  volume : Volume := {}
  fills : List Fill := []
  reader : Reader := {}
  deriving DecidableEq

inductive Act where
  /-- A process takes the lease. -/
  | start (expectedSize : Option Nat)
  | fill (k : Nat) (e : FillEvent)
  | tail (e : TailEvent)
  deriving DecidableEq

def Act.isTail : Act → Bool
  | .tail _ => true
  | _ => false

def State.step (s : State) : Act → Option State
  | .start expectedSize =>
    some { s with fills := s.fills ++ [{ expectedSize := expectedSize }] }
  | .fill k e =>
    s.fills[k]?.bind fun f =>
      (f.step env s.volume e).map fun next =>
        { s with volume := next.1, fills := s.fills.set k next.2 }
  | .tail e => (s.reader.step env s.volume e).map fun r => { s with reader := r }

/-- All schedules of fills, with one follower. -/
def tails : System State Act where
  init s := s = {}
  Step s a s' := s.step env a = some s'

/-! ## What is to hold -/

/-- A file that is put in its place is the blob, as one that is there already, and what a follower
that has a file open will have. -/
structure Fits (s : State) (i : Nat) : Prop where
  verified : env.sha256 (s.volume.content i) = env.digest
  replaced : ∀ j ∈ s.volume.finalAt, s.volume.content j = s.volume.content i
  followed : s.reader.phase.hasOpen = true → s.reader.whole s.volume = s.volume.content i

/-- With the blob in its place, neither its file nor the one that the follower has open changes. -/
def Spares (s : State) (i : Nat) (content : Bytes) : Prop :=
  s.volume.finalAt = none ∨ content = s.volume.content i ∨
    s.volume.finalAt ≠ some i ∧ (s.reader.phase.hasOpen = true → s.reader.file ≠ i)

def sparesFlush (s : State) (f : Fill) (count : Nat) : Prop :=
  Spares s f.file (writeAt f.flushed (f.shows count) (s.volume.content f.file))

/-- What is asked of a fill: of the file that it renames, and of those that it writes. -/
def FillClean (s : State) (f : Fill) (e : FillEvent) : Prop :=
  match f.phase, e with
  | .verifying, .returned => f.verified env = true → ∀ i ∈ s.volume.partialAt, Fits env s i
  | .creating, .returned => ∀ i ∈ s.volume.partialAt, Spares s i []
  | .writing, .shown count | .aborting, .shown count => sparesFlush s f count
  | .writing, .returned => sparesFlush s f f.received.length
  | _, _ => True

/-- What is asked of a step. A partial file that is opened beside the blob is like it. -/
def Clean (s : State) : Act → Prop
  | .fill k e => ∀ f ∈ s.fills[k]?, FillClean env s f e
  | .tail .turn => s.reader.phase = .opening → ∀ i ∈ s.volume.partialAt, ∀ j ∈ s.volume.finalAt,
      s.volume.content i = s.volume.content j
  | _ => True

instance (s : State) (i : Nat) : Decidable (Fits env s i) :=
  decidable_of_iff
    (env.sha256 (s.volume.content i) = env.digest ∧
      (∀ j ∈ s.volume.finalAt, s.volume.content j = s.volume.content i) ∧
      (s.reader.phase.hasOpen = true → s.reader.whole s.volume = s.volume.content i))
    ⟨fun h => ⟨h.1, h.2.1, h.2.2⟩, fun h => ⟨h.verified, h.replaced, h.followed⟩⟩

instance (s : State) (i : Nat) (content : Bytes) : Decidable (Spares s i content) := by
  unfold Spares; infer_instance

instance (s : State) (f : Fill) (e : FillEvent) : Decidable (FillClean env s f e) := by
  unfold FillClean sparesFlush; split <;> infer_instance

instance (s : State) (a : Act) : Decidable (Clean env s a) := by
  unfold Clean; split <;> infer_instance

end Steps

/-! ## The volume, step by step -/

section Contents

variable {v v' : Volume} {i k : Nat}

theorem content_touch (v : Volume) (i : Nat) : v.touch.content i = v.content i := by
  unfold Volume.touch
  split
  · rfl
  · unfold Volume.content
    dsimp only
    rcases Nat.lt_trichotomy i v.files.length with h | h | h
    · rw [List.getElem?_append_left h]
    · rw [h, List.getElem?_append_right (Nat.le_refl _), List.getElem?_eq_none (Nat.le_refl _),
        Nat.sub_self]
      rfl
    · rw [List.getElem?_eq_none (Nat.le_of_lt h), List.getElem?_eq_none]
      rw [List.length_append, List.length_singleton]
      omega

theorem content_set_of_ne (v : Volume) {content : Bytes} (h : k ≠ i) :
    ({ v with files := v.files.set i content } : Volume).content k = v.content k := by
  unfold Volume.content
  rw [List.getElem?_set_ne h.symm]

/-- A file is set to what it was, or another one is looked at. -/
theorem content_set (v : Volume) {content : Bytes} (h : content = v.content i ∨ k ≠ i) :
    ({ v with files := v.files.set i content } : Volume).content k = v.content k := by
  by_cases hk : k = i
  · obtain rfl := hk
    obtain rfl := h.resolve_right fun hne => hne rfl
    unfold Volume.content
    dsimp only
    rw [List.getElem?_set_self']
    cases v.files[k]? <;> rfl
  · exact content_set_of_ne v hk

theorem finalAt_touch (v : Volume) : v.touch.finalAt = v.finalAt := by
  unfold Volume.touch
  split <;> rfl

end Contents

/-! ## A step of a fill -/

section Fills

variable {env : Env} {s : State} {f f' : Fill} {e : FillEvent} {v' : Volume} {i : Nat}

/-- The blob stays in its place, with its bytes, and the follower's file as it is beside it. -/
structure Keeps (s : State) (v' : Volume) : Prop where
  finalAt : v'.finalAt = s.volume.finalAt
  placed : ∀ j ∈ s.volume.finalAt, v'.content j = s.volume.content j
  opened : s.volume.finalAt.isSome → s.reader.phase.hasOpen = true →
    v'.content s.reader.file = s.volume.content s.reader.file

theorem Keeps.of_content (hfinal : v'.finalAt = s.volume.finalAt)
    (hcontent : ∀ i, v'.content i = s.volume.content i) : Keeps s v' where
  finalAt := hfinal
  placed j _ := hcontent j
  opened _ _ := hcontent _

theorem Keeps.refl (s : State) : Keeps s s.volume := .of_content rfl fun _ => rfl

theorem Keeps.touch (s : State) : Keeps s s.volume.touch :=
  .of_content (finalAt_touch _) (content_touch _)

theorem Keeps.set {content : Bytes} (h : Spares s i content) :
    Keeps s { s.volume with files := s.volume.files.set i content } where
  finalAt := rfl
  placed j hj := by
    refine content_set _ ?_
    rcases h with hnone | hsame | ⟨hne, -⟩
    · rw [hnone] at hj
      cases hj
    · exact .inl hsame
    · exact .inr fun heq => hne (heq ▸ hj)
  opened hplaced hopen := by
    refine content_set _ ?_
    rcases h with hnone | hsame | ⟨-, hne⟩
    · rw [hnone] at hplaced
      cases hplaced
    · exact .inl hsame
    · exact .inr (hne hopen)

theorem Keeps.truncate (h : ∀ i ∈ s.volume.partialAt, Spares s i []) :
    Keeps s s.volume.truncate := by
  unfold Volume.truncate
  split
  · next i hi => exact .set (h i hi)
  · exact .touch s

theorem Keeps.flush {count : Nat} (h : sparesFlush s f count) : Keeps s (f.flush s.volume count) :=
  .set h

/-- What a step of a fill does to the volume: the blob stays, or one that fits is put there. -/
theorem fill_effect (hclean : FillClean env s f e)
    (hstep : f.step env s.volume e = some (v', f')) :
    Keeps s v' ∨ ∃ i, s.volume.partialAt = some i ∧ Fits env s i ∧
      v' = { s.volume with partialAt := none, finalAt := some i } := by
  unfold Fill.step at hstep
  unfold FillClean at hclean
  split at hstep
  all_goals first
    | (cases hstep; done)
    | (cases hstep; exact .inl (.refl s))
    | skip
  · cases hstep
    exact .inl (.touch s)
  · next hphase =>
    rw [hphase] at hclean
    cases hstep
    exact .inl (.truncate hclean)
  · split at hstep
    · cases hstep
      exact .inl (.refl s)
    · split at hstep <;> cases hstep <;> exact .inl (.refl s)
  · next hphase =>
    rw [hphase] at hclean
    cases hstep
    exact .inl (.flush hclean)
  · next hphase =>
    rw [hphase] at hclean
    cases hstep
    exact .inl (.flush hclean)
  · next hphase =>
    rw [hphase] at hclean
    cases hstep
    exact .inl (.flush hclean)
  · next hphase =>
    rw [hphase] at hclean
    split at hstep
    · next hverified =>
      -- the partial file is renamed, or gone
      unfold Volume.rename at hstep
      cases hthere : s.volume.partialAt with
      | none =>
        rw [hthere] at hstep
        cases hstep
        exact .inl (.refl s)
      | some i =>
        rw [hthere] at hstep
        cases hstep
        exact .inr ⟨i, rfl, hclean hverified i hthere, rfl⟩
    · cases hstep
      exact .inl (.refl s)
  · cases hstep
    exact .inl (.of_content rfl fun _ => rfl)

end Fills

/-! ## What holds in every state -/

section Invariant

variable {env : Env} {s : State} {v v' : Volume} {r r' : Reader} {e : TailEvent} {i j : Nat}

/-- The file in its place is verified, and a follower that has a file open will have that one. -/
structure Inv (env : Env) (v : Volume) (r : Reader) : Prop where
  verified : ∀ j ∈ v.finalAt, env.sha256 (v.content j) = env.digest
  whole : ∀ j ∈ v.finalAt, r.phase.hasOpen = true → r.whole v = v.content j
  returned : r.phase = .returned → ∃ j, v.finalAt = some j ∧ r.yielded = v.content j
  fresh : r.phase.hasOpen = false → r.phase.isOver = false → r.yielded = []
  placed : r.phase = .sending ∨ r.phase = .openingFinal → v.finalAt.isSome

theorem Inv.keeps (h : Inv env s.volume s.reader) (hkeeps : Keeps s v') : Inv env v' s.reader where
  verified j hj := by
    rw [hkeeps.finalAt] at hj
    rw [hkeeps.placed j hj]
    exact h.verified j hj
  whole j hj hopen := by
    rw [hkeeps.finalAt] at hj
    unfold Reader.whole Reader.rest
    rw [hkeeps.opened (Option.isSome_of_mem hj) hopen, hkeeps.placed j hj]
    exact h.whole j hj hopen
  returned hreturned := by
    obtain ⟨j, hj, hyielded⟩ := h.returned hreturned
    exact ⟨j, hkeeps.finalAt ▸ hj, hyielded.trans (hkeeps.placed j hj).symm⟩
  fresh := h.fresh
  placed hphase := hkeeps.finalAt ▸ h.placed hphase

theorem Inv.rename (h : Inv env s.volume s.reader) (hfits : Fits env s i) :
    Inv env { s.volume with partialAt := none, finalAt := some i } s.reader where
  verified j hj := by
    cases hj
    exact hfits.verified
  whole j hj hopen := by
    cases hj
    exact hfits.followed hopen
  returned hreturned := by
    obtain ⟨j, hj, hyielded⟩ := h.returned hreturned
    exact ⟨i, rfl, hyielded.trans (hfits.replaced j hj)⟩
  fresh := h.fresh
  placed _ := rfl

/-- The follower goes on without a file open. -/
theorem Inv.move (h : Inv env v r) {phase : TailPhase} (hyielded : r.yielded = [])
    (hclosed : phase.hasOpen = false) (hreturned : phase ≠ .returned)
    (hplaced : phase = .openingFinal → v.finalAt.isSome) :
    Inv env v { r with phase := phase } where
  verified := h.verified
  whole j hj hopen := by
    rw [hclosed] at hopen
    cases hopen
  returned heq := absurd heq hreturned
  fresh _ _ := hyielded
  placed hphase := by
    rcases hphase with hsending | hopening
    · obtain rfl : phase = .sending := hsending
      cases hclosed
    · exact hplaced hopening

/-- The follower has opened a file with the bytes of the blob. -/
theorem Inv.open (h : Inv env v r) {phase : TailPhase} (hyielded : r.yielded = [])
    (hphase : phase = .following ∨ phase = .sending)
    (hsame : ∀ j ∈ v.finalAt, v.content i = v.content j)
    (hplaced : phase = .sending → v.finalAt.isSome) :
    Inv env v { r with phase := phase, file := i } where
  verified := h.verified
  whole j hj _ := by
    unfold Reader.whole Reader.rest
    rw [hyielded, List.nil_append, List.length_nil, List.drop_zero]
    exact hsame j hj
  returned heq := by
    rcases hphase with rfl | rfl <;> cases heq
  fresh hclosed := by
    rcases hphase with rfl | rfl <;> cases hclosed
  placed heq := by
    rcases heq with heq | heq
    · exact hplaced heq
    · rcases hphase with rfl | rfl <;> cases heq

/-- The follower goes on with the file that it has open. -/
theorem Inv.stay (h : Inv env v r) {phase : TailPhase} (hopen : r.phase.hasOpen = true)
    (hphase : phase = .following ∨ phase = .atFinal ∨ phase = .atPartial) :
    Inv env v { r with phase := phase } where
  verified := h.verified
  whole j hj _ := h.whole j hj hopen
  returned heq := by
    rcases hphase with rfl | rfl | rfl <;> cases heq
  fresh hclosed := by
    rcases hphase with rfl | rfl | rfl <;> cases hclosed
  placed heq := by
    rcases hphase with rfl | rfl | rfl <;> rcases heq with heq | heq <;> cases heq

/-- A stream that is cut. -/
theorem Inv.cut (h : Inv env v r) : Inv env v { r with phase := .cut } where
  verified := h.verified
  whole _ _ hopen := by cases hopen
  returned heq := by cases heq
  fresh _ hover := by cases hover
  placed heq := by rcases heq with heq | heq <;> cases heq

/-- What is read is what comes next of the whole. -/
theorem whole_read (r : Reader) (v : Volume) {count : Nat} (h : count ≤ (r.rest v).length) :
    Reader.whole v { r with yielded := r.yielded ++ (r.rest v).take count } = r.whole v := by
  unfold Reader.whole
  rw [List.append_assoc]
  refine congrArg _ ?_
  change _ ++ (v.content r.file).drop (r.yielded ++ (r.rest v).take count).length = _
  rw [List.length_append, List.length_take, Nat.min_eq_left h, ← List.drop_drop]
  exact List.take_append_drop count (r.rest v)

theorem whole_eq_yielded (h : r.rest v = []) : r.whole v = r.yielded := by
  unfold Reader.whole
  rw [h, List.append_nil]

/-- With the blob in its place, an open file has no more than the rest of it. -/
theorem Inv.length_rest (h : Inv env v r) (hj : v.finalAt = some j)
    (hopen : r.phase.hasOpen = true) :
    r.yielded.length + (r.rest v).length = (v.content j).length := by
  rw [← List.length_append]
  exact congrArg List.length (h.whole j hj hopen)

/-! ## How far a follower is -/

/-- How many turns a phase may take, with `left` bytes to come. -/
def weight (left : Nat) : TailPhase → Nat
  | .seeking => 12
  | .seekingFinal => 11
  | .choosing => 10
  | .opening => 9
  | .missing => 8
  | .openingFinal => 7
  | .atPartial => 4
  | .atFinal => if left = 0 then 1 else 3
  | .sending | .following => 2
  | .returned | .cut => 0

theorem weight_pos {left : Nat} {phase : TailPhase} (hreturned : phase ≠ .returned)
    (hcut : phase ≠ .cut) : 0 < weight left phase := by
  cases phase with
  | returned => exact absurd rfl hreturned
  | cut => exact absurd rfl hcut
  | atFinal =>
    change 0 < if left = 0 then 1 else 3
    split
    · exact Nat.succ_pos _
    · exact Nat.succ_pos _
  | _ => exact Nat.succ_pos _

/-- How many turns are left, at most, with the blob in its place. -/
def rank (v : Volume) (r : Reader) : Nat :=
  match v.finalAt with
  | none => 0
  | some j =>
    let left := (v.content j).length - r.yielded.length
    4 * left + weight left r.phase

theorem rank_eq (hj : v.finalAt = some j) (r : Reader) : rank v r =
    4 * ((v.content j).length - r.yielded.length) +
      weight ((v.content j).length - r.yielded.length) r.phase := by
  unfold rank
  rw [hj]

/-- A turn that takes nothing brings the rank down with the weight of the phase. -/
theorem rank_lt {phase : TailPhase} {file : Nat}
    (hweight : ∀ j, v.finalAt = some j → weight ((v.content j).length - r.yielded.length) phase <
      weight ((v.content j).length - r.yielded.length) r.phase) :
    v.finalAt.isSome → rank v { r with phase := phase, file := file } < rank v r := by
  intro hplaced
  obtain ⟨j, hj⟩ := Option.isSome_iff_exists.mp hplaced
  rw [rank_eq hj, rank_eq hj]
  exact Nat.add_lt_add_left (hweight j hj) _

/-- A read of the partial file, or of the blob. -/
theorem Inv.read (h : Inv env v r) {count : Nat} {last : TailPhase}
    (hphase : r.phase = .following ∧ last = .atFinal ∨ r.phase = .sending ∧ last = .returned)
    (hread : r.read env v count last = some r') :
    Inv env v r' ∧ (v.finalAt.isSome → rank v r' < rank v r) := by
  have hopen : r.phase.hasOpen = true := by
    rcases hphase with ⟨hphase, -⟩ | ⟨hphase, -⟩ <;> rw [hphase] <;> rfl
  unfold Reader.read at hread
  split at hread
  · next hreads =>
    obtain ⟨-, hcount, hend⟩ := hreads
    obtain rfl := Option.some.inj hread
    split
    · next hzero =>
      have hyielded := whole_eq_yielded (hend hzero)
      refine ⟨?_, ?_⟩
      · rcases hphase with ⟨-, rfl⟩ | ⟨hsending, rfl⟩
        · exact h.stay hopen (.inr (.inl rfl))
        · obtain ⟨j, hj⟩ := Option.isSome_iff_exists.mp (h.placed (.inl hsending))
          refine ⟨h.verified, ?_, ?_, ?_, ?_⟩
          · rintro _ _ ⟨⟩
          · exact fun _ => ⟨j, hj, hyielded.symm.trans (h.whole j hj hopen)⟩
          · rintro _ ⟨⟩
          · rintro (heq | heq) <;> cases heq
      · intro hplaced
        obtain ⟨j, hj⟩ := Option.isSome_iff_exists.mp hplaced
        have hlength := h.length_rest hj hopen
        rw [hend hzero, List.length_nil] at hlength
        rw [rank_eq hj, rank_eq hj]
        have hnone : (v.content j).length - r.yielded.length = 0 := by omega
        rcases hphase with ⟨hphase, rfl⟩ | ⟨hphase, rfl⟩ <;> rw [hphase, hnone] <;>
          exact Nat.lt_of_sub_eq_succ rfl
    · next hpos =>
      refine ⟨⟨h.verified, ?_, ?_, ?_, h.placed⟩, ?_⟩
      · intro j hj _
        rw [whole_read r v hcount]
        exact h.whole j hj hopen
      · intro hreturned
        rcases hphase with ⟨hphase, -⟩ | ⟨hphase, -⟩ <;> rw [hphase] at hreturned <;>
          cases hreturned
      · intro hclosed
        exact absurd (hopen.symm.trans hclosed) (by decide)
      · intro hplaced
        obtain ⟨j, hj⟩ := Option.isSome_iff_exists.mp hplaced
        have hlength := h.length_rest hj hopen
        rw [rank_eq hj, rank_eq hj]
        dsimp only
        rw [List.length_append, List.length_take, Nat.min_eq_left hcount]
        rcases hphase with ⟨hphase, -⟩ | ⟨hphase, -⟩ <;> rw [hphase] <;> dsimp only [weight] <;>
          omega
  · cases hread

/-- The follower goes on without a file open, and has come nearer. -/
theorem Inv.moves (h : Inv env v r) {before : TailPhase} (phase : TailPhase)
    (hphase : r.phase = before)
    (hbefore : before.hasOpen = false ∧ before.isOver = false)
    (hclosed : phase.hasOpen = false ∧ phase ≠ .returned)
    (hplaced : phase = .openingFinal → v.finalAt.isSome)
    (hweight : v.finalAt.isSome → ∀ left, weight left phase < weight left before) :
    Inv env v { r with phase := phase } ∧
      (v.finalAt.isSome → rank v { r with phase := phase } < rank v r) := by
  obtain rfl := hphase
  exact ⟨h.move (h.fresh hbefore.1 hbefore.2) hclosed.1 hclosed.2 hplaced,
    rank_lt fun _ hj => hweight (Option.isSome_of_mem hj) _⟩

/-- The follower opens a file without having read any. -/
theorem Inv.opens (h : Inv env v r) {before phase : TailPhase} (hphase : r.phase = before)
    (hbefore : before.hasOpen = false ∧ before.isOver = false)
    (hafter : phase = .following ∨ phase = .sending)
    (hsame : ∀ j ∈ v.finalAt, v.content i = v.content j)
    (hplaced : phase = .sending → v.finalAt.isSome)
    (hweight : ∀ left, weight left phase < weight left before) :
    Inv env v { r with phase := phase, file := i } ∧
      (v.finalAt.isSome → rank v { r with phase := phase, file := i } < rank v r) := by
  obtain rfl := hphase
  exact ⟨h.open (h.fresh hbefore.1 hbefore.2) hafter hsame hplaced, rank_lt fun _ _ => hweight _⟩

/-- A look for the blob, at the end of the partial file. -/
theorem Inv.looksFinal (h : Inv env v r) (hphase : r.phase = .atFinal) :
    let next :=
      match v.finalAt with
      | some j =>
        { r with
          phase := if (v.content j).length ≤ r.yielded.length then .returned else .following }
      | none => { r with phase := .atPartial }
    Inv env v next ∧ (v.finalAt.isSome → rank v next < rank v r) := by
  have hopen : r.phase.hasOpen = true := by
    rw [hphase]
    rfl
  cases hplaced : v.finalAt with
  | none =>
    exact ⟨h.stay hopen (.inr (.inr rfl)), fun hsome => absurd hsome (by decide)⟩
  | some j =>
    have hlength := h.length_rest hplaced hopen
    dsimp only
    split
    · next hle =>
      -- nothing is left to be read, so what was sent is the whole
      have hrest : r.rest v = [] := List.length_eq_zero_iff.mp (by omega)
      refine ⟨⟨h.verified, ?_, ?_, ?_, ?_⟩, ?_⟩
      · rintro _ _ ⟨⟩
      · exact fun _ => ⟨j, hplaced, (whole_eq_yielded hrest).symm.trans (h.whole j hplaced hopen)⟩
      · rintro _ ⟨⟩
      · rintro (heq | heq) <;> cases heq
      · intro _
        refine rank_lt (fun _ _ => ?_) (Option.isSome_of_mem hplaced)
        rw [hphase]
        exact weight_pos (by decide) (by decide)
    · next hlt =>
      refine ⟨h.stay hopen (.inl rfl), fun _ => ?_⟩
      refine rank_lt (fun k hk => ?_) (Option.isSome_of_mem hplaced)
      obtain rfl := Option.some.inj (hplaced.symm.trans hk)
      rw [hphase]
      change 2 < if _ then 1 else 3
      rw [if_neg (by omega)]
      decide

/-- **One step of a follower.** -/
theorem Inv.tail (h : Inv env v r)
    (hclean : e = .turn → r.phase = .opening → ∀ i ∈ v.partialAt, ∀ j ∈ v.finalAt,
      v.content i = v.content j)
    (hstep : r.step env v e = some r') :
    Inv env v r' ∧ (v.finalAt.isSome → rank v r' < rank v r) := by
  have hcut (hreturned : r.phase ≠ .returned) (hcut : r.phase ≠ .cut) :
      Inv env v { r with phase := .cut } ∧
        (v.finalAt.isSome → rank v { r with phase := .cut } < rank v r) :=
    ⟨h.cut, rank_lt fun _ _ => weight_pos hreturned hcut⟩
  unfold Reader.step at hstep
  split at hstep
  · cases hstep
  · cases hstep
  · next hreturned hover =>
    cases hstep
    exact hcut hreturned hover
  · next hphase =>
    cases hstep
    cases v.partialAt.isSome with
    | true =>
      exact h.moves .choosing hphase ⟨rfl, rfl⟩ ⟨rfl, by rintro ⟨⟩⟩ (by rintro ⟨⟩)
        fun _ _ => Nat.lt_of_sub_eq_succ rfl
    | false =>
      exact h.moves .seekingFinal hphase ⟨rfl, rfl⟩ ⟨rfl, by rintro ⟨⟩⟩ (by rintro ⟨⟩)
        fun _ _ => Nat.lt_of_sub_eq_succ rfl
  · next hphase =>
    rcases Option.eq_none_or_eq_some v.finalAt with hplaced | ⟨j, hplaced⟩ <;>
      rw [hplaced] at hstep <;> cases hstep
    · exact h.moves .seeking hphase ⟨rfl, rfl⟩ ⟨rfl, by rintro ⟨⟩⟩ (by rintro ⟨⟩)
        fun hsome => absurd (hplaced ▸ hsome : (none : Option Nat).isSome = true) (by decide)
    · exact h.moves .choosing hphase ⟨rfl, rfl⟩ ⟨rfl, by rintro ⟨⟩⟩ (by rintro ⟨⟩)
        fun _ _ => Nat.lt_of_sub_eq_succ rfl
  · next hphase =>
    split at hstep
    · cases hstep
    · cases hstep
      exact hcut (by rw [hphase]; decide) (by rw [hphase]; decide)
  · next hphase =>
    rcases Option.eq_none_or_eq_some v.finalAt with hplaced | ⟨j, hplaced⟩ <;>
      rw [hplaced] at hstep <;> cases hstep
    · exact h.moves .opening hphase ⟨rfl, rfl⟩ ⟨rfl, by rintro ⟨⟩⟩ (by rintro ⟨⟩)
        fun _ _ => Nat.lt_of_sub_eq_succ rfl
    · exact h.moves .openingFinal hphase ⟨rfl, rfl⟩ ⟨rfl, by rintro ⟨⟩⟩
        (fun _ => Option.isSome_of_mem hplaced) fun _ _ => Nat.lt_of_sub_eq_succ rfl
  · next hphase =>
    cases hstep
    cases hthere : v.partialAt with
    | some i =>
      exact h.opens hphase ⟨rfl, rfl⟩ (.inl rfl) (hclean rfl hphase i hthere) (by rintro ⟨⟩)
        fun _ => Nat.lt_of_sub_eq_succ rfl
    | none =>
      exact h.moves .missing hphase ⟨rfl, rfl⟩ ⟨rfl, by rintro ⟨⟩⟩ (by rintro ⟨⟩)
        fun _ _ => Nat.lt_of_sub_eq_succ rfl
  · next hphase =>
    rcases Option.eq_none_or_eq_some v.finalAt with hplaced | ⟨j, hplaced⟩ <;>
      rw [hplaced] at hstep <;> cases hstep
    · exact hcut (by rw [hphase]; decide) (by rw [hphase]; decide)
    · exact h.moves .openingFinal hphase ⟨rfl, rfl⟩ ⟨rfl, by rintro ⟨⟩⟩
        (fun _ => Option.isSome_of_mem hplaced) fun _ _ => Nat.lt_of_sub_eq_succ rfl
  · next hphase =>
    rcases Option.eq_none_or_eq_some v.finalAt with hplaced | ⟨j, hplaced⟩ <;>
      rw [hplaced] at hstep <;> cases hstep
    · exact hcut (by rw [hphase]; decide) (by rw [hphase]; decide)
    · exact h.opens hphase ⟨rfl, rfl⟩ (.inr rfl)
        (fun _ hj => congrArg v.content (Option.some.inj (hplaced.symm.trans hj)))
        (fun _ => Option.isSome_of_mem hplaced) fun _ => Nat.lt_of_sub_eq_succ rfl
  · next hphase => exact h.read (.inr ⟨hphase, rfl⟩) hstep
  · next hphase => exact h.read (.inl ⟨hphase, rfl⟩) hstep
  · next hphase =>
    cases hstep
    exact h.looksFinal hphase
  · next hphase =>
    cases hstep
    cases v.partialAt.isSome with
    | true =>
      refine ⟨h.stay (by rw [hphase]; rfl) (.inl rfl), rank_lt fun _ _ => ?_⟩
      rw [hphase]
      exact Nat.lt_of_sub_eq_succ rfl
    | false => exact hcut (by rw [hphase]; decide) (by rw [hphase]; decide)
  · next hphase =>
    split at hstep
    · cases hstep
      exact hcut (by rw [hphase]; decide) (by rw [hphase]; decide)
    · cases hstep
  · cases hstep

/-- A step of a fill leaves the rank as it is. -/
theorem rank_keeps (hkeeps : Keeps s v') : rank v' s.reader = rank s.volume s.reader := by
  unfold rank
  rw [hkeeps.finalAt]
  split
  · rfl
  · next j hj => rw [hkeeps.placed j hj]

theorem rank_rename (hfits : Fits env s i) (hplaced : s.volume.finalAt.isSome) :
    rank { s.volume with partialAt := none, finalAt := some i } s.reader =
      rank s.volume s.reader := by
  obtain ⟨j, hj⟩ := Option.isSome_iff_exists.mp hplaced
  rw [rank_eq hj, hfits.replaced j hj]
  rfl

/-- **One step of the system.** -/
theorem Inv.step {a : Act} {s' : State} (h : Inv env s.volume s.reader) (hclean : Clean env s a)
    (hstep : s.step env a = some s') :
    Inv env s'.volume s'.reader ∧ (s.volume.finalAt.isSome → s'.volume.finalAt.isSome ∧
      rank s'.volume s'.reader ≤ rank s.volume s.reader ∧
        (a.isTail = true → rank s'.volume s'.reader < rank s.volume s.reader)) := by
  cases a with
  | start expectedSize =>
    cases hstep
    exact ⟨h, fun hplaced => ⟨hplaced, Nat.le_refl _, by rintro ⟨⟩⟩⟩
  | fill k e =>
    obtain ⟨f, hf, hmapped⟩ := Option.bind_eq_some_iff.mp hstep
    obtain ⟨⟨v', f'⟩, hfill, rfl⟩ := Option.map_eq_some_iff.mp hmapped
    rcases fill_effect (hclean f hf) hfill with hkeeps | ⟨i, -, hfits, rfl⟩
    · refine ⟨h.keeps hkeeps, fun hplaced => ⟨?_, Nat.le_of_eq (rank_keeps hkeeps), by rintro ⟨⟩⟩⟩
      rw [hkeeps.finalAt]
      exact hplaced
    · exact ⟨h.rename hfits,
        fun hplaced => ⟨rfl, Nat.le_of_eq (rank_rename hfits hplaced), by rintro ⟨⟩⟩⟩
  | tail e =>
    obtain ⟨r', hr', rfl⟩ := Option.map_eq_some_iff.mp hstep
    have htail := h.tail (fun hturn hopening i hi j hj => by
      subst hturn
      exact hclean hopening i hi j hj) hr'
    exact ⟨htail.1,
      fun hplaced => ⟨hplaced, Nat.le_of_lt (htail.2 hplaced), fun _ => htail.2 hplaced⟩⟩

theorem inv_reach (h : (tails env).Reach (Clean env) s) : Inv env s.volume s.reader := by
  refine h.invariant (I := fun s => Inv env s.volume s.reader) ?_ fun s a s' hs hclean hstep =>
    (hs.step hclean hstep).1
  rintro s rfl
  refine ⟨?_, ?_, ?_, fun _ _ => rfl, ?_⟩
  · rintro _ ⟨⟩
  · rintro _ ⟨⟩
  · rintro ⟨⟩
  · rintro (heq | heq) <;> cases heq

end Invariant

/-- A fill that has all comes to its end. -/
def placed (k : Nat) : List Act :=
  [.fill k .exhausted, .fill k .returned, .fill k .returned]

/-- A fill that fails unlinks its file. -/
def failed (k : Nat) : List Act :=
  [.fill k .raised, .fill k .returned, .fill k .returned]

/-- The follower opens the partial file and reads a byte. -/
def followed : List Act :=
  [.tail .turn, .tail .turn, .tail .turn, .tail (.read 1)]

end Minireg.Docker.PeerTails
