import Mathlib.Logic.Function.Basic
import Minireg.Core.Semver
import Minireg.Docker.Db
import Minireg.Lib.Run

/-!
# Chunked uploads

`_upload_session`, `upload_append`, `upload_commit` and `finish_upload`, as the steps of any number
of requests on one upload. What runs between two awaits is one step. Files are inodes: an open
handle still writes to a file that was unlinked, or moved to its place in the store.
-/

namespace Minireg.Docker.Uploads

open Py Semver

/-! ## Content-Range -/

/-- Where a chunk says it starts. -/
inductive Start where
  | unsaid
  | at (offset : Nat)
  | elsewhere
  /-- `int` raises. -/
  | unreadable
  deriving DecidableEq

/-- `s.replace("bytes", "")`. -/
def dropBytes : List Char → List Char
  | 'b' :: 'y' :: 't' :: 'e' :: 's' :: rest => dropBytes rest
  | c :: rest => c :: dropBytes rest
  | [] => []

/-- `isdigit` of a character of a header. -/
def isDigitChar (c : Char) : Bool := isDecimal c || c ∈ ['²', '³', '¹']

/-- `content_range.replace("bytes", "").strip().split("-")[0].strip()`. -/
def startText (header : String) : List Char :=
  stripChars ((stripChars (dropBytes header.toList)).takeWhile (· ≠ '-'))

def startOf (contentRange : Option String) : Start :=
  let header := contentRange.getD ""
  if header = "" then .unsaid
  else
    let start := startText header
    if start = [] || !start.all isDigitChar then .elsewhere
    else if start.all isDecimal then
      match pyInt start with
      | .ok offset => .at offset
      | .error _ => .unreadable
    else .unreadable

/-- The chunk starts at this offset, or does not say where it starts. -/
def StartsAt (contentRange : Option String) (offset : Nat) : Prop :=
  startOf contentRange = .unsaid ∨ startOf contentRange = .at offset

instance (contentRange : Option String) (offset : Nat) :
    Decidable (StartsAt contentRange offset) := inferInstanceAs (Decidable (_ ∨ _))

/-! ## Requests -/

inductive Method where
  | get
  | delete
  | patch
  | put
  deriving DecidableEq

/-- `allowed`: the client may push to the repository and the upload is its own. -/
structure Request where
  method : Method
  contentRange : Option String := none
  digest : Option String := none
  allowed : Bool := true
  deriving DecidableEq

inductive Answer where
  | status (size : Nat)
  | removed
  | taken (size : Nat)
  | created (digest : Digest)
  | refused (code : String)
  /-- An exception, or a client that is gone. -/
  | failed
  deriving DecidableEq

/-- The awaits of `upload_commit`, and what comes after it. -/
inductive Stage where
  | hashing
  | reading (file : Nat)
  | hashed (actual : Digest)
  | syncing
  | synced
  | placed
  deriving DecidableEq

/-- Where a request is. `base`: the size that it found. `left`: how many bytes that were not
accepted it has left in the file. -/
inductive Phase where
  | arrived
  | loaded
  | opening (base : Nat)
  | appending (base handle : Nat) (body : List UInt8) (flushed : Nat)
  | leaving (base handle : Nat) (body : List UInt8) (flushed : Nat) (answer : Answer)
  | appended (base : Nat) (body : List UInt8)
  | finishing (base : Nat) (body : List UInt8) (digest : Digest) (stage : Stage)
  | removing
  | done (answer : Answer) (left : Nat)
  deriving DecidableEq

/-- Between its look at the file and its answer. -/
def Phase.inFile : Phase → Bool
  | arrived | loaded | done _ _ => false
  | _ => true

def Phase.left : Phase → Nat
  | done _ left => left
  | _ => 0

/-! ## The upload -/

/-- A chunk that was accepted, and where it was put. -/
structure Chunk where
  contentRange : Option String
  offset : Nat
  bytes : List UInt8
  deriving DecidableEq

/-- The row of the upload, its file, the store, and the requests. `accepted` and `stored` are kept
for the proofs: the chunks that were accepted, in this order, and the blobs that were stored. -/
structure Upload where
  row : Bool := true
  path : Option Nat
  contents : Nat → List UInt8
  blobs : Digest → Option Nat
  next : Nat
  links : List Digest := []
  requests : List (Request × Phase) := []
  accepted : List Chunk := []
  stored : List (Digest × Nat) := []

namespace Upload

/-- `upload_size`. -/
def size (s : Upload) : Nat :=
  match s.path with
  | none => 0
  | some file => (s.contents file).length

/-- `path.touch()` of a file that is not there, and `open(path, "ab")`. -/
def touch (s : Upload) : Upload :=
  match s.path with
  | some _ => s
  | none =>
    { s with
      path := some s.next
      contents := Function.update s.contents s.next []
      next := s.next + 1 }

/-- A request goes on. -/
def goes (s : Upload) (id : Nat) (r : Request) (phase : Phase) : Upload :=
  { s with requests := s.requests.set id (r, phase) }

/-- Bytes of an open handle reach its file. -/
def write (s : Upload) (handle : Nat) (bytes : List UInt8) : Upload :=
  { s with contents := Function.update s.contents handle (s.contents handle ++ bytes) }

theorem write_self (s : Upload) (handle : Nat) (bytes : List UInt8) :
    (s.write handle bytes).contents handle = s.contents handle ++ bytes := Function.update_self ..

theorem write_of_ne (s : Upload) {handle file : Nat} (h : file ≠ handle) (bytes : List UInt8) :
    (s.write handle bytes).contents file = s.contents file := Function.update_of_ne h ..

/-- A chunk is accepted. -/
def accept (s : Upload) (r : Request) (base : Nat) (body : List UInt8) : Upload :=
  { s with accepted := s.accepted ++
      [{ contentRange := r.contentRange, offset := base, bytes := body }] }

/-- `os.replace(path, final)`. -/
def replace (s : Upload) (file : Nat) (digest : Digest) : Upload :=
  { s with
    path := none
    blobs := Function.update s.blobs digest (some file)
    stored := s.stored ++ [(digest, file)] }

theorem replace_self (s : Upload) (file : Nat) (digest : Digest) :
    (s.replace file digest).blobs digest = some file := Function.update_self ..

theorem replace_of_ne (s : Upload) (file : Nat) {digest d : Digest} (h : d ≠ digest) :
    (s.replace file digest).blobs d = s.blobs d := Function.update_of_ne h ..

end Upload

/-! ## Steps -/

section Steps

variable (hash : List UInt8 → Digest) (limit : Nat)

/-- `get_upload`, and whether the upload is the client's. -/
def load (s : Upload) (id : Nat) (r : Request) : Upload :=
  if s.row && r.allowed then s.goes id r .loaded
  else s.goes id r (.done (.refused "BLOB_UPLOAD_UNKNOWN") 0)

/-- From the check of the method to the first await. -/
def look (s : Upload) (id : Nat) (r : Request) : Upload :=
  match r.method with
  | .get => s.goes id r (.done (.status s.size) 0)
  | .delete => { s with path := none }.goes id r .removing
  | .put => s.goes id r (.opening s.size)
  | .patch =>
    match startOf r.contentRange with
    | .unsaid => s.goes id r (.opening s.size)
    | .at offset =>
      if offset = s.size then s.goes id r (.opening s.size)
      else s.goes id r (.done (.refused "RANGE_INVALID") 0)
    | .elsewhere => s.goes id r (.done (.refused "RANGE_INVALID") 0)
    | .unreadable => s.goes id r (.done .failed 0)

/-- `aiofiles.open(path, "ab")`. -/
def openFile (s : Upload) (id : Nat) (r : Request) (base : Nat) : Upload :=
  let s := s.touch
  s.goes id r (.appending base (s.path.getD 0) [] 0)

/-- A piece of the body. A piece past the limit is not written. -/
def receive (s : Upload) (id : Nat) (r : Request) (piece : List UInt8) : Phase → Option Upload
  | .appending base handle body flushed =>
    if limit ≠ 0 && limit < base + (body.length + piece.length) then
      some (s.goes id r (.leaving base handle body flushed (.refused "SIZE_INVALID")))
    else some (s.goes id r (.appending base handle (body ++ piece) flushed))
  | _ => none

/-- Some of what was written reaches the file. -/
def flush (s : Upload) (id : Nat) (r : Request) (count : Nat) : Phase → Option Upload
  | .appending base handle body flushed =>
    if flushed + count ≤ body.length then
      some ((s.write handle ((body.drop flushed).take count)).goes id r
        (.appending base handle body (flushed + count)))
    else none
  | .leaving base handle body flushed answer =>
    if flushed + count ≤ body.length then
      some ((s.write handle ((body.drop flushed).take count)).goes id r
        (.leaving base handle body (flushed + count) answer))
    else none
  | _ => none

/-- The handle is closed when everything is in the file. -/
def close (s : Upload) (id : Nat) (r : Request) : Phase → Option Upload
  | .appending base _ body flushed =>
    if flushed = body.length then some (s.goes id r (.appended base body)) else none
  | .leaving _ _ body flushed answer =>
    if flushed = body.length then some (s.goes id r (.done answer body.length)) else none
  | _ => none

/-- What follows the append: the commit of a PATCH, and a PUT up to the hash. -/
def settle (s : Upload) (id : Nat) (r : Request) (base : Nat) (body : List UInt8) : Upload :=
  match r.method with
  | .patch =>
    -- the update of a row that is gone raises
    if s.row then (s.accept r base body).goes id r (.done (.taken (base + body.length)) 0)
    else s.goes id r (.done .failed body.length)
  | _ =>
    let digest := r.digest.getD ""
    if digest = "" || !isDigest digest then
      s.goes id r (.done (.refused "DIGEST_INVALID") body.length)
    else s.touch.goes id r (.finishing base body digest .hashing)

/-- `upload_commit` and `finish_upload`. -/
def finish (s : Upload) (id : Nat) (r : Request) (base : Nat) (body : List UInt8)
    (digest : Digest) : Stage → Upload
  | .hashing =>
    match s.path with
    | none => s.goes id r (.done .failed body.length)
    | some file => s.goes id r (.finishing base body digest (.reading file))
  | .reading file =>
    s.goes id r (.finishing base body digest (.hashed (hash (s.contents file))))
  | .hashed actual =>
    if actual ≠ digest then
      { s with path := none }.goes id r (.done (.refused "DIGEST_INVALID") 0)
    else if (s.blobs digest).isSome then
      ({ s with path := none }.accept r base body).goes id r (.finishing base body digest .placed)
    else s.goes id r (.finishing base body digest .syncing)
  | .syncing =>
    if s.path.isSome then s.goes id r (.finishing base body digest .synced)
    else s.goes id r (.done .failed body.length)
  | .synced =>
    match s.path with
    | none => s.goes id r (.done .failed body.length)
    | some file =>
      ((s.replace file digest).accept r base body).goes id r (.finishing base body digest .placed)
  | .placed =>
    -- the size is written to the row before it is deleted: a row that is gone raises
    if s.row then
      { s with row := false, links := s.links ++ [digest] }.goes id r (.done (.created digest) 0)
    else s.goes id r (.done .failed body.length)

/-- A request runs up to its next await. -/
def turn (s : Upload) (id : Nat) (r : Request) : Phase → Option Upload
  | .arrived => some (load s id r)
  | .loaded => some (look s id r)
  | .opening base => some (openFile s id r base)
  | .appended base body => some (settle s id r base body)
  | .finishing base body digest stage => some (finish hash s id r base body digest stage)
  | .removing => some ({ s with row := false }.goes id r (.done .removed 0))
  | _ => none

/-- A request fails, or its client goes away: an open handle is closed, nothing is undone. -/
def abort (s : Upload) (id : Nat) (r : Request) : Phase → Option Upload
  | .appending base handle body flushed =>
    some (s.goes id r (.leaving base handle body flushed .failed))
  | .leaving _ _ _ _ _ | .done _ _ => none
  | .appended _ body | .finishing _ body _ _ => some (s.goes id r (.done .failed body.length))
  | _ => some (s.goes id r (.done .failed 0))

inductive Action where
  | arrive (r : Request)
  | turn (id : Nat)
  | receive (id : Nat) (piece : List UInt8)
  | flush (id : Nat) (count : Nat)
  | close (id : Nat)
  | abort (id : Nat)

def Action.id? : Action → Option Nat
  | arrive _ => none
  | turn id | receive id _ | flush id _ | close id | abort id => some id

/-- What a request does where it is. -/
def act (s : Upload) (id : Nat) (r : Request) (phase : Phase) : Action → Option Upload
  | .arrive _ => none
  | .turn _ => turn hash s id r phase
  | .receive _ piece => receive limit s id r piece phase
  | .flush _ count => flush s id r count phase
  | .close _ => close s id r phase
  | .abort _ => abort s id r phase

def step (s : Upload) (a : Action) : Option Upload :=
  match a, a.id? with
  | .arrive r, _ => some { s with requests := s.requests ++ [(r, .arrived)] }
  | a, some id => (s.requests[id]?).bind fun q => act hash limit s id q.1 q.2 a
  | _, none => none

/-- The file was touched when the upload was started; the store holds what it has verified. -/
structure Started (s : Upload) : Prop where
  row : s.row = true
  file : ∃ file < s.next, s.path = some file ∧ s.contents file = []
  blobs : ∀ digest file, s.blobs digest = some file →
    hash (s.contents file) = digest ∧ s.path ≠ some file ∧ file < s.next
  links : s.links = []
  requests : s.requests = []
  accepted : s.accepted = []
  stored : s.stored = []

/-- The requests on one upload. -/
def uploads : Lib.System Upload Action where
  init := Started hash
  Step s a s' := step hash limit s a = some s'

end Steps

end Minireg.Docker.Uploads
