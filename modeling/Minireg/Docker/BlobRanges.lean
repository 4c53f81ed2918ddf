import Minireg.Core.Semver

/-!
# Blob ranges

`_get_blob` after its checks: `_parse_range` reads the `Range` header, `open_blob` clamps
it to the blob, and `iter_file` reads the bytes off the file chunk by chunk.
`stored_blob_answer` is what a client gets of a blob that is in the store, and
`fetched_blob_answer` what it gets of one that is still to be fetched.
-/

namespace Minireg.Docker.BlobRanges

open Py Semver

abbrev Bytes := List UInt8

/-! ## The header -/

/-- `int(s)` of any text: blanks around, a sign, and digits with single underscores between
them. Nothing where it raises. -/
def intOf (s : List Char) : Option Int :=
  let s := stripChars s
  let (negative, digits) := match s with
    | '-' :: rest => (true, rest)
    | '+' :: rest => (false, rest)
    | rest => (false, rest)
  let groups := digits.splitOn '_'
  if groups.all fun group => group ≠ [] && group.all isDecimal then
    match pyInt groups.flatten with
    | .ok n => some (if negative then -(n : Int) else n)
    | .error _ => none
  else none

/-- `value[6:].split(",")[0].strip()`, where the value starts with `bytes=`. -/
def rangeSpec (value : String) : Option (List Char) :=
  if "bytes=".toList.isPrefixOf value.toList then
    some (stripChars ((value.toList.drop 6).takeWhile (· ≠ ',')))
  else none

/-- `int(end_s) if end_s else None`. -/
def rangeStop (endText : List Char) : Option (Option Int) :=
  if endText = [] then some none else (intOf endText).map some

/-- `_parse_range`. -/
def parseRange (value : Option String) : Option (Nat × Option Nat) := do
  let spec ← rangeSpec (value.getD "")
  let startText := spec.takeWhile (· ≠ '-')
  let endText := (spec.dropWhile (· ≠ '-')).drop 1
  -- suffix ranges: the whole blob is served
  if startText = [] then none
  else
    let start ← intOf startText
    let stop ← rangeStop endText
    if start < 0 || stop.any fun stop => stop < start then none
    else some (start.toNat, stop.map Int.toNat)

/-! ## Opening a blob -/

/-- Where the bytes of a blob are: in the store, or upstream, with the size a manifest gives
and the chunks they arrive in. -/
inductive Held where
  | stored (content : Bytes)
  | upstream (chunks : List Bytes) (expected : Option Nat)
  deriving DecidableEq

/-- `CHUNK` bytes at most are read at a time, up to the end of the file. `remaining` is
missing where the whole file is read. -/
def readLoop (chunk : Nat) (rest : Bytes) (remaining : Option Nat) : List Bytes :=
  if remaining = some 0 then []
  else
    let piece := rest.take ((remaining.map (min chunk)).getD chunk)
    if _h : piece = [] then []
    else piece :: readLoop chunk (rest.drop piece.length) (remaining.map (· - piece.length))
termination_by rest.length
decreasing_by
  have hpiece : 0 < piece.length := List.length_pos_of_ne_nil _h
  have hle : piece.length ≤ rest.length := List.length_take_le' _ _
  rw [List.length_drop]
  exact Nat.sub_lt (Nat.lt_of_lt_of_le hpiece hle) hpiece

/-- `iter_file`. -/
def iterFile (chunk : Nat) (content : Bytes) (start : Nat := 0) (stop : Option Nat := none) :
    List Bytes :=
  readLoop chunk (content.drop start) (stop.map fun stop => stop - start + 1)

structure BlobResponse where
  chunks : List Bytes
  size : Option Nat
  range : Option (Nat × Nat) := none
  deriving DecidableEq

structure RegistryError where
  code : String
  message : String
  status : Nat
  contentRange : Option String := none
  deriving DecidableEq

/-- `end = size - 1 if end is None or end >= size else end`. -/
def clamp (size : Nat) (stop : Option Nat) : Int :=
  match stop with
  | none => (size : Int) - 1
  | some stop => if size ≤ stop then (size : Int) - 1 else stop

/-- `open_blob`, of a blob that is in the repository. -/
def openBlob (chunk : Nat) (held : Held) (byteRange : Option (Nat × Option Nat)) :
    Except RegistryError BlobResponse :=
  match held with
  | .stored content =>
    let size := content.length
    match byteRange with
    | some (start, stop) =>
      let stop := clamp size stop
      if size ≤ start || stop < start then
        .error
          { code := "RANGE_INVALID"
            message := "range " ++ toString start ++ "-" ++ toString stop ++ " is outside a " ++
              toString size ++ " byte blob"
            status := 416
            contentRange := some ("bytes */" ++ toString size) }
      else
        .ok
          { chunks := iterFile chunk content start (some stop.toNat)
            size := some size
            range := some (start, stop.toNat) }
    | none => .ok { chunks := iterFile chunk content, size := some size }
  -- a blob still being filled is served whole
  | .upstream chunks expected => .ok { chunks := chunks, size := expected }

/-! ## The answer -/

structure Answer where
  status : Nat
  contentRange : Option String := none
  contentLength : Option String := none
  body : List Bytes := []
  deriving DecidableEq

/-- `_get_blob`, once the blob may be read. -/
def getBlob (chunk : Nat) (held : Held) (header : Option String) : Answer :=
  match openBlob chunk held (parseRange header) with
  | .error e => { status := e.status, contentRange := e.contentRange }
  | .ok blob =>
    match blob.range, blob.size with
    | some (start, stop), some size =>
      { status := 206
        contentRange := some ("bytes " ++ toString start ++ "-" ++ toString stop ++ "/" ++
          toString size)
        contentLength := some (toString (stop - start + 1))
        body := blob.chunks }
    | _, size =>
      { status := 200
        contentLength := size.map toString
        body := blob.chunks }

/-! ## The bytes -/

/-- **The loop** reads as many bytes as remain, or all where nothing says how many. -/
theorem flatten_readLoop {chunk : Nat} (hchunk : 0 < chunk) (rest : Bytes)
    (remaining : Option Nat) :
    (readLoop chunk rest remaining).flatten = rest.take (remaining.getD rest.length) := by
  induction hlength : rest.length using Nat.strongRecOn generalizing rest remaining with
  | ind length ih =>
    unfold readLoop
    by_cases hzero : remaining = some 0
    · rw [if_pos hzero, hzero]
      rfl
    rw [if_neg hzero]
    dsimp only
    -- how much this turn asks for: something, as something remains
    have hask : 0 < (remaining.map (min chunk)).getD chunk := by
      rcases remaining with _ | r
      · exact hchunk
      · have hr : r ≠ 0 := fun h => hzero (congrArg some h)
        exact Nat.lt_min.mpr ⟨hchunk, Nat.pos_of_ne_zero hr⟩
    have hle : (remaining.map (min chunk)).getD chunk ≤ remaining.getD (max chunk rest.length) := by
      rcases remaining with _ | r
      · exact Nat.le_max_left _ _
      · exact Nat.min_le_right _ _
    generalize (remaining.map (min chunk)).getD chunk = ask at hask hle
    split
    · next hpiece =>
      rcases List.take_eq_nil_iff.mp hpiece with h | h
      · omega
      · rw [h]
        simp
    · next hpiece =>
      have hpos : 0 < (rest.take ask).length := List.length_pos_of_ne_nil hpiece
      have hshort : (rest.take ask).length ≤ rest.length := List.length_take_le' _ _
      have hself : rest.take (rest.take ask).length = rest.take ask := by
        rw [List.length_take, ← List.take_eq_take_min]
      rw [List.flatten_cons, ih _ (by rw [List.length_drop]; omega) _ _ rfl]
      rcases remaining with _ | r
      · simp only [Option.map_none, Option.getD_none, List.take_length, ← hlength]
        have hsplit := List.take_append_drop (rest.take ask).length rest
        rwa [hself] at hsplit
      · have hr : (rest.take ask).length ≤ r := by
          rw [List.length_take]
          exact (Nat.min_le_left _ _).trans hle
        simp only [Option.map_some, Option.getD_some]
        have hsplit := List.take_add (l := rest) (i := (rest.take ask).length)
          (j := r - (rest.take ask).length)
        rw [hself, Nat.add_sub_cancel' hr] at hsplit
        exact hsplit.symm

/-! ## What a client gets -/

/-- The last byte of a range that starts at a byte of the blob. -/
def lastByte (size : Nat) (stop : Option Nat) : Nat :=
  (stop.map (min · (size - 1))).getD (size - 1)

/-- The answer is the bytes `first..last` of the blob, and its headers say so. -/
structure Answer.Part (answer : Answer) (content : Bytes) (first last : Nat) : Prop where
  ordered : first ≤ last
  inside : last < content.length
  status : answer.status = 206
  body : answer.body.flatten = (content.take (last + 1)).drop first
  contentRange : answer.contentRange =
    some ("bytes " ++ toString first ++ "-" ++ toString last ++ "/" ++ toString content.length)
  contentLength : answer.contentLength = some (toString answer.body.flatten.length)

/-- The answer is the whole blob. -/
structure Answer.Whole (answer : Answer) (content : Bytes) (size : Option Nat) : Prop where
  status : answer.status = 200
  body : answer.body.flatten = content
  contentRange : answer.contentRange = none
  contentLength : answer.contentLength = size.map toString

/-- The answer says that the range is outside the blob. -/
structure Answer.Outside (answer : Answer) (content : Bytes) : Prop where
  status : answer.status = 416
  body : answer.body = []
  contentRange : answer.contentRange = some ("bytes */" ++ toString content.length)

theorem parseRange_ordered {header : Option String} {start : Nat} {stop : Option Nat}
    (h : parseRange header = some (start, stop)) : ∀ s ∈ stop, start ≤ s := by
  simp only [parseRange, Option.bind_eq_bind] at h
  obtain ⟨spec, -, h⟩ := Option.bind_eq_some_iff.mp h
  split at h
  · simp at h
  obtain ⟨start', -, h⟩ := Option.bind_eq_some_iff.mp h
  obtain ⟨stop', -, h⟩ := Option.bind_eq_some_iff.mp h
  split at h
  · simp at h
  next hordered =>
  obtain ⟨rfl, rfl⟩ : start'.toNat = start ∧ stop'.map Int.toNat = stop := by simpa using h
  intro s hs
  obtain ⟨s', rfl, rfl⟩ := Option.map_eq_some_iff.mp hs
  simp only [Bool.or_eq_true, decide_eq_true_eq, Option.any_some, not_or, not_lt] at hordered
  exact Int.toNat_le_toNat hordered.2

theorem flatten_iterFile {chunk : Nat} (hchunk : 0 < chunk) (content : Bytes) :
    (iterFile chunk content).flatten = content := by
  rw [iterFile, flatten_readLoop hchunk]
  simp

theorem flatten_iterFile_range {chunk : Nat} (hchunk : 0 < chunk) (content : Bytes)
    {first last : Nat} (hordered : first ≤ last) :
    (iterFile chunk content first (some last)).flatten = (content.take (last + 1)).drop first := by
  rw [iterFile, flatten_readLoop hchunk, List.drop_take]
  simp only [Option.map_some, Option.getD_some]
  congr 1
  omega

theorem clamp_eq {size start : Nat} (h : start < size) (stop : Option Nat) :
    clamp size stop = (lastByte size stop : Int) := by
  rcases stop with _ | stop
  · simp only [clamp, lastByte, Option.map_none, Option.getD_none]
    omega
  · simp only [clamp, lastByte, Option.map_some, Option.getD_some]
    split <;> omega

theorem lastByte_lt {size start : Nat} (h : start < size) (stop : Option Nat) :
    lastByte size stop < size := by
  rcases stop with _ | stop
  · simp only [lastByte, Option.map_none, Option.getD_none]
    omega
  · simp only [lastByte, Option.map_some, Option.getD_some]
    omega

theorem le_lastByte {size start : Nat} (h : start < size) {stop : Option Nat}
    (hstop : ∀ s ∈ stop, start ≤ s) : start ≤ lastByte size stop := by
  rcases stop with _ | stop
  · simp only [lastByte, Option.map_none, Option.getD_none]
    omega
  · have := hstop stop rfl
    simp only [lastByte, Option.map_some, Option.getD_some]
    omega

/-- A range with a byte in the blob is opened, up to the last byte of it. -/
theorem openBlob_inside (chunk : Nat) {content : Bytes} {start : Nat} {stop : Option Nat}
    (h : start < content.length) (hstop : ∀ s ∈ stop, start ≤ s) :
    openBlob chunk (.stored content) (some (start, stop)) =
      .ok
        { chunks := iterFile chunk content start (some (lastByte content.length stop))
          size := some content.length
          range := some (start, lastByte content.length stop) } := by
  have hle := le_lastByte h hstop
  simp only [openBlob, clamp_eq h, Int.toNat_natCast]
  rw [if_neg]
  simp only [Bool.or_eq_true, decide_eq_true_eq]
  omega

/-- **Ranges of a blob**: of a blob in the store, a range that was read is answered by the
bytes it selects, or by 416 where it selects none, and a header that was not read by the whole
blob. A blob still to be fetched is answered whole, whatever the header. -/
theorem blob_answer {chunk : Nat} (hchunk : 0 < chunk) (header : Option String) :
    (∀ content start stop, parseRange header = some (start, stop) →
      (start < content.length →
        (getBlob chunk (.stored content) header).Part content start
          (lastByte content.length stop)) ∧
      (content.length ≤ start → (getBlob chunk (.stored content) header).Outside content)) ∧
    (∀ content, parseRange header = none →
      (getBlob chunk (.stored content) header).Whole content (some content.length)) ∧
    ∀ chunks expected,
      (getBlob chunk (.upstream chunks expected) header).Whole chunks.flatten expected := by
  refine ⟨fun content start stop hread => ⟨fun hinside => ?_, fun houtside => ?_⟩,
    fun content hread => ?_, fun chunks expected => ?_⟩
  · have hstop := parseRange_ordered hread
    have hordered := le_lastByte hinside hstop
    have hlast := lastByte_lt hinside stop
    have hbody := flatten_iterFile_range hchunk content hordered
    have hopen := openBlob_inside chunk hinside hstop
    have hanswer : getBlob chunk (.stored content) header =
        { status := 206
          contentRange := some ("bytes " ++ toString start ++ "-" ++
            toString (lastByte content.length stop) ++ "/" ++ toString content.length)
          contentLength := some (toString (lastByte content.length stop - start + 1))
          body := iterFile chunk content start (some (lastByte content.length stop)) } := by
      rw [getBlob, hread, hopen]
    rw [hanswer]
    refine ⟨hordered, hlast, rfl, hbody, rfl, ?_⟩
    have hlength : (lastByte content.length stop - start + 1) =
        ((content.take (lastByte content.length stop + 1)).drop start).length := by
      rw [List.length_drop, List.length_take, Nat.min_eq_left hlast]
      omega
    dsimp only
    rw [hbody, ← hlength]
  · have hopen : ∃ e : RegistryError, openBlob chunk (.stored content) (some (start, stop)) =
        .error e ∧ e.status = 416 ∧
          e.contentRange = some ("bytes */" ++ toString content.length) := by
      simp only [openBlob]
      rw [if_pos (by simp [houtside])]
      exact ⟨_, rfl, rfl, rfl⟩
    obtain ⟨e, hopen, hstatus, hrange⟩ := hopen
    have hanswer : getBlob chunk (.stored content) header =
        { status := e.status, contentRange := e.contentRange } := by
      rw [getBlob, hread, hopen]
    rw [hanswer]
    exact ⟨hstatus, rfl, hrange⟩
  · have hanswer : getBlob chunk (.stored content) header =
        { status := 200
          contentLength := some (toString content.length)
          body := iterFile chunk content } := by
      rw [getBlob, hread]
      rfl
    rw [hanswer]
    exact ⟨rfl, flatten_iterFile hchunk content, rfl, rfl⟩
  · exact ⟨rfl, rfl, rfl, rfl⟩

theorem blob_answer_two : (getBlob 2 (.stored [1, 2, 3, 4]) (some "bytes=1-9")).Part
    [1, 2, 3, 4] 1 3 :=
  ((blob_answer (by decide) (some "bytes=1-9")).1 [1, 2, 3, 4] 1 (some 9)
    (by decide +kernel)).1 (by decide)

/-- The first byte of a blob that is not in the store is answered by all of it. -/
theorem fetched_blob_whole :
    parseRange (some "bytes=0-0") = some (0, some 0) ∧
      (getBlob 2 (.upstream [[1, 2], [3]] (some 3)) (some "bytes=0-0")).status = 200 ∧
      (getBlob 2 (.upstream [[1, 2], [3]] (some 3)) (some "bytes=0-0")).body.flatten =
        [1, 2, 3] := by
  decide +kernel

end Minireg.Docker.BlobRanges
