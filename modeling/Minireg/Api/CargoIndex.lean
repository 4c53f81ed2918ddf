import Minireg.Api.Pages
import Minireg.Core.VersionOrder
import Minireg.Py.JsonText

/-!
# The sparse index, written and read

`render_index` writes one line of JSON for each version of a crate, and `_parse_index` reads such
a file of another registry. `orjson` is a parameter, of which `Orjson` says what any reader of JSON
does with a text. `parse_renderIndex_iff` says when what is read is what was written: where no text
of an entry has a character that ends a line and is not escaped.
-/

namespace Minireg.CargoIndex

open Py Lib Semver

/-- `orjson`: how it writes numbers, and what it reads. A document ends outside of its string
literals, and has backslashes in them only; where it has none, its texts are of its characters. -/
structure Orjson where
  numbers : Numbers
  loads : List Char → Option Json
  closed : ∀ s j, loads s = some j → Mode.outside.after s = .outside
  tidy : ∀ s j, loads s = some j → Mode.outside.Tidy s
  chars : ∀ s j, loads s = some j → '\\' ∉ s → j.chars ⊆ s

section Index

variable {V : Type} [LinearOrder V] (orjson : Orjson) (pypi : Pep440Order V) (order : RowOrder)
  (package : Package) (blocked : List String)

/-- `order_version_rows`. -/
def orderVersionRows (ecosystem : Ecosystem) (rows : List PackageVersion) :
    Except ValueError (List PackageVersion) := do
  let sorted ← sortVersionsFor pypi ecosystem (rows.map PackageVersion.version)
  return rows.insertionSort fun a b => sorted.idxOf a.version ≤ sorted.idxOf b.version

/-- `orjson.dumps(entry).decode()`. -/
def dumps (entry : List (String × Json)) : List Char := (Json.obj entry).dump orjson.numbers

/-- The entry of a version. -/
def entryOf (v : PackageVersion) : List (String × Json) :=
  renderIndexEntry order package v (v.version ∈ blocked)

/-- `render_index`. -/
def renderIndex : Except ValueError (List Char) := do
  let rows ← orderVersionRows pypi .cargo package.versions.rows
  let lines := rows.map fun v => dumps orjson (entryOf order package blocked v)
  return ['\n'].intercalate lines ++ if lines = [] then [] else ['\n']

/-- One turn of the loop of `_parse_index`. -/
def parseLine (line : List Char) : Option (List (String × Json)) :=
  let line := stripChars line
  if line = [] then none
  else
    match orjson.loads line with
    | some (.obj fields) => some fields
    | _ => none

/-- `_parse_index`. -/
def parseIndex (body : List Char) : List (List (String × Json)) :=
  (splitLines body).filterMap (parseLine orjson)

end Index

/-- No text of the entry has a character that ends a line and is not escaped. -/
def Unbroken (entry : List (String × Json)) : Prop :=
  ∀ c ∈ (Json.obj entry).chars, c ≠ '\u0085' ∧ c ≠ '\u2028' ∧ c ≠ '\u2029'

/-- The line breaks that are not escaped. -/
theorem isLineBreak_iff {c : Char} (h : 0x20 ≤ c.toNat) :
    isLineBreak c = true ↔ c = '\u0085' ∨ c = '\u2028' ∨ c = '\u2029' := by
  have hchar : ∀ d : Char, c = d ↔ c.toNat = d.toNat := fun d => Char.toNat_inj.symm
  rw [hchar, hchar, hchar]
  have h1 : '\u0085'.toNat = 0x85 := rfl
  have h2 : '\u2028'.toNat = 0x2028 := rfl
  have h3 : '\u2029'.toNat = 0x2029 := rfl
  simp only [isLineBreak, h1, h2, h3, Bool.or_eq_true, Bool.and_eq_true, decide_eq_true_eq,
    beq_iff_eq]
  omega

variable {V : Type} [LinearOrder V] {orjson : Orjson} {pypi : Pep440Order V} {order : RowOrder}
  {package : Package} {blocked : List String} {entry fields : List (String × Json)}
  {line piece : List Char} {c : Char}

/-! ## The lines -/

theorem dumps_written (entry : List (String × Json)) :
    Written (Json.obj entry).chars (dumps orjson entry) := Json.dump_written _

/-- A line break in a line is one that is not escaped. -/
theorem mem_chars_of_break (hc : c ∈ dumps orjson entry) (hbreak : isLineBreak c = true) :
    c ∈ (Json.obj entry).chars ∧ 0x20 ≤ c.toNat := by
  obtain ⟨e, he, rfl⟩ := Mode.mem_reads .outside hc
  exact ((dumps_written entry).breaks e he hbreak).2

theorem unbroken_iff : Unbroken entry ↔ ∀ c ∈ dumps orjson entry, isLineBreak c = false := by
  constructor
  · intro h c hc
    by_contra hbreak
    have hbreak := Bool.not_eq_false _ ▸ hbreak
    obtain ⟨hmem, hcontrol⟩ := mem_chars_of_break hc hbreak
    obtain ⟨h1, h2, h3⟩ := h c hmem
    rcases (isLineBreak_iff hcontrol).mp hbreak with hc | hc | hc
    · exact h1 hc
    · exact h2 hc
    · exact h3 hc
  · intro h c hc
    have hshown : Json.Unescaped c → isLineBreak c = false := fun hplain =>
      h c (Json.mem_dump hplain _ hc)
    refine ⟨?_, ?_, ?_⟩
    · rintro rfl
      exact absurd (hshown ⟨by decide, by decide, by decide⟩) (by decide)
    · rintro rfl
      exact absurd (hshown ⟨by decide, by decide, by decide⟩) (by decide)
    · rintro rfl
      exact absurd (hshown ⟨by decide, by decide, by decide⟩) (by decide)

theorem stripChars_between {a b : Char} (ha : isSpace a = false) (hb : isSpace b = false)
    (s : List Char) : stripChars (a :: (s ++ [b])) = a :: (s ++ [b]) := by
  unfold stripChars
  rw [List.dropWhile_cons_of_neg (by simp [ha])]
  rw [← List.cons_append, List.reverse_append, List.reverse_singleton, List.singleton_append,
    List.dropWhile_cons_of_neg (by simp [hb]), List.reverse_cons, List.reverse_reverse]

/-- A line without a break is read as it was written. -/
theorem parseLine_dumps (h : orjson.loads (dumps orjson entry) = some (.obj entry)) :
    parseLine orjson (dumps orjson entry) = some entry := by
  have hstrip : stripChars (dumps orjson entry) = dumps orjson entry :=
    stripChars_between (by decide) (by decide) _
  have hne : dumps orjson entry ≠ [] := List.cons_ne_nil _ _
  unfold parseLine
  rw [hstrip, if_neg hne, h]

/-! ## The pieces of a line -/

/-- What a text is cut into: the first piece up to a cut, the others behind one. -/
theorem splitOnP_pieces (p : Char → Bool) (s : List Char) :
    ∃ first rest, s.splitOnP p = first :: rest ∧
      (∃ tail, s = first ++ tail ∧ (tail = [] ∨ ∃ b t, tail = b :: t ∧ p b = true)) ∧
      (∀ piece ∈ rest, ∃ a b tail, s = a ++ b :: (piece ++ tail) ∧ p b = true) ∧
      ∀ piece ∈ first :: rest, ∀ c ∈ piece, p c = false := by
  induction s with
  | nil =>
    refine ⟨[], [], rfl, ⟨[], rfl, .inl rfl⟩, fun piece hpiece => absurd hpiece List.not_mem_nil, ?_⟩
    intro piece hpiece c hc
    rw [List.mem_singleton.mp hpiece] at hc
    exact absurd hc List.not_mem_nil
  | cons c s ih =>
    obtain ⟨first, rest, hsplit, ⟨tail, htail, hend⟩, hrest, hplain⟩ := ih
    rw [List.splitOnP_cons_eq_if_modifyHead, hsplit]
    by_cases hc : p c = true
    · rw [if_pos hc]
      refine ⟨[], first :: rest, rfl, ⟨c :: s, rfl, .inr ⟨c, s, rfl, hc⟩⟩, ?_, ?_⟩
      · intro piece hpiece
        rcases List.mem_cons.mp hpiece with rfl | hpiece
        · exact ⟨[], c, tail, by rw [List.nil_append, ← htail], hc⟩
        · obtain ⟨a, b, t, heq, hb⟩ := hrest piece hpiece
          exact ⟨c :: a, b, t, by rw [List.cons_append, ← heq], hb⟩
      · intro piece hpiece d hd
        rcases List.mem_cons.mp hpiece with rfl | hpiece
        · exact absurd hd List.not_mem_nil
        · exact hplain piece hpiece d hd
    · rw [if_neg hc]
      refine ⟨c :: first, rest, rfl, ⟨tail, by rw [List.cons_append, ← htail], hend⟩, ?_, ?_⟩
      · intro piece hpiece
        obtain ⟨a, b, t, heq, hb⟩ := hrest piece hpiece
        exact ⟨c :: a, b, t, by rw [List.cons_append, ← heq], hb⟩
      · intro piece hpiece d hd
        rcases List.mem_cons.mp hpiece with rfl | hpiece
        · rcases List.mem_cons.mp hd with rfl | hd
          · exact Bool.eq_false_iff.mpr hc
          · exact hplain first List.mem_cons_self d hd
        · exact hplain piece (List.mem_cons_of_mem _ hpiece) d hd

/-- A text is stripped of blanks. -/
theorem stripChars_split (s : List Char) : ∃ a b, s = a ++ (stripChars s ++ b) ∧
    (∀ c ∈ a, isSpace c = true) ∧ ∀ c ∈ b, isSpace c = true := by
  refine ⟨s.takeWhile isSpace, ((s.dropWhile isSpace).reverse.takeWhile isSpace).reverse, ?_,
    fun c hc => List.mem_takeWhile_imp hc, fun c hc => List.mem_takeWhile_imp (List.mem_reverse.mp hc)⟩
  unfold stripChars
  rw [← List.reverse_append, List.takeWhile_append_dropWhile, List.reverse_reverse,
    List.takeWhile_append_dropWhile]

theorem isPlain_of_isSpace {c : Char} (h : isSpace c = true) (hbreak : isLineBreak c = false) :
    IsPlain c := by
  refine ⟨?_, ?_, hbreak⟩
  · rintro rfl
    exact absurd h (by decide)
  · rintro rfl
    exact absurd h (by decide)

/-- A break in a line is in a literal. -/
theorem inside_of_break {a t : List Char} {b : Char} (hline : dumps orjson entry = a ++ b :: t)
    (hb : isLineBreak b = true) : Mode.outside.after a = .inside := by
  have hmem : (Mode.outside.after a, b) ∈ Mode.outside.reads (dumps orjson entry) := by
    rw [hline, Mode.reads_append]
    exact List.mem_append_right _ List.mem_cons_self
  exact ((dumps_written entry).breaks _ hmem hb).1

/-- **The pieces of a line** that is cut: what can be read in one is no entry with a break. The
first piece ends in a literal. A later one begins in a literal, so that its reader takes for
literals what is none, and finds no escape there. -/
theorem loads_piece {j : Json} (hbroken : ¬ ∀ c ∈ dumps orjson entry, isLineBreak c = false)
    (hpiece : piece ∈ (dumps orjson entry).splitOnP isLineBreak)
    (h : orjson.loads (stripChars piece) = some j) : ∀ c ∈ j.chars, isLineBreak c = false := by
  obtain ⟨first, rest, hsplit, ⟨tail, htail, hend⟩, hrest, hplain⟩ :=
    splitOnP_pieces isLineBreak (dumps orjson entry)
  rw [hsplit] at hpiece
  have hchars := hplain piece hpiece
  obtain ⟨lead, trail, hstrip, hlead, htrail⟩ := stripChars_split piece
  have hblank : ∀ c ∈ piece, isSpace c = true → IsPlain c := fun c hc hspace =>
    isPlain_of_isSpace hspace (hchars c hc)
  have hleadPlain : ∀ c ∈ lead, IsPlain c := fun c hc =>
    hblank c (by rw [hstrip]; exact List.mem_append_left _ hc) (hlead c hc)
  have htrailPlain : ∀ c ∈ trail, IsPlain c := fun c hc =>
    hblank c (by rw [hstrip]; exact List.mem_append_right _ (List.mem_append_right _ hc))
      (htrail c hc)
  rcases List.mem_cons.mp hpiece with rfl | hpiece
  · exfalso
    rcases hend with rfl | ⟨b, t, rfl, hb⟩
    · rw [List.append_nil] at htail
      exact hbroken fun c hc => hchars c (htail ▸ hc)
    have hinside := inside_of_break htail hb
    rw [hstrip, Mode.after_append, Mode.after_plain (by decide) hleadPlain, Mode.after_append,
      orjson.closed _ _ h, Mode.after_plain (by decide) htrailPlain] at hinside
    cases hinside
  · obtain ⟨a, b, t, hline, hb⟩ := hrest piece hpiece
    have hinside := inside_of_break hline hb
    have hnext : Mode.inside.next b = .inside := by
      refine Mode.next_inside ?_ ?_
      · rintro rfl
        exact absurd hb (by decide)
      · rintro rfl
        exact absurd hb (by decide)
    have htidy : Mode.inside.Tidy (piece ++ t) := by
      have hall : Mode.outside.Tidy (dumps orjson entry) := (dumps_written entry).tidy
      rw [hline] at hall
      have hright := hall.right.cons
      rwa [hinside, hnext] at hright
    have hflip : Mode.inside.Tidy (stripChars piece) := by
      have hleft := htidy.left
      rw [hstrip] at hleft
      have hright := hleft.right
      rw [Mode.after_plain (by decide) hleadPlain] at hright
      exact hright.left
    have hslash : '\\' ∉ stripChars piece := hflip.flip (orjson.tidy _ _ h)
    intro c hc
    refine hchars c ?_
    rw [hstrip]
    exact List.mem_append_right _ (List.mem_append_left _ (orjson.chars _ _ h hslash hc))

/-! ## The file -/

theorem carriageReturn_not_mem : '\r' ∉ dumps orjson entry := fun h =>
  absurd (mem_chars_of_break h (by decide)).2 (by decide)

/-- The lines of a file are read each on its own. -/
theorem parseIndex_lines (entries : List (List (String × Json))) :
    parseIndex orjson (entries.flatMap fun entry => dumps orjson entry ++ ['\n']) =
      entries.flatMap fun entry =>
        ((dumps orjson entry).splitOnP isLineBreak).filterMap (parseLine orjson) := by
  unfold parseIndex
  induction entries with
  | nil => rfl
  | cons entry entries ih =>
    rw [List.flatMap_cons, List.flatMap_cons, List.append_assoc, List.singleton_append,
      splitLines_append carriageReturn_not_mem, List.filterMap_append, ih]

theorem intercalate_lines (lines : List (List Char)) :
    ['\n'].intercalate lines ++ (if lines = [] then [] else ['\n']) =
      lines.flatMap fun line => line ++ ['\n'] := by
  induction lines with
  | nil => rfl
  | cons line lines ih =>
    rw [if_neg (List.cons_ne_nil _ _), List.flatMap_cons, ← ih]
    cases lines with
    | nil => simp
    | cons next lines =>
      rw [List.intercalate_cons_cons, if_neg (List.cons_ne_nil _ _)]
      simp

/-- What one line gives, where it is cut, has no break. -/
theorem unbroken_of_cut (hbroken : ¬ ∀ c ∈ dumps orjson entry, isLineBreak c = false)
    (hpiece : piece ∈ (dumps orjson entry).splitOnP isLineBreak)
    (hparse : parseLine orjson piece = some fields) : Unbroken fields := by
  have hobject : orjson.loads (stripChars piece) = some (.obj fields) := by
    unfold parseLine at hparse
    dsimp only at hparse
    split at hparse
    · cases hparse
    rcases hj : orjson.loads (stripChars piece) with _ | j
    · rw [hj] at hparse
      cases hparse
    · rw [hj] at hparse
      cases j with
      | obj read => exact congrArg (some <| Json.obj ·) (Option.some.inj hparse)
      | _ => cases hparse
  refine (unbroken_iff : _ ↔ ∀ c ∈ dumps orjson fields, isLineBreak c = false).mpr ?_
  intro c hc
  by_contra hbreak
  have hbreak := Bool.not_eq_false _ ▸ hbreak
  rw [loads_piece hbroken hpiece hobject c (mem_chars_of_break hc hbreak).1] at hbreak
  cases hbreak

/-- The lines that are read are those that were written where none of them is cut. -/
theorem parse_lines_iff {entries : List (List (String × Json))}
    (hloads : ∀ entry ∈ entries, orjson.loads (dumps orjson entry) = some (.obj entry)) :
    parseIndex orjson (entries.flatMap fun entry => dumps orjson entry ++ ['\n']) = entries ↔
      ∀ entry ∈ entries, Unbroken entry := by
  rw [parseIndex_lines]
  constructor
  · intro heq entry hentry
    -- the entry is read in some line, which then has no break, or the entry has none
    have hread := hentry
    rw [← heq] at hread
    obtain ⟨source, hsource, hpieces⟩ := List.mem_flatMap.mp hread
    obtain ⟨piece, hpiece, hparse⟩ := List.mem_filterMap.mp hpieces
    by_cases hwhole : ∀ c ∈ dumps orjson source, isLineBreak c = false
    · rw [List.splitOnP_eq_singleton hwhole] at hpiece
      rw [List.mem_singleton.mp hpiece, parseLine_dumps (hloads source hsource)] at hparse
      rw [← Option.some.inj hparse]
      exact unbroken_iff.mpr hwhole
    · exact unbroken_of_cut hwhole hpiece hparse
  · intro hall
    have hlines : ∀ entry ∈ entries,
        ((dumps orjson entry).splitOnP isLineBreak).filterMap (parseLine orjson) = [entry] := by
      intro entry hentry
      rw [List.splitOnP_eq_singleton (unbroken_iff.mp (hall entry hentry)),
        List.filterMap_cons_some (parseLine_dumps (hloads entry hentry)), List.filterMap_nil]
    clear hloads hall
    induction entries with
    | nil => rfl
    | cons entry entries ih =>
      rw [List.flatMap_cons, hlines entry List.mem_cons_self,
        ih fun e he => hlines e (List.mem_cons_of_mem _ he)]
      rfl

/-- The versions of a crate can be put in order. -/
theorem orderVersionRows_ok (hwidth : ∀ v ∈ package.versions.rows, v.version.length ≤ 128) :
    ∃ rows, orderVersionRows pypi .cargo package.versions.rows = .ok rows ∧
      rows.Perm package.versions.rows := by
  have hplaced : ∀ a ∈ package.versions.rows.map PackageVersion.version,
      HasPlace pypi .cargo a := by
    intro a ha
    obtain ⟨v, hv, rfl⟩ := List.mem_map.mp ha
    have hkey : Returns (semverKey v.version) := (parse_returns ((hwidth v hv).trans (by decide))).map
    exact (placed_semver (by decide)).mpr hkey.exists_ok
  obtain ⟨sorted, hsorted⟩ := sortVersionsFor_returns_iff.mpr hplaced
  unfold orderVersionRows
  rw [hsorted]
  exact ⟨_, rfl, List.perm_insertionSort _ _⟩

/-- **The sparse index**, written and read. What is read is the entries that were written exactly
where no text of an entry has an unescaped line break. -/
theorem parse_renderIndex_iff (orjson : Orjson) (pypi : Pep440Order V) (order : RowOrder)
    (package : Package) (blocked : List String)
    (hwidth : ∀ v ∈ package.versions.rows, v.version.length ≤ 128)
    (horjson : ∀ v ∈ package.versions.rows,
      orjson.loads (dumps orjson (entryOf order package blocked v)) =
        some (.obj (entryOf order package blocked v))) :
    ∃ rows text, orderVersionRows pypi .cargo package.versions.rows = .ok rows ∧
      rows.Perm package.versions.rows ∧
      renderIndex orjson pypi order package blocked = .ok text ∧
      (parseIndex orjson text = rows.map (entryOf order package blocked) ↔
        ∀ v ∈ package.versions.rows, Unbroken (entryOf order package blocked v)) := by
  obtain ⟨rows, hrows, hperm⟩ : ∃ rows, orderVersionRows pypi .cargo package.versions.rows =
      .ok rows ∧ rows.Perm package.versions.rows := orderVersionRows_ok hwidth
  have hloads : ∀ entry ∈ rows.map (entryOf order package blocked),
      orjson.loads (dumps orjson entry) = some (.obj entry) := by
    intro entry hentry
    obtain ⟨v, hv, rfl⟩ := List.mem_map.mp hentry
    exact horjson v (hperm.mem_iff.mp hv)
  have hrender : renderIndex orjson pypi order package blocked =
      .ok ((rows.map (entryOf order package blocked)).flatMap fun entry =>
        dumps orjson entry ++ ['\n']) := by
    unfold renderIndex
    rw [hrows]
    change Except.ok _ = _
    rw [intercalate_lines, List.flatMap_map, List.flatMap_map]
  refine ⟨rows, _, hrows, hperm, hrender, ?_⟩
  rw [parse_lines_iff hloads, List.forall_mem_map]
  exact forall_congr' fun v => by rw [hperm.mem_iff]

/-! ## A crate with a line separator -/

/-- Numbers as one digit, for documents without any. -/
def zeroNumbers : Numbers where
  int _ := ['0']
  float _ := ['0']
  int_plain _ := plain_of_all (by decide)
  float_plain _ := plain_of_all (by decide)

/-- A reader that knows one text. -/
def knownText (entry : List (String × Json))
    (hshown : (Json.obj entry).chars ⊆ (Json.obj entry).dump zeroNumbers) : Orjson where
  numbers := zeroNumbers
  loads s := if s = (Json.obj entry).dump zeroNumbers then some (.obj entry) else none
  closed s j h := by
    split at h
    · next hs => exact hs ▸ (Json.dump_written _).closed
    · cases h
  tidy s j h := by
    split at h
    · next hs => exact hs ▸ (Json.dump_written _).tidy
    · cases h
  chars s j h _ := by
    split at h
    · next hs => exact Option.some.inj h ▸ hs ▸ hshown
    · cases h

/-- A crate with one version, and a text in its metadata. -/
def linkedCrate (text : String) : Package where
  ecosystem := .cargo
  name := "demo"
  normalizedName := "demo"
  versions := ⟨[{ version := "1.0.0", normalizedVersion := "1.0.0"
                  metadataJson := [("links", .str text)] }], List.nodup_singleton _⟩

/-- What the index has of it. -/
def linkedEntry (text : String) : List (String × Json) :=
  [("links", .str text), ("name", .str "demo"), ("vers", .str "1.0.0"), ("cksum", .str ""),
   ("deps", .arr []), ("features", .obj []), ("yanked", .bool false)]

def plainJson : Orjson := knownText (linkedEntry "openssl") (by decide +kernel)

def separatorJson : Orjson := knownText (linkedEntry "open\u2028ssl") (by decide +kernel)

def noVersions : Pep440Order Nat := { version := fun _ => none, version_empty := rfl }

/-- The line of the crate is cut in two, neither of which can be read. -/
theorem separator_loses_entry :
    separatorJson.loads (dumps separatorJson (linkedEntry "open\u2028ssl")) =
        some (.obj (linkedEntry "open\u2028ssl")) ∧
      orderVersionRows noVersions .cargo (linkedCrate "open\u2028ssl").versions.rows =
        .ok (linkedCrate "open\u2028ssl").versions.rows ∧
      (linkedCrate "open\u2028ssl").versions.rows.map
          (entryOf storedOrder (linkedCrate "open\u2028ssl") []) = [linkedEntry "open\u2028ssl"] ∧
      (renderIndex separatorJson noVersions storedOrder (linkedCrate "open\u2028ssl") []).map
        (parseIndex separatorJson) = .ok [] := by
  refine ⟨?_, ?_, ?_, ?_⟩ <;> decide +kernel

/-- Without the separator it is read as it was written. -/
theorem plain_keeps_entry :
    ∃ rows text, orderVersionRows noVersions .cargo (linkedCrate "openssl").versions.rows =
        .ok rows ∧
      rows.Perm (linkedCrate "openssl").versions.rows ∧
      renderIndex plainJson noVersions storedOrder (linkedCrate "openssl") [] = .ok text ∧
      (parseIndex plainJson text = rows.map (entryOf storedOrder (linkedCrate "openssl") []) ↔
        ∀ v ∈ (linkedCrate "openssl").versions.rows,
          Unbroken (entryOf storedOrder (linkedCrate "openssl") [] v)) := by
  have hentry : ∀ v ∈ (linkedCrate "openssl").versions.rows,
      entryOf storedOrder (linkedCrate "openssl") [] v = linkedEntry "openssl" := by decide +kernel
  refine parse_renderIndex_iff plainJson noVersions storedOrder _ [] (by decide +kernel) ?_
  intro v hv
  rw [hentry v hv]
  have hread (entry) (hshown : (Json.obj entry).chars ⊆ (Json.obj entry).dump zeroNumbers) :
      (knownText entry hshown).loads (dumps (knownText entry hshown) entry) = some (.obj entry) :=
    if_pos rfl
  exact hread _ _

end Minireg.CargoIndex
