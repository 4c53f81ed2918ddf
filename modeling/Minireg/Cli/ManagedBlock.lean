import Mathlib.Data.List.Infix
import Minireg.Lib.Blocks
import Minireg.Py.Text

/-!
# The managed block of a configuration file

`_upsert_lines` writes the lines of a tool between two marker lines of a file that belongs to the
user. It reads the file as text, where a carriage return is a line feed, so that files with other
line ends do not come back as they were; `upsertLines_iff` says that this is all that changes.
-/

namespace Minireg.Cli

open Py Lib.Blocks

/-! ## The code -/

/-- `path.read_text()`, which knows every kind of line end. -/
def readText : List Char → List Char
  | [] => []
  | '\r' :: '\n' :: t => '\n' :: readText t
  | '\r' :: t => '\n' :: readText t
  | c :: t => c :: readText t

/-- `_markers`. -/
def markers (marker : String) : List Char × List Char :=
  ("# >>> ".toList ++ marker.toList ++ " >>>".toList,
   "# <<< ".toList ++ marker.toList ++ " <<<".toList)

/-- The line break that is cut out with a block. -/
def dropBreak : List Char → List Char
  | '\n' :: t => t
  | t => t

/-- `_without_block`. -/
def withoutBlock (existing : List Char) (marker : String) : List Char :=
  replaceBlocks (markers marker).1 (markers marker).2 [] dropBreak existing

/-- `"\n".join([begin, *lines, end])`. -/
def blockOf (lines : List String) (marker : String) : List Char :=
  ['\n'].intercalate ((markers marker).1 :: (lines.map String.toList ++ [(markers marker).2]))

/-- `"" if not existing or existing.endswith("\n") else "\n"`. -/
def separatorOf (existing : List Char) : List Char :=
  if existing = [] ∨ existing.getLast? = some '\n' then [] else ['\n']

/-- What `_upsert_lines` writes, of the bytes of the file as characters. -/
def upsertLines (file : List Char) (lines : List String) (marker : String) : List Char :=
  let block := blockOf lines marker
  let existing := readText file
  if hasSub (markers marker).1 existing ∧ hasSub (markers marker).2 existing then
    replaceBlocks (markers marker).1 (markers marker).2 block id existing
  else existing ++ (separatorOf existing ++ (block ++ ['\n']))

/-! ## What is to hold -/

/-- A text without the markers. -/
structure Unmarked (marker : String) (text : List Char) : Prop where
  begins : ¬ (markers marker).1 <:+: text
  ends : ¬ (markers marker).2 <:+: text

/-- A file is `pre` and `post`, around a block with `inner` between its markers, or without one. -/
structure Shape (marker : String) (file pre : List Char) (inner : Option (List Char))
    (post : List Char) : Prop where
  text : file = pre ++
    ((inner.map fun i => (markers marker).1 ++ (i ++ (markers marker).2)).getD [] ++ post)
  before : Unmarked marker pre
  inside : ∀ i ∈ inner, Unmarked marker i
  behind : Unmarked marker post
  fresh : inner = none → post = []

/-- What a user is told of the block: nothing else in the file changes. -/
structure Settles (marker : String) (file pre : List Char) (inner : Option (List Char))
    (post : List Char) (lines lines' : List String) : Prop where
  /-- Writing the same lines again changes nothing. -/
  again : upsertLines (upsertLines file lines marker) lines marker = upsertLines file lines marker
  /-- Of two writes the second one counts. -/
  last : upsertLines (upsertLines file lines marker) lines' marker = upsertLines file lines' marker
  /-- The block is there, once. -/
  once : ∃ pre' inner' post',
    Shape marker (upsertLines file lines marker) pre' (some inner') post' ∧
      (markers marker).1 ++ (inner' ++ (markers marker).2) = blockOf lines marker
  /-- What is around the block is what was around the one before, or all of the file. -/
  outside : upsertLines file lines marker =
    if inner.isSome then pre ++ (blockOf lines marker ++ post)
    else file ++ (separatorOf file ++ (blockOf lines marker ++ ['\n']))
  /-- And so is what is left where the block is cut out. -/
  cut : withoutBlock (upsertLines file lines marker) marker =
    withoutBlock file marker ++ if inner.isSome then [] else separatorOf file

/-- A marker is of one line, with its number signs in front only. -/
structure IsName (marker : String) : Prop where
  sign : '#' ∉ marker.toList
  feed : '\n' ∉ marker.toList
  carriage : '\r' ∉ marker.toList

section Text

variable {marker : String} {mark s t : List Char} {c : Char}

theorem hasSub_iff : hasSub s t = true ↔ s <:+: t := by
  unfold hasSub
  rw [List.any_eq_true]
  constructor
  · rintro ⟨u, hu, hstarts⟩
    exact (List.isPrefixOf_iff_prefix.mp hstarts).isInfix.trans ((List.mem_tails _ _).mp hu).isInfix
  · rintro ⟨a, b, rfl⟩
    refine ⟨s ++ b, (List.mem_tails _ _).mpr ⟨a, by simp⟩, ?_⟩
    exact List.isPrefixOf_iff_prefix.mpr (List.prefix_append _ _)

/-! ## Reading -/

theorem not_mem_readText (s : List Char) : '\r' ∉ readText s := by
  fun_induction readText s with
  | case1 => exact List.not_mem_nil
  | case2 t ih => simpa using ih
  | case3 t _ ih => simpa using ih
  | case4 c t _ hne ih => simpa [eq_comm] using ⟨hne, ih⟩

theorem readText_cons (hc : c ≠ '\r') (t : List Char) : readText (c :: t) = c :: readText t := by
  rw [readText]
  · exact fun _ hreturn => absurd hreturn hc
  · exact hc

/-- A text without carriage returns is read as it is. -/
theorem readText_append_left (h : '\r' ∉ s) (t : List Char) :
    readText (s ++ t) = s ++ readText t := by
  induction s with
  | nil => rfl
  | cons c s ih =>
    rw [List.mem_cons, not_or] at h
    rw [List.cons_append, readText_cons (Ne.symm h.1), ih h.2]
    rfl

theorem readText_eq_self (h : '\r' ∉ s) : readText s = s := by
  have hread := readText_append_left h []
  rwa [List.append_nil, readText, List.append_nil] at hread

/-- Line ends are read within each part, where the second does not begin with a line feed. -/
theorem readText_append (s : List Char) (hc : c ≠ '\n') (t : List Char) :
    readText (s ++ c :: t) = readText s ++ readText (c :: t) := by
  fun_induction readText s with
  | case1 => rfl
  | case2 s ih => rw [List.cons_append, List.cons_append, readText, ih, List.cons_append]
  | case3 s hs ih =>
    rw [List.cons_append, readText, ih, List.cons_append]
    intro u hu
    cases s with
    | nil => exact hc (List.cons.inj hu).1
    | cons d s => exact hs s (congrArg (· :: s) (List.cons.inj hu).1)
  | case4 d s _ hne ih => rw [List.cons_append, readText_cons hne, ih, List.cons_append]

theorem prefix_feed (hfeed : '\n' ∉ mark) (h : mark <+: '\n' :: s) : mark = [] := by
  cases mark with
  | nil => rfl
  | cons c mark =>
    rw [(List.cons_prefix_cons.mp h).1] at hfeed
    exact absurd List.mem_cons_self hfeed

theorem prefix_of_readText (hfeed : '\n' ∉ mark) (h : mark <+: readText s) : mark <+: s := by
  fun_induction readText s generalizing mark with
  | case1 => exact h
  | case2 t _ => exact prefix_feed hfeed h ▸ List.nil_prefix
  | case3 t _ _ => exact prefix_feed hfeed h ▸ List.nil_prefix
  | case4 c t _ _ ih =>
    cases mark with
    | nil => exact List.nil_prefix
    | cons d mark =>
      obtain ⟨rfl, hrest⟩ := List.cons_prefix_cons.mp h
      exact List.cons_prefix_cons.mpr ⟨rfl, ih (List.not_mem_of_not_mem_cons hfeed) hrest⟩

/-- What is read of a text has no mark that the text has not. -/
theorem infix_of_readText (hfeed : '\n' ∉ mark) (hne : mark ≠ []) (h : mark <:+: readText s) :
    mark <:+: s := by
  have hbroken {u : List Char} (hu : mark <:+: '\n' :: u) : mark <:+: u := by
    rcases List.infix_cons_iff.mp hu with hp | hi
    · exact absurd (prefix_feed hfeed hp) hne
    · exact hi
  fun_induction readText s with
  | case1 => exact h
  | case2 t ih => exact List.infix_cons (List.infix_cons (ih (hbroken h)))
  | case3 t _ ih => exact List.infix_cons (ih (hbroken h))
  | case4 c t hfirst hne' ih =>
    rcases List.infix_cons_iff.mp h with hp | hi
    · rw [← readText_cons hne'] at hp
      exact (prefix_of_readText hfeed hp).isInfix
    · exact List.infix_cons (ih hi)

end Text

/-! ## Files and their blocks -/

section Shapes

variable {marker : String} {file pre post s t : List Char} {inner : Option (List Char)}
  {lines lines' : List String}

theorem IsName.isMark (h : IsName marker) :
    IsMark '#' (markers marker).1 ∧ IsMark '#' (markers marker).2 := by
  have hsign := h.sign
  constructor
  · refine ⟨" >>> ".toList ++ marker.toList ++ " >>>".toList, rfl, ?_⟩
    simp [hsign]
  · refine ⟨" <<< ".toList ++ marker.toList ++ " <<<".toList, rfl, ?_⟩
    simp [hsign]

theorem IsName.markers_feed (h : IsName marker) :
    '\n' ∉ (markers marker).1 ∧ '\n' ∉ (markers marker).2 := by
  have hfeed := h.feed
  constructor <;> simp [markers, hfeed]

theorem IsName.markers_carriage (h : IsName marker) :
    '\r' ∉ (markers marker).1 ∧ '\r' ∉ (markers marker).2 := by
  have hcarriage := h.carriage
  constructor <;> simp [markers, hcarriage]

theorem Unmarked.read (hname : IsName marker) (h : Unmarked marker s) :
    Unmarked marker (readText s) where
  begins hi := h.begins (infix_of_readText hname.markers_feed.1 hname.isMark.1.ne_nil hi)
  ends hi := h.ends (infix_of_readText hname.markers_feed.2 hname.isMark.2.ne_nil hi)

/-- A line feed between two texts keeps the markers out. -/
theorem Unmarked.append_cons (hname : IsName marker) (hs : Unmarked marker s)
    (ht : Unmarked marker t) : Unmarked marker (s ++ '\n' :: t) where
  begins hi := (infix_of_append_cons hname.markers_feed.1 hname.isMark.1.ne_nil hi).elim
    hs.begins ht.begins
  ends hi := (infix_of_append_cons hname.markers_feed.2 hname.isMark.2.ne_nil hi).elim
    hs.ends ht.ends

theorem unmarked_nil (hname : IsName marker) : Unmarked marker [] where
  begins hi := hname.isMark.1.ne_nil (List.infix_nil.mp hi)
  ends hi := hname.isMark.2.ne_nil (List.infix_nil.mp hi)

/-- The lines of a block, between its markers. -/
def innerOf : List String → List Char
  | [] => ['\n']
  | line :: lines => '\n' :: (line.toList ++ innerOf lines)

theorem blockOf_eq (lines : List String) (marker : String) :
    blockOf lines marker = (markers marker).1 ++ (innerOf lines ++ (markers marker).2) := by
  have hrest (first : List Char) : ['\n'].intercalate
      (first :: (lines.map String.toList ++ [(markers marker).2])) =
        first ++ (innerOf lines ++ (markers marker).2) := by
    induction lines generalizing first with
    | nil =>
      rw [List.map_nil, List.nil_append, List.intercalate_cons_cons, List.intercalate_singleton]
      simp [innerOf]
    | cons line lines ih =>
      rw [List.map_cons, List.cons_append, List.intercalate_cons_cons, ih line.toList]
      simp [innerOf]
  exact hrest _

theorem unmarked_innerOf (hname : IsName marker)
    (hlines : ∀ line ∈ lines, Unmarked marker line.toList) : Unmarked marker (innerOf lines) := by
  have hrest (s : List Char) (hs : Unmarked marker s) : Unmarked marker (s ++ innerOf lines) := by
    induction lines generalizing s with
    | nil => exact hs.append_cons hname (unmarked_nil hname)
    | cons line lines ih =>
      exact hs.append_cons hname (ih (fun l hl => hlines l (List.mem_cons_of_mem _ hl)) _
        (hlines line List.mem_cons_self))
  exact hrest [] (unmarked_nil hname)

/-- A file with a block, as its parts. -/
theorem Shape.eq_some {i : List Char} (h : Shape marker file pre (some i) post) :
    file = pre ++ ((markers marker).1 ++ (i ++ ((markers marker).2 ++ post))) := by
  have htext := h.text
  rw [Option.map_some, Option.getD_some, List.append_assoc, List.append_assoc] at htext
  exact htext

theorem Shape.eq_none (h : Shape marker file pre none post) : file = pre ∧ post = [] := by
  have hpost := h.fresh rfl
  have htext := h.text
  rw [hpost, Option.map_none, Option.getD_none, List.append_nil, List.append_nil] at htext
  exact ⟨htext, hpost⟩

/-- A file that is read has the same shape. -/
theorem Shape.read (hname : IsName marker) (h : Shape marker file pre inner post) :
    Shape marker (readText file) (readText pre) (inner.map readText) (readText post) where
  text := by
    cases inner with
    | none =>
      obtain ⟨rfl, rfl⟩ := h.eq_none
      exact (List.append_nil _).symm
    | some i =>
      have hlead {mark : List Char} (hmark : IsMark '#' mark) (hcarriage : '\r' ∉ mark)
          (s t : List Char) : readText (s ++ (mark ++ t)) = readText s ++ (mark ++ readText t) := by
        rw [← readText_append_left hcarriage]
        obtain ⟨rest, rfl, -⟩ := hmark
        exact readText_append s (by decide) (rest ++ t)
      rw [h.eq_some, hlead hname.isMark.1 hname.markers_carriage.1,
        hlead hname.isMark.2 hname.markers_carriage.2]
      simp
  before := h.before.read hname
  inside i hi := by
    obtain ⟨j, hj, rfl⟩ := Option.map_eq_some_iff.mp hi
    exact (h.inside j hj).read hname
  behind := h.behind.read hname
  fresh hnone := by rw [h.fresh (Option.map_eq_none_iff.mp hnone)]; rfl

/-- The block is in the text, where there is one. -/
theorem Shape.hasSub_iff (h : Shape marker file pre inner post) :
    (hasSub (markers marker).1 file ∧ hasSub (markers marker).2 file) ↔ inner.isSome := by
  rw [Cli.hasSub_iff, Cli.hasSub_iff]
  cases inner with
  | none =>
    obtain ⟨rfl, -⟩ := h.eq_none
    exact iff_of_false (fun hboth => h.before.begins hboth.1) (by decide)
  | some i =>
    refine iff_of_true ⟨?_, ?_⟩ rfl
    · rw [h.eq_some]
      exact List.infix_append' _ _ _
    · rw [h.eq_some, ← List.append_assoc, ← List.append_assoc]
      exact List.infix_append' _ _ _

theorem unmarked_separatorOf (hname : IsName marker) (hs : Unmarked marker s) :
    Unmarked marker (s ++ separatorOf t) := by
  unfold separatorOf
  split
  · rwa [List.append_nil]
  · exact hs.append_cons hname (unmarked_nil hname)

/-- What is around the block that is written. -/
def around (file : List Char) (inner : Option (List Char)) (pre post : List Char) :
    List Char × List Char :=
  if inner.isSome then (readText pre, readText post)
  else (readText file ++ separatorOf (readText file), ['\n'])

/-- **What is written**: the block, with the file as it is read around it. -/
theorem Shape.upsertLines_eq (hname : IsName marker) (h : Shape marker file pre inner post)
    (lines : List String) : upsertLines file lines marker =
      (around file inner pre post).1 ++
        (blockOf lines marker ++ (around file inner pre post).2) := by
  have hread := h.read hname
  unfold upsertLines around
  dsimp only
  cases inner with
  | none =>
    rw [if_neg fun hboth => absurd (hread.hasSub_iff.mp hboth) (by decide), if_neg (by decide),
      List.append_assoc]
  | some i =>
    rw [if_pos (hread.hasSub_iff.mpr rfl), if_pos Option.isSome_some, hread.eq_some]
    exact replaceBlocks_one hname.isMark.1 hname.isMark.2 hread.before.begins
      (hread.inside _ rfl).ends hread.behind.begins

theorem Shape.unmarked_around (hname : IsName marker) (h : Shape marker file pre inner post) :
    Unmarked marker (around file inner pre post).1 ∧
      Unmarked marker (around file inner pre post).2 := by
  have hread := h.read hname
  unfold around
  cases inner with
  | none =>
    obtain ⟨rfl, -⟩ := h.eq_none
    exact ⟨unmarked_separatorOf hname hread.before,
      (unmarked_nil hname).append_cons hname (unmarked_nil hname)⟩
  | some i => exact ⟨hread.before, hread.behind⟩

theorem Shape.carriage_around (file : List Char) (inner : Option (List Char))
    (pre post : List Char) : '\r' ∉ (around file inner pre post).1 ∧
      '\r' ∉ (around file inner pre post).2 := by
  have hseparator : '\r' ∉ separatorOf (readText file) := by
    unfold separatorOf
    split <;> decide
  unfold around
  split
  · exact ⟨not_mem_readText _, not_mem_readText _⟩
  · exact ⟨fun hmem => (List.mem_append.mp hmem).elim (not_mem_readText _) hseparator,
      (by decide : '\r' ∉ ['\n'])⟩

/-- What is written has the block once, and can be written again. -/
theorem Shape.written (hname : IsName marker) (h : Shape marker file pre inner post)
    (hlines : ∀ line ∈ lines, Unmarked marker line.toList) :
    Shape marker (upsertLines file lines marker) (around file inner pre post).1
      (some (innerOf lines)) (around file inner pre post).2 where
  text := by
    rw [h.upsertLines_eq hname, blockOf_eq]
    rfl
  before := (h.unmarked_around hname).1
  inside _ hi := Option.some.inj hi ▸ unmarked_innerOf hname hlines
  behind := (h.unmarked_around hname).2
  fresh := by rintro ⟨⟩

/-- A second write puts its lines in the place of the first. -/
theorem Shape.upsertLines_upsertLines (hname : IsName marker)
    (h : Shape marker file pre inner post)
    (hlines : ∀ line ∈ lines, Unmarked marker line.toList) (lines' : List String) :
    upsertLines (upsertLines file lines marker) lines' marker = upsertLines file lines' marker := by
  obtain ⟨hpre, hpost⟩ := Shape.carriage_around file inner pre post
  have haround : around (upsertLines file lines marker) (some (innerOf lines))
      (around file inner pre post).1 (around file inner pre post).2 =
        around file inner pre post :=
    Prod.ext (readText_eq_self hpre) (readText_eq_self hpost)
  rw [(h.written hname hlines).upsertLines_eq hname, haround, h.upsertLines_eq hname lines']

theorem infix_of_dropBreak (h : s <:+: dropBreak t) : s <:+: t := by
  unfold dropBreak at h
  split at h
  · exact List.infix_cons h
  · exact h

/-- What is left where the block is cut out. -/
theorem Shape.withoutBlock_eq (hname : IsName marker) (h : Shape marker file pre inner post) :
    withoutBlock file marker = if inner.isSome then pre ++ dropBreak post else file := by
  unfold withoutBlock
  cases inner with
  | none =>
    obtain ⟨rfl, -⟩ := h.eq_none
    exact replaceBlocks_absent hname.isMark.1.ne_nil h.before.begins
  | some i =>
    rw [h.eq_some]
    exact replaceBlocks_one hname.isMark.1 hname.isMark.2 h.before.begins (h.inside i rfl).ends
      fun hi => h.behind.begins (infix_of_dropBreak hi)

/-- Without carriage returns the file around the block is as it was. -/
theorem Shape.around_eq (h : Shape marker file pre inner post) (hpre : '\r' ∉ pre)
    (hpost : '\r' ∉ post) : around file inner pre post =
      if inner.isSome then (pre, post) else (file ++ separatorOf file, ['\n']) := by
  unfold around
  cases inner with
  | none =>
    obtain ⟨rfl, -⟩ := h.eq_none
    rw [if_neg (by decide), if_neg (by decide), readText_eq_self hpre]
  | some i =>
    rw [if_pos Option.isSome_some, if_pos Option.isSome_some, readText_eq_self hpre,
      readText_eq_self hpost]

/-- Where the file around the block is as it was, there were no carriage returns: none is left. -/
theorem Shape.carriage_of_outside (hname : IsName marker) (h : Shape marker file pre inner post)
    (houtside : upsertLines file lines marker =
      if inner.isSome then pre ++ (blockOf lines marker ++ post)
      else file ++ (separatorOf file ++ (blockOf lines marker ++ ['\n']))) :
    '\r' ∉ pre ∧ '\r' ∉ post := by
  have hnone := Shape.carriage_around file inner pre post
  have hcount := congrArg (List.count '\r') houtside
  rw [h.upsertLines_eq hname, List.count_append, List.count_append,
    List.count_eq_zero.mpr hnone.1, List.count_eq_zero.mpr hnone.2] at hcount
  cases inner with
  | none =>
    obtain ⟨rfl, rfl⟩ := h.eq_none
    rw [if_neg (by decide), List.count_append, List.count_append, List.count_append] at hcount
    exact ⟨List.count_eq_zero.mp (by omega), List.not_mem_nil⟩
  | some i =>
    rw [if_pos Option.isSome_some, List.count_append, List.count_append] at hcount
    exact ⟨List.count_eq_zero.mp (by omega), List.count_eq_zero.mp (by omega)⟩

end Shapes

/-- **The managed block**, of a file with one block or none: what is around it stays as it is
exactly where that has no carriage return. The rest holds of every file: writing again changes
nothing, the last write counts, and the block is there once (`Settles`). -/
theorem upsertLines_iff (marker : String) (hname : IsName marker) (file pre : List Char)
    (inner : Option (List Char)) (post : List Char) (h : Shape marker file pre inner post)
    (lines lines' : List String) (hlines : ∀ line ∈ lines, Unmarked marker line.toList) :
    Settles marker file pre inner post lines lines' ↔ '\r' ∉ pre ∧ '\r' ∉ post := by
  constructor
  · exact fun hsettles => h.carriage_of_outside hname hsettles.outside
  · rintro ⟨hpre, hpost⟩
    have hwritten := h.written hname hlines
    have haround := h.around_eq hpre hpost
    refine ⟨h.upsertLines_upsertLines hname hlines lines,
      h.upsertLines_upsertLines hname hlines lines', ⟨_, _, _, hwritten, (blockOf_eq _ _).symm⟩,
      ?_, ?_⟩
    · rw [h.upsertLines_eq hname, haround]
      split
      · rfl
      · exact List.append_assoc _ _ _
    · rw [hwritten.withoutBlock_eq hname, haround, h.withoutBlock_eq hname,
        if_pos Option.isSome_some]
      split
      · exact (List.append_nil _).symm
      · exact List.append_nil _

/-! ## A file with other line ends -/

theorem isName_minireg : IsName "minireg" := by
  constructor <;> decide +kernel

/-- Every carriage return of an `.npmrc` is lost. -/
theorem upsertLines_carriage :
    upsertLines "audit=false\r\n".toList ["registry=http://a"] "minireg" =
        "audit=false\n# >>> minireg >>>\nregistry=http://a\n# <<< minireg <<<\n".toList ∧
      ¬ Settles "minireg" "audit=false\r\n".toList "audit=false\r\n".toList none []
        ["registry=http://a"] ["registry=http://a"] := by
  refine ⟨by decide +kernel, fun hsettles => ?_⟩
  exact absurd hsettles.outside (by decide +kernel)

/-- A file that ends without a line break. -/
theorem upsertLines_unterminated :
    Settles "minireg" "audit=false".toList "audit=false".toList none [] ["registry=http://a"]
        ["registry=http://b"] ↔ '\r' ∉ "audit=false".toList ∧ '\r' ∉ ([] : List Char) := by
  have hunmarked {s : String} (h : '#' ∉ s.toList) : Unmarked "minireg" s.toList := by
    constructor <;> exact fun hi => h (hi.subset (List.mem_cons_self))
  refine upsertLines_iff "minireg" isName_minireg _ _ none [] ⟨?_, ?_, ?_, ?_, ?_⟩ _ _ ?_
  · rfl
  · exact hunmarked (by decide +kernel)
  · rintro i ⟨⟩
  · exact unmarked_nil isName_minireg
  · exact fun _ => rfl
  · intro line hline
    obtain rfl := List.mem_singleton.mp hline
    exact hunmarked (by decide +kernel)

end Minireg.Cli
