import Mathlib.Data.List.Basic
import Minireg.Docker.Access

/-!
# What stands behind `/v2/`

Names have slashes in them, so a path is read from its end. `parseV2Path` tries the patterns in
their order; `parseV2Path_iff` says that the order decides nothing but for `blobs/uploads`: every
path is of one endpoint, one name and one reference, and has the spellings listed here.
-/

namespace Minireg.Docker

open Py Access

inductive V2Path where
  | base
  | catalog
  | token
  | named (endpoint : Endpoint) (name : String) (reference : Option String)
  deriving DecidableEq, Repr

/-! ## Patterns -/

/-- A character that may stand at the end, and is left out there. -/
def optional (c : Char) (s : List Char) : List Char :=
  if s.getLast? = some c then s.dropLast else s

/-- `$` admits a newline behind it. -/
def beforeEnd (path : List Char) : List Char := optional '\n' path

/-- `(?P<name>.+)`. -/
def isSpan (name : List Char) : Bool := name ≠ [] && '\n' ∉ name

/-- `[^/]+`. -/
def isSegment (ref : List Char) : Bool := ref ≠ [] && '/' ∉ ref

/-- `[A-Za-z0-9-]+`. -/
def isSessionId (ref : List Char) : Bool :=
  ref ≠ [] && ref.all fun c =>
    ('A' ≤ c && c ≤ 'Z') || ('a' ≤ c && c ≤ 'z') || ('0' ≤ c && c ≤ '9') || c = '-'

/-- What stands before the last slash and what stands behind it. -/
def lastSlash (path : List Char) : Option (List Char × List Char) :=
  if '/' ∈ path then
    some (((path.reverse.dropWhile (· ≠ '/')).drop 1).reverse,
      (path.reverse.takeWhile (· ≠ '/')).reverse)
  else none

/-- `(?P<name>.+)` and a marker. -/
def spanBefore (marker path : List Char) : Option String :=
  ((path.dropSuffix? marker).filter fun name => isSpan name).map String.ofList

/-- `(?P<name>.+)`, a marker, a slash and `(?P<ref>...)`. -/
def refBehind (marker : List Char) (isRef : List Char → Bool) (path : List Char) :
    Option (String × String) :=
  (lastSlash path).bind fun (head, ref) =>
    if isRef ref then (spanBefore marker head).map fun name => (name, String.ofList ref) else none

def blobsMark : List Char := "/blobs".toList
def uploadsMark : List Char := "/blobs/uploads".toList
def manifestsMark : List Char := "/manifests".toList
def tagsMark : List Char := "/tags".toList
def referrersMark : List Char := "/referrers".toList

/-- The pattern of an endpoint. -/
def pattern (endpoint : Endpoint) (path : List Char) : Option V2Path :=
  let plain := fun (found : Option String) => found.map fun name =>
    V2Path.named endpoint name none
  let referring := fun (found : Option (String × String)) => found.map fun (name, ref) =>
    V2Path.named endpoint name (some ref)
  match endpoint with
  | .upload => plain (spanBefore uploadsMark (optional '/' (beforeEnd path)))
  | .uploadSession => referring (refBehind uploadsMark isSessionId (beforeEnd path))
  | .blob => referring (refBehind blobsMark isSegment path)
  | .manifest => referring (refBehind manifestsMark isSegment path)
  | .tags => plain (spanBefore (tagsMark ++ "/list".toList) (beforeEnd path))
  | .referrers => referring (refBehind referrersMark isSegment path)

/-- `_PATTERNS`, in their order. -/
def patterns : List Endpoint := [.upload, .uploadSession, .blob, .manifest, .tags, .referrers]

/-- `parse_v2_path`. -/
def parseV2Path (path : String) : Option V2Path :=
  if path = "" ∨ path = "/" then some .base
  else if path = "_catalog" then some .catalog
  else if path = "token" then some .token
  else patterns.findSome? fun endpoint => pattern endpoint path.toList

/-! ## Spellings -/

/-- What the reference of an endpoint is; a blob is not called like the uploads. -/
def HasRef (endpoint : Endpoint) (ref : Option String) : Prop :=
  match endpoint with
  | .upload | .tags => ref = none
  | .uploadSession => ∃ id, ref = some id ∧ isSessionId id.toList = true
  | .blob => ∃ digest, ref = some digest ∧ isSegment digest.toList = true ∧
      digest.toList ≠ "uploads".toList ∧ digest.toList ≠ "uploads\n".toList
  | .manifest | .referrers => ∃ segment, ref = some segment ∧ isSegment segment.toList = true

/-- A path that a request can have. -/
def V2Path.WellFormed : V2Path → Prop
  | .named endpoint name ref => isSpan name.toList = true ∧ HasRef endpoint ref
  | _ => True

/-- What stands before and behind the last slash of the paths of an endpoint. -/
def endings (endpoint : Endpoint) (ref : Option String) : List (List Char × List Char) :=
  let ref := (ref.getD "").toList
  match endpoint with
  | .upload =>
    [(blobsMark, "uploads".toList), (blobsMark, "uploads\n".toList), (uploadsMark, []),
      (uploadsMark, ['\n'])]
  | .uploadSession => [(uploadsMark, ref), (uploadsMark, ref ++ ['\n'])]
  | .blob => [(blobsMark, ref)]
  | .manifest => [(manifestsMark, ref)]
  | .tags => [(tagsMark, "list".toList), (tagsMark, "list\n".toList)]
  | .referrers => [(referrersMark, ref)]

/-- The ways to write a path. -/
def V2Path.spellings : V2Path → List String
  | .base => ["", "/"]
  | .catalog => ["_catalog"]
  | .token => ["token"]
  | .named endpoint name ref =>
    (endings endpoint ref).map fun (mark, rest) => name ++ String.ofList (mark ++ '/' :: rest)

/-! ## Reading from the end -/

theorem optional_eq_iff {c : Char} {s t : List Char} (ht : t.getLast? ≠ some c) :
    optional c s = t ↔ s = t ∨ s = t ++ [c] := by
  unfold optional
  split
  · next hlast =>
    obtain ⟨front, rfl⟩ := List.getLast?_eq_some_iff.mp hlast
    rw [List.dropLast_concat]
    constructor
    · rintro rfl
      exact .inr rfl
    · rintro (rfl | h)
      · exact absurd hlast ht
      · exact List.append_cancel_right h
  · next hlast =>
    constructor
    · exact .inl
    · rintro (rfl | rfl)
      · rfl
      · exact absurd (List.getLast?_concat) hlast

theorem lastSlash_iff {path head ref : List Char} :
    lastSlash path = some (head, ref) ↔ path = head ++ '/' :: ref ∧ '/' ∉ ref := by
  unfold lastSlash
  constructor
  · intro h
    split at h
    · next hmem =>
      obtain ⟨rfl, rfl⟩ := Prod.mk.inj (Option.some.inj h)
      have hne : path.reverse.dropWhile (· ≠ '/') ≠ [] := fun hnil => by
        have hall := List.dropWhile_eq_nil_iff.mp hnil '/' (List.mem_reverse.mpr hmem)
        exact absurd hall (by decide)
      obtain ⟨c, rest, hdrop⟩ := List.exists_cons_of_ne_nil hne
      have hc : c = '/' := by
        have hhead := List.head?_dropWhile_not (fun c : Char => decide (c ≠ '/')) path.reverse
        rw [hdrop] at hhead
        simpa using hhead
      subst hc
      refine ⟨?_, fun hslash => ?_⟩
      · rw [hdrop, List.drop_one, List.tail_cons]
        calc path = path.reverse.reverse := (List.reverse_reverse path).symm
          _ = (path.reverse.takeWhile (· ≠ '/') ++ '/' :: rest).reverse := by
            rw [← hdrop, List.takeWhile_append_dropWhile]
          _ = rest.reverse ++ '/' :: (path.reverse.takeWhile (· ≠ '/')).reverse := by
            rw [List.reverse_append, List.reverse_cons, List.append_assoc, List.singleton_append]
      · have hall := List.all_eq_true.mp (List.all_takeWhile (p := fun c : Char => decide (c ≠ '/'))
          (l := path.reverse)) '/' (List.mem_reverse.mp hslash)
        exact absurd hall (by decide)
    · cases h
  · rintro ⟨rfl, hslash⟩
    have hne : ∀ c ∈ ref.reverse, decide (c ≠ '/') = true := fun c hc =>
      decide_eq_true fun heq => hslash (heq ▸ List.mem_reverse.mp hc)
    rw [if_pos (List.mem_append_right _ List.mem_cons_self), List.reverse_append,
      List.reverse_cons, List.append_assoc, List.dropWhile_append_of_pos hne,
      List.takeWhile_append_of_pos hne]
    simp

theorem spanBefore_iff {marker path : List Char} {name : String} :
    spanBefore marker path = some name ↔ path = name.toList ++ marker ∧ isSpan name.toList := by
  unfold spanBefore
  constructor
  · intro h
    obtain ⟨found, hfound, rfl⟩ := Option.map_eq_some_iff.mp h
    obtain ⟨hdrop, hspan⟩ := Option.filter_eq_some_iff.mp hfound
    obtain ⟨s, rfl, hs⟩ := List.dropSuffix?_eq_some_iff.mp hdrop
    rw [String.toList_ofList, eq_of_beq hs]
    exact ⟨rfl, hspan⟩
  · rintro ⟨rfl, hspan⟩
    have hdrop : (name.toList ++ marker).dropSuffix? marker = some name.toList :=
      List.dropSuffix?_eq_some_iff.mpr ⟨marker, rfl, beq_self_eq_true _⟩
    rw [hdrop, Option.filter_some, if_pos hspan]
    exact congrArg some String.ofList_toList

theorem refBehind_iff {marker path : List Char} {isRef : List Char → Bool} {name ref : String}
    (hslash : isRef ref.toList = true → '/' ∉ ref.toList) :
    refBehind marker isRef path = some (name, ref) ↔
      path = name.toList ++ marker ++ '/' :: ref.toList ∧ isSpan name.toList ∧
        isRef ref.toList = true := by
  unfold refBehind
  constructor
  · intro h
    obtain ⟨⟨head, found⟩, hlast, hfound⟩ := Option.bind_eq_some_iff.mp h
    obtain ⟨rfl, -⟩ := lastSlash_iff.mp hlast
    dsimp only at hfound
    split at hfound
    · next href =>
      obtain ⟨found', hspan, heq⟩ := Option.map_eq_some_iff.mp hfound
      obtain ⟨rfl, rfl⟩ := Prod.mk.inj heq
      obtain ⟨rfl, hname⟩ := spanBefore_iff.mp hspan
      rw [String.toList_ofList]
      exact ⟨rfl, hname, href⟩
    · cases hfound
  · rintro ⟨rfl, hname, href⟩
    have hspan : spanBefore marker (name.toList ++ marker) = some name :=
      spanBefore_iff.mpr ⟨rfl, hname⟩
    rw [lastSlash_iff.mpr ⟨rfl, hslash href⟩, Option.bind_some]
    dsimp only
    rw [if_pos href, hspan, Option.map_some, String.ofList_toList]

/-! ## One endpoint -/

/-- What may stand behind the last slash of a path, and the mark before it. -/
def EndsIn (endpoint : Endpoint) (mark rest : List Char) (ref : Option String) : Prop :=
  match endpoint with
  | .upload => ref = none ∧
      ((mark = blobsMark ∧ (rest = "uploads".toList ∨ rest = "uploads\n".toList)) ∨
        (mark = uploadsMark ∧ (rest = [] ∨ rest = ['\n'])))
  | .uploadSession => mark = uploadsMark ∧ ∃ id, ref = some id ∧ isSessionId id.toList = true ∧
      (rest = id.toList ∨ rest = id.toList ++ ['\n'])
  | .blob => mark = blobsMark ∧ ref = some (String.ofList rest) ∧ isSegment rest = true
  | .manifest => mark = manifestsMark ∧ ref = some (String.ofList rest) ∧ isSegment rest = true
  | .tags => mark = tagsMark ∧ ref = none ∧ (rest = "list".toList ∨ rest = "list\n".toList)
  | .referrers => mark = referrersMark ∧ ref = some (String.ofList rest) ∧ isSegment rest = true

theorem isSegment_slash {ref : List Char} (h : isSegment ref = true) : '/' ∉ ref := by
  unfold isSegment at h
  simp only [Bool.and_eq_true, decide_eq_true_eq] at h
  exact h.2

theorem isSessionId_all {ref : List Char} (h : isSessionId ref = true) {c : Char} (hc : c ∈ ref) :
    c ≠ '/' ∧ c ≠ '\n' := by
  unfold isSessionId at h
  have hall := List.all_eq_true.mp (Bool.and_eq_true_iff.mp h).2 c hc
  constructor
  · rintro rfl
    exact absurd hall (by decide)
  · rintro rfl
    exact absurd hall (by decide)

theorem isSessionId_slash {ref : List Char} (h : isSessionId ref = true) : '/' ∉ ref :=
  fun hmem => (isSessionId_all h hmem).1 rfl

theorem isSessionId_ne {ref : List Char} (h : isSessionId ref = true) : ref ≠ [] := by
  unfold isSessionId at h
  exact of_decide_eq_true (Bool.and_eq_true_iff.mp h).1

theorem EndsIn.slash {endpoint : Endpoint} {mark rest : List Char} {ref : Option String}
    (h : EndsIn endpoint mark rest ref) : '/' ∉ rest := by
  cases endpoint with
  | upload =>
    obtain ⟨-, ⟨-, rfl | rfl⟩ | ⟨-, rfl | rfl⟩⟩ := h <;> decide
  | uploadSession =>
    obtain ⟨-, id, -, hid, rfl | rfl⟩ := h
    · exact isSessionId_slash hid
    · intro hmem
      rcases List.mem_append.mp hmem with hmem | hmem
      · exact isSessionId_slash hid hmem
      · exact absurd (List.mem_singleton.mp hmem) (by decide)
  | tags =>
    obtain ⟨-, -, rfl | rfl⟩ := h <;> decide
  | blob => exact isSegment_slash h.2.2
  | manifest => exact isSegment_slash h.2.2
  | referrers => exact isSegment_slash h.2.2

theorem refBehind_segment {endpoint : Endpoint} {marker path : List Char} {p : V2Path} :
    ((refBehind marker isSegment path).map fun (name, ref) =>
      V2Path.named endpoint name (some ref)) = some p ↔
    ∃ name rest, p = .named endpoint name (some (String.ofList rest)) ∧
      isSpan name.toList = true ∧ path = name.toList ++ marker ++ '/' :: rest ∧
      isSegment rest = true := by
  constructor
  · intro h
    obtain ⟨⟨name, ref⟩, hfound, rfl⟩ := Option.map_eq_some_iff.mp h
    obtain ⟨hpath, hspan, href⟩ := (refBehind_iff isSegment_slash).mp hfound
    exact ⟨name, ref.toList, by rw [String.ofList_toList], hspan, hpath, href⟩
  · rintro ⟨name, rest, rfl, hspan, hpath, href⟩
    have hfound : refBehind marker isSegment path = some (name, String.ofList rest) := by
      refine (refBehind_iff isSegment_slash).mpr ?_
      rw [String.toList_ofList]
      exact ⟨hpath, hspan, href⟩
    rw [hfound]
    rfl

theorem spanBefore_plain {endpoint : Endpoint} {marker path : List Char} {p : V2Path} :
    ((spanBefore marker path).map fun name => V2Path.named endpoint name none) = some p ↔
    ∃ name, p = .named endpoint name none ∧ isSpan name.toList = true ∧
      path = name.toList ++ marker := by
  constructor
  · intro h
    obtain ⟨name, hfound, rfl⟩ := Option.map_eq_some_iff.mp h
    obtain ⟨hpath, hspan⟩ := spanBefore_iff.mp hfound
    exact ⟨name, rfl, hspan, hpath⟩
  · rintro ⟨name, rfl, hspan, hpath⟩
    rw [spanBefore_iff.mpr ⟨hpath, hspan⟩]
    rfl

theorem getLast?_append_ne {front back : List Char} {c : Char} (hback : back ≠ [])
    (h : back.getLast? ≠ some c) : (front ++ back).getLast? ≠ some c := by
  rw [List.getLast?_append]
  rcases hlast : back.getLast? with _ | d
  · exact absurd (List.getLast?_eq_none_iff.mp hlast) hback
  · rw [hlast] at h
    exact h

/-- What is matched up to a newline. -/
theorem beforeEnd_iff {path front back : List Char} (hback : back ≠ [])
    (h : back.getLast? ≠ some '\n') : beforeEnd path = front ++ back ↔
      path = front ++ back ∨ path = front ++ (back ++ ['\n']) := by
  rw [beforeEnd, optional_eq_iff (getLast?_append_ne hback h), List.append_assoc]

theorem uploads_iff {path name : List Char} :
    optional '/' (beforeEnd path) = name ++ uploadsMark ↔
      ∃ mark rest, path = name ++ mark ++ '/' :: rest ∧
        ((mark = blobsMark ∧ (rest = "uploads".toList ∨ rest = "uploads\n".toList)) ∨
          (mark = uploadsMark ∧ (rest = [] ∨ rest = ['\n']))) := by
  have hslash : (name ++ uploadsMark).getLast? ≠ some '/' :=
    getLast?_append_ne (by decide) (by decide)
  have hplain : ∀ rest : List Char, name ++ (uploadsMark ++ rest) =
      name ++ blobsMark ++ '/' :: ("uploads".toList ++ rest) := fun rest => by
    rw [List.append_assoc]
    rfl
  rw [optional_eq_iff hslash, List.append_assoc, beforeEnd_iff (by decide) (by decide),
    beforeEnd_iff (by decide) (by decide)]
  constructor
  · rintro ((rfl | rfl) | (rfl | rfl))
    · exact ⟨_, _, by simpa using hplain [], .inl ⟨rfl, .inl rfl⟩⟩
    · exact ⟨_, _, hplain ['\n'], .inl ⟨rfl, .inr rfl⟩⟩
    · exact ⟨_, _, (List.append_assoc _ _ _).symm, .inr ⟨rfl, .inl rfl⟩⟩
    · refine ⟨_, _, ?_, .inr ⟨rfl, .inr rfl⟩⟩
      rw [List.append_assoc, List.append_assoc]
      rfl
  · rintro ⟨mark, rest, rfl, ⟨rfl, rfl | rfl⟩ | ⟨rfl, rfl | rfl⟩⟩
    · exact .inl (.inl (by simpa using (hplain []).symm))
    · exact .inl (.inr (hplain ['\n']).symm)
    · exact .inr (.inl (List.append_assoc _ _ _))
    · refine .inr (.inr ?_)
      rw [List.append_assoc, List.append_assoc]
      rfl

/-- **What the pattern of an endpoint matches.** -/
theorem pattern_iff {endpoint : Endpoint} {path : List Char} {p : V2Path} :
    pattern endpoint path = some p ↔ ∃ name mark rest ref, p = .named endpoint name ref ∧
      isSpan name.toList = true ∧ path = name.toList ++ mark ++ '/' :: rest ∧
      EndsIn endpoint mark rest ref := by
  cases endpoint with
  | upload =>
    refine spanBefore_plain.trans ⟨?_, ?_⟩
    · rintro ⟨name, rfl, hspan, hpath⟩
      obtain ⟨mark, rest, rfl, hends⟩ := uploads_iff.mp hpath
      exact ⟨name, mark, rest, none, rfl, hspan, rfl, rfl, hends⟩
    · rintro ⟨name, mark, rest, ref, rfl, hspan, hpath, rfl, hends⟩
      exact ⟨name, rfl, hspan, uploads_iff.mpr ⟨mark, rest, hpath, hends⟩⟩
  | uploadSession =>
    have hback : ∀ name id : String, isSessionId id.toList = true →
        (beforeEnd path = name.toList ++ uploadsMark ++ '/' :: id.toList ↔
          path = name.toList ++ uploadsMark ++ '/' :: id.toList ∨
            path = name.toList ++ uploadsMark ++ '/' :: (id.toList ++ ['\n'])) :=
      fun name id hid => beforeEnd_iff (List.cons_ne_nil _ _) fun hlast => by
        rw [List.getLast?_cons, Option.some.injEq] at hlast
        rcases hid' : id.toList.getLast? with _ | c
        · exact isSessionId_ne hid (List.getLast?_eq_none_iff.mp hid')
        · rw [hid'] at hlast
          exact (isSessionId_all hid (List.mem_of_getLast? hid')).2 hlast
    constructor
    · intro h
      obtain ⟨⟨name, id⟩, hfound, rfl⟩ := Option.map_eq_some_iff.mp h
      obtain ⟨hpath, hspan, hid⟩ := (refBehind_iff isSessionId_slash).mp hfound
      rcases (hback name id hid).mp hpath with hpath | hpath
      · exact ⟨name, _, _, _, rfl, hspan, hpath, rfl, id, rfl, hid, .inl rfl⟩
      · exact ⟨name, _, _, _, rfl, hspan, hpath, rfl, id, rfl, hid, .inr rfl⟩
    · rintro ⟨name, mark, rest, ref, rfl, hspan, hpath, rfl, id, rfl, hid, hrest⟩
      have hfound : refBehind uploadsMark isSessionId (beforeEnd path) = some (name, id) := by
        refine (refBehind_iff isSessionId_slash).mpr ⟨(hback name id hid).mpr ?_, hspan, hid⟩
        rcases hrest with rfl | rfl
        · exact .inl hpath
        · exact .inr hpath
      exact congrArg (Option.map _) hfound
  | blob =>
    refine refBehind_segment.trans ⟨?_, ?_⟩
    · rintro ⟨name, rest, rfl, hspan, rfl, href⟩
      exact ⟨name, _, rest, _, rfl, hspan, rfl, rfl, rfl, href⟩
    · rintro ⟨name, mark, rest, ref, rfl, hspan, rfl, rfl, rfl, href⟩
      exact ⟨name, rest, rfl, hspan, rfl, href⟩
  | manifest =>
    refine refBehind_segment.trans ⟨?_, ?_⟩
    · rintro ⟨name, rest, rfl, hspan, rfl, href⟩
      exact ⟨name, _, rest, _, rfl, hspan, rfl, rfl, rfl, href⟩
    · rintro ⟨name, mark, rest, ref, rfl, hspan, rfl, rfl, rfl, href⟩
      exact ⟨name, rest, rfl, hspan, rfl, href⟩
  | tags =>
    refine spanBefore_plain.trans ⟨?_, ?_⟩
    · rintro ⟨name, rfl, hspan, hpath⟩
      rcases (beforeEnd_iff (by decide) (by decide)).mp hpath with rfl | rfl
      · exact ⟨name, tagsMark, _, none, rfl, hspan, (List.append_assoc _ _ _).symm, rfl, rfl,
          .inl rfl⟩
      · refine ⟨name, tagsMark, _, none, rfl, hspan, ?_, rfl, rfl, .inr rfl⟩
        rw [List.append_assoc, List.append_assoc]
        rfl
    · rintro ⟨name, mark, rest, ref, rfl, hspan, rfl, rfl, rfl, rfl | rfl⟩
      · refine ⟨name, rfl, hspan, (beforeEnd_iff (by decide) (by decide)).mpr (.inl ?_)⟩
        exact List.append_assoc _ _ _
      · refine ⟨name, rfl, hspan, (beforeEnd_iff (by decide) (by decide)).mpr (.inr ?_)⟩
        rw [List.append_assoc]
        rfl
  | referrers =>
    refine refBehind_segment.trans ⟨?_, ?_⟩
    · rintro ⟨name, rest, rfl, hspan, rfl, href⟩
      exact ⟨name, _, rest, _, rfl, hspan, rfl, rfl, rfl, href⟩
    · rintro ⟨name, mark, rest, ref, rfl, hspan, rfl, rfl, rfl, href⟩
      exact ⟨name, rest, rfl, hspan, rfl, href⟩

/-! ## All of them -/

/-- The mark of an endpoint that has one. -/
def markOf : Endpoint → List Char
  | .upload => []
  | .uploadSession => uploadsMark
  | .blob => blobsMark
  | .manifest => manifestsMark
  | .tags => tagsMark
  | .referrers => referrersMark

def marks : List (List Char) := [blobsMark, uploadsMark, manifestsMark, tagsMark, referrersMark]

theorem EndsIn.mark {endpoint : Endpoint} {mark rest : List Char} {ref : Option String}
    (h : EndsIn endpoint mark rest ref) (hupload : endpoint ≠ .upload) :
    mark = markOf endpoint := by
  cases endpoint with
  | upload => exact absurd rfl hupload
  | uploadSession => exact h.1
  | blob => exact h.1
  | manifest => exact h.1
  | tags => exact h.1
  | referrers => exact h.1

theorem markOf_injective {e e' : Endpoint} (h : markOf e = markOf e') : e = e' := by
  cases e <;> cases e' <;> first | rfl | exact absurd h (by decide)

theorem EndsIn.mem_marks {endpoint : Endpoint} {mark rest : List Char} {ref : Option String}
    (h : EndsIn endpoint mark rest ref) : mark ∈ marks := by
  by_cases hupload : endpoint = .upload
  · subst hupload
    obtain ⟨-, ⟨rfl, -⟩ | ⟨rfl, -⟩⟩ := h <;> decide
  · rw [h.mark hupload]
    cases endpoint <;> first | exact absurd rfl hupload | decide

/-- No mark ends another one. -/
theorem marks_apart {head a b : List Char} (ha : a ∈ marks) (hb : b ∈ marks) (hah : a <:+ head)
    (hbh : b <:+ head) : a = b := by
  have hall : ∀ a ∈ marks, ∀ b ∈ marks, a <:+ b → a = b := by decide
  rcases Nat.le_total a.length b.length with hle | hle
  · exact hall a ha b hb (List.suffix_of_suffix_length_le hah hbh hle)
  · exact (hall b hb a ha (List.suffix_of_suffix_length_le hbh hah hle)).symm

/-- A path has one name, one mark and one rest. -/
theorem parts_unique {name name' mark mark' rest rest' : List Char} (hmark : mark ∈ marks)
    (hmark' : mark' ∈ marks) (hrest : '/' ∉ rest) (hrest' : '/' ∉ rest')
    (h : name ++ mark ++ '/' :: rest = name' ++ mark' ++ '/' :: rest') :
    name = name' ∧ mark = mark' ∧ rest = rest' := by
  have hlast : lastSlash (name ++ mark ++ '/' :: rest) = some (name ++ mark, rest) :=
    lastSlash_iff.mpr ⟨rfl, hrest⟩
  obtain ⟨hhead, rfl⟩ := Prod.mk.inj
    (Option.some.inj (hlast.symm.trans (lastSlash_iff.mpr ⟨h, hrest'⟩)))
  obtain rfl : mark = mark' := marks_apart hmark hmark' (List.suffix_append name mark)
    (hhead ▸ List.suffix_append name' mark')
  exact ⟨List.append_cancel_right hhead, rfl, rfl⟩

/-- A blob is not called like the uploads, which are asked about before. -/
def NotUploads (endpoint : Endpoint) (rest : List Char) : Prop :=
  endpoint = .blob → rest ≠ "uploads".toList ∧ rest ≠ "uploads\n".toList

theorem EndsIn.unique {e e' : Endpoint} {mark rest : List Char} {ref ref' : Option String}
    (h : EndsIn e mark rest ref) (h' : EndsIn e' mark rest ref') (hupload : e ≠ .upload)
    (hapart : NotUploads e rest) : e' = e := by
  have hmark := h.mark hupload
  by_cases hupload' : e' = .upload
  · subst hupload'
    obtain ⟨-, ⟨hblobs, hrest⟩ | ⟨huploads, hrest⟩⟩ := h'
    · obtain rfl : e = .blob := markOf_injective (hmark.symm.trans hblobs)
      rcases hrest with hrest | hrest
      · exact absurd hrest (hapart rfl).1
      · exact absurd hrest (hapart rfl).2
    · obtain rfl : e = .uploadSession := markOf_injective (hmark.symm.trans huploads)
      obtain ⟨-, id, -, hid, hid'⟩ := h
      obtain ⟨c, hc⟩ := List.exists_mem_of_ne_nil _ (isSessionId_ne hid)
      have hmem : c ∈ rest := by
        rcases hid' with rfl | rfl
        · exact hc
        · exact List.mem_append_left _ hc
      rcases hrest with rfl | rfl
      · cases hmem
      · exact absurd (List.mem_singleton.mp hmem) (isSessionId_all hid hc).2
  · exact markOf_injective ((h'.mark hupload').symm.trans hmark)

/-- The ways that a path can be named. -/
def ReadAs (path : List Char) (p : V2Path) : Prop :=
  ∃ endpoint name mark rest ref, p = .named endpoint name ref ∧ isSpan name.toList = true ∧
    path = name.toList ++ mark ++ '/' :: rest ∧ EndsIn endpoint mark rest ref ∧
    NotUploads endpoint rest

theorem patterns_iff {path : List Char} {p : V2Path} :
    patterns.findSome? (fun endpoint => pattern endpoint path) = some p ↔ ReadAs path p := by
  constructor
  · intro h
    obtain ⟨endpoint, -, hmatch⟩ := List.exists_of_findSome?_eq_some h
    obtain ⟨name, mark, rest, ref, hp, hspan, hpath, hends⟩ := pattern_iff.mp hmatch
    refine ⟨endpoint, name, mark, rest, ref, hp, hspan, hpath, hends, ?_⟩
    rintro rfl
    have hupload : ∀ rest', rest' = "uploads".toList ∨ rest' = "uploads\n".toList →
        rest ≠ rest' := by
      rintro rest' hrest' rfl
      have hfirst : pattern .upload path = some (.named .upload name none) :=
        pattern_iff.mpr ⟨name, mark, rest, none, rfl, hspan, hpath, rfl, .inl ⟨hends.1, hrest'⟩⟩
      rw [patterns, List.findSome?_cons, hfirst, hp] at h
      cases h
    exact ⟨hupload _ (.inl rfl), hupload _ (.inr rfl)⟩
  · rintro ⟨endpoint, name, mark, rest, ref, hp, hspan, hpath, hends, hapart⟩
    have hmatch : pattern endpoint path = some p :=
      pattern_iff.mpr ⟨name, mark, rest, ref, hp, hspan, hpath, hends⟩
    by_cases hupload : endpoint = .upload
    · subst hupload
      rw [patterns, List.findSome?_cons, hmatch]
    · rcases hfound : patterns.findSome? (fun endpoint => pattern endpoint path) with _ | q
      · have hnone := List.findSome?_eq_none_iff.mp hfound endpoint (by cases endpoint <;> decide)
        rw [hmatch] at hnone
        cases hnone
      · obtain ⟨e, -, he⟩ := List.exists_of_findSome?_eq_some hfound
        obtain ⟨name', mark', rest', ref', -, -, hpath', hends'⟩ := pattern_iff.mp he
        obtain ⟨-, rfl, rfl⟩ := parts_unique hends.mem_marks hends'.mem_marks hends.slash
          hends'.slash (hpath.symm.trans hpath')
        obtain rfl := hends.unique hends' hupload hapart
        exact he.symm.trans hmatch

/-! ## Spellings and readings -/

/-- A segment behind a mark. -/
theorem segment_iff {marker mark rest : List Char} {ref : Option String}
    (Fits : List Char → Prop) :
    (mark = marker ∧ ref = some (String.ofList rest) ∧ Fits rest) ↔
      (∃ segment, ref = some segment ∧ Fits segment.toList) ∧
        (mark, rest) ∈ [(marker, (ref.getD "").toList)] := by
  rw [List.mem_singleton, Prod.mk.injEq]
  constructor
  · rintro ⟨rfl, rfl, hfits⟩
    exact ⟨⟨_, rfl, by rwa [String.toList_ofList]⟩, rfl, String.toList_ofList.symm⟩
  · rintro ⟨⟨segment, rfl, hfits⟩, rfl, rfl⟩
    exact ⟨rfl, by rw [Option.getD_some, String.ofList_toList], hfits⟩

/-- What is read at the end of a path is one of its endings. -/
theorem ends_iff {endpoint : Endpoint} {mark rest : List Char} {ref : Option String} :
    EndsIn endpoint mark rest ref ∧ NotUploads endpoint rest ↔
      HasRef endpoint ref ∧ (mark, rest) ∈ endings endpoint ref := by
  have hother : endpoint ≠ .blob → (EndsIn endpoint mark rest ref ∧ NotUploads endpoint rest ↔
      EndsIn endpoint mark rest ref) := fun hne => and_iff_left fun heq => absurd heq hne
  cases endpoint with
  | upload =>
    rw [hother (by decide)]
    simp only [EndsIn, HasRef, endings, List.mem_cons, Prod.mk.injEq, List.not_mem_nil]
    tauto
  | uploadSession =>
    rw [hother (by decide)]
    simp only [EndsIn, HasRef, endings, List.mem_cons, Prod.mk.injEq, List.not_mem_nil, or_false]
    constructor
    · rintro ⟨rfl, id, rfl, hid, hrest⟩
      exact ⟨⟨id, rfl, hid⟩, hrest.imp (⟨rfl, ·⟩) (⟨rfl, ·⟩)⟩
    · rintro ⟨⟨id, rfl, hid⟩, ⟨rfl, hrest⟩ | ⟨rfl, hrest⟩⟩
      · exact ⟨rfl, id, rfl, hid, .inl hrest⟩
      · exact ⟨rfl, id, rfl, hid, .inr hrest⟩
  | blob =>
    have happly : NotUploads .blob rest ↔ rest ≠ "uploads".toList ∧ rest ≠ "uploads\n".toList :=
      ⟨fun h => h rfl, fun h _ => h⟩
    rw [happly]
    exact Iff.trans (by simp only [EndsIn, and_assoc]) (segment_iff fun rest =>
      isSegment rest = true ∧ rest ≠ "uploads".toList ∧ rest ≠ "uploads\n".toList)
  | manifest => exact (hother (by decide)).trans (segment_iff fun rest => isSegment rest = true)
  | tags =>
    rw [hother (by decide)]
    simp only [EndsIn, HasRef, endings, List.mem_cons, Prod.mk.injEq, List.not_mem_nil]
    tauto
  | referrers => exact (hother (by decide)).trans (segment_iff fun rest => isSegment rest = true)

/-- **The spellings are what is read.** -/
theorem reads_iff {path : String} {endpoint : Endpoint} {name : String} {ref : Option String} :
    ReadAs path.toList (.named endpoint name ref) ↔
      (V2Path.named endpoint name ref).WellFormed ∧
        path ∈ (V2Path.named endpoint name ref).spellings := by
  constructor
  · rintro ⟨e, name', mark, rest, ref', heq, hspan, hpath, hends⟩
    obtain ⟨rfl, rfl, rfl⟩ := V2Path.named.inj heq
    obtain ⟨href, hending⟩ := ends_iff.mp hends
    refine ⟨⟨hspan, href⟩, List.mem_map.mpr ⟨_, hending, String.toList_injective ?_⟩⟩
    rw [hpath, String.toList_append, String.toList_ofList, List.append_assoc]
  · rintro ⟨⟨hspan, href⟩, hpath⟩
    obtain ⟨⟨mark, rest⟩, hending, rfl⟩ := List.mem_map.mp hpath
    refine ⟨endpoint, name, mark, rest, ref, rfl, hspan, ?_, ends_iff.mpr ⟨href, hending⟩⟩
    rw [String.toList_append, String.toList_ofList, List.append_assoc]

/-- A path of a name has a slash inside. -/
theorem ReadAs.ne {path : String} {p : V2Path} (h : ReadAs path.toList p) :
    path ∉ V2Path.base.spellings ∧ path ∉ V2Path.catalog.spellings ∧
      path ∉ V2Path.token.spellings := by
  obtain ⟨endpoint, name, mark, rest, ref, -, hspan, hpath, -, -⟩ := h
  have hslash : '/' ∈ path.toList := by
    rw [hpath]
    exact List.mem_append_right _ List.mem_cons_self
  have hlong : path ≠ "/" := by
    rintro rfl
    have hlength := congrArg List.length hpath
    have hname : name.toList ≠ [] := by
      unfold isSpan at hspan
      exact of_decide_eq_true (Bool.and_eq_true_iff.mp hspan).1
    have hpos := List.length_pos_of_ne_nil hname
    rw [List.length_append, List.length_append, List.length_cons] at hlength
    have hone : "/".toList.length = 1 := rfl
    omega
  refine ⟨fun hmem => ?_, fun hmem => ?_, fun hmem => ?_⟩
  · rcases List.mem_cons.mp hmem with rfl | hmem
    · exact absurd hslash (by decide)
    · exact hlong (List.mem_singleton.mp hmem)
  · rw [List.mem_singleton.mp hmem] at hslash
    exact absurd hslash (by decide)
  · rw [List.mem_singleton.mp hmem] at hslash
    exact absurd hslash (by decide)

theorem parseV2Path_named {path : String} (hbase : path ∉ V2Path.base.spellings)
    (hcatalog : path ∉ V2Path.catalog.spellings) (htoken : path ∉ V2Path.token.spellings) :
    parseV2Path path = patterns.findSome? fun endpoint => pattern endpoint path.toList := by
  unfold parseV2Path
  rw [if_neg (by simpa [V2Path.spellings] using hbase),
    if_neg (by simpa [V2Path.spellings] using hcatalog),
    if_neg (by simpa [V2Path.spellings] using htoken)]

/-- **What a path means**: a path is of an endpoint, a name and a reference exactly where it is one
of their spellings. No two of them share a spelling, whatever the order of the patterns. -/
theorem parseV2Path_iff (path : String) (p : V2Path) :
    parseV2Path path = some p ↔ p.WellFormed ∧ path ∈ p.spellings := by
  have hnamed : ReadAs path.toList p ↔ ∃ endpoint name ref, p = .named endpoint name ref ∧
      p.WellFormed ∧ path ∈ p.spellings := by
    constructor
    · intro h
      have hread := h
      obtain ⟨endpoint, name, -, -, ref, rfl, -⟩ := h
      exact ⟨endpoint, name, ref, rfl, reads_iff.mp hread⟩
    · rintro ⟨endpoint, name, ref, rfl, h⟩
      exact reads_iff.mpr h
  constructor
  · intro h
    unfold parseV2Path at h
    split at h
    · next hbase =>
      obtain rfl := Option.some.inj h
      exact ⟨trivial, by simpa [V2Path.spellings] using hbase⟩
    split at h
    · next hcatalog =>
      obtain rfl := Option.some.inj h
      exact ⟨trivial, List.mem_singleton.mpr hcatalog⟩
    split at h
    · next htoken =>
      obtain rfl := Option.some.inj h
      exact ⟨trivial, List.mem_singleton.mpr htoken⟩
    · obtain ⟨-, -, -, -, hread⟩ := hnamed.mp (patterns_iff.mp h)
      exact hread
  · rintro ⟨hformed, hpath⟩
    cases p with
    | base =>
      unfold parseV2Path
      rw [if_pos (by simpa [V2Path.spellings] using hpath)]
    | catalog =>
      rw [List.mem_singleton.mp hpath]
      rfl
    | token =>
      rw [List.mem_singleton.mp hpath]
      rfl
    | named endpoint name ref =>
      have hread := reads_iff.mpr ⟨hformed, hpath⟩
      obtain ⟨hbase, hcatalog, htoken⟩ := hread.ne
      rw [parseV2Path_named hbase hcatalog htoken]
      exact patterns_iff.mpr hread

end Minireg.Docker
