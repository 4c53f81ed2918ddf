import Minireg.Core.Quote
import Minireg.Core.SemverPrint
import Minireg.Core.SemverText
import Minireg.Docker.BlobRanges
import Minireg.Docker.Paths
import Minireg.Lib.Paging
import Minireg.Py.Grouping

/-!
# Listings that are read page by page

The tags of a repository and the catalogue are listed behind a cursor, and a full page says in its
`Link` where to go on. A client follows that text: it is read here as the client and the server
read it. `tags_listed` and `catalog_listed` say what the client has in the end, although images
are pushed and deleted between its requests.
-/

namespace Minireg.Docker

open Py Lib Semver Access
open BlobRanges (intOf)

/-! ## Query parameters -/

section Params

-- what `unquote` makes of a text whose bytes are not UTF-8
variable (replace : String → String)

/-- A name or a value of a query. -/
def fieldText (s : List Char) : String :=
  let spaced := String.ofList (s.map fun c => if c = '+' then ' ' else c)
  (unquote spaced).getD (replace spaced)

/-- `request.query_params`. -/
def queryParams (query : List Char) : Dict String String :=
  Dict.ofPairs (((query.splitOn '&').filter (· ≠ [])).map fun field =>
    (fieldText replace (field.takeWhile (· ≠ '=')),
      fieldText replace ((field.dropWhile (· ≠ '=')).drop 1)))

end Params

/-- `_int_param`. -/
def intParam (params : Dict String String) (name : String) (default maximum : Nat) :
    Except ParseError Nat :=
  match params.get? name with
  | none => .ok default
  | some raw =>
    if raw = "" then .ok default
    else match intOf raw.toList with
      | some n => .ok (min n maximum).toNat
      | none => .error (.registry "UNSUPPORTED" ("invalid " ++ name))

/-- A value that is not empty. -/
def given (value : Option String) : Option String := value.filter (· ≠ "")

/-! ## The pages -/

/-- What an upstream answers that is asked for the tags of a repository. -/
inductive TagAnswer where
  | tags (tags : List String)
  | notFound
  | unavailable

/-- What a request finds: the accounts and the rows, and what is known of the upstreams' tags, by
the canonical name of the repository. -/
structure Moment (env : RoutingEnv) where
  state : RegistryState env
  presented : Presented
  mirror : Bool
  cached : String → Option (List String)
  answer : String → TagAnswer
  /-- `indexed_only`, by the id of the repository. -/
  indexedOnly : Nat → Bool

section Serve

variable {env : RoutingEnv}

/-- The first half of `list_tags`: the tags, in no order. -/
def knownTags (m : Moment env) (target : ImageTarget) (repo : Option DockerRepository) :
    Except ParseError (List String) := do
  let tags ←
    if target.isLocal then
      if repo.isNone then
        .error (.registry "NAME_UNKNOWN" ("repository " ++ target.canonical ++ " not found"))
      else .ok []
    else match m.cached target.canonical with
      | some tags => .ok tags
      | none => match m.answer target.canonical with
        | .tags tags => .ok tags
        | .notFound => .error (.registry "NAME_UNKNOWN"
            ("repository " ++ target.canonical ++ " not found upstream"))
        | .unavailable => .ok []
  match repo with
  | none => return tags
  | some repo =>
    let here := (m.state.db.tags.filter fun t => t.repositoryId = repo.id).map DockerTag.tag
    return (tags ++ here).dedup

/-- `list_tags`. -/
def listTags (m : Moment env) (target : ImageTarget) (repo : Option DockerRepository)
    (n : Option Nat) (last : Option String) : Except ParseError (List String) := do
  let tags ← knownTags m target repo
  let tags := tags.insertionSort (· ≤ ·)
  let tags := match given last with
    | some last => tags.filter fun t => last < t
    | none => tags
  return match n with
    | some n => tags.take n
    | none => tags

/-- `_check_quarantine`. -/
def checkQuarantine (ident : Access.RegistryIdentity) (repo : Option DockerRepository) :
    Except ParseError Unit :=
  match repo with
  | some repo =>
    if repo.quarantined && !ident.scanner then
      .error (.registry "DENIED" ("repository " ++ repo.name ++ " is quarantined" ++
        ((given repo.quarantineReason).map (": " ++ ·)).getD ""))
    else .ok ()
  | none => .ok ()

def linkText (path : String) (n : Nat) (last : String) : String :=
  "<" ++ path ++ "?n=" ++ toString n ++ "&last=" ++ quotePath last ++ ">; rel=\"next\""

/-- The repository whose tags a request may have. -/
def tagsOf (m : Moment env) (name : String) :
    Except ParseError (ImageTarget × Option DockerRepository) := do
  let ident ← m.state.resolveRegistryIdentity m.presented
  let target ← resolveTarget env m.state.upstreams.upstreams name m.mirror
  RegistryState.require env m.state.allowAnonymousRead ident name "pull" target
  let repo := repoNamed m.state.db target.canonical
  checkQuarantine ident repo
  return (target, repo)

/-- `GET /v2/<name>/tags/list`: the tags, and the `Link` of the answer. -/
def serveTags (m : Moment env) (name : String) (params : Dict String String) :
    Except ParseError (List String × Option String) := do
  let (target, repo) ← tagsOf m name
  let n ← match params.get? "n" with
    | some _ => (intParam params "n" 1000 10000).map some
    | none => .ok none
  let tags ← listTags m target repo n (params.get? "last")
  let link := match n with
    | some n =>
      if n ≠ 0 ∧ tags.length = n then
        tags.getLast?.map (linkText ("/v2/" ++ name ++ "/tags/list") n)
      else none
    | none => none
  return (tags, link)

variable {κ : Type} [LinearOrder κ] (collate : String → κ)

/-- The names that the catalogue has. -/
def catalogNames (m : Moment env) : List String :=
  (m.state.db.repositories.rows.filter fun r => !m.indexedOnly r.id).map DockerRepository.name

/-- `catalog`: the database compares names in its own order. -/
def catalog (m : Moment env) (n : Nat) (last : Option String) : List String :=
  let names := match given last with
    | some last => (catalogNames m).filter fun name => collate last < collate name
    | none => catalogNames m
  (names.insertionSort fun a b => collate a ≤ collate b).take n

/-- `_catalog`. -/
def serveCatalog (m : Moment env) (params : Dict String String) :
    Except ParseError (List String × Option String) := do
  let ident ← m.state.resolveRegistryIdentity m.presented
  if ident.anonymous then
    RegistryState.unauthorized "the catalogue requires a login"
  else
    let n ← intParam params "n" 100 1000
    let names := catalog collate m n (params.get? "last")
    let link := if names.length = n then names.getLast?.map (linkText "/v2/_catalog" n) else none
    return (names, link)

end Serve

/-! ## Following a link -/

section Follow

variable (replace : String → String)

/-- A request for a listing, with its query parameters. -/
inductive ListRequest where
  | catalog (params : Dict String String)
  | tags (name : String) (params : Dict String String)

/-- What the target of a request asks for, if it is a listing. -/
def requestOf (target : String) : Option ListRequest :=
  let path := target.toList.takeWhile (· ≠ '?')
  let params := queryParams replace ((target.toList.dropWhile (· ≠ '?')).drop 1)
  if "/v2/".toList.isPrefixOf path then
    let path := String.ofList (path.drop 4)
    match parseV2Path ((unquote path).getD (replace path)) with
    | some .catalog => some (.catalog params)
    | some (.named .tags name _) => some (.tags name params)
    | _ => none
  else none

/-- The request that a `Link` leads to: its target stands in angle brackets. -/
def followLink (link : String) : Option ListRequest :=
  requestOf replace (String.ofList ((link.toList.drop 1).takeWhile (· ≠ '>')))

/-- A character that a path is written with, not quoted. -/
def IsPathChar (c : Char) : Prop := isUnreserved c = true ∨ c = '/'

theorem IsPathChar.ne {c d : Char} (hd : ¬ IsPathChar d) (h : IsPathChar c) : c ≠ d := by
  rintro rfl
  exact hd h

instance (c : Char) : Decidable (IsPathChar c) := by
  unfold IsPathChar
  infer_instance

theorem pathChars_of_all {s : List Char} (h : s.all (fun c => isUnreserved c || c == '/') = true) :
    ∀ c ∈ s, IsPathChar c := fun c hc => by
  have hor := List.all_eq_true.mp h c hc
  exact (Bool.or_eq_true_iff.mp hor).imp_right eq_of_beq

theorem quotePathChar_plain {c : Char} (h : IsPathChar c) : quotePathChar c = [c] := by
  unfold quotePathChar
  split
  · rfl
  · next hslash => exact if_pos (h.resolve_right hslash)

theorem unquote_plain {s : List Char} (h : ∀ c ∈ s, IsPathChar c) :
    unquote (String.ofList s) = some (String.ofList s) := by
  have hsame : s.flatMap quotePathChar = s := by
    induction s with
    | nil => rfl
    | cons c s ih =>
      rw [List.flatMap_cons, quotePathChar_plain (h c List.mem_cons_self),
        ih fun d hd => h d (List.mem_cons_of_mem _ hd)]
      rfl
  have hread := unquote_path s []
  rwa [hsame, List.flatMap_nil, List.append_nil] at hread

/-- What a path is written with, quoted or not. -/
theorem mem_quotePath {s : String} {c : Char} (h : c ∈ (quotePath s).toList) :
    c = '%' ∨ IsPathChar c := by
  rw [quotePath_toList] at h
  obtain ⟨d, -, hc⟩ := List.mem_flatMap.mp h
  unfold quotePathChar at hc
  split at hc
  · next hslash => exact .inr (.inr (List.mem_singleton.mp hc ▸ hslash))
  · exact (mem_quoteChar hc).imp_right .inl

theorem spaced_eq {s : List Char} (h : '+' ∉ s) :
    s.map (fun c => if c = '+' then ' ' else c) = s := by
  refine (List.map_congr_left fun c hc => ?_).trans (List.map_id s)
  have hne : c ≠ '+' := fun heq => h (heq ▸ hc)
  exact if_neg hne

theorem fieldText_plain {s : List Char} (h : ∀ c ∈ s, IsPathChar c) :
    fieldText replace s = String.ofList s := by
  unfold fieldText
  dsimp only
  rw [spaced_eq fun hmem => absurd (h _ hmem) (by decide), unquote_plain h]
  rfl

theorem fieldText_quotePath (s : String) : fieldText replace (quotePath s).toList = s := by
  have hread := unquote_path s.toList []
  rw [List.flatMap_nil, List.append_nil, List.append_nil, ← quotePath_toList,
    String.ofList_toList, String.ofList_toList] at hread
  unfold fieldText
  dsimp only
  rw [spaced_eq fun hmem => absurd (mem_quotePath hmem) (by decide), String.ofList_toList, hread]
  rfl

/-! ### Its query -/

theorem digits_plain {n : Nat} {c : Char} (h : c ∈ (toString n).toList) : IsPathChar c := by
  have hdigit : c.isDigit = true := Nat.isDigit_of_mem_toDigits (by decide) (by decide)
    (Nat.toList_repr ▸ h)
  obtain ⟨hlow, hhigh⟩ : 48 ≤ c.val ∧ c.val ≤ 57 := by simpa [Char.isDigit] using hdigit
  have hrange : ('0' ≤ c && c ≤ '9') = true :=
    Bool.and_eq_true_iff.mpr ⟨decide_eq_true hlow, decide_eq_true hhigh⟩
  refine .inl ?_
  unfold isUnreserved
  rw [hrange]
  rfl

theorem splitOn_of_not_mem {a : Char} {s : List Char} (h : a ∉ s) : s.splitOn a = [s] :=
  List.splitOnP_eq_singleton fun _ hc => beq_false_of_ne fun heq => h (heq ▸ hc)

/-- The query of a link, as the server reads it. -/
theorem queryParams_link (n : Nat) (last : String) :
    queryParams replace ("n=".toList ++ (toString n).toList ++ '&' :: ("last=".toList ++
      (quotePath last).toList)) = [("n", toString n), ("last", last)] := by
  have hfirst : '&' ∉ "n=".toList ++ (toString n).toList := fun hmem => by
    rcases List.mem_append.mp hmem with hmem | hmem
    · exact absurd hmem (by decide)
    · exact absurd (digits_plain hmem) (by decide)
  have hsecond : '&' ∉ "last=".toList ++ (quotePath last).toList := fun hmem => by
    rcases List.mem_append.mp hmem with hmem | hmem
    · exact absurd hmem (by decide)
    · exact absurd (mem_quotePath hmem) (by decide)
  unfold queryParams
  rw [List.splitOn_append_cons_self, splitOn_of_not_mem hfirst, splitOn_of_not_mem hsecond]
  have hn : fieldText replace (toString n).toList = toString n := by
    rw [fieldText_plain replace fun c => digits_plain, String.ofList_toList]
  have hfields : ([("n=".toList ++ (toString n).toList)] ++
      ["last=".toList ++ (quotePath last).toList]).filter (· ≠ []) =
        ["n=".toList ++ (toString n).toList, "last=".toList ++ (quotePath last).toList] := rfl
  rw [hfields, List.map_cons, List.map_cons, List.map_nil]
  have hkeys : fieldText replace "n".toList = "n" ∧ fieldText replace "last".toList = "last" :=
    ⟨fieldText_plain replace (pathChars_of_all (by decide +kernel)),
      fieldText_plain replace (pathChars_of_all (by decide +kernel))⟩
  change Dict.ofPairs [(fieldText replace "n".toList, fieldText replace (toString n).toList),
    (fieldText replace "last".toList, fieldText replace (quotePath last).toList)] = _
  rw [hkeys.1, hkeys.2, hn, fieldText_quotePath]
  rfl

/-- **A number is read as it was written.** -/
theorem intOf_toString {n : Nat} (h : Short n) :
    intOf (toString n).toList = some (n : Int) := by
  have hdigits : (toString n).toList = Nat.toDigits 10 n := Nat.toList_repr
  have hall : ∀ c ∈ Nat.toDigits 10 n, c.isDigit = true := fun c hc =>
    Nat.isDigit_of_mem_toDigits (by decide) (by decide) hc
  have hdecimal : ∀ c ∈ Nat.toDigits 10 n, isDecimal c = true := fun c hc => by
    obtain ⟨hlow, hhigh⟩ : 48 ≤ c.toNat ∧ c.toNat ≤ 57 := by
      simpa [Char.isDigit, UInt32.le_iff_toNat_le] using hall c hc
    exact isDecimal_of_digit hlow hhigh
  have hstrip : stripChars (Nat.toDigits 10 n) = Nat.toDigits 10 n :=
    stripChars_eq_self fun c hc => isSpace_of_isDecimal (hdecimal c hc)
  have hunder : '_' ∉ Nat.toDigits 10 n := fun hmem => absurd (hall _ hmem) (by decide)
  have hread := pyInt_toDigits h
  have hne : Nat.toDigits 10 n ≠ [] := Nat.toDigits_ne_nil
  have hgroups : (([Nat.toDigits 10 n] : List (List Char)).all fun group =>
      group ≠ [] && group.all isDecimal) = true := by
    rw [List.all_cons, List.all_nil, Bool.and_true, List.all_eq_true.mpr hdecimal, Bool.and_true]
    exact decide_eq_true hne
  unfold intOf
  extract_lets text
  have htext : text = Nat.toDigits 10 n := by rw [← hstrip, ← hdigits]
  split
  next negative digits hsign =>
  rw [htext] at hsign
  obtain ⟨rfl, rfl⟩ : negative = false ∧ digits = Nat.toDigits 10 n := by
    split at hsign
    · next hminus => exact absurd (hall '-' (hminus ▸ List.mem_cons_self)) (by decide)
    · next hplus => exact absurd (hall '+' (hplus ▸ List.mem_cons_self)) (by decide)
    · obtain ⟨rfl, rfl⟩ := Prod.mk.inj hsign
      exact ⟨rfl, rfl⟩
  dsimp only
  rw [splitOn_of_not_mem hunder, if_pos hgroups, List.flatten_cons, List.flatten_nil,
    List.append_nil, hread]
  rfl

theorem intParam_link {n maximum : Nat} {name : String} {params : Dict String String}
    {default : Nat} (h : params.get? name = some (toString n)) (hn : n ≤ maximum)
    (hshort : Short n) : intParam params name default maximum = .ok n := by
  have hne : toString n ≠ "" := fun hempty => by
    have hdigits : Nat.toDigits 10 n = "".toList := by rw [← hempty]; exact Nat.toList_repr.symm
    exact absurd hdigits Nat.toDigits_ne_nil
  have hmin : (min (n : Int) maximum).toNat = n := by omega
  unfold intParam
  rw [h]
  dsimp only
  rw [if_neg hne, intOf_toString hshort]
  exact congrArg Except.ok hmin

/-- A text up to a character that it does not have. -/
theorem takeWhile_ne {c : Char} {s : List Char} (h : c ∉ s) (rest : List Char) :
    (s ++ c :: rest).takeWhile (· ≠ c) = s ∧ (s ++ c :: rest).dropWhile (· ≠ c) = c :: rest := by
  have hne : ∀ d ∈ s, decide (d ≠ c) = true := fun d hd =>
    decide_eq_true fun heq => h (heq ▸ hd)
  rw [List.takeWhile_append_of_pos hne, List.dropWhile_append_of_pos hne]
  simp

/-- **Where a link leads**: to the listing of its path, with its number and its cursor. -/
theorem followLink_linkText {path : String} (hpath : ∀ c ∈ path.toList, IsPathChar c) (n : Nat)
    (last : String) : followLink replace (linkText ("/v2/" ++ path) n last) =
      let params : Dict String String := [("n", toString n), ("last", last)]
      match parseV2Path path with
      | some .catalog => some (.catalog params)
      | some (.named .tags name _) => some (.tags name params)
      | _ => none := by
  let query := "n=".toList ++ (toString n).toList ++ '&' :: ("last=".toList ++
    (quotePath last).toList)
  have htext : (linkText ("/v2/" ++ path) n last).toList =
      '<' :: ("/v2/".toList ++ path.toList ++ '?' :: query ++ '>' :: "; rel=\"next\"".toList) := by
    unfold linkText
    simp [query]
  have hroot : ∀ c ∈ "/v2/".toList ++ path.toList, IsPathChar c := fun c hc => by
    rcases List.mem_append.mp hc with hc | hc
    · exact pathChars_of_all (by decide +kernel) c hc
    · exact hpath c hc
  have hquery : '>' ∉ query := fun hmem => by
    rcases List.mem_append.mp hmem with hmem | hmem
    · rcases List.mem_append.mp hmem with hmem | hmem
      · exact absurd hmem (by decide)
      · exact absurd (digits_plain hmem) (by decide)
    · rcases List.mem_cons.mp hmem with hmem | hmem
      · exact absurd hmem (by decide)
      · rcases List.mem_append.mp hmem with hmem | hmem
        · exact absurd hmem (by decide)
        · exact absurd (mem_quotePath hmem) (by decide)
  have hinside : '>' ∉ "/v2/".toList ++ path.toList ++ '?' :: query := fun hmem => by
    rcases List.mem_append.mp hmem with hmem | hmem
    · exact absurd (hroot _ hmem) (by decide)
    · rcases List.mem_cons.mp hmem with hmem | hmem
      · exact absurd hmem (by decide)
      · exact hquery hmem
  have hmark : '?' ∉ "/v2/".toList ++ path.toList := fun hmem =>
    absurd (hroot _ hmem) (by decide)
  have hprefix : "/v2/".toList.isPrefixOf ("/v2/".toList ++ path.toList) = true :=
    List.isPrefixOf_iff_prefix.mpr (List.prefix_append _ _)
  have hdrop : ("/v2/".toList ++ path.toList).drop 4 = path.toList := rfl
  unfold followLink
  rw [htext, List.drop_one, List.tail_cons, (takeWhile_ne hinside _).1]
  unfold requestOf
  rw [String.toList_ofList, (takeWhile_ne hmark _).1, (takeWhile_ne hmark _).2]
  dsimp only
  rw [if_pos hprefix, hdrop, unquote_plain hpath, String.ofList_toList, List.drop_one,
    List.tail_cons, queryParams_link]
  rfl

end Follow

/-! ## Names -/

theorem isLowerAlnum_unreserved {c : Char} (h : isLowerAlnum c = true) : isUnreserved c = true := by
  unfold isLowerAlnum at h
  unfold isUnreserved
  rcases Bool.or_eq_true_iff.mp h with h | h <;> rw [h] <;> simp

theorem NameState.next_plain {s t : NameState} {c : Char} (h : s.next c = some t) : IsPathChar c := by
  rw [NameState.next] at h
  split at h
  · next hc => exact .inl (isLowerAlnum_unreserved hc)
  split at h
  · next hc => exact .inr (of_decide_eq_true (Bool.and_eq_true_iff.mp hc).1)
  iterate 4
    split at h
    · next hc => exact of_decide_eq_true (Bool.and_eq_true_iff.mp hc).1 ▸ by decide
  · cases h

theorem plain_of_foldlM {l : List Char} {s t : NameState} (h : l.foldlM NameState.next s = some t) :
    ∀ c ∈ l, IsPathChar c := by
  induction l generalizing s with
  | nil => exact fun c hc => absurd hc List.not_mem_nil
  | cons d l ih =>
    rw [List.foldlM_cons] at h
    obtain ⟨s', hnext, hrest⟩ := Option.bind_eq_some_iff.mp h
    intro c hc
    rcases List.mem_cons.mp hc with rfl | hc
    · exact NameState.next_plain hnext
    · exact ih hrest c hc

theorem validName_plain {name : String} (h : validName name = true) :
    name.toList ≠ [] ∧ ∀ c ∈ name.toList, IsPathChar c := by
  have hne : name ≠ "" := ne_empty_of_validName h
  unfold validName nameRe at h
  refine ⟨fun hnil => hne (String.toList_injective hnil), ?_⟩
  exact plain_of_foldlM (of_decide_eq_true (Bool.and_eq_true_iff.mp h).2)

/-- The path of the tags of a name. -/
theorem parseV2Path_tags {name : String} (h : validName name = true) :
    parseV2Path (name ++ "/tags/list") = some (.named .tags name none) := by
  obtain ⟨hne, hplain⟩ := validName_plain h
  have hline : '\n' ∉ name.toList := fun hmem => absurd (hplain _ hmem) (by decide)
  have hspan : isSpan name.toList = true :=
    Bool.and_eq_true_iff.mpr ⟨decide_eq_true hne, decide_eq_true hline⟩
  exact (parseV2Path_iff _ _).mpr ⟨⟨hspan, rfl⟩, List.mem_map.mpr
    ⟨(tagsMark, "list".toList), List.mem_cons_self, rfl⟩⟩

/-! ## The server of a listing -/

section Listings

variable {env : RoutingEnv} {κ : Type} [LinearOrder κ] {collate : String → κ}

theorem given_some {value : Option String} {s : String} (h : value = some s) (hs : s ≠ "") :
    given value = some s := by
  rw [h]
  exact if_pos (decide_eq_true hs)

theorem intParam_le {params : Dict String String} {name : String} {default maximum n : Nat}
    (h : intParam params name default maximum = .ok n) (hdefault : default ≤ maximum) :
    n ≤ maximum := by
  unfold intParam at h
  split at h
  · exact Except.ok.inj h ▸ hdefault
  · split at h
    · exact Except.ok.inj h ▸ hdefault
    · split at h
      · obtain rfl := Except.ok.inj h
        omega
      · cases h

/-- What is behind the cursor, if there is one. -/
theorem filter_behind {κ : Type} [LinearOrder κ] (collate : String → κ) (last : Option String)
    (names : List String) :
    (match last with
      | some last => names.filter fun name => collate last < collate name
      | none => names) = names.filter fun name => Behind collate last name := by
  rcases last with _ | last
  · exact (List.filter_eq_self.mpr fun a _ => decide_eq_true fun c hc => by cases hc).symm
  · refine List.filter_congr fun a _ => decide_eq_decide.mpr ?_
    exact ⟨fun hlt c hc => Option.mem_some.mp hc ▸ hlt, fun hbehind => hbehind last rfl⟩

/-- What `list_tags` answers is a page. -/
theorem listTags_page {m : Moment env} {target : ImageTarget} {repo : Option DockerRepository}
    {n : Nat} {last : Option String} {shown : List String}
    (h : listTags m target repo (some n) last = .ok shown) :
    ∃ tags, knownTags m target repo = .ok tags ∧ shown = page id tags (given last) n := by
  obtain ⟨tags, htags, h⟩ := bind_ok h
  refine ⟨tags, htags, ?_⟩
  obtain rfl := Except.ok.inj h
  exact congrArg (List.take n) (filter_behind id (given last) _)

/-- What `catalog` answers is a page. -/
theorem catalog_page (hcollate : Function.Injective collate) {m : Moment env} {n : Nat}
    {last : Option String} :
    catalog collate m n last = page collate (catalogNames m) (given last) n := by
  have hfilter : (match given last with
      | some last => (catalogNames m).filter fun name => collate last < collate name
      | none => catalogNames m) = (catalogNames m).filter fun name =>
        Behind collate (given last) name := filter_behind collate (given last) _
  have hsorted : ((catalogNames m).filter fun name =>
      Behind collate (given last) name).insertionSort (fun a b => collate a ≤ collate b) =
        ((catalogNames m).insertionSort fun a b => collate a ≤ collate b).filter fun name =>
          Behind collate (given last) name := by
    refine List.Perm.eq_of_pairwise (fun a b _ _ hab hba => hcollate (le_antisymm hab hba))
      (List.pairwise_insertionSort _ _) ((List.pairwise_insertionSort _ _).filter _) ?_
    exact (List.perm_insertionSort _ _).trans ((List.perm_insertionSort _ _).filter _).symm
  unfold catalog page
  dsimp only
  rw [hfilter, hsorted]

variable (replace : String → String) (collate) (moments : Nat → Moment env)

/-- The answer to a request for a listing, and the request that its `Link` leads to. -/
def fetchListing (i : Nat) : ListRequest → Except ParseError (List String × Option ListRequest)
  | .catalog params => (serveCatalog collate (moments i) params).map fun (names, link) =>
      (names, link.bind (followLink replace))
  | .tags name params => (serveTags (moments i) name params).map fun (tags, link) =>
      (tags, link.bind (followLink replace))

/-- The tags that a request for them could list; none where it is refused. -/
def tagNames (name : String) (i : Nat) : List String :=
  match tagsOf (moments i) name >>= fun (target, repo) => knownTags (moments i) target repo with
  | .ok tags => tags
  | .error _ => []

/-- A request for `n` tags from behind a cursor. -/
def AsksTags (name : String) (n : Nat) (request : ListRequest) (last : Option String) : Prop :=
  ∃ params, request = .tags name params ∧ (params.get? "n").isSome = true ∧
    intParam params "n" 1000 10000 = .ok n ∧ given (params.get? "last") = last

/-- A request for `n` names of the catalogue from behind a cursor. -/
def AsksCatalog (n : Nat) (request : ListRequest) (last : Option String) : Prop :=
  ∃ params, request = .catalog params ∧ intParam params "n" 100 1000 = .ok n ∧
    given (params.get? "last") = last

variable {replace collate moments}

/-- What an answered request for tags went through. -/
theorem serveTags_ok {m : Moment env} {name : String} {params : Dict String String} {n : Nat}
    {shown : List String} {link : Option String} (hn : intParam params "n" 1000 10000 = .ok n)
    (hgiven : (params.get? "n").isSome = true)
    (h : serveTags m name params = .ok (shown, link)) :
    ∃ target repo tags, tagsOf m name = .ok (target, repo) ∧ knownTags m target repo = .ok tags ∧
      shown = page id tags (given (params.get? "last")) n ∧
      link = if n ≠ 0 ∧ shown.length = n then
        shown.getLast?.map (linkText ("/v2/" ++ name ++ "/tags/list") n) else none := by
  obtain ⟨raw, hraw⟩ := Option.isSome_iff_exists.mp hgiven
  obtain ⟨⟨target, repo⟩, hrepo, h⟩ := bind_ok h
  dsimp only at h
  rw [hraw, hn] at h
  obtain ⟨size, hsize, h⟩ := bind_ok h
  obtain rfl := Except.ok.inj hsize
  obtain ⟨tags, hlisted, h⟩ := bind_ok h
  obtain ⟨known, hknown, hpage⟩ := listTags_page hlisted
  obtain ⟨rfl, rfl⟩ := Prod.mk.inj (Except.ok.inj h)
  exact ⟨target, repo, known, hrepo, hknown, hpage, rfl⟩

theorem validName_of_tagsOf {m : Moment env} {name : String}
    {found : ImageTarget × Option DockerRepository} (h : tagsOf m name = .ok found) :
    validName name = true := by
  obtain ⟨ident, -, h⟩ := bind_ok h
  obtain ⟨target, htarget, -⟩ := bind_ok h
  exact (resolveTarget_ok_iff.mp htarget).1

theorem short_of_le {n : Nat} (h : n ≤ 10000) : Short n :=
  calc n < 10 ^ 5 := Nat.lt_of_le_of_lt h (by decide)
    _ ≤ 10 ^ maxStrDigits := Nat.pow_le_pow_right (by decide) (by decide)

/-- A link to more tags asks for them. -/
theorem followLink_tags {name : String} {n : Nat} (hname : validName name = true) (hn : n ≤ 10000)
    {last : String} (hlast : last ≠ "") :
    ∃ next, followLink replace (linkText ("/v2/" ++ name ++ "/tags/list") n last) = some next ∧
      AsksTags name n next (some last) := by
  have hplain : ∀ c ∈ (name ++ "/tags/list").toList, IsPathChar c := fun c hc => by
    rw [String.toList_append] at hc
    rcases List.mem_append.mp hc with hc | hc
    · exact (validName_plain hname).2 c hc
    · exact pathChars_of_all (by decide +kernel) c hc
  have hshort : Short n := short_of_le hn
  refine ⟨.tags name [("n", toString n), ("last", last)], ?_, _, rfl, rfl, ?_, ?_⟩
  · rw [String.append_assoc, followLink_linkText replace hplain, parseV2Path_tags hname]
  · exact intParam_link rfl hn hshort
  · exact given_some rfl hlast

theorem followLink_catalog {n : Nat} (hn : n ≤ 1000) {last : String} (hlast : last ≠ "") :
    ∃ next, followLink replace (linkText "/v2/_catalog" n last) = some next ∧
      AsksCatalog n next (some last) := by
  have hshort : Short n := short_of_le (Nat.le_trans hn (by decide))
  refine ⟨.catalog [("n", toString n), ("last", last)], ?_, _, rfl, ?_, ?_⟩
  · have hplain : ∀ c ∈ "_catalog".toList, IsPathChar c := pathChars_of_all (by decide +kernel)
    exact followLink_linkText replace hplain n last
  · exact intParam_link rfl hn hshort
  · exact given_some rfl hlast

/-- **The tags are served by pages.** -/
theorem paged_tags {name : String} {n : Nat} (hn : 0 < n)
    (hnames : ∀ i, "" ∉ tagNames moments name i) :
    Paged id (fetchListing collate replace moments) (tagNames moments name) n
      (AsksTags name n) := by
  refine .of_answers hn ?_
  rintro i request last shown next ⟨params, rfl, hgiven, hparam, rfl⟩ hfetch
  obtain ⟨⟨tags, link⟩, hserve, ⟨⟩⟩ := map_ok hfetch
  obtain ⟨target, repo, known, hrepo, hknown, hpage, rfl⟩ := serveTags_ok hparam hgiven hserve
  have hknown : tagNames moments name i = known := by
    unfold tagNames
    rw [hrepo]
    change (match knownTags (moments i) target repo with | .ok tags => tags | .error _ => []) = _
    rw [hknown]
  refine ⟨by rw [hknown, hpage], fun hshort => ?_, fun hfull c hc => ?_⟩
  · rw [if_neg fun h => hshort h.2]
    rfl
  · rw [if_pos ⟨Nat.ne_of_gt hn, hfull⟩, hc, Option.map_some, Option.bind_some]
    refine followLink_tags (validName_of_tagsOf hrepo) (intParam_le hparam (by decide)) ?_
    rintro rfl
    have hmem := List.mem_of_getLast? hc
    rw [hpage, ← hknown] at hmem
    exact hnames i (of_mem_page hmem).1

/-- **The catalogue is served by pages.** -/
theorem paged_catalog (hcollate : Function.Injective collate) {n : Nat} (hn : 0 < n)
    (hnames : ∀ i, "" ∉ catalogNames (moments i)) :
    Paged collate (fetchListing collate replace moments) (fun i => catalogNames (moments i)) n
      (AsksCatalog n) := by
  refine .of_answers hn ?_
  rintro i request last shown next ⟨params, rfl, hparam, rfl⟩ hfetch
  obtain ⟨⟨names, link⟩, hserve, ⟨⟩⟩ := map_ok hfetch
  obtain ⟨ident, -, hserve⟩ := bind_ok hserve
  split at hserve
  · cases hserve
  rw [hparam] at hserve
  obtain ⟨size, hsize, hserve⟩ := bind_ok hserve
  obtain rfl := Except.ok.inj hsize
  obtain ⟨rfl, rfl⟩ := Prod.mk.inj (Except.ok.inj hserve)
  refine ⟨catalog_page hcollate, fun hshort => ?_, fun hfull c hc => ?_⟩
  · rw [if_neg hshort]
    rfl
  · rw [if_pos hfull, hc, Option.map_some, Option.bind_some]
    refine followLink_catalog (intParam_le hparam (by decide)) ?_
    rintro rfl
    have hmem := List.mem_of_getLast? hc
    rw [catalog_page hcollate] at hmem
    exact hnames i (of_mem_page hmem).1

/-- **A listing that is followed link by link is whole**, that of the tags of a repository and that
of the catalogue, whatever is pushed, deleted or moved between the requests: the names are in
order, no page repeats one of another, each name was there when its page was read, and every name
that was there throughout is among them. -/
theorem listings_whole (hcollate : Function.Injective collate) :
    (∀ name n first, 0 < n → (∀ i, "" ∉ tagNames moments name i) → AsksTags name n first none →
      ReadWhole id (tagNames moments name) (fetchListing collate replace moments) first) ∧
    (∀ n first, 0 < n → (∀ i, "" ∉ catalogNames (moments i)) → AsksCatalog n first none →
      ReadWhole collate (fun i => catalogNames (moments i))
        (fetchListing collate replace moments) first) :=
  ⟨fun _ _ _ hn hnames hasks => (paged_tags hn hnames).readWhole Function.injective_id hn hasks,
    fun _ _ hn hnames hasks => (paged_catalog hcollate hn hnames).readWhole hcollate hn hasks⟩

/-! ## A tag that is pushed between two pages -/

def listedRepository : DockerRepository := { id := 1, name := "local/app", isLocal := true }

/-- `v3` is pushed behind the first request. -/
def pushedBetween (i : Nat) : Moment plainRouting where
  state :=
    { emptyRegistry with
      db :=
        { repositories := ⟨[listedRepository], by decide⟩
          tags := (if i = 0 then ["v2", "v1"] else ["v2", "v1", "v3"]).map fun tag =>
            { repositoryId := 1, tag := tag, manifestId := 1 } } }
  presented := .none
  mirror := false
  cached _ := none
  answer _ := .notFound
  indexedOnly _ := false

/-- A client that reads one tag at a time has all three, and both that were there at first. -/
theorem pushedBetween_whole :
    ReadWhole id (tagNames pushedBetween "local/app") (fetchListing id id pushedBetween)
      (.tags "local/app" [("n", "1")]) ∧
    (followPages (fetchListing id id pushedBetween) 4 0 (.tags "local/app" [("n", "1")])).map
      Except.toOption = some (some [["v1"], ["v2"], ["v3"], []]) := by
  refine ⟨(listings_whole Function.injective_id).1 "local/app" 1 _ Nat.zero_lt_one (fun i => ?_)
    ⟨_, rfl, rfl, by decide +kernel, rfl⟩, by decide +kernel⟩
  cases i with
  | zero => decide +kernel
  | succ i =>
    have hlater : tagNames pushedBetween "local/app" (i + 1) =
        tagNames pushedBetween "local/app" 1 := rfl
    rw [hlater]
    decide +kernel

end Listings

end Minireg.Docker
