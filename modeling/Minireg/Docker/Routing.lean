import Mathlib.Data.List.Sort
import Mathlib.Data.List.TakeWhile
import Minireg.Docker.Naming
import Minireg.Docker.Push

/-!
# Where an image name leads

The first path segment of a name decides: the local namespace, the prefix of an upstream, or the
default upstream, which expands one-segment names. `route` gives every place one canonical name;
`resolve_target` is `route` over the configured upstreams with the grammar of names around it.
-/

namespace Minireg.Docker

open Py Lib

/-! ## The upstreams -/

/-- A Docker row of `upstreams`; `isDefault` and `libraryPrefix` are of its `extra`. -/
structure DockerUpstream where
  id : Nat
  name : String
  url : String
  tier : Int := 1
  priority : Int := 100
  enabled : Bool := true
  isDefault : Bool := false
  libraryPrefix : Option Bool := none
  deriving DecidableEq, Repr

abbrev DockerUpstreams := Table DockerUpstream.name

/-- The order of `(tier, priority, id)`. -/
def DockerUpstream.before (a b : DockerUpstream) : Bool :=
  a.tier < b.tier || (a.tier = b.tier &&
    (a.priority < b.priority || (a.priority = b.priority && a.id ≤ b.id)))

/-- `hostOf` is `(urlsplit(url).hostname or "").lower()`, `repr` Python's of a string. -/
structure RoutingEnv where
  hostOf : String → String
  repr : String → String
  localNamespace : String := "local"

def isLowerAlnum (c : Char) : Bool := ('a' ≤ c && c ≤ 'z') || ('0' ≤ c && c ≤ '9')

/-- `[a-z0-9](?:[a-z0-9-]{0,61}[a-z0-9])?`. -/
def isLabel : List Char → Bool
  | [] => false
  | c :: rest => isLowerAlnum c && rest.length ≤ 62 &&
      (rest.all fun c => isLowerAlnum c || c = '-') && rest.getLast?.all isLowerAlnum

/-- `UPSTREAM_NAME_RE.match`: its `$` admits a newline at the end. -/
def isUpstreamName (name : String) : Bool :=
  isLabel name.toList || (name.toList.getLast? = some '\n' && isLabel name.toList.dropLast)

section

variable (env : RoutingEnv)

def reservedNames : List String :=
  [env.localNamespace, "library", "v2", "token", "_catalog", hubUpstreamName] ++
    presets.map Preset.name

def upstreamNameProblem (name url : String) : Option String :=
  if !isUpstreamName name then
    some ("a Docker upstream name becomes the first path segment of every image " ++
      "it serves, so it must be lowercase letters, digits and hyphens")
  else
    match preset? name with
    | some preset =>
      if env.hostOf preset.url = env.hostOf url then none
      else some ("'" ++ name ++ "' is reserved for the " ++ preset.label ++ " preset (" ++
        preset.url ++ ")")
    | none =>
      if name ∈ reservedNames env then some ("'" ++ name ++ "' is a reserved name") else none

/-- `upstream_uses_library`. -/
def usesLibrary (u : DockerUpstream) : Bool :=
  match u.libraryPrefix with
  | some b => b
  | none =>
    match preset? u.name with
    | some preset => preset.libraryPrefix
    | none =>
      env.hostOf u.url ∈
        ["registry-1.docker.io", "index.docker.io", "docker.io", "mirror.gcr.io"]

def libraryExpand (u : DockerUpstream) (remote : String) : String :=
  if '/' ∈ remote.toList then remote
  else if usesLibrary env u then "library/" ++ remote
  else remote

end

/-- `docker_upstreams`: the enabled ones by name, and the default one. -/
def dockerUpstreams (ups : DockerUpstreams) :
    Dict String DockerUpstream × Option DockerUpstream :=
  let rows := (ups.rows.filter (·.enabled)).insertionSort fun a b => a.before b
  let byName : Dict String DockerUpstream := rows.map fun u => (u.name, u)
  (byName, (rows.find? (·.isDefault)).or (byName.get? hubUpstreamName))

/-- Upstreams every one of which `upstream_name_problem` let through. -/
structure Configured (env : RoutingEnv) where
  upstreams : DockerUpstreams
  accepted : ∀ u ∈ upstreams, upstreamNameProblem env u.name u.url = none

/-! ## Names -/

/-- The part of a component behind its last separator run. -/
inductive NameState where
  | start
  | word
  | dot
  | under
  | unders
  | dash
  deriving DecidableEq

def NameState.next : NameState → Char → Option NameState
  | s, c =>
    if isLowerAlnum c then some .word
    else if c = '/' && s = .word then some .start
    else if c = '.' && s = .word then some .dot
    else if c = '_' && s = .word then some .under
    else if c = '_' && s = .under then some .unders
    else if c = '-' && (s = .word || s = .dash) then some .dash
    else none

/-- `NAME_RE.fullmatch`. -/
def nameRe (name : String) : Bool := name.toList.foldlM NameState.next .start = some .word

def maxNameLength : Nat := 255

def validName (name : String) : Bool :=
  0 < name.length && name.length ≤ maxNameLength && nameRe name

/-- `name.partition("/")` without its separator. -/
def firstSegment (name : String) : String := String.ofList (name.toList.takeWhile (· ≠ '/'))

def restOf (name : String) : String := String.ofList ((name.toList.dropWhile (· ≠ '/')).drop 1)

/-! ## Routing -/

/-- Where one image name resolves to; `upstream` and `remote` are `none` in the local namespace. -/
structure ImageTarget where
  canonical : String
  upstream : Option DockerUpstream := none
  remote : Option String := none
  isLocal : Bool := false
  deriving DecidableEq, Repr

/-- The upstream's repository of this name. -/
def ImageTarget.at (u : DockerUpstream) (remote : String) : ImageTarget where
  canonical := u.name ++ "/" ++ remote
  upstream := some u
  remote := some remote

/-- What a push and a pull read of it. -/
def ImageTarget.toTarget (t : ImageTarget) : Target := ⟨t.canonical, t.upstream.map (·.id)⟩

variable (env : RoutingEnv)

/-- The error is that of a `LookupError`. -/
def route (name : String) (upstreams : Dict String DockerUpstream)
    (default : Option DockerUpstream) (mirrorHost : Bool) (disabled : List String) :
    Except String ImageTarget :=
  let first := firstSegment name
  let rest := restOf name
  if mirrorHost then
    match (upstreams.get? hubUpstreamName).or default with
    | none => .error "no Docker Hub upstream is configured"
    | some hub => .ok (.at hub (libraryExpand env hub name))
  else if first = env.localNamespace then
    if rest = "" then .error ("'" ++ env.localNamespace ++ "' alone is not a repository")
    else .ok { canonical := name, isLocal := true }
  else if rest ≠ "" && first ∈ disabled && (upstreams.get? first).isNone then
    .error ("upstream '" ++ first ++ "' is disabled")
  else
    match (if rest ≠ "" then upstreams.get? first else none), default with
    | some u, _ => .ok (.at u (libraryExpand env u rest))
    | none, none =>
      .error ("no upstream matches this name and no default (Docker Hub) upstream is configured")
    | none, some u => .ok (.at u (libraryExpand env u name))

def resolveTarget (ups : DockerUpstreams) (name : String) (mirrorHost : Bool) :
    Except ParseError ImageTarget :=
  if !validName name then
    .error (.registry "NAME_INVALID" ("invalid repository name " ++ env.repr name))
  else
    let (upstreams, default) := dockerUpstreams ups
    let disabled := (ups.rows.filter (!·.enabled)).map (·.name)
    match route env name upstreams default mirrorHost disabled with
    | .error text => .error (.registry "NAME_UNKNOWN" text)
    | .ok target =>
      if validName target.canonical then .ok target
      else
        .error (.registry "NAME_INVALID" ("invalid repository name " ++ env.repr target.canonical))

/-! ## Names and segments -/

theorem firstSegment_slash {s : String} (h : '/' ∉ s.toList) (r : String) :
    firstSegment (s ++ "/" ++ r) = s := by
  have htake : s.toList.takeWhile (· ≠ '/') = s.toList := by
    refine List.takeWhile_eq_self_iff.mpr fun c hc => ?_
    simpa using fun (e : c = '/') => h (e ▸ hc)
  rw [firstSegment, String.toList_append, String.toList_append, List.append_assoc,
    List.takeWhile_append]
  rw [htake]
  simp

theorem restOf_slash {s : String} (h : '/' ∉ s.toList) (r : String) :
    restOf (s ++ "/" ++ r) = r := by
  have hdrop : s.toList.dropWhile (· ≠ '/') = [] := by
    refine List.dropWhile_eq_nil_iff.mpr fun c hc => ?_
    simpa using fun (e : c = '/') => h (e ▸ hc)
  rw [restOf, String.toList_append, String.toList_append, List.append_assoc,
    List.dropWhile_append, hdrop]
  simp

theorem slash_notMem_of_isLabel {cs : List Char} (h : isLabel cs = true) : '/' ∉ cs := by
  cases cs with
  | nil => simp
  | cons c rest =>
    simp only [isLabel, Bool.and_eq_true, List.all_eq_true] at h
    obtain ⟨⟨⟨hc, -⟩, hrest⟩, -⟩ := h
    intro hm
    rcases List.mem_cons.mp hm with rfl | hm
    · exact absurd hc (by decide)
    · exact absurd (hrest _ hm) (by decide)

theorem slash_notMem_of_isUpstreamName {name : String} (h : isUpstreamName name = true) :
    '/' ∉ name.toList := by
  simp only [isUpstreamName, Bool.or_eq_true, Bool.and_eq_true, decide_eq_true_eq] at h
  rcases h with h | ⟨hlast, h⟩
  · exact slash_notMem_of_isLabel h
  · intro hm
    rw [← List.dropLast_append_getLast? _ hlast] at hm
    rcases List.mem_append.mp hm with hm | hm
    · exact slash_notMem_of_isLabel h hm
    · simp at hm

/-! ## Upstreams that were accepted -/

variable {env : RoutingEnv}

theorem isUpstreamName_of_accepted {name url : String}
    (h : upstreamNameProblem env name url = none) : isUpstreamName name = true := by
  unfold upstreamNameProblem at h
  split at h
  · cases h
  · simpa using ‹¬(!isUpstreamName name) = true›

/-- A name that is no preset's is refused where it is reserved. -/
theorem ne_of_accepted {name url : String} (h : upstreamNameProblem env name url = none)
    (hns : preset? env.localNamespace = none) : name ≠ env.localNamespace := by
  rintro rfl
  have hreserved : env.localNamespace ∈ reservedNames env :=
    List.mem_append_left _ List.mem_cons_self
  have hname := isUpstreamName_of_accepted h
  unfold upstreamNameProblem at h
  rw [if_neg (by simp [hname]), hns] at h
  simp only [if_pos hreserved, reduceCtorEq] at h

theorem mem_dockerUpstreams_iff {ups : DockerUpstreams} {name : String} {u : DockerUpstream} :
    (dockerUpstreams ups).1.get? name = some u ↔
      u ∈ ups ∧ u.enabled = true ∧ u.name = name := by
  have hperm := List.perm_insertionSort (fun a b : DockerUpstream => a.before b)
    (ups.rows.filter (·.enabled))
  have hkeys : (((ups.rows.filter (·.enabled)).insertionSort fun a b => a.before b).map
      DockerUpstream.name).Nodup :=
    ((hperm.map _).nodup_iff).mpr (ups.nodup.sublist (List.filter_sublist.map _))
  have hnodup : (((dockerUpstreams ups).1).map Prod.fst).Nodup := by
    rw [dockerUpstreams, List.map_map]
    exact hkeys
  rw [Dict.get?_eq_some_iff hnodup, dockerUpstreams, List.mem_map]
  constructor
  · rintro ⟨v, hv, e⟩
    obtain ⟨rfl, rfl⟩ := Prod.mk.inj e
    obtain ⟨hm, he⟩ := List.mem_filter.mp (hperm.mem_iff.mp hv)
    exact ⟨hm, he, rfl⟩
  · rintro ⟨hm, he, rfl⟩
    exact ⟨u, hperm.mem_iff.mpr (List.mem_filter.mpr ⟨hm, he⟩), rfl⟩

/-- The default upstream is one of the enabled. -/
theorem default_mem {ups : DockerUpstreams} {u : DockerUpstream}
    (h : (dockerUpstreams ups).2 = some u) : u ∈ ups ∧ u.enabled = true := by
  rcases Option.or_eq_some_iff.mp h with h | ⟨-, h⟩
  · have hmem := (List.mem_insertionSort _).mp (List.mem_of_find?_eq_some h)
    exact ⟨(List.mem_filter.mp hmem).1, (List.mem_filter.mp hmem).2⟩
  · obtain ⟨hm, he, -⟩ := mem_dockerUpstreams_iff.mp h
    exact ⟨hm, he⟩

/-! ## What routing does -/

theorem libraryExpand_slash (u : DockerUpstream) (remote : String)
    (h : usesLibrary env u = true) : '/' ∈ (libraryExpand env u remote).toList := by
  unfold libraryExpand
  split
  · assumption
  · simp

/-- Expanding twice is expanding once. -/
theorem libraryExpand_idem (u : DockerUpstream) (remote : String) :
    libraryExpand env u (libraryExpand env u remote) = libraryExpand env u remote := by
  by_cases hlib : usesLibrary env u = true
  · exact if_pos (libraryExpand_slash u remote hlib)
  · have hsame : ∀ r, libraryExpand env u r = r := fun r => by simp [libraryExpand, hlib]
    rw [hsame, hsame]

theorem libraryExpand_ne {u : DockerUpstream} {remote : String} (h : remote ≠ "") :
    libraryExpand env u remote ≠ "" := by
  unfold libraryExpand
  split
  · exact h
  · split
    · intro e
      have hlen := congrArg String.length e
      rw [String.length_append] at hlen
      exact absurd hlen (by simp)
    · exact h

section Route

variable {upstreams : Dict String DockerUpstream} {default : Option DockerUpstream}
  {mirrorHost : Bool} {disabled : List String} {name : String} {t : ImageTarget}

/-- Where a name goes that goes somewhere. -/
theorem route_ok (h : route env name upstreams default mirrorHost disabled = .ok t)
    (hname : name ≠ "") :
    (mirrorHost = false ∧ firstSegment name = env.localNamespace ∧
        t = { canonical := name, isLocal := true }) ∨
      ∃ u remote, t = .at u (libraryExpand env u remote) ∧ remote ≠ "" ∧
        ((mirrorHost = true ∧ remote = name ∧
            (upstreams.get? hubUpstreamName).or default = some u) ∨
          (mirrorHost = false ∧ firstSegment name ≠ env.localNamespace ∧
            (upstreams.get? (firstSegment name) = some u ∨ default = some u) ∧
            (restOf name ≠ "" → firstSegment name ∈ disabled →
              (upstreams.get? (firstSegment name)).isSome))) := by
  unfold route at h
  dsimp only at h
  split at h
  · rename_i hmirror
    cases hhub : (upstreams.get? hubUpstreamName).or default with
    | none => simp only [hhub, reduceCtorEq] at h
    | some hub =>
      simp only [hhub, Except.ok.injEq] at h
      exact .inr ⟨hub, name, h.symm, hname, .inl ⟨hmirror, rfl, rfl⟩⟩
  · rename_i hmirror
    have hmirror := Bool.eq_false_of_not_eq_true hmirror
    split at h
    · rename_i hlocal
      split at h
      · cases h
      · exact .inl ⟨hmirror, hlocal, (Except.ok.inj h).symm⟩
    · rename_i hlocal
      split at h
      · cases h
      · rename_i hdisabled
        have hon : restOf name ≠ "" → firstSegment name ∈ disabled →
            (upstreams.get? (firstSegment name)).isSome := by
          intro hrest hmem
          simpa [hrest, hmem, Option.isSome_iff_ne_none] using hdisabled
        by_cases hrest : restOf name = ""
        · cases hdefault : default with
          | none =>
            simp only [hrest, hdefault, ne_eq, not_true_eq_false, if_false, reduceCtorEq] at h
          | some u =>
            simp only [hrest, hdefault, ne_eq, not_true_eq_false, if_false,
              Except.ok.injEq] at h
            exact .inr ⟨u, name, h.symm, hname, .inr ⟨hmirror, hlocal, .inr rfl, hon⟩⟩
        · cases hu : upstreams.get? (firstSegment name) with
          | some u =>
            simp only [hrest, hu, ne_eq, not_false_eq_true, if_true, Except.ok.injEq] at h
            exact .inr ⟨u, restOf name, h.symm, hrest,
              .inr ⟨hmirror, hlocal, .inl rfl, by simp⟩⟩
          | none =>
            cases hdefault : default with
            | none =>
              simp only [hrest, hu, hdefault, ne_eq, not_false_eq_true, if_true,
                reduceCtorEq] at h
            | some u =>
              simp only [hrest, hu, hdefault, ne_eq, not_false_eq_true, if_true,
                Except.ok.injEq] at h
              exact .inr ⟨u, name, h.symm, hname,
                .inr ⟨hmirror, hlocal, .inr rfl, hu ▸ hon⟩⟩

/-- The canonical name of an upstream's repository leads back to it. -/
theorem route_at {u : DockerUpstream} {remote : String} (hu : upstreams.get? u.name = some u)
    (hslash : '/' ∉ u.name.toList) (hlocal : u.name ≠ env.localNamespace)
    (hremote : remote ≠ "") :
    route env (ImageTarget.at u remote).canonical upstreams default false disabled =
      .ok (.at u (libraryExpand env u remote)) := by
  unfold route
  simp only [ImageTarget.at, firstSegment_slash hslash, restOf_slash hslash, hu, hlocal]
  simp [hremote]

end Route

/-! ## Canonical names -/

theorem ne_empty_of_validName {name : String} (h : validName name = true) : name ≠ "" := by
  rintro rfl
  exact absurd h (by decide)

theorem resolveTarget_ok_iff {ups : DockerUpstreams} {name : String} {mirrorHost : Bool}
    {t : ImageTarget} :
    resolveTarget env ups name mirrorHost = .ok t ↔
      validName name = true ∧ validName t.canonical = true ∧
        route env name (dockerUpstreams ups).1 (dockerUpstreams ups).2 mirrorHost
          ((ups.rows.filter (!·.enabled)).map (·.name)) = .ok t := by
  unfold resolveTarget
  cases hname : validName name with
  | false => simp
  | true =>
    cases hroute : route env name (dockerUpstreams ups).1 (dockerUpstreams ups).2 mirrorHost
        ((ups.rows.filter (!·.enabled)).map (·.name)) with
    | error text => simp [hroute]
    | ok target =>
      simp only [hroute, Bool.not_true, Bool.false_eq_true, if_false, true_and]
      split
      · rename_i hcanonical
        constructor
        · intro h
          exact Except.ok.inj h ▸ ⟨hcanonical, rfl⟩
        · exact fun h => congrArg Except.ok (Except.ok.inj h.2)
      · rename_i hcanonical
        refine iff_of_false (by simp) fun ⟨hvalid, e⟩ => hcanonical ?_
        exact Except.ok.inj e ▸ hvalid

section Configured

variable {conf : Configured env} {name name' : String} {mirrorHost mirrorHost' : Bool}
  {t t' : ImageTarget}

/-- What a name resolves to: itself in the local namespace, or a repository of an enabled
upstream. -/
theorem resolveTarget_cases (h : resolveTarget env conf.upstreams name mirrorHost = .ok t) :
    (mirrorHost = false ∧ firstSegment name = env.localNamespace ∧
        t = { canonical := name, isLocal := true }) ∨
      ∃ u remote, u ∈ conf.upstreams ∧ u.enabled = true ∧ remote ≠ "" ∧
        libraryExpand env u remote = remote ∧ t = .at u remote := by
  obtain ⟨hname, -, hroute⟩ := resolveTarget_ok_iff.mp h
  rcases route_ok hroute (ne_empty_of_validName hname) with hlocal | ⟨u, r, rfl, hr, hu⟩
  · exact .inl hlocal
  have hmem : u ∈ conf.upstreams ∧ u.enabled = true := by
    rcases hu with ⟨-, -, hhub⟩ | ⟨-, -, hprefix | hdefault, -⟩
    · rcases Option.or_eq_some_iff.mp hhub with hhub | ⟨-, hdefault⟩
      · exact ⟨(mem_dockerUpstreams_iff.mp hhub).1, (mem_dockerUpstreams_iff.mp hhub).2.1⟩
      · exact default_mem hdefault
    · exact ⟨(mem_dockerUpstreams_iff.mp hprefix).1, (mem_dockerUpstreams_iff.mp hprefix).2.1⟩
    · exact default_mem hdefault
  exact .inr ⟨u, libraryExpand env u r, hmem.1, hmem.2, libraryExpand_ne hr,
    libraryExpand_idem u r, rfl⟩

/-- The canonical name resolves to what it is the canonical name of. -/
theorem resolveTarget_canonical (hns : preset? env.localNamespace = none)
    (h : resolveTarget env conf.upstreams name mirrorHost = .ok t) :
    resolveTarget env conf.upstreams t.canonical false = .ok t := by
  obtain ⟨-, hcanonical, hroute⟩ := resolveTarget_ok_iff.mp h
  refine resolveTarget_ok_iff.mpr ⟨hcanonical, hcanonical, ?_⟩
  rcases resolveTarget_cases h with
    ⟨rfl, -, rfl⟩ | ⟨u, r, hu, hon, hr, hexpand, rfl⟩
  · exact hroute
  · have hname := conf.accepted u hu
    rw [route_at (mem_dockerUpstreams_iff.mpr ⟨hu, hon, rfl⟩)
      (slash_notMem_of_isUpstreamName (isUpstreamName_of_accepted hname))
      (ne_of_accepted hname hns) hr, hexpand]

/-- The names of a place's repositories: one canonical name for each place. -/
def SamePlace (name name' : String) (t t' : ImageTarget) : Prop :=
  (t.isLocal = true ∧ t'.isLocal = true ∧ name = name') ∨
    ∃ u remote, t.upstream = some u ∧ t.remote = some remote ∧
      t'.upstream = some u ∧ t'.remote = some remote

theorem canonical_eq_iff (hns : preset? env.localNamespace = none)
    (h : resolveTarget env conf.upstreams name mirrorHost = .ok t)
    (h' : resolveTarget env conf.upstreams name' mirrorHost' = .ok t') :
    t.canonical = t'.canonical ↔ SamePlace name name' t t' := by
  have hback := resolveTarget_canonical hns h
  have hback' := resolveTarget_canonical hns h'
  constructor
  · intro e
    rw [e, hback', Except.ok.injEq] at hback
    subst hback
    rcases resolveTarget_cases h with ⟨-, -, rfl⟩ | ⟨u, r, -, -, -, -, rfl⟩
    · rcases resolveTarget_cases h' with ⟨-, -, e'⟩ | ⟨u, r, -, -, -, -, e'⟩
      · exact .inl ⟨rfl, rfl, congrArg ImageTarget.canonical e'⟩
      · exact absurd (congrArg ImageTarget.isLocal e') (by simp [ImageTarget.at])
    · exact .inr ⟨u, r, rfl, rfl, rfl, rfl⟩
  · rintro (⟨hlocal, hlocal', rfl⟩ | ⟨u, r, hu, hr, hu', hr'⟩)
    · rcases resolveTarget_cases h with ⟨-, -, rfl⟩ | ⟨u, r, -, -, -, -, rfl⟩
      · rcases resolveTarget_cases h' with ⟨-, -, rfl⟩ | ⟨u, r, -, -, -, -, rfl⟩
        · rfl
        · exact absurd hlocal' (by simp [ImageTarget.at])
      · exact absurd hlocal (by simp [ImageTarget.at])
    · rcases resolveTarget_cases h with ⟨-, -, rfl⟩ | ⟨v, s, -, -, -, -, rfl⟩
      · simp at hu
      rcases resolveTarget_cases h' with ⟨-, -, rfl⟩ | ⟨v', s', -, -, -, -, rfl⟩
      · simp at hu'
      simp only [ImageTarget.at, Option.some.injEq] at hu hr hu' hr' ⊢
      rw [hu, hr, hu', hr']

/-- On the own host, what is under the prefix of a disabled upstream is refused. -/
theorem resolveTarget_disabled (hns : preset? env.localNamespace = none) {u : DockerUpstream}
    (hu : u ∈ conf.upstreams) (hoff : u.enabled = false) (hfirst : firstSegment name = u.name)
    (hrest : restOf name ≠ "") : resolveTarget env conf.upstreams name false ≠ .ok t := by
  intro h
  obtain ⟨hname, -, hroute⟩ := resolveTarget_ok_iff.mp h
  have hlocal := ne_of_accepted (conf.accepted u hu) hns
  rcases route_ok hroute (ne_empty_of_validName hname) with
    ⟨-, e, -⟩ | ⟨v, r, -, -, ⟨hm, -⟩ | ⟨-, -, -, hon⟩⟩
  · exact hlocal (hfirst ▸ e)
  · cases hm
  · have hdisabled : firstSegment name ∈
        (conf.upstreams.rows.filter (!·.enabled)).map (·.name) :=
      List.mem_map.mpr ⟨u, List.mem_filter.mpr ⟨hu, by simp [hoff]⟩, hfirst.symm⟩
    obtain ⟨w, hw⟩ := Option.isSome_iff_exists.mp (hon hrest hdisabled)
    obtain ⟨hmem, henabled, hname⟩ := mem_dockerUpstreams_iff.mp hw
    have hsame := Table.eq_of_key hmem hu (hname.trans hfirst)
    rw [hsame, hoff] at henabled
    cases henabled

/-- On the own host, a name in the local namespace stays here. -/
theorem resolveTarget_local (hfirst : firstSegment name = env.localNamespace)
    (h : resolveTarget env conf.upstreams name false = .ok t) :
    t = { canonical := name, isLocal := true } := by
  obtain ⟨hname, -, hroute⟩ := resolveTarget_ok_iff.mp h
  rcases route_ok hroute (ne_empty_of_validName hname) with
    ⟨-, -, e⟩ | ⟨v, r, -, -, ⟨hm, -⟩ | ⟨-, hne, -⟩⟩
  · exact e
  · cases hm
  · exact absurd hfirst hne

/-- On the mirror host every name is one of the hub's. -/
theorem resolveTarget_mirror (h : resolveTarget env conf.upstreams name true = .ok t) :
    ∃ hub, ((dockerUpstreams conf.upstreams).1.get? hubUpstreamName).or
        (dockerUpstreams conf.upstreams).2 = some hub ∧
      t = .at hub (libraryExpand env hub name) := by
  obtain ⟨hname, -, hroute⟩ := resolveTarget_ok_iff.mp h
  rcases route_ok hroute (ne_empty_of_validName hname) with
    ⟨hm, -⟩ | ⟨hub, r, rfl, -, ⟨-, rfl, hhub⟩ | ⟨hm, -⟩⟩
  · cases hm
  · exact ⟨hub, hhub, rfl⟩
  · cases hm

end Configured

/-- Routing gives every place one canonical name, which leads back to it; on the own host the
prefixes of disabled upstreams lead nowhere and the local namespace stays here. -/
theorem routing_sound (env : RoutingEnv) (conf : Configured env)
    (hns : preset? env.localNamespace = none) :
    (∀ name mirrorHost t, resolveTarget env conf.upstreams name mirrorHost = .ok t →
      resolveTarget env conf.upstreams t.canonical false = .ok t) ∧
    (∀ name name' mirrorHost mirrorHost' t t',
      resolveTarget env conf.upstreams name mirrorHost = .ok t →
      resolveTarget env conf.upstreams name' mirrorHost' = .ok t' →
      (t.canonical = t'.canonical ↔ SamePlace name name' t t')) ∧
    (∀ name u t, u ∈ conf.upstreams → u.enabled = false → firstSegment name = u.name →
      restOf name ≠ "" → resolveTarget env conf.upstreams name false ≠ .ok t) ∧
    (∀ name t, firstSegment name = env.localNamespace →
      resolveTarget env conf.upstreams name false = .ok t →
      t = { canonical := name, isLocal := true }) ∧
    (∀ name t, resolveTarget env conf.upstreams name true = .ok t →
      ∃ hub, ((dockerUpstreams conf.upstreams).1.get? hubUpstreamName).or
          (dockerUpstreams conf.upstreams).2 = some hub ∧
        t = .at hub (libraryExpand env hub name)) :=
  ⟨fun _ _ _ => resolveTarget_canonical hns,
    fun _ _ _ _ _ _ => canonical_eq_iff hns,
    fun _ _ _ hu hoff hfirst hrest => resolveTarget_disabled hns hu hoff hfirst hrest,
    fun _ _ => resolveTarget_local,
    fun _ _ => resolveTarget_mirror⟩

/-- The host of an `https` URL. -/
def hostOfUrl (url : String) : String :=
  String.ofList ((url.toList.drop 8).takeWhile (· ≠ '/'))

def plainRouting : RoutingEnv where
  hostOf := hostOfUrl
  repr := fun s => "'" ++ s ++ "'"

def hubRow : DockerUpstream :=
  { id := 1, name := "dockerhub", url := "https://registry-1.docker.io" }

def ghcrRow : DockerUpstream :=
  { id := 2, name := "ghcr", url := "https://ghcr.io", enabled := false }

/-- The hub, and GitHub's registry switched off. -/
def hubAndGhcr : Configured plainRouting where
  upstreams := ⟨[hubRow, ghcrRow], by decide⟩
  accepted := by decide +kernel

theorem routing_sound_hub :
    preset? plainRouting.localNamespace = none ∧
      resolveTarget plainRouting hubAndGhcr.upstreams "alpine" false =
        .ok (.at hubRow "library/alpine") ∧
      (∀ t, resolveTarget plainRouting hubAndGhcr.upstreams "alpine" false = .ok t →
        resolveTarget plainRouting hubAndGhcr.upstreams t.canonical false = .ok t) :=
  have hns : preset? plainRouting.localNamespace = none := by decide +kernel
  ⟨hns, by decide +kernel, (routing_sound plainRouting hubAndGhcr hns).1 "alpine" false⟩

/-- On the mirror host a name in the local namespace is asked of the hub, and a canonical name is
taken for a name there. -/
theorem mirror_takes_local :
    resolveTarget plainRouting hubAndGhcr.upstreams "local/app" true =
        .ok (.at hubRow "local/app") ∧
      resolveTarget plainRouting hubAndGhcr.upstreams "dockerhub/local/app" true ≠
        .ok (.at hubRow "local/app") ∧
      resolveTarget plainRouting hubAndGhcr.upstreams "ghcr/app" true =
        .ok (.at hubRow "ghcr/app") := by
  decide +kernel

end Minireg.Docker
