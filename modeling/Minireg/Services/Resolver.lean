import Mathlib.Data.List.Dedup
import Mathlib.Data.List.Sort
import Minireg.Lib.Cascade
import Minireg.Lib.Table
import Minireg.Py.Fnmatch
import Minireg.Upstreams.Base

/-!
# Tiered upstream resolution

`loadUpstreams`, `claimantsFor`, `groupByTier` and `isQuarantined` route a name;
`resolve` walks the tiers, one `tierStep` each. What an upstream answers, the
clock, the settings and the order in which raced requests complete are
parameters (`Network`). `ResolverState` carries the resolver's own fields, the
health columns it rewrites, and a record of the requests of the call: which
upstreams were `asked` and which of them said `notFound`.
-/

namespace Minireg

open Py Lib

/-- The `upstreams` table. -/
abbrev UpstreamTable := Table Upstream.id

/-! ## Routing -/

/-- The order of `load_upstreams`: tier, then priority, then id. -/
def Upstream.before (u v : Upstream) : Prop :=
  u.tier < v.tier ∨ u.tier = v.tier ∧ (u.priority < v.priority ∨
    u.priority = v.priority ∧ u.id ≤ v.id)

instance : DecidableRel Upstream.before := fun u v => by unfold Upstream.before; infer_instance

def loadUpstreams (table : UpstreamTable) (ecosystem : Ecosystem) (enabledOnly : Bool := true) :
    List Upstream :=
  (table.rows.filter fun u => u.ecosystem = ecosystem && (!enabledOnly || u.enabled)).insertionSort
    Upstream.before

/-- Whether one of the upstream's name patterns matches the name, case-insensitively. -/
def Upstream.claims (cm : CaseMap) (ecosystem : Ecosystem) (name : String) (u : Upstream) : Bool :=
  let normalized := cm.lower (normalizeNameFor cm ecosystem name)
  (u.namePatterns.filter fun p => strip p ≠ "").any fun p =>
    Fnmatch.fnmatchcase normalized (cm.lower (strip p))

def claimantsFor (cm : CaseMap) (upstreams : List Upstream) (name : String)
    (ecosystem : Ecosystem) : List Upstream :=
  let claimed := upstreams.filter (Upstream.claims cm ecosystem name)
  if claimed ≠ [] then claimed else upstreams.filter fun u => u.namePatterns = []

/-- `{upstream id: tier}` for every upstream allowed to answer for the name. -/
def liveSources (cm : CaseMap) (table : UpstreamTable) (ecosystem : Ecosystem) (name : String) :
    Dict Nat Int :=
  let upstreams := claimantsFor cm (loadUpstreams table ecosystem) name ecosystem
  let live := upstreams.foldl (fun d u => Dict.set d u.id u.tier) []
  let everyone := claimantsFor cm (loadUpstreams table ecosystem false) name ecosystem
  everyone.foldl (fun d u => if u.enabled then d else Dict.setdefault d u.id u.tier) live

def groupByTier (upstreams : List Upstream) : List (Int × List Upstream) :=
  ((upstreams.map Upstream.tier).dedup.insertionSort (· ≤ ·)).map fun t =>
    (t, upstreams.filter fun u => u.tier = t)

/-- `FAILURE_THRESHOLD`. -/
def failureThreshold : Int := 5

/-- `PROBE_INTERVAL_SECONDS`, in microseconds. -/
def probeInterval : Time := 120 * 1000000

def isQuarantined (now : Time) (u : Upstream) : Bool :=
  if u.healthy || u.consecutiveFailures < failureThreshold then false
  else match u.lastCheckAt with
    | none => false
    | some last => now - last < probeInterval

/-! ## The call's environment and state -/

/-- What `provider.fetch_package` ends in. -/
inductive Response where
  | package (p : RemotePackage) (validators : Option Validators)
  | notModified
  | notFound
  | failure (why : String)

/-- Everything outside the resolver: the providers, the clock, the settings and
the event loop. `check_not_modified` turns a 304 nobody asked for into an error, and
providers leave a file's own upstream to the resolver. -/
structure Network where
  caseMap : CaseMap
  fetch : Upstream → String → Option Validators → Response
  fetch_unconditional : ∀ u name, fetch u name none ≠ .notModified
  fetch_untagged : ∀ u name v p w, fetch u name v = .package p w →
    ∀ version ∈ p.versions, ∀ f ∈ version.files, f.upstreamId = none
  now : Upstream → Time
  checkedAt : Upstream → Time
  tierParallel : Bool
  completion : List Upstream → List Upstream
  completion_perm : ∀ us, (completion us).Perm us
  finishesLate : Upstream → Bool

structure ResolverState where
  rows : List Upstream
  tierErrors : List (Upstream × String) := []
  responseValidators : Dict Nat (Option Validators) := []
  asked : List Upstream := []
  notFound : List Upstream := []

inductive ResolveError where
  | tierUnavailable (msg : String)
  | upstreamError (msg : String)
  deriving DecidableEq, Repr

/-- What one upstream contributes to its tier. -/
inductive Answer where
  | package (p : RemotePackage)
  | notModified
  deriving DecidableEq

structure ResolveResult where
  package : Option RemotePackage
  upstream : Upstream
  tier : Int
  notModified : Bool := false
  validators : Option Validators := none
  deriving DecidableEq

namespace ResolverState

variable (net : Network)

def updateRow (u : Upstream) (f : Upstream → Upstream) (st : ResolverState) : ResolverState :=
  { st with rows := st.rows.map fun r => if r.id = u.id then f r else r }

def markFailure (u : Upstream) (error : String) : ResolverState → ResolverState :=
  updateRow u fun r =>
    let failures := r.consecutiveFailures + 1
    { r with
      consecutiveFailures := failures
      lastError := some (takeChars 2000 error)
      lastCheckAt := some (net.checkedAt u)
      healthy := if failures ≥ failureThreshold then false else r.healthy }

def markHealthy (u : Upstream) : ResolverState → ResolverState :=
  updateRow u fun r =>
    let recovers := r.consecutiveFailures ≠ 0 || !r.healthy
    { r with
      consecutiveFailures := if recovers then 0 else r.consecutiveFailures
      healthy := if recovers then true else r.healthy
      lastError := if recovers then none else r.lastError
      lastCheckAt := some (net.checkedAt u) }

/-- `self.tier_errors.append((upstream, why))`. -/
def tierError (u : Upstream) (why : String) (st : ResolverState) : ResolverState :=
  { st with tierErrors := st.tierErrors ++ [(u, why)] }

/-- `self.response_validators[upstream.id] = v`. -/
def setValidators (u : Upstream) (v : Option Validators) (st : ResolverState) : ResolverState :=
  { st with responseValidators := Dict.set st.responseValidators u.id v }

/-- Requests go out to these upstreams. -/
def ask (us : List Upstream) (st : ResolverState) : ResolverState :=
  { st with asked := st.asked ++ us }

/-- The upstream's authoritative 404 came in. -/
def recordNotFound (u : Upstream) (st : ResolverState) : ResolverState :=
  { st with notFound := st.notFound ++ [u] }

end ResolverState

/-! ## One upstream -/

section Query

variable (net : Network)

/-- Ask one upstream: `none` for an authoritative 404 and for a failure, which
`tierErrors` tells apart. -/
def queryOne (u : Upstream) (name : String) (validators : Option Validators)
    (st : ResolverState) : Except ResolveError (Option Answer) × ResolverState :=
  if u.kind.hasProvider then
    let st := st.ask [u]
    match net.fetch u name validators with
    | .notModified => (.ok (some .notModified), st.markHealthy net u)
    | .notFound => (.ok none, (st.markHealthy net u).recordNotFound u)
    | .failure why => (.ok none, (st.markFailure net u why).tierError u why)
    | .package p v => (.ok (some (.package p)), (st.markHealthy net u).setValidators u v)
  else (.error (.upstreamError ("unsupported upstream kind: " ++ u.kind.value)), st)

/-- The validators sent to one upstream: only to the one that issued them. -/
def validatorsFor (validators : Option Validators) (u : Upstream) : Option Validators :=
  match validators with
  | some v => if v.upstreamId = u.id then some v else none
  | none => none

/-- Ask one upstream after another, to the first answer unless `collectAll`.
Also returns the upstreams left over. -/
def queryEach (name : String) (collectAll : Bool) (validators : Option Validators) :
    List Upstream → ResolverState →
      Except ResolveError (List (Answer × Upstream) × List Upstream) × ResolverState
  | [], st => (.ok ([], []), st)
  | u :: rest, st =>
    match queryOne net u name (validatorsFor validators u) st with
    | (.error e, st) => (.error e, st)
    | (.ok none, st) => queryEach name collectAll validators rest st
    | (.ok (some a), st) =>
      if collectAll then
        match queryEach name collectAll validators rest st with
        | (.ok (found, left), st) => (.ok ((a, u) :: found, left), st)
        | (.error e, st) => (.error e, st)
      else (.ok ([(a, u)], rest), st)

/-- The losers of a race that finish before their cancellation reaches them. -/
def finishLate (name : String) (validators : Option Validators) (left : List Upstream)
    (st : ResolverState) : ResolverState :=
  (left.filter net.finishesLate).foldl
    (fun st u => (queryOne net u name (validatorsFor validators u) st).2) st

/-- The rank of an answer: where its upstream stands among the candidates. -/
def candidateOrder (candidates : List Upstream) (found : Answer × Upstream) : Nat :=
  match candidates.findIdx? fun u => u.id = found.2.id with
  | some i => i
  | none => 999

/-- Query one tier. Raced requests all go out before the first one completes. -/
def queryTier (candidates : List Upstream) (name : String) (collectAll : Bool)
    (validators : Option Validators) (st : ResolverState) :
    Except ResolveError (List (Answer × Upstream)) × ResolverState :=
  if net.tierParallel then
    let st := st.ask (candidates.filter fun u => u.kind.hasProvider)
    match queryEach net name collectAll validators (net.completion candidates) st with
    | (.error e, st) => (.error e, st)
    | (.ok (found, left), st) =>
      (.ok (found.insertionSort fun a b => candidateOrder candidates a ≤ candidateOrder candidates b),
        finishLate net name validators left st)
  else
    match queryEach net name collectAll validators candidates st with
    | (.error e, st) => (.error e, st)
    | (.ok (found, _), st) => (.ok found, st)

end Query

/-! ## Merging a tier's documents -/

/-- `list(value)`; providers of a merging ecosystem leave a list there. -/
def listOf : Json → List Json
  | .arr xs => xs
  | .str s => s.toList.map fun c => .str (String.singleton c)
  | .obj fs => fs.map fun e => .str e.1
  | _ => []

/-- One file of a version: the first contributor of a filename wins. -/
def mergeFile (u : Upstream) (acc : RemoteVersion × List String) (file : RemoteFile) :
    RemoteVersion × List String :=
  let (target, claimed) := acc
  if file.filename ∈ claimed then (target, claimed)
  else
    let requires := match file.requiresPython with
      | some r => if r ≠ "" && target.requiresPython.getD "" = "" then some r
          else target.requiresPython
      | none => target.requiresPython
    ({ target with
        files := target.files ++ [{ file with upstreamId := some u.id }]
        requiresPython := requires }, file.filename :: claimed)

/-- One version of one document. -/
def mergeVersion (u : Upstream) (acc : Dict String RemoteVersion × List String)
    (version : RemoteVersion) : Dict String RemoteVersion × List String :=
  let (byVersion, claimed) := acc
  let target := match Dict.get? byVersion version.version with
    | none => { version with files := [] }
    | some target =>
      if target.metadata = [] && version.metadata ≠ [] then
        { target with metadata := version.metadata }
      else target
  let (target, claimed) := version.files.foldl (mergeFile u) (target, claimed)
  (Dict.set byVersion version.version target, claimed)

/-- A version's own yank state, from its surviving files. -/
def rederiveYanked (version : RemoteVersion) : RemoteVersion :=
  if version.files = [] then version
  else if version.files.all fun f => f.yanked.truthy then
    let reason := version.files.findSome? fun f => match f.yanked with
      | .reason s => if s ≠ "" then some (Yanked.reason s) else none
      | .flag _ => none
    { version with yanked := reason.getD (.flag true) }
  else { version with yanked := .flag false }

/-- Union of the documents; earlier entries win collisions. -/
def merge (base : RemotePackage) (baseUpstream : Upstream)
    (results : List (RemotePackage × Upstream)) : RemotePackage :=
  let versions := results.foldl
    (fun acc r => r.1.versions.foldl (mergeVersion r.2) acc) (([], []) : _ × List String)
  { base with
    description := results.foldl
      (fun d r => if !d.truthy && r.1.description.truthy then r.1.description else d)
      base.description
    distTags := results.foldl
      (fun d r => r.1.distTags.foldl (fun d e => Dict.setdefault d e.1 e.2) d) base.distTags
    time := results.foldl
      (fun d r => r.1.time.foldl (fun d e => Dict.setdefault d e.1 e.2) d) base.time
    keywords := .arr (listOf base.keywords)
    etag := none
    upstreamId := some baseUpstream.id
    upstreamName := some baseUpstream.name
    versions := versions.1.map fun e => rederiveYanked e.2 }

/-- Stamp every file with its origin. -/
def tagFilesWithUpstream (p : RemotePackage) (u : Upstream) : RemotePackage :=
  { p with versions := p.versions.map fun v =>
      { v with files := v.files.map fun f =>
          { f with upstreamId := f.upstreamId <|> some u.id } } }

/-! ## Walking the tiers -/

section Walk

variable (net : Network) (name : String) (mergeTier : Bool) (validators : Option Validators)

/-- A tier's result, from its first answer and the others. A tier that merges
several answers holds no 304: it was asked without validators. -/
def tierResult (tier : Int) (responses : Dict Nat (Option Validators))
    (first : Answer × Upstream) (rest : List (Answer × Upstream)) : ResolveResult :=
  let u := first.2
  match first.1 with
  | .notModified => { package := none, upstream := u, tier := tier, notModified := true }
  | .package p =>
    if rest = [] || !mergeTier then
      { package := some (tagFilesWithUpstream p u)
        upstream := u
        tier := tier
        validators := (Dict.get? responses u.id).getD none }
    else
      let others := rest.filterMap fun r => match r.1 with
        | .package q => some (q, r.2)
        | .notModified => none
      { package := some (merge p u ((p, u) :: others)), upstream := u, tier := tier }

/-- The upstreams of a tier that are asked. -/
def candidatesOf (group : List Upstream) : List Upstream :=
  group.filter fun u => !isQuarantined (net.now u) u

/-- The validators a tier is asked with: none where several answers would be merged. -/
def tierValidators (candidates : List Upstream) : Option Validators :=
  if mergeTier && candidates.length > 1 then none else validators

/-- `why`: what each failed upstream of the tier said. -/
def whyUnavailable (errors : List (Upstream × String)) : String :=
  join "; " (errors.map fun e => e.1.name ++ ": " ++ e.2)

/-- Every upstream of the tier is quarantined. -/
def tierQuarantined (tier : Int) : ResolveError :=
  .tierUnavailable ("every tier-" ++ toString tier ++ " upstream for this ecosystem is quarantined")

/-- The tier could not answer, as opposed to answering "no". -/
def tierFailed (tier : Int) (errors : List (Upstream × String)) : ResolveError :=
  .tierUnavailable ("tier " ++ toString tier ++ " could not be consulted (" ++
    whyUnavailable errors ++ ")")

/-- The body of the loop over the tiers. -/
def tierStep (g : Int × List Upstream) (st : ResolverState) :
    Lib.Verdict (Except ResolveError (Option ResolveResult)) × ResolverState :=
  let (tier, group) := g
  let candidates := candidatesOf net group
  if candidates = [] then
    if group ≠ [] then
      (.stop (.error (tierQuarantined tier)), st)
    else (.pass, st)
  else
    match queryTier net candidates name mergeTier (tierValidators mergeTier validators candidates)
      { st with tierErrors := [] } with
    | (.error e, st) => (.stop (.error e), st)
    | (.ok [], st) =>
      if st.tierErrors ≠ [] then (.stop (.error (tierFailed tier st.tierErrors)), st)
      else (.pass, st)
    | (.ok (first :: rest), st) =>
      (.stop (.ok (some (tierResult mergeTier tier st.responseValidators first rest))), st)

def walk (groups : List (Int × List Upstream)) (st : ResolverState) :
    Except ResolveError (Option ResolveResult) × ResolverState :=
  cascade (tierStep net name mergeTier validators) (.ok none) groups st

end Walk

/-- `Resolver(session).resolve(ecosystem, name, merge_tier=..., validators=...)`. -/
def resolve (net : Network) (table : UpstreamTable) (ecosystem : Ecosystem) (name : String)
    (mergeTier : Option Bool := none) (validators : Option Validators := none) :
    Except ResolveError (Option ResolveResult) × ResolverState :=
  let upstreams := loadUpstreams table ecosystem
  let st : ResolverState := { rows := table.rows }
  if upstreams = [] then (.ok none, st)
  else
    let upstreams := claimantsFor net.caseMap upstreams name ecosystem
    if upstreams = [] then (.ok none, st)
    else
      walk net name (mergeTier.getD (ecosystem = .pypi)) validators (groupByTier upstreams) st

end Minireg
