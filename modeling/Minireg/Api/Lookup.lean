import Minireg.Api.Requests
import Minireg.Services.Answers

/-!
# Looking a package up

`FetchCall.run` is `fetch_package`: the probe of the stored row, the resolution, and
what a refresh makes of its outcome. A refresh that brings nothing new serves the
stored copy; `fetch_serves` says in which outcomes it does.
-/

namespace Minireg

open Py Lib

structure PackageLookup where
  package : Option Package
  fresh : Bool
  fromUpstream : Bool := false
  upstream : Option Upstream := none

/-- One call, with what is outside it: the upstreams and their table, `meta_cache_ttl`
and whether the name is remembered as a miss. -/
structure FetchCall where
  env : RegistryEnv
  net : Network
  table : UpstreamTable
  ecosystem : Ecosystem
  name : String
  allowUpstream : Bool := true
  forceRefresh : Bool := false
  metaCacheTtl : Time
  missed : Bool := false

namespace FetchCall

variable (call : FetchCall)

def normalized : String := call.env.normalizedFor call.ecosystem call.name

/-- `_expired`. -/
def expired (cachedAt : Option Time) : Bool :=
  match cachedAt with
  | none => true
  | some t => call.env.now - t > call.metaCacheTtl

/-- `_Freshness.stale`. -/
def stale (p : Package) : Bool := !p.isLocal && call.expired p.cachedAt

/-- The probe is enough: nothing is asked. -/
def upToDate (p : Package) : Bool := p.isLocal || (!call.forceRefresh && !call.stale p)

def validators (stored : Option Package) : Option Validators :=
  if call.forceRefresh then none else stored.bind fun p => Validators.decode p.cachedEtag

/-- What the resolver ends in. -/
def outcome (stored : Option Package) : Except ResolveError (Option ResolveResult) :=
  (resolve call.net call.table call.ecosystem call.name none (call.validators stored)).1

/-- The name an answer is stored under. -/
def declared (remote : RemotePackage) : String :=
  call.env.normalizedFor call.ecosystem (if remote.name ≠ "" then remote.name else call.name)

/-- `_settle` reports a package without content as absent. -/
def leftToServe (db : Database) : Option Package :=
  (db.package? call.ecosystem call.normalized).filter fun p => p.isLocal || p.versions.rows ≠ []

/-- The refresh of a resolution, and what is looked up after it. -/
def finish (resolution : Resolution) (lookup : Database → PackageLookup) (db : Database) :
    Option (PackageLookup × Database) :=
  (refresh call.env call.ecosystem call.table call.name resolution db).map fun db' =>
    (lookup db', db')

/-- The body of the herd guard; `none` is an exception. -/
def refreshed (db : Database) : Option (PackageLookup × Database) :=
  let serve := fun db' => { package := call.leftToServe db', fresh := false : PackageLookup }
  match call.outcome (db.package? call.ecosystem call.normalized) with
  | .error (.tierUnavailable _) => call.finish .settled serve db
  | .error (.upstreamError _) => none
  | .ok none => call.finish .settled serve db
  | .ok (some result) =>
    if result.notModified then
      call.finish .notModified (fun db' =>
        { package := call.leftToServe db', fresh := true, upstream := some result.upstream }) db
    else match result.package with
      | none => none
      | some remote =>
        let resolution := .answered remote result.upstream result.validators result.tier
        -- `UpstreamNameMismatch`
        if call.name ≠ "" && call.normalized ≠ call.declared remote then
          call.finish resolution (fun _ => { package := none, fresh := false }) db
        else
          call.finish resolution (fun db' =>
            { package := db'.package? call.ecosystem (call.declared remote)
              fresh := true
              fromUpstream := true
              upstream := some result.upstream }) db

/-- `fetch_package`. -/
def run (db : Database) : Option (PackageLookup × Database) :=
  match db.package? call.ecosystem call.normalized with
  | some p =>
    if call.upToDate p then some ({ package := some p, fresh := true }, db)
    else if !call.allowUpstream then some ({ package := some p, fresh := true }, db)
    else call.refreshed db
  | none =>
    if !call.allowUpstream then some ({ package := none, fresh := false }, db)
    else if !call.forceRefresh && call.missed then some ({ package := none, fresh := false }, db)
    else call.refreshed db

/-- The package as pruning its dead sources leaves it. -/
def held (p : Package) : Package :=
  (pruneUnsourced call.env.naming call.table call.ecosystem p none).1

/-- The row is neither local nor fresh, and upstreams may be asked. -/
def Asks (p : Package) : Prop := call.upToDate p = false ∧ call.allowUpstream = true

/-- The upstreams are asked and bring a document of the package with versions in it. -/
def Succeeds (p : Package) : Prop :=
  call.Asks p ∧ ∃ result remote, call.outcome (some p) = .ok (some result) ∧
    result.package = some remote ∧ call.declared remote = call.normalized ∧ remote.versions ≠ []

/-- The held copy is looked up: the stored row, or what pruning left of it. -/
def Serves (p : Package) (db : Database) : Prop :=
  ∃ lookup db', call.run db = some (lookup, db') ∧
    ∃ q, lookup.package = some q ∧ q.key = p.key ∧
      (q = p ∨ q.versions = (call.held p).versions)

/-- The row with the tags of a document that lists no version. -/
def tagged (p : Package) (remote : RemotePackage) : Package :=
  let latest := if remote.distTags = [] then p.latestVersion
    else ((Dict.get? remote.distTags "latest").bind
      fun v => coerceText call.env.naming (.str v) latestVersionLimit) <|> p.latestVersion
  { p with
    distTags := persistTags p.isLocal p.distTags remote.distTags
    latestVersion := if latest = none then deriveLatest call.env.naming call.ecosystem p.versions
      else latest }

/-- If pruning removes the latest version, the order of those that remain can be found. -/
def Orders (row : Package) : Prop :=
  latestAsked row (call.held row) = true →
    latestRaises call.ecosystem (call.held row).versions = false

/-- What is asked of a refresh that brings no version: a document it brings declares the
package's name, and `max_semver` does not raise where it is asked. -/
structure Keeps (p : Package) : Prop where
  declares : ∀ result remote, call.outcome (some p) = .ok (some result) →
    result.package = some remote → call.declared remote = call.normalized ∧
      ((call.tagged p remote).latestVersion = none →
        latestRaises call.ecosystem p.versions = false) ∧
      call.Orders (call.tagged p remote)
  orders : (∀ result, call.outcome (some p) = .ok (some result) → result.package = none) →
    call.Orders p

end FetchCall

/-! ## What pruning depends on -/

section Prune

variable {nm : Naming} {table : UpstreamTable} {ecosystem : Ecosystem} {p q : Package}

/-- Pruning a row looks at its versions and its name. -/
theorem pruneUnsourced_versions_congr {answer answer' : Option (RemotePackage × Int)}
    (hversions : q.versions = p.versions) (hname : q.normalizedName = p.normalizedName)
    (hpresent : presentIn nm ecosystem answer' = presentIn nm ecosystem answer) :
    (pruneUnsourced nm table ecosystem q answer').1.versions =
      (pruneUnsourced nm table ecosystem p answer).1.versions := by
  unfold pruneUnsourced
  dsimp only
  rw [hversions, hname, hpresent]
  split
  · exact hversions
  · rfl

end Prune

/-! ## After a refresh -/

theorem latestAsked_congr {row row' pruned pruned' : Package} (hversions : row.versions = row'.versions)
    (htags : row.distTags = row'.distTags) (hlatest : row.latestVersion = row'.latestVersion)
    (hpruned : pruned.versions = pruned'.versions) :
    latestAsked row pruned = latestAsked row' pruned' := by
  unfold latestAsked
  rw [hversions, htags, hlatest, hpruned]

theorem prune_isSome_iff {env : RegistryEnv} {ecosystem : Ecosystem} {table : UpstreamTable}
    {row : Package} {answer : Option (RemotePackage × Int)} {db : Database} :
    (prune env ecosystem table row answer db).isSome = true ↔
      (latestAsked row (pruneUnsourced env.naming table ecosystem row answer).1 = true →
        latestRaises ecosystem
          (pruneUnsourced env.naming table ecosystem row answer).1.versions = false) := by
  unfold prune
  rcases pruneUnsourced env.naming table ecosystem row answer with ⟨pruned, purged, changed⟩
  dsimp only
  split
  · next h =>
    obtain ⟨hasked, hraises⟩ := (Bool.and_eq_true _ _).mp h
    simp [hasked, hraises]
  · next h => simpa using h

namespace FetchCall

variable {call : FetchCall} {db db' : Database} {p row : Package}

variable (call) in
/-- A row with the package's key and versions loses what the package itself would lose. -/
theorem pruned_row {answer : Option (RemotePackage × Int)} (hversions : row.versions = p.versions)
    (hkey : row.key = p.key) (hpresent : presentIn call.env.naming call.ecosystem answer = none) :
    (pruneUnsourced call.env.naming call.table call.ecosystem row answer).1.versions =
      (call.held p).versions :=
  pruneUnsourced_versions_congr hversions (congrArg Prod.snd hkey) hpresent

variable (call row db) in
/-- **Pruning without a word on versions** fails where the order cannot be found, and
otherwise leaves the held versions to be looked up. -/
theorem prune_held (answer : Option (RemotePackage × Int))
    (hfound : p.key = (call.ecosystem, call.normalized)) (hversions : row.versions = p.versions)
    (hkey : row.key = p.key) (hpresent : presentIn call.env.naming call.ecosystem answer = none) :
    ((prune call.env call.ecosystem call.table row answer db).isSome = true ↔ call.Orders row) ∧
    ∀ db', prune call.env call.ecosystem call.table row answer db = some db' →
      ∃ q, db'.package? call.ecosystem call.normalized = some q ∧ q.key = p.key ∧
        q.versions = (call.held p).versions := by
  have hrow : (call.held row).versions = (call.held p).versions := pruned_row call hversions hkey rfl
  constructor
  · rw [prune_isSome_iff]
    unfold Orders
    have hsame := pruned_row call hversions hkey hpresent
    rw [latestAsked_congr rfl rfl rfl (hsame.trans hrow.symm), hsame, hrow]
  · intro db' h
    obtain ⟨pruned, purged, changed, hpruned, -, hput, -⟩ := prune_some h
    have hfst : (pruneUnsourced call.env.naming call.table call.ecosystem row answer).1 = pruned :=
      congrArg Prod.fst hpruned
    have hpkey : pruned.key = p.key := by
      rw [← hfst, pruneUnsourced_key, hkey]
    refine ⟨pruned, ?_, hpkey, ?_⟩
    · unfold Database.package?
      rw [hput]
      exact Table.find?_eq_some_iff.mpr ⟨Table.mem_put.mpr (.inl rfl), hpkey.trans hfound⟩
    · rw [← hfst]
      exact pruned_row call hversions hkey hpresent

theorem settled_eq (hp : db.package? call.ecosystem call.normalized = some p) :
    refresh call.env call.ecosystem call.table call.name .settled db =
      prune call.env call.ecosystem call.table p none db := by
  change settle call.env call.ecosystem call.table call.normalized db = _
  unfold settle
  rw [hp]

theorem notModified_eq (hp : db.package? call.ecosystem call.normalized = some p) :
    refresh call.env call.ecosystem call.table call.name .notModified db =
      prune call.env call.ecosystem call.table { p with cachedAt := some call.env.now } none
        (db.putPackage { p with cachedAt := some call.env.now }) := by
  have hfound := Table.find?_key hp
  have hagain : (db.putPackage { p with cachedAt := some call.env.now }).package? call.ecosystem
      call.normalized = some { p with cachedAt := some call.env.now } :=
    Table.find?_eq_some_iff.mpr ⟨Table.mem_put.mpr (.inl rfl), hfound⟩
  unfold refresh
  dsimp only
  rw [show db.package? call.ecosystem (call.env.normalizedFor call.ecosystem call.name) = some p
    from hp]
  unfold settle
  dsimp only
  rw [show (db.putPackage { p with cachedAt := some call.env.now }).package? call.ecosystem
    (call.env.normalizedFor call.ecosystem call.name) = _ from hagain]

/-- Persisting a document without versions leaves the versions of the row. -/
theorem persist_empty {remote : RemotePackage} {upstream : Upstream}
    {validators : Option Validators} (hempty : remote.versions = [])
    (h : persistRemotePackage call.env.naming call.ecosystem (some p) remote (some upstream)
      (some call.name) validators call.env.now = .ok row) :
    row.key = p.key ∧ row.versions = p.versions ∧
      row.distTags = (call.tagged p remote).distTags ∧
      row.latestVersion = (call.tagged p remote).latestVersion := by
  unfold persistRemotePackage at h
  extract_lets requested displayName named upstreamId package keywords versions latest at h
  split at h
  · cases h
  · obtain rfl := Except.ok.inj h
    have hversions : versions = p.versions := by
      change remote.versions.foldl _ p.versions = _
      rw [hempty]
      rfl
    refine ⟨rfl, hversions, rfl, ?_⟩
    dsimp only
    rw [hversions]
    rfl

/-- A document that declares the name of the package is persisted and pruned. -/
theorem answered_eq {remote : RemotePackage} (upstream : Upstream)
    (validators : Option Validators) (tier : Int)
    (hp : db.package? call.ecosystem call.normalized = some p)
    (hdeclared : call.declared remote = call.normalized) :
    ∃ row, persistRemotePackage call.env.naming call.ecosystem (some p) remote (some upstream)
        (some call.name) validators call.env.now = .ok row ∧
      refresh call.env call.ecosystem call.table call.name
          (.answered remote upstream validators tier) db =
        if row.latestVersion = none && latestRaises call.ecosystem row.versions then none
        else prune call.env call.ecosystem call.table row (some (remote, tier)) db := by
  have hfound : db.package? call.ecosystem (call.env.normalizedFor call.ecosystem
      (if remote.name ≠ "" then remote.name else call.name)) = some p :=
    (congrArg (db.package? call.ecosystem ·) hdeclared).trans hp
  rcases hpersist : persistRemotePackage call.env.naming call.ecosystem (some p) remote
    (some upstream) (some call.name) validators call.env.now with msg | row
  · exfalso
    unfold persistRemotePackage at hpersist
    extract_lets requested displayName named upstreamId package keywords versions latest at hpersist
    split at hpersist
    · next h =>
      simp only [Bool.and_eq_true, decide_eq_true_eq] at h
      exact h.2 hdeclared.symm
    · cases hpersist
  · refine ⟨row, rfl, ?_⟩
    unfold refresh
    dsimp only
    rw [hfound, hpersist]

/-! ## What is looked up -/

/-- A refresh that leaves the held versions to be looked up serves them if it returns. -/
theorem finish_serves {resolution : Resolution} {lookup : Database → PackageLookup} {ok : Prop}
    (hiff : (refresh call.env call.ecosystem call.table call.name resolution db).isSome = true ↔ ok)
    (hkeep : ∀ db', refresh call.env call.ecosystem call.table call.name resolution db = some db' →
      ∃ q, db'.package? call.ecosystem call.normalized = some q ∧ q.key = p.key ∧
        q.versions = (call.held p).versions)
    (hlookup : ∀ db' q, db'.package? call.ecosystem call.normalized = some q →
      q.versions = (call.held p).versions → (lookup db').package = some q) :
    (∃ found db', call.finish resolution lookup db = some (found, db') ∧
      ∃ q, found.package = some q ∧ q.key = p.key ∧
        (q = p ∨ q.versions = (call.held p).versions)) ↔ ok := by
  rw [← hiff, Option.isSome_iff_exists]
  constructor
  · rintro ⟨found, db', hfinish, -⟩
    obtain ⟨db'', h, -⟩ := Option.map_eq_some_iff.mp hfinish
    exact ⟨db'', h⟩
  · rintro ⟨db', h⟩
    obtain ⟨q, hq, hkey, hversions⟩ := hkeep db' h
    exact ⟨lookup db', db', by rw [finish, h]; rfl, q, hlookup db' q hq hversions, hkey,
      .inr hversions⟩

/-- `_settle` finds what is left. -/
theorem leftToServe_held {q : Package} (hleft : (call.held p).versions.rows ≠ [])
    (hq : db.package? call.ecosystem call.normalized = some q)
    (hversions : q.versions = (call.held p).versions) : call.leftToServe db = some q := by
  unfold leftToServe
  rw [hq, Option.filter_some, if_pos]
  simp [hversions, hleft]

/-- Without a document the stored row is pruned. -/
theorem keeps_of_none (h : ∀ result, call.outcome (some p) = .ok (some result) →
    result.package = none) : call.Keeps p ↔ call.Orders p := by
  refine ⟨fun hkeeps => hkeeps.orders h, fun horders => ⟨?_, fun _ => horders⟩⟩
  intro result remote houtcome hremote
  rw [h result houtcome] at hremote
  cases hremote

theorem settled_serves {lookup : Database → PackageLookup}
    (hp : db.package? call.ecosystem call.normalized = some p)
    (hlookup : ∀ db' q, db'.package? call.ecosystem call.normalized = some q →
      q.versions = (call.held p).versions → (lookup db').package = some q) :
    (∃ found db', call.finish .settled lookup db = some (found, db') ∧
      ∃ q, found.package = some q ∧ q.key = p.key ∧
        (q = p ∨ q.versions = (call.held p).versions)) ↔ call.Orders p := by
  have hheld := prune_held call db p none (Table.find?_key hp) rfl rfl rfl
  rw [← settled_eq hp] at hheld
  exact finish_serves hheld.1 hheld.2 hlookup

/-- `Serves`, of the body of the herd guard. -/
def ServesRefreshed (call : FetchCall) (p : Package) (db : Database) : Prop :=
  ∃ found db', call.refreshed db = some (found, db') ∧
    ∃ q, found.package = some q ∧ q.key = p.key ∧ (q = p ∨ q.versions = (call.held p).versions)

theorem notModified_serves {result : ResolveResult}
    (hp : db.package? call.ecosystem call.normalized = some p)
    (hleft : (call.held p).versions.rows ≠ [])
    (houtcome : call.outcome (some p) = .ok (some result)) (hmodified : result.notModified = true) :
    ServesRefreshed call p db ↔ call.Orders p := by
  have hheld := prune_held (p := p) call (db.putPackage { p with cachedAt := some call.env.now })
    { p with cachedAt := some call.env.now } none (Table.find?_key hp) rfl rfl rfl
  rw [← notModified_eq hp] at hheld
  -- the row whose age was reset has the tags and the latest version of the stored one
  have horders : call.Orders { p with cachedAt := some call.env.now } ↔ call.Orders p := by
    have hrow : (call.held { p with cachedAt := some call.env.now }).versions =
        (call.held p).versions := pruned_row call rfl rfl rfl
    unfold Orders
    rw [latestAsked_congr rfl rfl rfl hrow, hrow]
    rfl
  rw [horders] at hheld
  unfold ServesRefreshed refreshed
  rw [hp, houtcome]
  dsimp only
  rw [if_pos hmodified]
  exact finish_serves hheld.1 hheld.2 fun db' q hq hversions => leftToServe_held hleft hq hversions

theorem answered_serves {result : ResolveResult} {remote : RemotePackage}
    (hp : db.package? call.ecosystem call.normalized = some p)
    (houtcome : call.outcome (some p) = .ok (some result)) (hpackage : result.package = some remote)
    (hmodified : result.notModified = false)
    (hfailed : call.declared remote = call.normalized → remote.versions = []) :
    ServesRefreshed call p db ↔ call.Keeps p := by
  have hkeeps : call.Keeps p ↔ call.declared remote = call.normalized ∧
      ((call.tagged p remote).latestVersion = none →
        latestRaises call.ecosystem p.versions = false) ∧
      call.Orders (call.tagged p remote) := by
    refine ⟨fun h => h.declares result remote houtcome hpackage, fun h => ⟨?_, fun hnone => ?_⟩⟩
    · intro result' remote' houtcome' hpackage'
      rw [houtcome] at houtcome'
      obtain rfl := Option.some.inj (Except.ok.inj houtcome')
      rw [hpackage] at hpackage'
      obtain rfl := Option.some.inj hpackage'
      exact h
    · rw [hnone result houtcome] at hpackage
      cases hpackage
  rw [hkeeps]
  unfold ServesRefreshed refreshed
  rw [hp, houtcome]
  dsimp only
  rw [if_neg (by simp [hmodified]), hpackage]
  dsimp only
  by_cases hdeclared : call.declared remote = call.normalized
  · have hempty := hfailed hdeclared
    rw [if_neg (by simp [hdeclared])]
    obtain ⟨row, hpersist, hrefresh⟩ := answered_eq result.upstream result.validators result.tier
      hp hdeclared
    obtain ⟨hkey, hversions, htags, hlatest⟩ := persist_empty hempty hpersist
    have hheld := prune_held call db row (some (remote, result.tier)) (Table.find?_key hp) hversions hkey (by simp [presentIn, hempty])
    have horders : call.Orders row ↔ call.Orders (call.tagged p remote) := by
      have htagged : (call.held (call.tagged p remote)).versions = (call.held p).versions :=
        pruned_row call rfl rfl rfl
      have hrow : (call.held row).versions = (call.held p).versions :=
        pruned_row call hversions hkey rfl
      have hasked : latestAsked row (call.held row) =
          latestAsked (call.tagged p remote) (call.held (call.tagged p remote)) :=
        latestAsked_congr hversions htags hlatest (hrow.trans htagged.symm)
      unfold Orders
      rw [hasked, hrow, htagged]
    refine finish_serves ?_ ?_ fun db' q hq _ => ?_
    · rw [hrefresh, hversions, hlatest]
      split
      · next h =>
        simp only [Bool.and_eq_true, decide_eq_true_eq] at h
        simp [h.1, h.2]
      · next h =>
        exact (hheld.1.trans horders).trans
          ⟨fun ho => ⟨hdeclared, by simpa using h, ho⟩, fun hkeeps => hkeeps.2.2⟩
    · intro db' h
      rw [hrefresh] at h
      split at h
      · cases h
      · exact hheld.2 db' h
    · dsimp only
      rw [hdeclared]
      exact hq
  · refine iff_of_false ?_ fun h => hdeclared h.1
    rintro ⟨found, db', hrun, q, hq, hkey, -⟩
    split at hrun
    · obtain ⟨db'', -, hfound⟩ := Option.map_eq_some_iff.mp hrun
      obtain rfl := (Prod.mk.inj hfound).1
      cases hq
    · obtain ⟨db'', -, hfound⟩ := Option.map_eq_some_iff.mp hrun
      obtain rfl := (Prod.mk.inj hfound).1
      have hdeclares : q.key = (call.ecosystem, call.declared remote) := Table.find?_key hq
      rw [hkey, Table.find?_key hp] at hdeclares
      exact hdeclared (congrArg Prod.snd hdeclares).symm

/-- What a resolution ends in. -/
theorem outcome_cases (heco : call.ecosystem ≠ .docker) (stored : Option Package) :
    (∃ msg, call.outcome stored = .error (.tierUnavailable msg)) ∨
    call.outcome stored = .ok none ∨
    ∃ result, call.outcome stored = .ok (some result) ∧
      ((result.notModified = true ∧ result.package = none) ∨
        ∃ remote, result.notModified = false ∧ result.package = some remote) := by
  refine (resolve_cases call.net call.name call.table none (call.validators stored) heco).imp_right
    (Or.imp_right ?_)
  rintro ⟨g, -, responses, ⟨answer, u⟩, rest, houtcome, -⟩
  refine ⟨_, houtcome, ?_⟩
  rcases answer with first | _
  · right
    unfold tierResult
    dsimp only
    split
    · exact ⟨_, rfl, rfl⟩
    · exact ⟨_, rfl, rfl⟩
  · exact .inl ⟨rfl, rfl⟩

end FetchCall

/-- **A failed refresh serves the stored copy** exactly if the document it brought, if any,
declares the name of the package. -/
theorem fetch_serves (call : FetchCall) (db : Database) (p : Package)
    (heco : call.ecosystem ≠ .docker)
    (hp : db.package? call.ecosystem call.normalized = some p)
    (hleft : (call.held p).versions.rows ≠ []) (hfailed : ¬ call.Succeeds p) :
    call.Serves p db ↔ (call.Asks p → call.Keeps p) := by
  unfold FetchCall.Serves FetchCall.run
  rw [hp]
  dsimp only
  split
  · next h =>
    refine ⟨fun _ hasks => ?_, fun _ => ⟨_, _, rfl, p, rfl, rfl, .inl rfl⟩⟩
    rw [hasks.1] at h
    cases h
  · next hstale =>
    split
    · next h =>
      refine ⟨fun _ hasks => ?_, fun _ => ⟨_, _, rfl, p, rfl, rfl, .inl rfl⟩⟩
      rw [hasks.2] at h
      cases h
    · next hallowed =>
      have hasks : call.Asks p := ⟨by simpa using hstale, by simpa using hallowed⟩
      rw [forall_prop_of_true hasks]
      have hserve : ∀ db' q, db'.package? call.ecosystem call.normalized = some q →
          q.versions = (call.held p).versions → call.leftToServe db' = some q :=
        fun db' q hq hversions => FetchCall.leftToServe_held hleft hq hversions
      obtain ⟨msg, houtcome⟩ | houtcome | ⟨result, houtcome, ⟨hmodified, hpackage⟩ |
        ⟨remote, hmodified, hpackage⟩⟩ := FetchCall.outcome_cases heco (some p)
      · rw [FetchCall.keeps_of_none (by simp [houtcome]), FetchCall.refreshed, hp, houtcome]
        exact FetchCall.settled_serves hp hserve
      · rw [FetchCall.keeps_of_none (by simp [houtcome]), FetchCall.refreshed, hp, houtcome]
        exact FetchCall.settled_serves hp hserve
      · rw [FetchCall.keeps_of_none (by simp [houtcome, hpackage])]
        exact FetchCall.notModified_serves hp hleft houtcome hmodified
      · refine FetchCall.answered_serves hp houtcome hpackage hmodified fun hdeclared => ?_
        by_contra hversions
        exact hfailed ⟨hasks, result, remote, houtcome, hpackage, hdeclared, hversions⟩

/-! ## A document of another name -/

/-- The upstream answers every name with the document of `other`. -/
def renamingNetwork : Network where
  caseMap := .ascii
  fetch _ _ _ := .package { name := "other", versions := [{ version := "1.0.0" }] } none
  fetch_unconditional _ _ := by simp
  fetch_untagged _ _ _ _ _ h := by
    obtain ⟨rfl, -⟩ := Response.package.inj h
    decide
  now _ := 0
  checkedAt _ := 0
  tierParallel := false
  completion us := us
  completion_perm us := .refl us
  finishesLate _ := false

def staleTool : Package where
  ecosystem := .npm
  name := "tool"
  normalizedName := "tool"
  cachedAt := some 0
  versions := ⟨[{ version := "1.0.0", normalizedVersion := "1.0.0", upstreamId := some 1 }],
    List.nodup_singleton _⟩

def staleDatabase : Database where
  packages := ⟨[staleTool], List.nodup_singleton _⟩

def npmSource : UpstreamTable where
  rows := [{ id := 1, name := "npm", ecosystem := .npm, kind := .npm,
             validKind := npm_validKind }]

def staleCall (net : Network) : FetchCall where
  env := { demoEnv with now := 1000 }
  net := net
  table := npmSource
  ecosystem := .npm
  name := "tool"
  metaCacheTtl := 300

/-- The stored version is there to serve, and nothing is found. -/
theorem fetch_misses :
    staleDatabase.package? .npm (staleCall renamingNetwork).normalized = some staleTool ∧
    ((staleCall renamingNetwork).held staleTool).versions.rows ≠ [] ∧
    ¬ (staleCall renamingNetwork).Succeeds staleTool ∧
    ¬ (staleCall renamingNetwork).Serves staleTool staleDatabase := by
  refine ⟨by decide, by decide, ?_, ?_⟩
  · rintro ⟨-, result, remote, houtcome, hpackage, hdeclared, -⟩
    have hother : ((staleCall renamingNetwork).outcome (some staleTool)).toOption.map
        (Option.map fun r => r.package.map fun p => p.name) = some (some (some "other")) := by
      decide
    rw [houtcome, Except.toOption, Option.map_some, Option.map_some, hpackage] at hother
    simp only [Option.map_some, Option.some.injEq] at hother
    unfold FetchCall.declared at hdeclared
    rw [hother] at hdeclared
    exact absurd hdeclared (by decide)
  · rintro ⟨found, db', hrun, q, hq, -⟩
    have hnone : ((staleCall renamingNetwork).run staleDatabase).map (fun r => r.1.package) =
        some none := by decide
    rw [hrun, Option.map_some, hq] at hnone
    cases hnone

/-- No upstream has the name. -/
theorem fetch_serves_stale : (staleCall publicOnly).Serves staleTool staleDatabase ↔
    ((staleCall publicOnly).Asks staleTool → (staleCall publicOnly).Keeps staleTool) := by
  refine fetch_serves (staleCall publicOnly) staleDatabase staleTool (by decide) (by decide)
    (by decide) ?_
  rintro ⟨-, result, remote, houtcome, -⟩
  have hnone : (staleCall publicOnly).outcome (some staleTool) = .ok none := by decide
  rw [hnone] at houtcome
  cases houtcome

end Minireg
