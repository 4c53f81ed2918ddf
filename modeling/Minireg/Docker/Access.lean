import Minireg.Auth.Accounts
import Minireg.Docker.Routing
import Minireg.Lib.Run

/-!
# Who may write to a repository

The token endpoint mints a registry token that names an API token and the actions it was granted; a
request under `/v2` presents one, or an API token directly. `RegistryState` is what the two read: the
accounts, the API tokens and the repositories, which any other handler may change in between, and the
registry tokens that were minted.
-/

namespace Minireg.Docker.Access

open Py Lib
open Minireg.Auth (User ApiToken)

/-! ## Credentials -/

/-- An entry of `access`. -/
structure Entry where
  name : String
  actions : List String
  deriving DecidableEq, Repr

/-- The claims of a registry token. -/
structure Claims where
  /-- `tid`, the API token it was minted from. -/
  tokenId : Option Nat
  access : List Entry
  exp : Time
  deriving DecidableEq, Repr

/-- `access` is `none` where the caller presents an API token. -/
structure RegistryIdentity where
  user : Option User := none
  token : Option ApiToken := none
  access : Option (List Entry) := none
  anonymous : Bool := true
  scanner : Bool := false
  deriving DecidableEq, Repr

/-- The `Authorization` header of a request. -/
inductive Presented where
  | none
  /-- The secret of an API token, over Basic or as a bearer. -/
  | apiToken (id : Nat)
  | registryToken (claims : Claims)
  deriving DecidableEq, Repr

def pushScope : String := "docker:push"

def scannerScope : String := "scanner"

section

variable (env : RoutingEnv) (ident : RegistryIdentity)

def RegistryIdentity.scopes : List String := (ident.token.map (·.scopes)).getD []

/-- `can_read`. -/
def canRead (allowAnonymousRead : Bool) : Bool :=
  ident.scanner ||
    (if ident.anonymous then allowAnonymousRead
     else ["read", "admin", pushScope, "publish"].any (· ∈ ident.scopes))

/-- `push_problem`: why this identity may not push to `name`. -/
def pushProblem (name : String) : Option String :=
  let prefixes := (ident.token.map (·.dockerRepoPrefixes)).getD []
  if !(env.localNamespace ++ "/").toList.isPrefixOf name.toList then
    some ("images can only be pushed under '" ++ env.localNamespace ++
      "/'. Pushing to Docker Hub or an upstream's path is not allowed.")
  else if ident.anonymous || ident.user.isNone then some "pushing requires a login"
  else if !ident.user.any (fun user => user.canPublish || user.isAdmin) then
    some "this account is not permitted to push"
  else if pushScope ∉ ident.scopes ∧ "admin" ∉ ident.scopes then
    some ("this token lacks the '" ++ pushScope ++ "' scope")
  else if prefixes ≠ [] ∧ !prefixes.any (fun p => p.toList.isPrefixOf name.toList) then
    some ("this token may only push to " ++ join ", " prefixes)
  else none

end

/-- `parse_scopes`: `repository:foo/bar:pull,push`, several of them separated by blanks. -/
def parseScope (item : List Char) : Option (String × Entry) :=
  let kind := String.ofList (item.takeWhile (· ≠ ':'))
  let rest := (item.dropWhile (· ≠ ':')).drop 1
  -- what stands behind the last colon are the actions
  let actions := (rest.reverse.takeWhile (· ≠ ':')).reverse
  let name := String.ofList ((rest.reverse.dropWhile (· ≠ ':')).drop 1).reverse
  if kind ∉ ["repository", "registry"] ∨ name = "" then none
  else some (kind,
    { name := name, actions := ((actions.splitOn ',').filter (· ≠ [])).map String.ofList })

def parseScopes (values : List String) : List (String × Entry) :=
  values.flatMap fun value =>
    ((value.toList.splitOn ' ').filter (· ≠ [])).filterMap parseScope

/-! ## What the requests read -/

/-- A registry token, and the identity it was minted for with its rows as they were then. -/
structure Issued where
  claims : Claims
  holder : RegistryIdentity
  mintedAt : Time
  deriving DecidableEq, Repr

structure RegistryState (env : RoutingEnv) where
  upstreams : Configured env
  users : Nat → Option User := fun _ => none
  tokens : Nat → Option ApiToken := fun _ => none
  db : Db := {}
  issued : List Issued := []
  clock : Time := 0
  allowAnonymousRead : Bool := true
  /-- `DOCKER_TOKEN_TTL_SECONDS`. -/
  tokenTtlSeconds : Nat := 300

namespace RegistryState

variable {env : RoutingEnv} (s : RegistryState env)

def unauthorized {α : Type} (message : String) : Except ParseError α :=
  .error (.registry "UNAUTHORIZED" message)

/-- Whether the API token is not in force any more. -/
def tokenGone (token : ApiToken) : Bool := token.revoked || token.expiresAt.any (· < s.clock)

/-- `_token_identity`, of a secret that is right. -/
def tokenIdentity (id : Nat) : Option RegistryIdentity :=
  match s.tokens id with
  | none => none
  | some token =>
    if s.tokenGone token then none
    else match s.users token.userId with
      | none => none
      | some user =>
        if !user.isActive then none
        else some
          { user := some user
            token := some token
            anonymous := false
            scanner := scannerScope ∈ token.scopes }

/-- `authenticate_basic`. -/
def authenticateBasic : Presented → Except ParseError (Option RegistryIdentity)
  | .none => .ok none
  | .apiToken id =>
    match s.tokenIdentity id with
    | some ident => .ok (some ident)
    | none => unauthorized ("invalid credentials. Log in with an API token as the password; " ++
        "account passwords are not accepted by the container registry")
  | .registryToken _ =>
    unauthorized ("invalid credentials. Log in with an API token as the password; " ++
      "account passwords are not accepted by the container registry")

/-- `jwt.decode`: the registry signed the claims, and they have not expired. -/
def decodes (claims : Claims) : Bool :=
  s.issued.any (·.claims = claims) && decide (s.clock < claims.exp)

/-- `resolve_registry_identity`. -/
def resolveRegistryIdentity : Presented → Except ParseError RegistryIdentity
  | .none => .ok {}
  | .apiToken id =>
    match s.authenticateBasic (.apiToken id) with
    | .error e => .error e
    | .ok ident => .ok (ident.getD {})
  | .registryToken claims =>
    if !s.decodes claims then unauthorized "registry token is invalid or expired"
    else match claims.tokenId with
      | none => .ok { access := some claims.access }
      | some id =>
        match (s.tokens id).filter fun token => !s.tokenGone token with
        | none => unauthorized "the API token behind this login was revoked or expired"
        | some token =>
          match (s.users token.userId).filter (·.isActive) with
          | none => unauthorized "account disabled"
          | some user => .ok
              { user := some user
                token := some token
                access := some claims.access
                anonymous := false
                scanner := scannerScope ∈ token.scopes }

/-! ## The token endpoint -/

/-- Whether the identity may write to the repository as it stands: it is the owner's, nobody's or
not there. -/
def ownerOk (ident : RegistryIdentity) (repo : Option DockerRepository) : Bool :=
  repo.all fun repo => repo.ownerUserId.isNone || repo.ownerUserId = ident.user.map (·.id) ||
    ident.user.any (·.isAdmin)

/-- The actions that are granted of one scope, `sorted`. -/
def grant (ident : RegistryIdentity) (mirror : Bool) (entry : Entry) : List String :=
  match resolveTarget env s.upstreams.upstreams entry.name mirror with
  | .error _ => []
  | .ok target =>
    let writes := ["delete", "push"].any (· ∈ entry.actions) && !mirror && target.isLocal &&
      (pushProblem env ident target.canonical).isNone &&
      ownerOk ident (repoNamed s.db target.canonical)
    ["delete", "pull", "push"].filter fun action =>
      action ∈ entry.actions &&
        (if action = "pull" then canRead ident s.allowAnonymousRead else writes)

def grants (ident : RegistryIdentity) (mirror : Bool) (scopes : List String) : List Entry :=
  (parseScopes scopes).filterMap fun scope =>
    if scope.1 ≠ "repository" then none
    else
      let granted := s.grant ident mirror scope.2
      if granted = [] then none else some { name := scope.2.name, actions := granted }

/-- `_token`. -/
def token (presented : Presented) (scopes : List String) (mirror : Bool) :
    Except ParseError (RegistryState env × Claims) :=
  match s.authenticateBasic presented with
  | .error e => .error e
  | .ok found =>
    let ident := found.getD {}
    if ident.anonymous && !s.allowAnonymousRead then unauthorized "authentication required"
    else
      let claims : Claims :=
        { tokenId := ident.token.map (·.id)
          access := s.grants ident mirror scopes
          exp := s.clock + s.tokenTtlSeconds }
      .ok ({ s with issued := s.issued ++ [⟨claims, ident, s.clock⟩] }, claims)

end RegistryState

/-! ## Requests -/

inductive Method where
  | get | head | post | put | patch | delete
  deriving DecidableEq, Repr

inductive Endpoint where
  | manifest | blob | upload | uploadSession | tags | referrers
  deriving DecidableEq, Repr

/-- An upload session is part of a push whatever the method. -/
def writing (method : Method) (endpoint : Endpoint) : Bool :=
  method ∈ [Method.post, .put, .patch, .delete] || endpoint ∈ [Endpoint.upload, .uploadSession]

/-- The routes that write; all of them take the repository from `repo_for_push`. -/
def writeRoute : Endpoint → Method → Bool
  | .manifest, .put => true
  | .manifest, .delete => true
  | .blob, .delete => true
  | .upload, .post => true
  | .uploadSession, method => method ≠ .head && method ≠ .post
  | _, _ => false

namespace RegistryState

variable {env : RoutingEnv} (s : RegistryState env)

/-- The access of a bearer covers the action. -/
def covers (access : List Entry) (name action : String) : Bool :=
  access.any fun entry => entry.name = name && action ∈ entry.actions

/-- `_require`, of an identity that no access decides for. -/
def requireItself (env : RoutingEnv) (allowAnonymousRead : Bool) (ident : RegistryIdentity)
    (action : String) (target : ImageTarget) : Except ParseError Unit :=
  if action = "pull" then
    if canRead ident allowAnonymousRead then .ok ()
    else unauthorized "authentication required to pull"
  else match pushProblem env ident target.canonical with
    | none => .ok ()
    | some problem =>
      if ident.anonymous then unauthorized problem else .error (.registry "DENIED" problem)

/-- `_require`. -/
def require (env : RoutingEnv) (allowAnonymousRead : Bool) (ident : RegistryIdentity)
    (name action : String) (target : ImageTarget) : Except ParseError Unit :=
  match ident.access with
  | some access =>
    if covers access name action then .ok ()
    else if ident.anonymous || action ≠ "pull" then
      unauthorized ("token does not grant " ++ action ++ " on " ++ name)
    else requireItself env allowAnonymousRead ident action target
  | none => requireItself env allowAnonymousRead ident action target

/-- `_dispatch`, up to the repository that a request writes to; there is none for a pull. -/
def dispatch (presented : Presented) (name : String) (mirror : Bool) (method : Method)
    (endpoint : Endpoint) : Except ParseError (Option (Db × DockerRepository)) :=
  match s.resolveRegistryIdentity presented with
  | .error e => .error e
  | .ok ident =>
    match resolveTarget env s.upstreams.upstreams name mirror with
    | .error e => .error e
    | .ok target =>
      let writing := writing method endpoint
      if writing && (mirror || !target.isLocal) then
        .error (.registry "DENIED" (target.canonical ++ " is a cached upstream repository; " ++
          "images can only be pushed under '" ++ env.localNamespace ++ "/'"))
      else match require env s.allowAnonymousRead ident name (if writing then "push" else "pull")
          target with
        | .error e => .error e
        | .ok () =>
          if !writing then .ok none
          else if !writeRoute endpoint method then
            .error (.registry "UNSUPPORTED" "not supported here")
          else match repoForPush target.toTarget
              { userId := ident.user.map (·.id), isAdmin := ident.user.any (·.isAdmin) } s.db with
            | .error e => .error e
            | .ok written => .ok (some written)

end RegistryState

/-! ## Histories -/

/-- What can happen: a registry token is minted, a request writes, and any other handler or the clock
changes what they read. -/
inductive RegistryAct where
  | mint (presented : Presented) (scopes : List String) (mirror : Bool)
  | write (presented : Presented) (name : String) (mirror : Bool) (method : Method)
    (endpoint : Endpoint)
  | account (id : Nat) (user : Option User)
  | apiToken (id : Nat) (token : Option ApiToken)
  | repositories (db : Db)
  | tick (elapsed : Nat)

namespace RegistryState

variable {env : RoutingEnv} (s : RegistryState env)

def step : RegistryAct → Option (RegistryState env)
  | .mint presented scopes mirror =>
    match s.token presented scopes mirror with
    | .error _ => some s
    | .ok (s, _) => some s
  | .write presented name mirror method endpoint =>
    match s.dispatch presented name mirror method endpoint with
    | .ok (some (db, _)) => some { s with db := db }
    | _ => some s
  | .account id user => some { s with users := Function.update s.users id user }
  | .apiToken id token => some { s with tokens := Function.update s.tokens id token }
  | .repositories db => some { s with db := db }
  | .tick elapsed => some { s with clock := s.clock + elapsed }

end RegistryState

def registry (env : RoutingEnv) : System (RegistryState env) RegistryAct where
  init s := s.issued = []
  Step s a s' := s.step a = some s'

/-! ## What an accepted write went through -/

namespace RegistryState

variable {env : RoutingEnv} {s s' : RegistryState env}

/-- The rows of a credential are in force. -/
structure InForce (s : RegistryState env) (id : Nat) (token : ApiToken) (user : User) : Prop where
  stored : s.tokens id = some token
  notGone : s.tokenGone token = false
  account : s.users token.userId = some user
  active : user.isActive = true

/-- The identity of an API token and its account. -/
def identityOf (token : ApiToken) (user : User) : RegistryIdentity where
  user := some user
  token := some token
  anonymous := false
  scanner := scannerScope ∈ token.scopes

theorem tokenIdentity_some {id : Nat} {ident : RegistryIdentity}
    (h : s.tokenIdentity id = some ident) :
    ∃ token user, s.InForce id token user ∧ ident = identityOf token user := by
  unfold tokenIdentity at h
  split at h
  · cases h
  · next token htoken =>
    split at h
    · cases h
    · next hgone =>
      split at h
      · cases h
      · next user huser =>
        split at h
        · cases h
        · next hactive =>
          obtain rfl := Option.some.inj h
          exact ⟨token, user, ⟨htoken, by simpa using hgone, huser, by simpa using hactive⟩, rfl⟩

/-- Who a request is made by: nobody, an API token in force, or a registry token whose API token is
in force. -/
theorem resolveRegistryIdentity_ok {presented : Presented} {ident : RegistryIdentity}
    (h : s.resolveRegistryIdentity presented = .ok ident) :
    (ident.anonymous = true ∧ ∀ access, ident.access = some access →
        ∃ claims, s.decodes claims = true ∧ claims.tokenId = none ∧ access = claims.access) ∨
      (∃ id token user, presented = .apiToken id ∧ s.InForce id token user ∧
        ident = identityOf token user) ∨
      ∃ claims id token user, presented = .registryToken claims ∧ s.decodes claims = true ∧
        claims.tokenId = some id ∧ s.InForce id token user ∧
        ident = { identityOf token user with access := some claims.access } := by
  cases presented with
  | none =>
    obtain rfl := Except.ok.inj h
    exact .inl ⟨rfl, fun access haccess => by (cases haccess)⟩
  | apiToken id =>
    unfold resolveRegistryIdentity authenticateBasic at h
    dsimp only at h
    cases hfound : s.tokenIdentity id with
    | none =>
      rw [hfound] at h
      cases h
    | some found =>
      rw [hfound] at h
      obtain rfl := Except.ok.inj h
      obtain ⟨token, user, hforce, hident⟩ := tokenIdentity_some hfound
      exact .inr (.inl ⟨id, token, user, rfl, hforce, hident⟩)
  | registryToken claims =>
    unfold resolveRegistryIdentity at h
    dsimp only at h
    split at h
    · cases h
    · next hdecodes =>
      split at h
      · next hnobody =>
        obtain rfl := Except.ok.inj h
        exact .inl ⟨rfl, fun access haccess =>
          ⟨claims, by simpa using hdecodes, hnobody, (Option.some.inj haccess).symm⟩⟩
      · next id hid =>
        split at h
        · cases h
        · next token htoken =>
          obtain ⟨hstored, hgone⟩ := Option.filter_eq_some_iff.mp htoken
          split at h
          · cases h
          · next user huser =>
            obtain ⟨haccount, hactive⟩ := Option.filter_eq_some_iff.mp huser
            obtain rfl := Except.ok.inj h
            exact .inr (.inr ⟨claims, id, token, user, rfl, by simpa using hdecodes, hid,
              ⟨hstored, by simpa using hgone, haccount, hactive⟩, rfl⟩)

/-- Claims that are decoded were minted, and have not expired. -/
theorem decodes_some {claims : Claims} (h : s.decodes claims = true) :
    ∃ i ∈ s.issued, i.claims = claims ∧ s.clock < claims.exp := by
  obtain ⟨hissued, hclock⟩ := Bool.and_eq_true _ _ |>.mp h
  obtain ⟨i, hi, hclaims⟩ := List.any_eq_true.mp hissued
  exact ⟨i, hi, of_decide_eq_true hclaims, of_decide_eq_true hclock⟩

/-- A repository is handed to a pusher who may have it. -/
theorem repoForPush_ok {target : Target} {ident : Docker.RegistryIdentity} {db db' : Db}
    {repo : DockerRepository} (h : repoForPush target ident db = .ok (db', repo))
    {stored : DockerRepository} (hstored : repoNamed db target.canonical = some stored) :
    stored.ownerUserId = none ∨ stored.ownerUserId = ident.userId ∨ ident.isAdmin = true := by
  unfold repoForPush getRepo at h
  rw [hstored] at h
  dsimp only at h
  split at h
  · next hnone => exact .inl hnone
  · next owner howner =>
    split at h
    · cases h
    · next hmay =>
      refine .inr ?_
      rw [howner]
      by_cases hown : some owner = ident.userId
      · exact .inl hown
      · refine .inr ?_
        simpa [hown] using hmay

/-- What a write that was let through went through. -/
theorem dispatch_ok {presented : Presented} {name : String} {mirror : Bool} {method : Method}
    {endpoint : Endpoint} {written : Db × DockerRepository}
    (h : s.dispatch presented name mirror method endpoint = .ok (some written)) :
    ∃ ident target, s.resolveRegistryIdentity presented = .ok ident ∧
      resolveTarget env s.upstreams.upstreams name mirror = .ok target ∧ target.isLocal = true ∧
      require env s.allowAnonymousRead ident name "push" target = .ok () ∧
      repoForPush target.toTarget
        { userId := ident.user.map (·.id), isAdmin := ident.user.any (·.isAdmin) } s.db =
          .ok written := by
  unfold dispatch at h
  split at h
  · cases h
  · next ident hident =>
    split at h
    · cases h
    · next target htarget =>
      dsimp only at h
      split at h
      · cases h
      · next hlocal =>
        split at h
        · cases h
        · next hrequire =>
          split at h
          · cases h
          · next hwriting =>
            have hwrites : writing method endpoint = true := by simpa using hwriting
            rw [hwrites] at hlocal hrequire
            split at h
            · cases h
            · split at h
              · cases h
              · next hrepo =>
                obtain rfl := Option.some.inj (Except.ok.inj h)
                refine ⟨ident, target, hident, htarget, ?_, hrequire, hrepo⟩
                exact (by simpa using hlocal : mirror = false ∧ target.isLocal = true).2

/-- A local target is the name itself. -/
theorem canonical_of_isLocal {name : String} {mirror : Bool} {target : ImageTarget}
    (h : resolveTarget env s.upstreams.upstreams name mirror = .ok target)
    (hlocal : target.isLocal = true) : target.canonical = name := by
  rcases resolveTarget_cases h with ⟨-, -, rfl⟩ | ⟨u, remote, -, -, -, -, rfl⟩
  · rfl
  · cases hlocal

/-- A push is granted to who had no problem with it. -/
theorem grants_push {ident : RegistryIdentity} {mirror : Bool} {scopes : List String} {name : String}
    (h : covers (s.grants ident mirror scopes) name "push" = true) :
    pushProblem env ident name = none := by
  obtain ⟨entry, hentry, hboth⟩ := List.any_eq_true.mp h
  rw [Bool.and_eq_true, decide_eq_true_eq, decide_eq_true_eq] at hboth
  obtain ⟨rfl, hpush⟩ := hboth
  obtain ⟨scope, -, hscope⟩ := List.mem_filterMap.mp hentry
  split at hscope
  · cases hscope
  · dsimp only at hscope
    split at hscope
    · cases hscope
    · obtain rfl := Option.some.inj hscope
      dsimp only at hpush ⊢
      unfold grant at hpush
      split at hpush
      · cases hpush
      · next target htarget =>
        have hwrites := (Bool.and_eq_true _ _ |>.mp (List.mem_filter.mp hpush).2).2
        rw [if_neg (by decide)] at hwrites
        simp only [Bool.and_eq_true] at hwrites
        obtain ⟨⟨⟨-, hlocal⟩, hproblem⟩, -⟩ := hwrites
        rw [← canonical_of_isLocal htarget hlocal]
        exact Option.isNone_iff_eq_none.mp hproblem

/-- Only a login with an API token has no problem. -/
theorem of_pushProblem_none {ident : RegistryIdentity} {name : String}
    (h : pushProblem env ident name = none) :
    ident.anonymous = false ∧ ident.token ≠ none := by
  unfold pushProblem at h
  dsimp only at h
  split at h
  · cases h
  · split at h
    · cases h
    · next hlogin =>
      split at h
      · cases h
      · split at h
        · cases h
        · next hscope =>
          refine ⟨(by simpa using hlogin : ident.anonymous = false ∧ ident.user ≠ none).1,
            fun hnone => hscope ?_⟩
          unfold RegistryIdentity.scopes
          rw [hnone]
          exact ⟨List.not_mem_nil, List.not_mem_nil⟩

/-- What lets a push through: the access that a registry token carries, or no problem. -/
theorem require_push {ident : RegistryIdentity} {name : String} {target : ImageTarget}
    (h : require env s.allowAnonymousRead ident name "push" target = .ok ()) :
    (∃ access, ident.access = some access ∧ covers access name "push" = true) ∨
      ident.access = none ∧ pushProblem env ident target.canonical = none := by
  unfold require at h
  split at h
  · next access haccess =>
    split at h
    · next hcovers => exact .inl ⟨access, haccess, hcovers⟩
    · rw [if_pos (by rw [show decide ("push" ≠ "pull") = true by decide, Bool.or_true])] at h
      cases h
  · next hnone =>
    unfold requireItself at h
    rw [if_neg (by decide)] at h
    split at h
    · next hproblem => exact .inr ⟨hnone, hproblem⟩
    · split at h <;> cases h

/-- What was true when a registry token was minted. -/
structure Issued.Sound (i : Issued) (env : RoutingEnv) (ttl : Nat) : Prop where
  exp : i.claims.exp = i.mintedAt + ttl
  tokenId : i.claims.tokenId = i.holder.token.map (·.id)
  push : ∀ name, covers i.claims.access name "push" = true → pushProblem env i.holder name = none

def Minted (s : RegistryState env) : Prop :=
  ∀ i ∈ s.issued, Issued.Sound i env s.tokenTtlSeconds

/-- **Every step** mints only what its holder may do then. -/
theorem Minted.step (h : s.Minted) {act : RegistryAct} (hstep : s.step act = some s') :
    s'.Minted := by
  cases act with
  | mint presented scopes mirror =>
    unfold RegistryState.step at hstep
    dsimp only at hstep
    split at hstep
    · obtain rfl := Option.some.inj hstep
      exact h
    · next minted claims hminted =>
      obtain rfl := Option.some.inj hstep
      unfold token at hminted
      split at hminted
      · cases hminted
      · next found hfound =>
        dsimp only at hminted
        split at hminted
        · cases hminted
        · cases hminted
          intro i hi
          rcases List.mem_append.mp hi with hi | hi
          · exact h i hi
          · obtain rfl := List.mem_singleton.mp hi
            exact ⟨rfl, rfl, fun name hcovers => grants_push hcovers⟩
  | write presented name mirror method endpoint =>
    unfold RegistryState.step at hstep
    dsimp only at hstep
    split at hstep <;>
      · obtain rfl := Option.some.inj hstep
        exact h
  | account id user =>
    obtain rfl := Option.some.inj hstep
    exact h
  | apiToken id token =>
    obtain rfl := Option.some.inj hstep
    exact h
  | repositories db =>
    obtain rfl := Option.some.inj hstep
    exact h
  | tick elapsed =>
    obtain rfl := Option.some.inj hstep
    exact h

end RegistryState

/-- **The authority behind a write**: when it is let through, its API token and account are in force
and may have the repository as it stands; and they had no push problem with it, at the request itself
or when the registry token was minted, which has not expired since. -/
theorem write_authority {env : RoutingEnv} {s : RegistryState env}
    (h : (registry env).Reach (fun _ _ => True) s) {presented : Presented} {name : String}
    {mirror : Bool} {method : Method} {endpoint : Endpoint} {written : Db × DockerRepository}
    (hwrite : s.dispatch presented name mirror method endpoint = .ok (some written)) :
    ∃ id token user, s.InForce id token user ∧
      (∀ repo, repoNamed s.db name = some repo → repo.ownerUserId = none ∨
        repo.ownerUserId = some user.id ∨ user.isAdmin = true) ∧
      ((presented = .apiToken id ∧
          pushProblem env (RegistryState.identityOf token user) name = none) ∨
        ∃ i ∈ s.issued, presented = .registryToken i.claims ∧ i.claims.tokenId = some id ∧
          i.claims.tokenId = i.holder.token.map (·.id) ∧
          s.clock < i.mintedAt + s.tokenTtlSeconds ∧ pushProblem env i.holder name = none) := by
  have hminted : s.Minted := by
    refine h.invariant (fun s hinit i hi => ?_) fun s act s' hminted _ hstep => hminted.step hstep
    rw [show s.issued = [] from hinit] at hi
    cases hi
  obtain ⟨ident, target, hident, htarget, hlocal, hrequire, hrepo⟩ :=
    RegistryState.dispatch_ok hwrite
  have hname := RegistryState.canonical_of_isLocal htarget hlocal
  have howner : ∀ user, ident.user = some user →
      ∀ repo, repoNamed s.db name = some repo → repo.ownerUserId = none ∨
        repo.ownerUserId = some user.id ∨ user.isAdmin = true := by
    intro user huser repo hstored
    rw [← hname] at hstored
    have hmay := RegistryState.repoForPush_ok hrepo hstored
    rwa [huser] at hmay
  rcases RegistryState.resolveRegistryIdentity_ok hident with
    ⟨hanonymous, hnobody⟩ | ⟨id, token, user, hpresented, hforce, rfl⟩ |
      ⟨claims, id, token, user, hpresented, hdecodes, hid, hforce, rfl⟩
  · rcases RegistryState.require_push hrequire with ⟨access, haccess, hcovers⟩ | ⟨-, hproblem⟩
    · -- a push was never granted to nobody
      obtain ⟨claims, hdecodes, hnone, rfl⟩ := hnobody access haccess
      obtain ⟨i, hi, rfl, -⟩ := RegistryState.decodes_some hdecodes
      have hsound := hminted i hi
      have htoken := (RegistryState.of_pushProblem_none (hsound.push name hcovers)).2
      rw [hsound.tokenId, Option.map_eq_none_iff] at hnone
      exact absurd hnone htoken
    · have hlogin := (RegistryState.of_pushProblem_none hproblem).1
      rw [hanonymous] at hlogin
      cases hlogin
  · refine ⟨id, token, user, hforce, howner user rfl, .inl ⟨hpresented, ?_⟩⟩
    rcases RegistryState.require_push hrequire with ⟨access, haccess, -⟩ | ⟨-, hproblem⟩
    · cases haccess
    · exact hname ▸ hproblem
  · refine ⟨id, token, user, hforce, howner user rfl, .inr ?_⟩
    rcases RegistryState.require_push hrequire with ⟨access, haccess, hcovers⟩ | ⟨hnone, -⟩
    · obtain rfl := Option.some.inj haccess
      obtain ⟨i, hi, rfl, hclock⟩ := RegistryState.decodes_some hdecodes
      have hsound := hminted i hi
      refine ⟨i, hi, hpresented, hid, hsound.tokenId, ?_, hsound.push name hcovers⟩
      rw [← hsound.exp]
      exact hclock
    · cases hnone

/-- Whether a request was let through to a repository that it writes to. -/
def RegistryState.writes {env : RoutingEnv} (s : RegistryState env) (claims : Claims)
    (name : String) : Bool :=
  match s.dispatch (.registryToken claims) name false .post .upload with
  | .ok written => written.isSome
  | .error _ => false

def pusher : User where
  id := 1
  username := "dev"
  canPublish := true

def pushToken : ApiToken where
  id := 7
  userId := 1
  scopes := [pushScope]

/-- The registry token of `mintPush`. -/
def pushClaims : Claims where
  tokenId := some 7
  access := [{ name := "local/app", actions := ["pull", "push"] }]
  exp := 300

def emptyRegistry : RegistryState plainRouting where
  upstreams := hubAndGhcr

/-- A login for a push. -/
def mintPush : List RegistryAct :=
  [.account 1 (some pusher), .apiToken 7 (some pushToken),
   .mint (.apiToken 7) ["repository:local/app:pull,push"] false]

theorem reach_exec {acts : List RegistryAct} {s : RegistryState plainRouting}
    (h : acts.foldlM RegistryState.step emptyRegistry = some s) :
    (registry plainRouting).Reach (fun _ _ => True) s :=
  have hinit : (registry plainRouting).init emptyRegistry := rfl
  System.Reach.exec (fun _ _ _ hstep => ⟨trivial, hstep⟩) (.init hinit) h

theorem write_authority_push : ∃ s : RegistryState plainRouting,
    s.writes pushClaims "local/app" = true ∧ ∃ id token user, s.InForce id token user := by
  have hrun : ∃ s, mintPush.foldlM RegistryState.step emptyRegistry = some s ∧
      s.writes pushClaims "local/app" = true := ⟨_, rfl, by decide +kernel⟩
  obtain ⟨s, hexec, hwrites⟩ := hrun
  refine ⟨s, hwrites, ?_⟩
  unfold RegistryState.writes at hwrites
  split at hwrites
  · next written hwrite =>
    obtain ⟨written, rfl⟩ := Option.isSome_iff_exists.mp hwrites
    obtain ⟨id, token, user, hforce, -⟩ := write_authority (reach_exec hexec) hwrite
    exact ⟨id, token, user, hforce⟩
  · cases hwrites

def withdrawRight : RegistryAct := .account 1 (some { pusher with canPublish := false })

/-- The right to publish is withdrawn after the login, and the push goes on. -/
theorem push_outlives_right : ∃ s : RegistryState plainRouting,
    (registry plainRouting).Reach (fun _ _ => True) s ∧ s.writes pushClaims "local/app" = true ∧
    ∃ user, s.InForce 7 pushToken user ∧
      pushProblem plainRouting (RegistryState.identityOf pushToken user) "local/app" =
        some "this account is not permitted to push" := by
  have hrun : ∃ s, (mintPush ++ [withdrawRight]).foldlM
      RegistryState.step emptyRegistry = some s ∧ s.writes pushClaims "local/app" = true ∧
      s.InForce 7 pushToken { pusher with canPublish := false } :=
    ⟨_, rfl, by decide +kernel, rfl, rfl, rfl, rfl⟩
  obtain ⟨s, hexec, hwrites, hforce⟩ := hrun
  exact ⟨s, reach_exec hexec, hwrites, _, hforce, by decide +kernel⟩

end Minireg.Docker.Access
