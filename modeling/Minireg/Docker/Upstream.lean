import Minireg.Docker.Naming
import Minireg.Lib.Run
import Minireg.Py.Json
import Minireg.Upstreams.Redirects

/-!
# Talking to an upstream registry

`_send` makes one request of a registry: it answers the challenges on the way and follows
redirects by hand, and every URL it asks, a token realm too, goes through `check_target`.
The requests of one client run side by side and share its token cache, so an exchange is a
state (`Exchange`) that a hop or a token request takes further, and `Traffic` holds those of a
client with the cache and a log of what was sent.
-/

namespace Minireg.Docker

open Py Netguard

/-! ## Parameters -/

inductive IntError where
  /-- `TypeError` or `ValueError` -/
  | badValue
  | overflow

/-- `path` is that of `urlsplit`, `wordChar` what `\w` matches, `str` and `int` Python's. -/
structure RegistryWeb extends Web where
  path : String → String
  wordChar : Char → Bool
  str : Json → String
  int : Json → Except IntError Int

structure RegistrySettings extends FetchSettings where
  maxRedirects : Int := 3

/-! ## The client -/

/-- An image upstream's row as far as its client reads it; `secret` is the decrypted credential. -/
structure RegistryUpstream where
  name : String
  url : String
  gitlabOci : Bool := false
  registryUrl : Option String := none
  blobHosts : List String := []
  authHosts : List String := []
  secret : Option String := none
  authType : Option String := none

structure RegistryClient where
  name : String
  base : String
  host : String
  blobHosts : List String := []
  authHosts : List String := []
  secret : Option String := none
  authType : Option String := none
  deriving DecidableEq

variable (web : RegistryWeb) (settings : RegistrySettings)

/-- `RegistryClient.__init__`; `none` is a `ValueError`. -/
def RegistryClient.ofUpstream (up : RegistryUpstream) : Option RegistryClient := do
  let base := stripSlashes <|
    if up.gitlabOci then (up.registryUrl.filter (· ≠ "")).getD up.url else up.url
  let host ← web.hostOf base
  let preset := preset? up.name
  let gitlabHost ← if up.gitlabOci then web.hostOf up.url else some ""
  return {
    name := up.name
    base := base
    host := host
    blobHosts := if up.blobHosts = [] then (preset.map Preset.blobHosts).getD [] else up.blobHosts
    authHosts := up.authHosts ++ (preset.map Preset.authHosts).getD [] ++
      (if gitlabHost = "" then [] else [gitlabHost])
    secret := up.secret
    authType := up.authType }

/-- `_basic`. -/
def RegistryClient.basic (client : RegistryClient) : Option (String × String) :=
  match client.secret.filter (· ≠ "") with
  | none => none
  | some secret =>
    let authType := web.caseMap.lower ((client.authType.filter (· ≠ "")).getD "none")
    let user := secret.toList.takeWhile (· ≠ ':')
    match secret.toList.dropWhile (· ≠ ':') with
    | _ :: password =>
      if authType = "basic" || authType = "none" then
        some (String.ofList user, String.ofList password)
      else some ("minireg", secret)
    | [] => some ("minireg", secret)

/-! ## Where we connect -/

inductive Purpose where
  | registry | auth | blob | mirror
  deriving DecidableEq, Repr

def Purpose.value : Purpose → String
  | registry => "registry"
  | auth => "auth"
  | blob => "blob"
  | mirror => "mirror"

inductive Stopped where
  /-- `BlockedTarget` -/
  | blocked (message : String)
  /-- `UpstreamUnavailable` -/
  | unavailable (message : String) (status : Option Nat := none)
  /-- any other exception -/
  | raised
  deriving DecidableEq

def parsed {α : Type} : Option α → Except Stopped α
  | none => .error .raised
  | some a => .ok a

/-- Whether a host may be asked for a purpose. -/
def RegistryClient.permits (client : RegistryClient) (host : String) : Purpose → Bool
  | .registry => host = client.host
  | .auth => host = client.host || hostMatches web.caseMap host client.authHosts
  | .blob | .mirror =>
    host = client.host || hostMatches web.caseMap host client.blobHosts ||
      hostMatches web.caseMap host settings.artifactHostAllowlist

/-- The addresses of a permitted host; a literal address is its own. -/
def RegistryClient.addressesOf (client : RegistryClient) (host : String) (resolved : Resolved) :
    Except Stopped (List String) :=
  if (web.ipAddress host).isSome then .ok [host]
  else
    match resolved with
    | some addresses => .ok addresses
    | none => .error (.unavailable (client.name ++ ": cannot resolve " ++ host))

/-- Unless private addresses are allowed, every address of a host has to be public. -/
def refusePrivate (host : String) (addresses : List String) : Except Stopped Unit :=
  match addresses.find? (!web.isPublicAddress ·) with
  | some bad =>
    if settings.allowPrivateAddresses then .ok ()
    else .error (.blocked ("'" ++ host ++ "' resolves to a private or reserved address (" ++ bad ++
      "); refusing"))
  | none => .ok ()

/-- `check_target`: the host it pins, with its addresses. -/
def RegistryClient.checkTarget (client : RegistryClient) (url : String) (purpose : Purpose)
    (resolved : Resolved) : Except Stopped (String × List String) := do
  let parts ← parsed (web.urlsplit url)
  let scheme := web.caseMap.lower parts.scheme
  if scheme ≠ "http" && scheme ≠ "https" then
    .error (.blocked ("refusing a non-HTTP URL (" ++
      (if scheme = "" then "no scheme" else scheme) ++ ")"))
  else if scheme = "http" && !settings.allowPlaintextHttp then
    .error (.blocked "refusing plaintext http; set UPSTREAM_ALLOW_PLAINTEXT_HTTP")
  else
    let host := web.caseMap.lower (parts.hostname.getD "")
    if host = "" then .error (.blocked "URL has no host")
    else if !client.permits web settings host purpose then
      .error (.blocked ("'" ++ host ++ "' is not an allowed " ++ purpose.value ++
        " host for upstream '" ++ client.name ++ "'. Add it to the upstream's blob hosts if this " ++
        "registry really serves from there."))
    else do
      let _port ← parsed parts.port
      let addresses ← client.addressesOf web host resolved
      refusePrivate web settings host addresses
      return (host, addresses)

theorem parsed_ok {α : Type} {o : Option α} {a : α} (h : parsed o = .ok a) : o = some a := by
  rcases o with _ | b
  · cases h
  · exact congrArg some (Except.ok.inj h)

variable {web settings} in
/-- A URL that passes is of a host that is permitted for the purpose. -/
theorem checkTarget_ok {client : RegistryClient} {url : String} {purpose : Purpose}
    {resolved : Resolved} {host : String} {addresses : List String}
    (h : client.checkTarget web settings url purpose resolved = .ok (host, addresses)) :
    web.hostOf url = some host ∧ client.permits web settings host purpose = true := by
  obtain ⟨parts, hparts, h⟩ := bind_ok h
  dsimp only at h
  split at h
  · cases h
  split at h
  · cases h
  split at h
  · cases h
  split at h
  · cases h
  next hpermits =>
    obtain ⟨port, -, h⟩ := bind_ok h
    obtain ⟨found, -, h⟩ := bind_ok h
    obtain ⟨-, -, h⟩ := bind_ok h
    have hhost : web.caseMap.lower (parts.hostname.getD "") = host :=
      congrArg Prod.fst (Except.ok.inj h)
    refine ⟨?_, hhost ▸ by simpa using hpermits⟩
    unfold Web.hostOf
    rw [parsed_ok hparts, ← hhost]
    rfl

/-! ## Challenges and tokens -/

/-- `_CHALLENGE_PARAM.findall`. -/
def challengeParams (wordChar : Char → Bool) : Nat → List Char → List (String × String)
  | 0, _ => []
  | _, [] => []
  | n + 1, c :: rest =>
    if wordChar c then
      let name := (c :: rest).takeWhile wordChar
      match (c :: rest).dropWhile wordChar with
      | '=' :: '"' :: body =>
        match body.dropWhile (· ≠ '"') with
        | _ :: after =>
          (String.ofList name, String.ofList (body.takeWhile (· ≠ '"'))) ::
            challengeParams wordChar n after
        | [] => []
      | after => challengeParams wordChar n after
    else challengeParams wordChar n rest

/-- What a challenge asks for; `mirror` is a challenge of a redirect target. -/
structure Ask where
  realm : String
  service : String
  scope : String
  mirror : Bool
  deriving DecidableEq

/-- The key of the token cache. -/
def Ask.key (ask : Ask) : String :=
  ask.realm ++ "|" ++ ask.service ++ "|" ++ ask.scope ++ "|" ++
    (if ask.mirror then "True" else "False")

/-- The challenge as `_token_for` reads it, `none` without a realm. -/
def Ask.ofChallenge (challenge scope : String) (mirror : Bool) : Option Ask :=
  let params := updateHeaders [] (challengeParams web.wordChar challenge.length challenge.toList)
  ((Dict.get? params "realm").filter (· ≠ "")).map fun realm =>
    { realm := realm
      service := (Dict.get? params "service").getD ""
      scope := ((Dict.get? params "scope").filter (· ≠ "")).getD scope
      mirror := mirror }

/-- A token, with what it was asked for and the credential it was asked with. -/
structure Token where
  text : String
  ask : Ask
  basic : Option (String × String)
  deriving DecidableEq

/-- What an `authorization` header is made from. -/
inductive Authorization where
  | basic (user password : String)
  | bearer (t : Token)
  deriving DecidableEq

/-- Whether a header is derived from the upstream's credential. -/
def Authorization.ofCredential : Authorization → Bool
  | basic _ _ => true
  | bearer t => t.basic.isSome

/-- `_tokens`: by key, with the time a token is good until. -/
abbrev Tokens := Dict String (Token × Time)

def Tokens.store (tokens : Tokens) (t : Token) (expiry : Time) : Tokens :=
  let tokens := Dict.set tokens t.ask.key (t, expiry)
  if tokens.length > 2048 then [] else tokens

/-- A token realm's answer; `body` is `none` where it is not JSON. -/
structure TokenAnswer where
  status : Nat
  body : Option Json := none

/-- `expires_in`, in seconds. -/
def ttlOf (expiresIn : Json) : Except Stopped Int :=
  match web.int (if expiresIn.truthy then expiresIn else .int 60) with
  | .ok n => .ok (max 30 (min n 3600))
  | .error .badValue => .ok 60
  | .error .overflow => .error .raised

/-- The token of an answer and how long it lasts. -/
def RegistryClient.tokenOf (client : RegistryClient) (answer : TokenAnswer) :
    Except Stopped (String × Int) :=
  if answer.status = 401 || answer.status = 403 then
    .error (.unavailable (client.name ++ ": the registry refused our credentials (" ++
      toString answer.status ++ ")") (some answer.status))
  else if answer.status = 429 then
    .error (.unavailable (client.name ++ ": token endpoint rate limited") (some 429))
  else if answer.status ≥ 400 then
    .error (.unavailable (client.name ++ ": token endpoint answered " ++ toString answer.status)
      (some answer.status))
  else
    match answer.body with
    | none => .error (.unavailable (client.name ++ ": token endpoint sent non-JSON"))
    | some (.obj fields) =>
      let token := if (Json.get fields "token").truthy then Json.get fields "token"
        else Json.get fields "access_token"
      if !token.truthy then
        .error (.unavailable (client.name ++ ": token endpoint sent no token"))
      else (ttlOf web (Json.get fields "expires_in")).map fun ttl => (web.str token, ttl)
    | some _ => .error .raised

/-! ## An exchange -/

/-- A registry's answer, with the headers that are read. -/
structure Answer where
  status : Nat
  wwwAuthenticate : String := ""
  location : Option String := none
  deriving DecidableEq

/-- A request of an exchange; `ask` is set on one of a token realm, `answer` on one of a registry
that was answered. -/
structure Outgoing where
  exchange : Nat
  method : String
  url : String
  purpose : Purpose
  addresses : List String
  headers : Dict String String
  authorization : Option Authorization
  ask : Option Ask := none
  answer : Option Answer := none
  deriving DecidableEq

inductive Outcome where
  | answered (answer : Answer)
  | stopped (s : Stopped)

/-- Where an exchange waits: before a hop, or for a token that `host` asked for. -/
inductive Stage where
  | hop
  | token (host : String) (ask : Ask)
  | ended (outcome : Outcome)

/-- A call of `_send` under way. -/
structure Exchange where
  method : String
  current : String
  scope : String
  headers : Dict String String := []
  purpose : Purpose := .registry
  auth : Option Authorization := none
  triedAuth : List String := []
  mirrorAuth : Dict String Token := []
  hopsLeft : Nat
  stage : Stage := .hop

namespace Exchange

def stop (ex : Exchange) (s : Stopped) : Exchange := { ex with stage := .ended (.stopped s) }

/-- A token is sent with the hops from now on: to the registry, or to the host that asked. -/
def bearer (ex : Exchange) (host : String) (mirror : Bool) (t : Token) : Exchange :=
  if mirror then { ex with mirrorAuth := Dict.set ex.mirrorAuth host t, stage := .hop }
  else { ex with auth := some (.bearer t), stage := .hop }

/-- `_token_for`, up to the request of the realm. -/
def challenged (client : RegistryClient) (tokens : Tokens) (now : Time) (ex : Exchange)
    (host challenge scope : String) (mirror : Bool) : Exchange :=
  match Ask.ofChallenge web challenge scope mirror with
  | none => ex.stop (.unavailable (client.name ++ ": auth challenge has no realm"))
  | some ask =>
    match (Dict.get? tokens ask.key).filter (·.2 > now) with
    | some (t, _) => ex.bearer host mirror t
    | none => { ex with stage := .token host ask }

/-- `challenge.lower().startswith(scheme)`. -/
def hasScheme (scheme challenge : String) : Bool :=
  scheme.toList.isPrefixOf (web.caseMap.lower challenge).toList

/-- The repository in the path of a manifest or a blob. -/
def repositoryOf (path : String) : Option String :=
  match path.toList.splitOn '/' with
  | [] :: ['v', '2'] :: rest =>
    match rest.reverse with
    | reference :: kind :: segments =>
      let repository := ['/'].intercalate segments.reverse
      if reference ≠ [] && repository ≠ [] &&
          (kind = "manifests".toList || kind = "blobs".toList) then some (String.ofList repository)
      else none
    | _ => none
  | _ => none

/-- The scope of a mirror's challenge that names none. -/
def mirrorScope (ex : Exchange) : String :=
  match repositoryOf (web.path ex.current) with
  | some repository => "repository:" ++ repository ++ ":pull"
  | none => ex.scope

/-- What an answer of `host` leads to. -/
def answered (client : RegistryClient) (tokens : Tokens) (now : Time) (ex : Exchange)
    (host : String) (answer : Answer) : Exchange :=
  let challenge := answer.wwwAuthenticate
  if answer.status = 401 && host ≠ client.host && host ∉ ex.triedAuth then
    let ex := { ex with triedAuth := host :: ex.triedAuth }
    if hasScheme web "bearer" challenge then
      ex.challenged web client tokens now host challenge (ex.mirrorScope web) true
    else ex.stop (.unavailable (client.name ++ ": redirect target " ++ host ++
      " wants credentials") (some 401))
  else if answer.status = 401 && host = client.host && client.host ∉ ex.triedAuth then
    let ex := { ex with triedAuth := client.host :: ex.triedAuth }
    if hasScheme web "bearer" challenge then
      ex.challenged web client tokens now host challenge ex.scope false
    else
      match client.basic web with
      | some (user, password) =>
        if hasScheme web "basic" challenge then { ex with auth := some (.basic user password) }
        else ex.stop (.unavailable (client.name ++
          ": authentication required and no usable credentials") (some 401))
      | none => ex.stop (.unavailable (client.name ++
          ": authentication required and no usable credentials") (some 401))
  else if answer.status ∈ redirectStatuses then
    match answer.location.filter (· ≠ "") with
    | none => ex.stop (.unavailable (client.name ++ ": redirect with no Location"))
    | some location =>
      match web.join ex.current location with
      | none => ex.stop .raised
      | some next =>
        { ex with current := next, method := if answer.status = 303 then "GET" else ex.method }
  else { ex with stage := .ended (.answered answer) }

/-- What a hop meets: the addresses of its host, and the answer or the text of a transport error,
at a time. -/
structure HopReply where
  resolved : Resolved
  now : Time
  answer : Except String Answer

/-- One turn of the loop of `_send`, up to the request of a token realm. -/
def hop (client : RegistryClient) (tokens : Tokens) (i : Nat) (ex : Exchange) (reply : HopReply) :
    Exchange × Option Outgoing :=
  match ex.hopsLeft with
  | 0 => (ex.stop (.unavailable (client.name ++ ": too many redirects")), none)
  | left + 1 =>
    let ex := { ex with hopsLeft := left }
    match web.hostOf ex.current with
    | none => (ex.stop .raised, none)
    | some host =>
      let purpose := if host = client.host then .registry
        else if ex.purpose = .registry then .mirror else ex.purpose
      match client.checkTarget web settings ex.current purpose reply.resolved with
      | .error e => (ex.stop e, none)
      | .ok (_, addresses) =>
        let request : Outgoing :=
          { exchange := i, method := ex.method, url := ex.current, purpose := purpose
            addresses := addresses, headers := ex.headers
            authorization := if host = client.host then ex.auth
              else (Dict.get? ex.mirrorAuth host).map .bearer }
        match reply.answer with
        | .error text => (ex.stop (.unavailable (client.name ++ ": " ++ text)), some request)
        | .ok answer =>
          (ex.answered web client tokens reply.now host answer,
            some { request with answer := some answer })

structure TokenReply where
  resolved : Resolved
  now : Time
  answer : Except String TokenAnswer

/-- `_token_for`, from the request of the realm. -/
def askRealm (client : RegistryClient) (tokens : Tokens) (i : Nat) (ex : Exchange) (host : String)
    (ask : Ask) (reply : TokenReply) : Exchange × Option Outgoing × Tokens :=
  let purpose := if ask.mirror then .mirror else .auth
  match client.checkTarget web settings ask.realm purpose reply.resolved with
  | .error e => (ex.stop e, none, tokens)
  | .ok (_, addresses) =>
    let basic := if ask.mirror then none else client.basic web
    let request : Outgoing :=
      { exchange := i, method := "GET", url := ask.realm, purpose := purpose
        addresses := addresses, headers := []
        authorization := basic.map fun b => .basic b.1 b.2
        ask := some ask }
    match reply.answer with
    | .error text =>
      (ex.stop (.unavailable (client.name ++ ": token request failed: " ++ text)), some request,
        tokens)
    | .ok answer =>
      match client.tokenOf web answer with
      | .error e => (ex.stop e, some request, tokens)
      | .ok (text, ttl) =>
        let t : Token := { text := text, ask := ask, basic := basic }
        (ex.bearer host ask.mirror t, some request,
          tokens.store t (reply.now + (ttl - 15) * 1000000))

end Exchange

/-! ## The exchanges of a client -/

/-- The token cache, the exchanges by their number, and what was sent, the latest first. -/
structure Traffic where
  tokens : Tokens := []
  exchanges : List Exchange := []
  log : List Outgoing := []

inductive Traffic.Act where
  | start (method url remote : String) (headers : Dict String String) (purpose : Purpose)
  | hop (i : Nat) (reply : Exchange.HopReply)
  | token (i : Nat) (reply : Exchange.TokenReply)

/-- `docker_max_redirects + 3`. -/
def RegistrySettings.hops : Nat := (settings.maxRedirects + 3).toNat

/-- One step: a call of `_send`, or a turn of the exchange that is waiting for it. -/
def Traffic.step (client : RegistryClient) (w : Traffic) : Traffic.Act → Option Traffic
  | .start method url remote headers purpose =>
    some { w with
      exchanges := w.exchanges ++
        [{ method := method, current := url, scope := "repository:" ++ remote ++ ":pull"
           headers := headers, purpose := purpose, hopsLeft := settings.hops }] }
  | .hop i reply => do
    let ex ← w.exchanges[i]?
    match ex.stage with
    | .hop =>
      let (ex, sent) := ex.hop web settings client w.tokens i reply
      return { w with exchanges := w.exchanges.set i ex, log := sent.toList ++ w.log }
    | _ => none
  | .token i reply => do
    let ex ← w.exchanges[i]?
    match ex.stage with
    | .token host ask =>
      let (ex, sent, tokens) := ex.askRealm web settings client w.tokens i host ask reply
      return { tokens := tokens, exchanges := w.exchanges.set i ex, log := sent.toList ++ w.log }
    | _ => none

/-! ## What the log keeps -/

/-- A host challenged this exchange for what a token with this key is asked for. -/
def Challenged (log : List Outgoing) (i : Nat) (host key : String) : Prop :=
  ∃ r ∈ log, r.exchange = i ∧ web.hostOf r.url = some host ∧
    ∃ answer, r.answer = some answer ∧ answer.status = 401 ∧
      ∃ scope ask, Ask.ofChallenge web answer.wwwAuthenticate scope true = some ask ∧ ask.key = key

/-- What holds of a request, of those `before` it. -/
structure Outgoing.AtHome (client : RegistryClient) (before : List Outgoing) (r : Outgoing) :
    Prop where
  /-- it passed `check_target` -/
  checked : ∃ resolved host,
    client.checkTarget web settings r.url r.purpose resolved = .ok (host, r.addresses)
  /-- what is derived from the credential goes to the registry or to a token realm of it -/
  credential : ∀ a, r.authorization = some a → a.ofCredential = true →
    web.hostOf r.url = some client.host ∨
      r.ask.isSome ∧ ∃ host, web.hostOf r.url = some host ∧
        hostMatches web.caseMap host client.authHosts = true
  /-- a token for the registry goes to the registry -/
  registry : ∀ t, r.authorization = some (.bearer t) → t.ask.mirror = false →
    web.hostOf r.url = some client.host
  /-- a token for a redirect target is anonymous and goes to a target that asked for it -/
  mirror : ∀ t, r.authorization = some (.bearer t) → t.ask.mirror = true →
    t.basic = none ∧ ∃ host, web.hostOf r.url = some host ∧ host ≠ client.host ∧
      Challenged web before r.exchange host t.ask.key
  /-- and it is asked for without credentials -/
  anonymous : ∀ ask, r.ask = some ask → ask.mirror = true → r.authorization = none

/-- Every request is at home among those before it. -/
def AllAtHome (client : RegistryClient) (log : List Outgoing) : Prop :=
  ∀ after r before, log = after ++ r :: before → r.AtHome web settings client before

/-- What an exchange holds to send was given for where it sends it. -/
structure Exchange.Ok (client : RegistryClient) (log : List Outgoing) (i : Nat) (ex : Exchange) :
    Prop where
  auth : ∀ t, ex.auth = some (.bearer t) → t.ask.mirror = false
  mirrorAuth : ∀ host t, Dict.get? ex.mirrorAuth host = some t →
    host ≠ client.host ∧ t.ask.mirror = true ∧ t.basic = none ∧
      Challenged web log i host t.ask.key
  token : ∀ host ask, ex.stage = .token host ask → ask.mirror = true →
    host ≠ client.host ∧ Challenged web log i host ask.key

/-- A cached token is under its key, and a mirror's was asked for without credentials. -/
def Tokens.Ok (tokens : Tokens) : Prop :=
  ∀ e ∈ tokens, e.1 = e.2.1.ask.key ∧ (e.2.1.ask.mirror = true → e.2.1.basic = none)

structure Traffic.Ok (client : RegistryClient) (w : Traffic) : Prop where
  tokens : w.tokens.Ok
  exchanges : ∀ i (ex : Exchange), w.exchanges[i]? = some ex → ex.Ok web client w.log i
  log : AllAtHome web settings client w.log

section Invariant

variable {web settings} {client : RegistryClient} {log before : List Outgoing} {i : Nat}
  {host : String} {ex ex' : Exchange} {tokens : Tokens}

theorem Challenged.mono {key : String} {sent : List Outgoing} (h : Challenged web log i host key) :
    Challenged web (sent ++ log) i host key := by
  obtain ⟨r, hr, hrest⟩ := h
  exact ⟨r, List.mem_append_right _ hr, hrest⟩

theorem Exchange.Ok.mono {sent : List Outgoing} (h : ex.Ok web client log i) :
    ex.Ok web client (sent ++ log) i where
  auth := h.auth
  mirrorAuth host t ht := by
    obtain ⟨hhost, hmirror, hbasic, hasked⟩ := h.mirrorAuth host t ht
    exact ⟨hhost, hmirror, hbasic, hasked.mono⟩
  token host ask hask hmirror := by
    obtain ⟨hhost, hasked⟩ := h.token host ask hask hmirror
    exact ⟨hhost, hasked.mono⟩

/-- The key says whether a token is for a mirror. -/
theorem Ask.mirror_of_key {a b : Ask} (h : a.key = b.key) : a.mirror = b.mirror := by
  unfold Ask.key at h
  have hlast := congrArg (fun k : String => k.toList.reverse.take 2) h
  simp only [String.toList_append, List.reverse_append] at hlast
  cases ha : a.mirror <;> cases hb : b.mirror <;> simp_all

theorem Tokens.Ok.store (h : Tokens.Ok tokens) {t : Token} {expiry : Time}
    (ht : t.ask.mirror = true → t.basic = none) : (tokens.store t expiry).Ok := by
  have hset : Tokens.Ok (Dict.set tokens t.ask.key (t, expiry)) := by
    intro e he
    rcases Dict.mem_of_mem_set he with rfl | he
    · exact ⟨rfl, ht⟩
    · exact h e he
  unfold Tokens.store
  dsimp only
  split
  · exact fun e he => absurd he List.not_mem_nil
  · exact hset

/-- An exchange that is left as it is, or stops, holds what it held. -/
theorem Exchange.Ok.rest (h : ex.Ok web client log i) (hauth : ex'.auth = ex.auth)
    (hmirror : ex'.mirrorAuth = ex.mirrorAuth)
    (hstage : ∀ host ask, ex'.stage = .token host ask → ex.stage = .token host ask) :
    ex'.Ok web client log i where
  auth t ht := h.auth t (hauth ▸ ht)
  mirrorAuth host t ht := h.mirrorAuth host t (hmirror ▸ ht)
  token host ask hask := h.token host ask (hstage host ask hask)

theorem Exchange.Ok.stop (h : ex.Ok web client log i) (s : Stopped) :
    (ex.stop s).Ok web client log i :=
  h.rest rfl rfl fun _ _ hask => by cases hask

/-- A token that was given to a host that asked for it. -/
theorem Exchange.Ok.bearer (h : ex.Ok web client log i) {t : Token}
    (ht : t.ask.mirror = true → t.basic = none ∧ host ≠ client.host ∧
      Challenged web log i host t.ask.key) :
    (ex.bearer host t.ask.mirror t).Ok web client log i := by
  unfold Exchange.bearer
  split
  · next hmirror =>
    obtain ⟨hbasic, hhost, hasked⟩ := ht hmirror
    refine ⟨h.auth, fun host' t' ht' => ?_, fun _ _ hask => by cases hask⟩
    rw [Dict.get?_set] at ht'
    split at ht'
    · next heq =>
      obtain rfl := Option.some.inj ht'
      subst heq
      exact ⟨hhost, hmirror, hbasic, hasked⟩
    · exact h.mirrorAuth host' t' ht'
  · next hmirror =>
    refine ⟨fun t' ht' => ?_, h.mirrorAuth, fun _ _ hask => by cases hask⟩
    obtain rfl := Authorization.bearer.inj (Option.some.inj ht')
    simpa using hmirror

/-- `_token_for`: the token is cached, or the realm is asked for one. -/
theorem Exchange.Ok.challenged (h : ex.Ok web client log i) (htokens : tokens.Ok) {now : Time}
    {challenge scope : String} {mirror : Bool}
    (hasked : mirror = true → host ≠ client.host ∧
      ∀ ask, Ask.ofChallenge web challenge scope true = some ask →
        Challenged web log i host ask.key) :
    (ex.challenged web client tokens now host challenge scope mirror).Ok web client log i := by
  unfold Exchange.challenged
  rcases hask : Ask.ofChallenge web challenge scope mirror with _ | ask
  · exact h.stop _
  obtain rfl : ask.mirror = mirror := by
    obtain ⟨realm, -, rfl⟩ := Option.map_eq_some_iff.mp hask
    rfl
  have hhost : ask.mirror = true → host ≠ client.host ∧ Challenged web log i host ask.key := by
    intro hmirror
    exact ⟨(hasked hmirror).1, (hasked hmirror).2 ask (hmirror ▸ hask)⟩
  dsimp only
  split
  · next t expiry hcached =>
    obtain ⟨hget, -⟩ := Option.filter_eq_some_iff.mp hcached
    obtain ⟨hkey, hbasic⟩ := htokens _ (Dict.mem_of_get? hget)
    dsimp only at hkey hbasic
    rw [Ask.mirror_of_key hkey]
    refine h.bearer fun hmirror => ⟨hbasic hmirror, ?_⟩
    rw [← hkey]
    exact hhost (Ask.mirror_of_key hkey ▸ hmirror)
  · refine ⟨h.auth, h.mirrorAuth, fun host' ask' heq hmirror => ?_⟩
    obtain ⟨rfl, rfl⟩ := Stage.token.inj heq
    exact hhost hmirror

theorem Exchange.Ok.answered (h : ex.Ok web client log i) (hhop : ex.stage = .hop)
    (htokens : tokens.Ok) {now : Time} {answer : Answer}
    (hasked : answer.status = 401 → ∀ scope ask,
      Ask.ofChallenge web answer.wwwAuthenticate scope true = some ask →
        Challenged web log i host ask.key) :
    (ex.answered web client tokens now host answer).Ok web client log i := by
  have hstays : ∀ ex' : Exchange, ex'.auth = ex.auth → ex'.mirrorAuth = ex.mirrorAuth →
      ex'.stage = .hop → ex'.Ok web client log i := by
    intro ex' hauth hmirror hstage
    exact h.rest hauth hmirror fun _ _ hask => by rw [hstage] at hask; cases hask
  unfold Exchange.answered
  dsimp only
  split
  · next htarget =>
    simp only [Bool.and_eq_true, decide_eq_true_eq] at htarget
    have htried := hstays { ex with triedAuth := host :: ex.triedAuth } rfl rfl hhop
    split
    · exact htried.challenged htokens fun _ => ⟨htarget.1.2, hasked htarget.1.1 _⟩
    · exact htried.stop _
  split
  · have htried := hstays { ex with triedAuth := client.host :: ex.triedAuth } rfl rfl hhop
    split
    · exact htried.challenged htokens fun hmirror => by cases hmirror
    split
    · split
      · refine ⟨fun t ht => ?_, h.mirrorAuth, fun _ _ hask => ?_⟩
        · cases Option.some.inj ht
        · exact absurd (hhop.symm.trans hask) (by simp)
      · exact htried.stop _
    · exact htried.stop _
  split
  · split
    · exact h.stop _
    split
    · exact h.stop _
    · exact hstays _ rfl rfl hhop
  · exact h.rest rfl rfl fun _ _ hask => by cases hask

/-- **A hop**: what it sends is at home, and the exchange holds no more than it may. -/
theorem Exchange.Ok.hop (h : ex.Ok web client log i) (hhop : ex.stage = .hop)
    (htokens : tokens.Ok) (reply : Exchange.HopReply) :
    (ex.hop web settings client tokens i reply).1.Ok web client
        ((ex.hop web settings client tokens i reply).2.toList ++ log) i ∧
      ∀ r ∈ (ex.hop web settings client tokens i reply).2,
        r.exchange = i ∧ r.AtHome web settings client log := by
  unfold Exchange.hop
  split
  · exact ⟨h.stop _, by simp⟩
  next left hleft =>
  dsimp only
  have hnext : Exchange.Ok web client log i { ex with hopsLeft := left } :=
    h.rest rfl rfl fun _ _ hask => hask
  split
  · exact ⟨hnext.stop _, by simp⟩
  next host hhost =>
  split
  · exact ⟨hnext.stop _, by simp⟩
  next checkedHost addresses hcheck =>
  obtain ⟨hchecked, -⟩ := checkTarget_ok hcheck
  obtain rfl : host = checkedHost := Option.some.inj (hhost.symm.trans hchecked)
  -- the registry is sent what it asked for, another host what that host asked for
  have hhome : ∀ answer, Outgoing.AtHome web settings client log
      { exchange := i, method := ex.method, url := ex.current
        purpose := if host = client.host then .registry
          else if ex.purpose = .registry then .mirror else ex.purpose
        addresses := addresses, headers := ex.headers
        authorization := if host = client.host then ex.auth
          else (Dict.get? ex.mirrorAuth host).map .bearer
        answer := answer } := by
    intro answer
    by_cases hregistry : host = client.host
    · simp only [hregistry, if_true] at hcheck ⊢
      refine ⟨⟨_, _, hcheck⟩, fun a _ _ => .inl (hregistry ▸ hhost),
        fun t _ _ => hregistry ▸ hhost, fun t ht hmirror => ?_, fun _ hask => by cases hask⟩
      have := h.auth t ht
      rw [hmirror] at this
      cases this
    · simp only [hregistry, if_false] at hcheck ⊢
      have htoken : ∀ t, (Dict.get? ex.mirrorAuth host).map Authorization.bearer = some (.bearer t) →
          Dict.get? ex.mirrorAuth host = some t := by
        intro t ht
        obtain ⟨t', hget, heq⟩ := Option.map_eq_some_iff.mp ht
        rw [hget, Authorization.bearer.inj heq]
      refine ⟨⟨_, _, hcheck⟩, fun a ha hcredential => ?_, fun t ht hmirror => ?_,
        fun t ht _ => ?_, fun _ hask => by cases hask⟩
      · obtain ⟨t, hget, rfl⟩ := Option.map_eq_some_iff.mp ha
        obtain ⟨-, -, hbasic, -⟩ := h.mirrorAuth host t hget
        rw [Authorization.ofCredential, hbasic] at hcredential
        cases hcredential
      · obtain ⟨-, htrue, -⟩ := h.mirrorAuth host t (htoken t ht)
        rw [hmirror] at htrue
        cases htrue
      · obtain ⟨hne, -, hbasic, hasked⟩ := h.mirrorAuth host t (htoken t ht)
        exact ⟨hbasic, host, hhost, hne, hasked⟩
  split
  · refine ⟨(hnext.stop _).mono, fun r hr => ?_⟩
    obtain rfl := Option.some.inj hr
    exact ⟨rfl, hhome none⟩
  next answer _ =>
    refine ⟨hnext.mono.answered hhop htokens fun hstatus scope ask hask => ?_, fun r hr => ?_⟩
    · exact ⟨_, List.mem_append_left _ (Option.mem_toList.mpr rfl), rfl, hhost, answer, rfl, hstatus,
        scope, ask, hask, rfl⟩
    · obtain rfl := Option.some.inj hr
      exact ⟨rfl, hhome (some answer)⟩

/-- **A token request**: it is at home, and the token is kept for who asked. -/
theorem Exchange.Ok.askRealm (h : ex.Ok web client log i) (htokens : tokens.Ok) {ask : Ask}
    (hstage : ex.stage = .token host ask) (reply : Exchange.TokenReply) :
    (ex.askRealm web settings client tokens i host ask reply).1.Ok web client
        ((ex.askRealm web settings client tokens i host ask reply).2.1.toList ++ log) i ∧
      (∀ r ∈ (ex.askRealm web settings client tokens i host ask reply).2.1,
        r.exchange = i ∧ r.AtHome web settings client log) ∧
      Tokens.Ok (ex.askRealm web settings client tokens i host ask reply).2.2 := by
  unfold Exchange.askRealm
  dsimp only
  split
  · exact ⟨h.stop _, by simp, htokens⟩
  next checkedHost addresses hcheck =>
  obtain ⟨hhost, hpermits⟩ := checkTarget_ok hcheck
  have hhome : ∀ r, r ∈ some ({ exchange := i, method := "GET", url := ask.realm
                                purpose := if ask.mirror then .mirror else .auth
                                addresses := addresses, headers := []
                                authorization := (if ask.mirror then none else client.basic web).map
                                  fun b => .basic b.1 b.2
                                ask := some ask } : Outgoing) →
      r.exchange = i ∧ r.AtHome web settings client log := by
    intro r hr
    obtain rfl := Option.some.inj hr
    refine ⟨rfl, ⟨_, _, hcheck⟩, fun a ha _ => ?_, fun t ht _ => ?_, fun t ht _ => ?_,
      fun ask' hask hmirror => ?_⟩
    · cases hmirror : ask.mirror with
      | true =>
        simp only [hmirror] at ha
        cases ha
      | false =>
        simp only [hmirror, Bool.false_eq_true, if_false, RegistryClient.permits,
          Bool.or_eq_true, decide_eq_true_eq] at hpermits
        rcases hpermits with rfl | hmatches
        · exact .inl hhost
        · exact .inr ⟨rfl, _, hhost, hmatches⟩
    · obtain ⟨b, -, hb⟩ := Option.map_eq_some_iff.mp ht
      cases hb
    · obtain ⟨b, -, hb⟩ := Option.map_eq_some_iff.mp ht
      cases hb
    · obtain rfl := Option.some.inj hask
      simp only [hmirror]
      rfl
  split
  · exact ⟨(h.stop _).mono, hhome, htokens⟩
  split
  · exact ⟨(h.stop _).mono, hhome, htokens⟩
  next text ttl _ =>
    have hbasic : ask.mirror = true → (if ask.mirror then none else client.basic web) = none :=
      fun hmirror => by rw [if_pos hmirror]
    refine ⟨?_, hhome, htokens.store hbasic⟩
    generalize (if ask.mirror then none else client.basic web) = basic at hbasic ⊢
    have hgiven := h.bearer (t := { text := text, ask := ask, basic := basic })
      fun hmirror => ⟨hbasic hmirror, h.token host ask hstage hmirror⟩
    exact hgiven.mono

/-- Every request of a log that grew is at home, if the new one is. -/
theorem AllAtHome.append {sent : Option Outgoing} (h : AllAtHome web settings client log)
    (hsent : ∀ r ∈ sent, r.AtHome web settings client log) :
    AllAtHome web settings client (sent.toList ++ log) := by
  rcases sent with _ | r
  · exact h
  rintro (_ | ⟨x, after⟩) s before heq
  · obtain ⟨rfl, rfl⟩ := List.cons.inj heq
    exact hsent _ rfl
  · exact h after s before (List.cons.inj heq).2

/-- The exchange that took a turn, and the others, which only see the log grow. -/
theorem Traffic.Ok.turn {w : Traffic} (h : w.Ok web settings client) {sent : Option Outgoing}
    {tokens : Tokens} (htokens : tokens.Ok) (hex : ex'.Ok web client (sent.toList ++ w.log) i)
    (hsent : ∀ r ∈ sent, r.exchange = i ∧ r.AtHome web settings client w.log) :
    Traffic.Ok web settings client
      { tokens := tokens, exchanges := w.exchanges.set i ex', log := sent.toList ++ w.log } where
  tokens := htokens
  exchanges k other hother := by
    dsimp only at hother
    rw [List.getElem?_set] at hother
    split at hother
    · next heq =>
      subst heq
      split at hother
      · exact Option.some.inj hother ▸ hex
      · cases hother
    · exact (h.exchanges k other hother).mono
  log := h.log.append fun r hr => (hsent r hr).2

theorem Traffic.Ok.step {w w' : Traffic} {a : Traffic.Act} (h : w.Ok web settings client)
    (hstep : w.step web settings client a = some w') : w'.Ok web settings client := by
  cases a with
  | start method url remote headers purpose =>
    obtain rfl := Option.some.inj hstep
    refine ⟨h.tokens, fun k ex hget => ?_, h.log⟩
    dsimp only at hget
    by_cases hk : k < w.exchanges.length
    · rw [List.getElem?_append_left hk] at hget
      exact h.exchanges k ex hget
    · rw [List.getElem?_append_right (by omega)] at hget
      obtain rfl := List.mem_singleton.mp (List.mem_of_getElem? hget)
      exact ⟨by simp, by simp, by simp⟩
  | hop i reply =>
    obtain ⟨ex, hget, hstep⟩ := Option.bind_eq_some_iff.mp hstep
    split at hstep
    · next hstage =>
      obtain rfl := Option.some.inj hstep
      obtain ⟨hex, hsent⟩ := (h.exchanges i ex hget).hop hstage h.tokens reply
      exact h.turn h.tokens hex hsent
    · cases hstep
  | token i reply =>
    obtain ⟨ex, hget, hstep⟩ := Option.bind_eq_some_iff.mp hstep
    split at hstep
    · next host ask hstage =>
      obtain rfl := Option.some.inj hstep
      obtain ⟨hex, hsent, htokens⟩ := (h.exchanges i ex hget).askRealm h.tokens hstage reply
      exact h.turn htokens hex hsent
    · cases hstep

end Invariant

/-! ## How long an exchange takes -/

/-- The turns an exchange can still take: two for each hop, the hop and a token request. -/
def Exchange.turnsLeft (ex : Exchange) : Nat :=
  match ex.stage with
  | .hop => 2 * ex.hopsLeft + 1
  | .token _ _ => 2 * ex.hopsLeft + 2
  | .ended _ => 0

/-- Those of an exchange by its number; one that has not started has them all. -/
def Traffic.turnsLeft (w : Traffic) (i : Nat) : Nat :=
  match w.exchanges[i]? with
  | some ex => ex.turnsLeft
  | none => 2 * settings.hops + 1

/-- The turns of an exchange. -/
def Traffic.Act.turnOf (i : Nat) : Traffic.Act → Bool
  | start _ _ _ _ _ => false
  | hop j _ => j = i
  | token j _ => j = i

/-- The requests of an exchange. -/
def Traffic.requests (w : Traffic) (i : Nat) : Nat := w.log.countP (·.exchange = i)

section Turns

variable {web settings} {client : RegistryClient} {i : Nat} {ex : Exchange} {tokens : Tokens}

theorem turnsLeft_bearer (ex : Exchange) (host : String) (mirror : Bool) (t : Token) :
    (ex.bearer host mirror t).turnsLeft = 2 * ex.hopsLeft + 1 := by
  unfold Exchange.bearer
  split <;> rfl

theorem turnsLeft_challenged (ex : Exchange) (now : Time) (host challenge scope : String)
    (mirror : Bool) :
    (ex.challenged web client tokens now host challenge scope mirror).turnsLeft ≤
      2 * ex.hopsLeft + 2 := by
  unfold Exchange.challenged
  split
  · exact Nat.zero_le _
  split
  · rw [turnsLeft_bearer]
    omega
  · exact Nat.le_refl _

theorem turnsLeft_answered (hhop : ex.stage = .hop) (now : Time) (host : String)
    (answer : Answer) :
    (ex.answered web client tokens now host answer).turnsLeft ≤ 2 * ex.hopsLeft + 2 := by
  have hwaits : ∀ ex' : Exchange, ex'.hopsLeft = ex.hopsLeft → ex'.stage = .hop →
      ex'.turnsLeft ≤ 2 * ex.hopsLeft + 2 := by
    intro ex' hleft hstage
    unfold Exchange.turnsLeft
    rw [hstage, hleft]
    dsimp only
    omega
  unfold Exchange.answered
  dsimp only
  split
  · split
    · exact turnsLeft_challenged _ _ _ _ _ _
    · exact Nat.zero_le _
  split
  · split
    · exact turnsLeft_challenged _ _ _ _ _ _
    split
    · split
      · exact hwaits _ rfl hhop
      · exact Nat.zero_le _
    · exact Nat.zero_le _
  split
  · split
    · exact Nat.zero_le _
    split
    · exact Nat.zero_le _
    · exact hwaits _ rfl hhop
  · exact Nat.zero_le _

/-- A hop uses a turn. -/
theorem turnsLeft_hop (hhop : ex.stage = .hop) (reply : Exchange.HopReply) :
    (ex.hop web settings client tokens i reply).1.turnsLeft < ex.turnsLeft := by
  have hturns : ex.turnsLeft = 2 * ex.hopsLeft + 1 := by
    unfold Exchange.turnsLeft
    rw [hhop]
  rw [hturns]
  unfold Exchange.hop
  split
  · exact Nat.succ_pos _
  next left hleft =>
  rw [hleft]
  dsimp only
  split
  · exact Nat.succ_pos _
  split
  · exact Nat.succ_pos _
  split
  · exact Nat.succ_pos _
  · have hhop' : { ex with hopsLeft := left }.stage = .hop := hhop
    exact Nat.lt_succ_of_le (turnsLeft_answered hhop' _ _ _)

/-- So does a token request. -/
theorem turnsLeft_askRealm {host : String} {ask : Ask} (hstage : ex.stage = .token host ask)
    (reply : Exchange.TokenReply) :
    (ex.askRealm web settings client tokens i host ask reply).1.turnsLeft < ex.turnsLeft := by
  have hturns : ex.turnsLeft = 2 * ex.hopsLeft + 2 := by
    unfold Exchange.turnsLeft
    rw [hstage]
  rw [hturns]
  unfold Exchange.askRealm
  dsimp only
  split
  · exact Nat.succ_pos _
  split
  · exact Nat.succ_pos _
  split
  · exact Nat.succ_pos _
  · rw [turnsLeft_bearer]
    exact Nat.lt_succ_self _

/-- The requests that a turn of exchange `i` adds to those of exchange `k`. -/
theorem requests_append {w : Traffic} {sent : Option Outgoing}
    (hsent : ∀ r ∈ sent, r.exchange = i) (k : Nat) :
    (sent.toList ++ w.log).countP (·.exchange = k) ≤
      w.requests k + (if i = k then 1 else 0) := by
  unfold Traffic.requests
  rcases sent with _ | r
  · exact Nat.le_add_right _ _
  · rw [Option.toList_some, List.singleton_append, List.countP_cons, hsent r rfl]
    simp

theorem turnsLeft_set {w : Traffic} {ex' : Exchange} (hget : w.exchanges[i]? = some ex)
    (hless : ex'.turnsLeft < ex.turnsLeft) (tokens : Tokens) (log : List Outgoing) (k : Nat) :
    Traffic.turnsLeft settings
        { tokens := tokens, exchanges := w.exchanges.set i ex', log := log } k +
      (if i = k then 1 else 0) ≤ w.turnsLeft settings k := by
  unfold Traffic.turnsLeft
  dsimp only
  rw [List.getElem?_set]
  by_cases hk : i = k
  · subst hk
    have hlt : i < w.exchanges.length := (List.getElem?_eq_some_iff.mp hget).1
    simp only [hget, hlt, if_true]
    omega
  · simp [hk]

/-- **One step**: a turn of an exchange uses one of its turns and sends at most one request. -/
theorem step_turns {w w' : Traffic} {a : Traffic.Act} (h : w.Ok web settings client)
    (hstep : w.step web settings client a = some w') (k : Nat) :
    w'.turnsLeft settings k + (if a.turnOf k then 1 else 0) ≤ w.turnsLeft settings k ∧
      w'.requests k ≤ w.requests k + (if a.turnOf k then 1 else 0) := by
  cases a with
  | start method url remote headers purpose =>
    obtain rfl := Option.some.inj hstep
    refine ⟨?_, Nat.le_refl _⟩
    unfold Traffic.turnsLeft
    dsimp only [Traffic.Act.turnOf]
    by_cases hk : k < w.exchanges.length
    · rw [List.getElem?_append_left hk]
      simp
    · rw [List.getElem?_append_right (by omega), List.getElem?_eq_none (by omega : _ ≤ k)]
      rcases hfirst : k - w.exchanges.length with _ | n
      · exact Nat.le_refl _
      · exact Nat.le_refl _
  | hop i reply =>
    obtain ⟨ex, hget, hstep⟩ := Option.bind_eq_some_iff.mp hstep
    split at hstep
    · next hstage =>
      obtain rfl := Option.some.inj hstep
      obtain ⟨-, hsent⟩ := (h.exchanges i ex hget).hop hstage h.tokens reply
      simp only [Traffic.Act.turnOf, decide_eq_true_eq]
      exact ⟨turnsLeft_set hget (turnsLeft_hop hstage reply) _ _ k,
        requests_append (fun r hr => (hsent r hr).1) k⟩
    · cases hstep
  | token i reply =>
    obtain ⟨ex, hget, hstep⟩ := Option.bind_eq_some_iff.mp hstep
    split at hstep
    · next host ask hstage =>
      obtain rfl := Option.some.inj hstep
      obtain ⟨-, hsent, -⟩ := (h.exchanges i ex hget).askRealm h.tokens hstage reply
      simp only [Traffic.Act.turnOf, decide_eq_true_eq]
      exact ⟨turnsLeft_set hget (turnsLeft_askRealm hstage reply) _ _ k,
        requests_append (fun r hr => (hsent r hr).1) k⟩
    · cases hstep

end Turns

/-! ## Any traffic of a client -/

/-- **Runs**: the invariant holds, and no exchange takes or sends more than it has turns. -/
theorem exec_ok {client : RegistryClient} {acts : List Traffic.Act} {w w' : Traffic}
    (h : w.Ok web settings client)
    (hrun : acts.foldlM (Traffic.step web settings client) w = some w') :
    w'.Ok web settings client ∧ ∀ k,
      w'.turnsLeft settings k + acts.countP (Traffic.Act.turnOf k) ≤ w.turnsLeft settings k ∧
      w'.requests k ≤ w.requests k + acts.countP (Traffic.Act.turnOf k) := by
  induction acts generalizing w with
  | nil =>
    obtain rfl := Option.some.inj hrun
    exact ⟨h, fun k => ⟨Nat.le_refl _, Nat.le_refl _⟩⟩
  | cons a acts ih =>
    rw [List.foldlM_cons] at hrun
    obtain ⟨next, hstep, hrest⟩ := Option.bind_eq_some_iff.mp hrun
    obtain ⟨hok, hcounts⟩ := ih (h.step hstep) hrest
    refine ⟨hok, fun k => ?_⟩
    obtain ⟨hturns, hrequests⟩ := step_turns h hstep k
    obtain ⟨hturns', hrequests'⟩ := hcounts k
    rw [List.countP_cons]
    omega

/-- **The credential stays with the registry**, in all exchanges of a client: every request is at
home, and an exchange ends after the turns of `docker_max_redirects + 3` hops. -/
theorem registry_credentials_stay (client : RegistryClient) (acts : List Traffic.Act) (w : Traffic)
    (hrun : acts.foldlM (Traffic.step web settings client) {} = some w) :
    AllAtHome web settings client w.log ∧ ∀ i,
      acts.countP (Traffic.Act.turnOf i) ≤ 2 * settings.hops + 1 ∧
      w.requests i ≤ 2 * settings.hops + 1 := by
  have hempty : Traffic.Ok web settings client {} :=
    ⟨fun e he => absurd he List.not_mem_nil, by simp, fun after r before heq => by simp at heq⟩
  obtain ⟨hok, hcounts⟩ := exec_ok web settings hempty hrun
  refine ⟨hok.log, fun i => ?_⟩
  obtain ⟨hturns, hrequests⟩ := hcounts i
  have hnone : Traffic.turnsLeft settings {} i = 2 * settings.hops + 1 := rfl
  have hzero : Traffic.requests {} i = 0 := rfl
  omega

/-! ## A blob of Docker Hub -/

/-- The URLs of a blob pull, and the addresses they resolve to. -/
def hubWeb : RegistryWeb where
  caseMap := .ascii
  urlsplit url := [("https://registry-1.docker.io", "registry-1.docker.io"),
    ("https://registry-1.docker.io/v2/library/alpine/blobs/sha256:01", "registry-1.docker.io"),
    ("https://auth.docker.io/token", "auth.docker.io"),
    ("https://production.cloudfront.docker.com/01", "production.cloudfront.docker.com")].lookup url
      |>.map fun host => { scheme := "https", netloc := host, hostname := some host, port := some none }
  join _ location := some location
  ipAddress a := if a = "44.205.64.79" then some { text := a } else none
  proxied _ := false
  path _ := "/"
  wordChar c := c.isAlphanum || c = '_'
  str v := v.asStr?.getD ""
  int _ := .error .badValue

def hubUpstream : RegistryUpstream where
  name := hubUpstreamName
  url := "https://registry-1.docker.io/"
  secret := some "robot:s3cret"

/-- The registry asks for a token, and then redirects to its CDN. -/
def hubPull : List Traffic.Act :=
  let reached := some ["44.205.64.79"]
  [.start "GET" "https://registry-1.docker.io/v2/library/alpine/blobs/sha256:01" "library/alpine"
     [] .blob,
   .hop 0 { resolved := reached, now := 0, answer := .ok {
     status := 401
     wwwAuthenticate :=
       "Bearer realm=\"https://auth.docker.io/token\",service=\"registry.docker.io\"" } },
   .token 0 { resolved := reached, now := 0, answer := .ok {
     status := 200, body := some (.obj [("token", .str "abc")]) } },
   .hop 0 { resolved := reached, now := 0, answer := .ok {
     status := 307, location := some "https://production.cloudfront.docker.com/01" } },
   .hop 0 { resolved := reached, now := 0, answer := .ok { status := 200 } }]

/-- The credential goes to the token realm, the token to the registry, nothing to the CDN. -/
theorem registry_credentials_stay_hub : ∃ client w,
    RegistryClient.ofUpstream hubWeb hubUpstream = some client ∧
    hubPull.foldlM (Traffic.step hubWeb {} client) {} = some w ∧
    (w.log.map fun r => r.authorization.map Authorization.ofCredential) =
      [none, some true, some true, none] ∧
    AllAtHome hubWeb {} client w.log ∧ ∀ i,
      hubPull.countP (Traffic.Act.turnOf i) ≤ 2 * RegistrySettings.hops {} + 1 ∧
      w.requests i ≤ 2 * RegistrySettings.hops {} + 1 := by
  obtain ⟨client, hclient⟩ : ∃ client, RegistryClient.ofUpstream hubWeb hubUpstream = some client :=
    Option.isSome_iff_exists.mp (by decide +kernel)
  have hsent : ((RegistryClient.ofUpstream hubWeb hubUpstream).bind fun client =>
      (hubPull.foldlM (Traffic.step hubWeb {} client) {}).map fun w =>
        w.log.map fun r => r.authorization.map Authorization.ofCredential) =
      some [none, some true, some true, none] := by
    decide +kernel
  rw [hclient] at hsent
  obtain ⟨w, hw, hlog⟩ := Option.map_eq_some_iff.mp hsent
  exact ⟨client, w, hclient, hw, hlog, registry_credentials_stay hubWeb {} client hubPull w hw⟩

end Minireg.Docker
