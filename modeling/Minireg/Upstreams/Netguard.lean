import Minireg.Py.Dict
import Minireg.Py.Raise
import Minireg.Upstreams.Base

/-!
# Where the fetcher connects

`guardUrl` judges one URL and pins the addresses of its host on a `PinnedBackend`, which
connects nowhere else. URL and address parsing, URL joining and the proxy table of the
environment are parameters (`Web`).
-/

namespace Minireg.Netguard

open Py

/-! ## Parameters -/

/-- `urlsplit(url)`, as far as it is read; a `port` of `none` raises a `ValueError`. -/
structure SplitUrl where
  scheme : String
  netloc : String
  hostname : Option String
  port : Option (Option Nat)
  deriving DecidableEq

/-- What `ipaddress` says of an address; `extraBlocked` is in `EXTRA_BLOCKED_NETWORKS`. -/
structure IpFlags where
  isPrivate : Bool := false
  isLoopback : Bool := false
  isLinkLocal : Bool := false
  isReserved : Bool := false
  isMulticast : Bool := false
  isUnspecified : Bool := false
  extraBlocked : Bool := false

structure IpAddress where
  text : String
  flags : IpFlags := {}
  ipv4Mapped : Option IpFlags := none

/-- `urlsplit` and `join` are `none` where they raise; `proxied` is whether the environment
routes a URL through a proxy. -/
structure Web where
  caseMap : CaseMap
  urlsplit : String → Option SplitUrl
  join : String → String → Option String
  ipAddress : String → Option IpAddress
  proxied : String → Bool

structure FetchSettings where
  artifactHostAllowlist : List String := []
  allowPlaintextHttp : Bool := false
  allowPrivateAddresses : Bool := false

variable (web : Web) (settings : FetchSettings)

namespace Web

def isPublicAddress (address : String) : Bool :=
  match web.ipAddress address with
  | none => false
  | some ip =>
    let f := ip.ipv4Mapped.getD ip.flags
    !(f.isPrivate || f.isLoopback || f.isLinkLocal || f.isReserved || f.isMulticast ||
      f.isUnspecified) && !f.extraBlocked

/-- `_host_of`. -/
def hostOf (url : String) : Option String :=
  (web.urlsplit url).map fun p => web.caseMap.lower (p.hostname.getD "")

/-- `_literal`. -/
def literal (host : String) : Option String :=
  let bracket := fun c => c = '[' || c = ']'
  (web.ipAddress (String.ofList
    ((host.toList.dropWhile bracket).reverse.dropWhile bracket).reverse)).map IpAddress.text

/-- `port or default.get(scheme)`. -/
def effectivePort (scheme : String) (port : Option Nat) : Option Nat :=
  if port.getD 0 ≠ 0 then port
  else if scheme = "https" then some 443
  else if scheme = "http" then some 80
  else none

/-- `same_origin`; `none` is a `ValueError`. -/
def sameOrigin (a b : String) : Option Bool := do
  let pa ← web.urlsplit a
  let pb ← web.urlsplit b
  if pa.scheme ≠ pb.scheme then return false
  if web.caseMap.lower (pa.hostname.getD "") ≠ web.caseMap.lower (pb.hostname.getD "") then
    return false
  let porta ← pa.port
  let portb ← pb.port
  return effectivePort pa.scheme porta = effectivePort pb.scheme portb

/-- Scheme, host and port of a URL. -/
def origin (url : String) : Option (String × String × Option (Option Nat)) :=
  (web.urlsplit url).map fun p =>
    (p.scheme, web.caseMap.lower (p.hostname.getD ""), p.port.map (effectivePort p.scheme))

variable {web} in
theorem origin_of_sameOrigin {a b : String} (h : web.sameOrigin a b = some true) :
    web.origin a = web.origin b := by
  unfold sameOrigin at h
  rcases ha : web.urlsplit a with _ | pa
  · simp [ha] at h
  rcases hb : web.urlsplit b with _ | pb
  · simp [ha, hb] at h
  simp only [ha, hb, Option.bind_eq_bind, Option.bind_some] at h
  split at h
  · cases h
  next hscheme =>
    split at h
    · cases h
    next hhost =>
      rcases hpa : pa.port with _ | porta
      · simp [hpa] at h
      rcases hpb : pb.port with _ | portb
      · simp [hpa, hpb] at h
      have hport : effectivePort pa.scheme porta = effectivePort pb.scheme portb := by
        simpa [hpa, hpb] using h
      simp only [origin, ha, hb, hpa, hpb, Option.map_some, not_not.mp hscheme, not_not.mp hhost]
      rw [← hport, not_not.mp hscheme]

end Web

/-! ## The pins -/

/-- `pins`: the addresses of a host and when they lapse. -/
structure PinnedBackend where
  pins : Dict String (Time × List String) := []

namespace PinnedBackend

/-- A pin lasts 300 seconds. -/
def lifetime : Time := 300 * 1000000

def pin (b : PinnedBackend) (now : Time) (host : String) (addresses : List String) :
    PinnedBackend :=
  let pins := Dict.set b.pins (web.caseMap.lower host) (now + lifetime, addresses)
  if pins.length > 4096 then { pins := pins.filter fun e => e.2.1 > now } else { pins := pins }

/-- The addresses `connect_tcp` tries, `none` when it refuses. -/
def connectTcp (b : PinnedBackend) (now : Time) (host : String) : Option (List String) :=
  match Dict.get? b.pins (web.caseMap.lower host) with
  | some (expiry, addresses) =>
    if expiry < now then (if settings.allowPrivateAddresses then some [host] else none)
    else some addresses
  | none => if settings.allowPrivateAddresses then some [host] else none

/-- Every pinned address is public. -/
def Public (b : PinnedBackend) : Prop :=
  ∀ e ∈ b.pins, ∀ a ∈ e.2.2, web.isPublicAddress a = true

variable {web}

theorem public_empty : ({} : PinnedBackend).Public web := fun _ h => absurd h List.not_mem_nil

theorem Public.pin {b : PinnedBackend} (hb : b.Public web) {addresses : List String}
    (h : ∀ a ∈ addresses, web.isPublicAddress a = true) (now : Time) (host : String) :
    (b.pin web now host addresses).Public web := by
  have hset : ∀ e ∈ Dict.set b.pins (web.caseMap.lower host) (now + lifetime, addresses),
      ∀ a ∈ e.2.2, web.isPublicAddress a = true := by
    intro e he
    rcases Dict.mem_of_mem_set he with rfl | he
    · exact h
    · exact hb e he
  unfold PinnedBackend.pin
  dsimp only
  split
  · exact fun e he => hset e (List.mem_filter.mp he).1
  · exact hset

variable {settings} in
/-- Unless private addresses are allowed, a connection goes to public addresses. -/
theorem Public.connectTcp {b : PinnedBackend} (hb : b.Public web) {now : Time} {host : String}
    {addresses : List String} (h : b.connectTcp web settings now host = some addresses)
    (hs : settings.allowPrivateAddresses = false) :
    ∀ a ∈ addresses, web.isPublicAddress a = true := by
  unfold PinnedBackend.connectTcp at h
  rw [hs] at h
  split at h
  · next expiry pinned hget =>
    split at h
    · cases h
    · obtain rfl := Option.some.inj h
      exact hb _ (Dict.mem_of_get? hget)
  · cases h

end PinnedBackend

/-! ## The guard -/

inductive Refusal where
  /-- `BlockedUrl` -/
  | blocked (message : String)
  | valueError
  deriving DecidableEq

/-- What `resolve_host` ends in; `none` is an `OSError`. -/
abbrev Resolved := Option (List String)

def raised {α : Type} : Option α → Except Refusal α
  | none => .error .valueError
  | some a => .ok a

/-- `_check_url_shape`: the host of a URL that may be asked. -/
def checkUrlShape (url : String) (upstreamUrl : Option String) (extraHosts : List String) :
    Except Refusal String := do
  let parts ← raised (web.urlsplit url)
  let scheme := web.caseMap.lower parts.scheme
  if scheme ≠ "http" && scheme ≠ "https" then
    throw (.blocked ("refusing to fetch a non-HTTP URL (" ++
      (if scheme = "" then "no scheme" else scheme) ++ ")"))
  if scheme = "http" && !settings.allowPlaintextHttp then
    throw (.blocked ("refusing to fetch from an upstream over plaintext HTTP; set " ++
      "UPSTREAM_ALLOW_PLAINTEXT_HTTP=true if an internal mirror needs it"))
  let host ← raised (web.hostOf url)
  if host = "" then
    throw (.blocked "artifact URL has no host")
  let upstreamHost ← match upstreamUrl.filter (· ≠ "") with
    | some upstreamUrl => raised (web.hostOf upstreamUrl)
    | none => .ok ""
  let permitted := settings.artifactHostAllowlist ++
    (extraHosts.filter (· ≠ "")).map web.caseMap.lower ++
    (if upstreamHost = "" then [] else [upstreamHost])
  if host ∉ permitted then
    throw (.blocked ("'" ++ host ++ "' is not an allowed artifact host. Add it to " ++
      "UPSTREAM_ARTIFACT_HOSTS if this upstream serves its files from there."))
  return host

def privateMessage (host : String) : String :=
  "'" ++ host ++ "' resolves to a private or link-local address; refusing to fetch"

/-- The addresses of a host that are pinned: all of them, and only public ones. -/
def approved (host : String) (addresses : List String) : Except Refusal (List String) :=
  if addresses = [] || addresses.any (!web.isPublicAddress ·) then
    .error (.blocked (privateMessage host))
  else .ok addresses

/-- `guard_url` of a name a proxy resolves: nothing is pinned. -/
def guardProxied (host : String) (resolved : Resolved) (b : PinnedBackend) :
    Except Refusal PinnedBackend :=
  if (resolved.getD []).any (!web.isPublicAddress ·) then .error (.blocked (privateMessage host))
  else .ok b

/-- `guard_url` of a name that is resolved here. -/
def guardResolved (url host : String) (now : Time) (resolved : Resolved) (b : PinnedBackend) :
    Except Refusal PinnedBackend := do
  let parts ← raised (web.urlsplit url)
  if parts.port = none then
    .error (.blocked ("'" ++ takeChars 200 url ++ "' has an invalid port"))
  else
    match resolved with
    | none => .error (.blocked ("cannot resolve '" ++ host ++ "'"))
    | some resolved => (approved web host resolved).map (b.pin web now host)

/-- `guard_url`. -/
def guardUrl (url : String) (upstreamUrl : Option String) (extraHosts : List String) (now : Time)
    (resolved : Resolved) (b : PinnedBackend) : Except Refusal PinnedBackend := do
  let host ← checkUrlShape web settings url upstreamUrl extraHosts
  if settings.allowPrivateAddresses then .ok b
  else
    match web.literal host with
    | some literal => (approved web host [literal]).map (b.pin web now host)
    | none =>
      if web.proxied url then guardProxied web host resolved b
      else guardResolved web url host now resolved b

section Guard

variable {web settings} {url host : String} {upstreamUrl : Option String}
  {extraHosts : List String} {now : Time} {resolved : Resolved} {b b' : PinnedBackend}

theorem approved_ok {addresses pinned : List String}
    (h : approved web host addresses = .ok pinned) :
    pinned = addresses ∧ ∀ a ∈ addresses, web.isPublicAddress a = true := by
  unfold approved at h
  split at h
  · cases h
  · next hall =>
    obtain rfl := Except.ok.inj h
    simp only [Bool.or_eq_true, not_or, List.any_eq_true, not_exists, not_and,
      Bool.not_eq_true', Bool.not_eq_false] at hall
    exact ⟨rfl, hall.2⟩

theorem approved_pin {addresses : List String}
    (h : (approved web host addresses).map (b.pin web now host) = .ok b') :
    ∃ addresses, (∀ a ∈ addresses, web.isPublicAddress a = true) ∧
      b' = b.pin web now host addresses := by
  obtain ⟨pinned, happroved, rfl⟩ := map_ok h
  obtain ⟨rfl, hpublic⟩ := approved_ok happroved
  exact ⟨pinned, hpublic, rfl⟩

/-- A URL that passes keeps the host rule, and pins nothing but public addresses of its host. -/
theorem guardUrl_ok (h : guardUrl web settings url upstreamUrl extraHosts now resolved b = .ok b') :
    ∃ host, checkUrlShape web settings url upstreamUrl extraHosts = .ok host ∧
      (b' = b ∨ ∃ addresses, (∀ a ∈ addresses, web.isPublicAddress a = true) ∧
        b' = b.pin web now host addresses) := by
  unfold guardUrl at h
  obtain ⟨host, hshape, h⟩ := bind_ok h
  refine ⟨host, hshape, ?_⟩
  split at h
  · exact .inl (Except.ok.inj h).symm
  · split at h
    · exact .inr (approved_pin h)
    · split at h
      · unfold guardProxied at h
        split at h
        · cases h
        · exact .inl (Except.ok.inj h).symm
      · unfold guardResolved at h
        obtain ⟨parts, -, h⟩ := bind_ok h
        split at h
        · cases h
        · split at h
          · cases h
          · exact .inr (approved_pin h)

theorem guardUrl_public (hb : b.Public web)
    (h : guardUrl web settings url upstreamUrl extraHosts now resolved b = .ok b') :
    b'.Public web := by
  obtain ⟨host, -, rfl | ⟨addresses, hpublic, rfl⟩⟩ := guardUrl_ok h
  · exact hb
  · exact hb.pin hpublic now host

end Guard

end Minireg.Netguard
