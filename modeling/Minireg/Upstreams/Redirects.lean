import Minireg.Upstreams.Netguard

/-!
# Redirects of a package upstream

`requestFollowing` and `stream` follow redirects by hand: every hop is guarded and pinned,
and the credential stays behind once a hop leaves its origin. Both are `follow`, which
differs in the origin the credential belongs to, in the hosts a hop may name beside the
configured ones, and in the number of hops.
-/

namespace Minireg.Netguard

open Py

variable (web : Web) (settings : FetchSettings)

/-! ## One hop -/

/-- A call of `guard_url` by another request. -/
structure GuardCall where
  url : String
  upstreamUrl : Option String
  extraHosts : List String
  now : Time
  resolved : Resolved

def GuardCall.run (b : PinnedBackend) (call : GuardCall) : PinnedBackend :=
  match guardUrl web settings call.url call.upstreamUrl call.extraHosts call.now call.resolved b with
  | .ok b' => b'
  | .error _ => b

structure Response where
  status : Nat
  location : Option String := none

/-- What happens at a hop: when it is guarded and what its host resolves to, the guards of other
requests before it connects, when it connects, and the response (`none` is a transport error). -/
structure Hop where
  guardedAt : Time
  resolved : Resolved
  others : List GuardCall := []
  connectedAt : Time
  response : Option Response

inductive Route where
  | proxy
  | direct (addresses : List String)
  deriving DecidableEq

/-- How a request reaches its host; `none` is a refused connection. -/
def routeOf (b : PinnedBackend) (now : Time) (url : String) : Option Route :=
  if web.proxied url then some .proxy
  else (b.connectTcp web settings now ((web.hostOf url).getD "")).map .direct

/-- A request on the wire. -/
structure Sent where
  url : String
  headers : Dict String String
  route : Route
  deriving DecidableEq

/-- An upstream's provider, with its `auth_headers()`. -/
structure Provider where
  upstreamUrl : String
  auth : Dict String String

/-- The hosts a URL built from the configuration adds to the permitted ones. -/
def trustedHosts (trusted : Option String) : Except Refusal (List String) :=
  match trusted.filter (· ≠ "") with
  | none => .ok []
  | some trusted => (raised (web.urlsplit trusted)).map fun s => [s.hostname.getD ""]

/-- `_guard`. -/
def guardHop (p : Provider) (trusted : Option String) (url : String) (hop : Hop)
    (b : PinnedBackend) : Except Refusal PinnedBackend := do
  let extraHosts ← trustedHosts web trusted
  guardUrl web settings url (some p.upstreamUrl) extraHosts hop.guardedAt hop.resolved b

/-! ## Following -/

inductive Ended where
  | answered (status : Nat)
  | transportError
  | refused (r : Refusal)
  | noLocation
  | tooManyRedirects
  /-- `httpx.InvalidURL` or a `ValueError`. -/
  | raised
  deriving DecidableEq

structure Chain where
  sent : List Sent
  ended : Ended

/-- `_REDIRECT_STATUSES`. -/
def redirectStatuses : List Nat := [301, 302, 303, 307, 308]

/-- `_MAX_REDIRECTS`. -/
def maxRedirects : Nat := 5

/-- The redirect loop: `send` are the headers of the next request, `bare` those of a request that
left `home`. -/
def follow (p : Provider) (home : String) (trusted : Option String) (follows : Bool)
    (bare : Dict String String) : Nat → Dict String String → String → PinnedBackend →
    (Nat → Hop) → Chain
  | 0, _, _, _, _ => { sent := [], ended := .tooManyRedirects }
  | n + 1, send, current, b, hops =>
    match guardHop web settings p trusted current (hops 0) b with
    | .error r => { sent := [], ended := .refused r }
    | .ok b =>
      let b := (hops 0).others.foldl (GuardCall.run web settings) b
      match routeOf web settings b (hops 0).connectedAt current with
      | none => { sent := [], ended := .transportError }
      | some route =>
        let request : Sent := { url := current, headers := send, route := route }
        match (hops 0).response with
        | none => { sent := [request], ended := .transportError }
        | some response =>
          if response.status ∉ redirectStatuses || !follows then
            { sent := [request], ended := .answered response.status }
          else
            match response.location.filter (· ≠ "") with
            | none => { sent := [request], ended := .noLocation }
            | some location =>
              match web.join current location with
              | none => { sent := [request], ended := .raised }
              | some next =>
                match web.sameOrigin next home with
                | none => { sent := [request], ended := .raised }
                | some same =>
                  let rest := follow p home trusted follows bare n (if same then send else bare) next b
                    fun i => hops (i + 1)
                  { rest with sent := request :: rest.sent }

/-- `dict.update`. -/
def updateHeaders (d e : Dict String String) : Dict String String :=
  e.foldl (fun d x => Dict.set d x.1 x.2) d

/-- `_request_following`. Only `GET` and `HEAD` follow. -/
def requestFollowing (p : Provider) (method url : String) (headers : Dict String String)
    (b : PinnedBackend) (hops : Nat → Hop) : Chain :=
  let method := web.caseMap.upper method
  follow web settings p url (some url) (method = "GET" || method = "HEAD") headers
    (maxRedirects + 1) (updateHeaders p.auth headers) url b hops

/-- `stream`. -/
def stream (p : Provider) (url : String) (headers : Dict String String) (b : PinnedBackend)
    (hops : Nat → Hop) : Chain :=
  match web.sameOrigin url p.upstreamUrl with
  | none => { sent := [], ended := .raised }
  | some same =>
    follow web settings p p.upstreamUrl none true headers maxRedirects
      (if same then updateHeaders headers p.auth else headers) url b hops

/-! ## What a chain keeps -/

/-- The request was judged, and goes to approved addresses of its host or through the proxy. -/
structure Guarded (p : Provider) (trusted : Option String) (s : Sent) : Prop where
  judged : ∃ extraHosts host, trustedHosts web trusted = .ok extraHosts ∧
    checkUrlShape web settings s.url (some p.upstreamUrl) extraHosts = .ok host
  pinned : ∀ addresses, s.route = .direct addresses → settings.allowPrivateAddresses = false →
    ∀ a ∈ addresses, web.isPublicAddress a = true
  proxied : s.route = .proxy → web.proxied s.url = true

/-- The credential stays at `home`: it is on requests of that origin only, and on none after a
request of another one. -/
structure StaysHome (p : Provider) (home : String) (trusted : Option String) (headers : Dict String String) (limit : Nat)
    (sent : List Sent) : Prop where
  bounded : sent.length ≤ limit
  guarded : ∀ s ∈ sent, Guarded web settings p trusted s
  credential : ∀ s ∈ sent, ∀ h ∈ p.auth, h ∈ s.headers →
    h ∈ headers ∨ web.origin s.url = web.origin home
  left : ∀ before s after, sent = before ++ s :: after → web.origin s.url ≠ web.origin home →
    ∀ t ∈ after, t.headers = headers

section Follow

variable {web settings} {p : Provider} {home : String} {trusted : Option String}
  {follows : Bool} {bare : Dict String String} {n : Nat} {send : Dict String String}
  {current : String} {b : PinnedBackend} {hops : Nat → Hop}

theorem GuardCall.run_public {calls : List GuardCall} (hb : b.Public web) :
    (calls.foldl (GuardCall.run web settings) b).Public web := by
  induction calls generalizing b with
  | nil => exact hb
  | cons call calls ih =>
    refine ih ?_
    unfold GuardCall.run
    split
    · next h => exact guardUrl_public hb h
    · exact hb

theorem guarded_of_route {b b₁ b' : PinnedBackend} {extraHosts : List String} {now : Time}
    {hop : Hop} {route : Route} (hb' : b'.Public web)
    (htrusted : trustedHosts web trusted = .ok extraHosts)
    (hurl : guardUrl web settings current (some p.upstreamUrl) extraHosts hop.guardedAt hop.resolved
      b = .ok b₁)
    (hroute : routeOf web settings b' now current = some route) :
    Guarded web settings p trusted ⟨current, send, route⟩ := by
  obtain ⟨host, hshape, -⟩ := guardUrl_ok hurl
  unfold routeOf at hroute
  refine ⟨⟨extraHosts, host, htrusted, hshape⟩, ?_, ?_⟩
  · rintro addresses rfl hs
    split at hroute
    · cases hroute
    · obtain ⟨pinned, hconnect, hpinned⟩ := Option.map_eq_some_iff.mp hroute
      obtain rfl := Route.direct.inj hpinned
      exact hb'.connectTcp hconnect hs
  · rintro rfl
    split at hroute
    · assumption
    · obtain ⟨pinned, -, hpinned⟩ := Option.map_eq_some_iff.mp hroute
      cases hpinned

/-- One turn of the loop: nothing is sent, or a guarded request, and then what the rest of the
chain sends, without the credential where it leaves home. -/
theorem follow_cases (send : Dict String String) (current : String) (hops : Nat → Hop)
    (hb : b.Public web) :
    (follow web settings p home trusted follows bare (n + 1) send current b hops).sent = [] ∨
    ∃ route, Guarded web settings p trusted ⟨current, send, route⟩ ∧
      ((follow web settings p home trusted follows bare (n + 1) send current b hops).sent =
          [⟨current, send, route⟩] ∨
        ∃ next same b', PinnedBackend.Public web b' ∧ web.sameOrigin next home = some same ∧
          (follow web settings p home trusted follows bare (n + 1) send current b hops).sent =
            ⟨current, send, route⟩ :: (follow web settings p home trusted follows bare n
              (if same then send else bare) next b' fun i => hops (i + 1)).sent) := by
  simp only [follow]
  split
  case h_1 => exact .inl rfl
  case h_2 b₁ hguard =>
    obtain ⟨extraHosts, htrusted, hurl⟩ := bind_ok hguard
    have hb₁ : ((hops 0).others.foldl (GuardCall.run web settings) b₁).Public web :=
      GuardCall.run_public (guardUrl_public hb hurl)
    split
    case h_1 => exact .inl rfl
    case h_2 route hroute =>
      refine .inr ⟨route, guarded_of_route hb₁ htrusted hurl hroute, ?_⟩
      split
      case h_1 => exact .inl rfl
      case h_2 =>
        split
        case isTrue => exact .inl rfl
        case isFalse =>
          split
          case h_1 => exact .inl rfl
          case h_2 =>
            split
            case h_1 => exact .inl rfl
            case h_2 next _ =>
              split
              case h_1 => exact .inl rfl
              case h_2 same hsame => exact .inr ⟨next, same, _, hb₁, hsame, rfl⟩

/-- Without the credential a chain goes on without it. -/
theorem follow_bare (hb : b.Public web) :
    ∀ s ∈ (follow web settings p home trusted follows bare n bare current b hops).sent,
      s.headers = bare := by
  induction n generalizing current b hops with
  | zero => exact fun s hs => absurd hs List.not_mem_nil
  | succ n ih =>
    intro s hs
    rcases follow_cases bare current hops hb with
      hnone | ⟨route, -, hone | ⟨next, same, b', hb', -, hmore⟩⟩
    · exact absurd (hnone ▸ hs) List.not_mem_nil
    · rw [hone] at hs
      obtain rfl := List.mem_singleton.mp hs
      rfl
    · rw [hmore, ite_self] at hs
      rcases List.mem_cons.mp hs with rfl | hs
      · rfl
      · exact ih hb' s hs

/-- The headers of a hop are bare, or the hop is at home. -/
def Kept (web : Web) (home : String) (bare send : Dict String String) (current : String) : Prop :=
  send = bare ∨ web.origin current = web.origin home

theorem staysHome_nil : StaysHome web settings p home trusted bare n [] :=
  ⟨Nat.zero_le _, by simp, by simp, by simp⟩

theorem StaysHome.cons {s : Sent} {rest : List Sent}
    (h : StaysHome web settings p home trusted bare n rest)
    (hguarded : Guarded web settings p trusted s) (hkept : Kept web home bare s.headers s.url)
    (hleft : web.origin s.url ≠ web.origin home → ∀ t ∈ rest, t.headers = bare) :
    StaysHome web settings p home trusted bare (n + 1) (s :: rest) where
  bounded := Nat.succ_le_succ h.bounded
  guarded := List.forall_mem_cons.mpr ⟨hguarded, h.guarded⟩
  credential := by
    refine List.forall_mem_cons.mpr ⟨fun x _ hx => ?_, h.credential⟩
    rcases hkept with hbare | hhome
    · exact .inl (hbare ▸ hx)
    · exact .inr hhome
  left := by
    intro before t after heq hother
    rcases before with _ | ⟨u, before⟩
    · obtain ⟨rfl, rfl⟩ := List.cons.inj heq
      exact hleft hother
    · obtain ⟨-, rfl⟩ := List.cons.inj heq
      exact h.left before t after rfl hother

/-- **The loop**: what one turn sends is guarded, and the credential stays at home. -/
theorem follow_staysHome (hb : b.Public web) (hkept : Kept web home bare send current) :
    StaysHome web settings p home trusted bare n
      (follow web settings p home trusted follows bare n send current b hops).sent := by
  induction n generalizing send current b hops with
  | zero => exact staysHome_nil
  | succ n ih =>
    rcases follow_cases send current hops hb with
      hnone | ⟨route, hguarded, hone | ⟨next, same, b', hb', hsame, hmore⟩⟩
    · rw [hnone]
      exact staysHome_nil
    · rw [hone]
      exact staysHome_nil.cons hguarded hkept (by simp)
    · rw [hmore]
      refine (ih hb' ?_).cons hguarded hkept fun hother => ?_
      · cases same with
        | true => exact hkept.imp id fun _ => Web.origin_of_sameOrigin hsame
        | false => exact .inl rfl
      · -- the chain has left, so the rest has no credential to send
        obtain rfl := hkept.resolve_right hother
        rw [ite_self]
        exact follow_bare hb'

end Follow

/-! ## Both loops -/

/-- The pins of a process after any guards. -/
def pinned (calls : List GuardCall) : PinnedBackend := calls.foldl (GuardCall.run web settings) {}

/-- **Credentials stay home**: of a buffered request at the origin of its first URL, of a stream at
the upstream's. -/
theorem credentials_stay_home (p : Provider) (calls : List GuardCall) (method url : String)
    (headers : Dict String String) (hops : Nat → Hop) :
    StaysHome web settings p url (some url) headers (maxRedirects + 1)
        (requestFollowing web settings p method url headers (pinned web settings calls) hops).sent ∧
      StaysHome web settings p p.upstreamUrl none headers maxRedirects
        (stream web settings p url headers (pinned web settings calls) hops).sent := by
  have hpublic : (pinned web settings calls).Public web :=
    GuardCall.run_public PinnedBackend.public_empty
  refine ⟨follow_staysHome hpublic (.inr rfl), ?_⟩
  unfold stream
  split
  case h_1 => exact staysHome_nil
  case h_2 same hsame =>
    refine follow_staysHome hpublic ?_
    cases same with
    | true => exact .inr (Web.origin_of_sameOrigin hsame)
    | false => exact .inl rfl

/-! ## A registry with its API on another host -/

/-- `PUBLIC_API`. -/
def publicApi : Dict String String :=
  [("index.crates.io", "https://crates.io"), ("static.crates.io", "https://crates.io")]

/-- `url.rstrip("/")`. -/
def stripSlashes (url : String) : String :=
  String.ofList (url.toList.reverse.dropWhile (· = '/')).reverse

/-- `CargoProvider.api_base`, with the configured `api_url`; `none` is a `ValueError`. -/
def cargoApiBase (apiUrl : Option String) (upstreamUrl : String) : Option (Option String) :=
  match apiUrl.filter (· ≠ "") with
  | some configured => some (some (stripSlashes configured))
  | none => (web.urlsplit (stripSlashes upstreamUrl)).map fun s =>
    Dict.get? publicApi (web.caseMap.lower s.netloc)

/-- The URL a search asks. -/
def cargoSearchUrl (api : String) : String := api ++ "/api/v1/crates"

/-- `urlsplit` on the URLs of crates.io, which resolves to one public address. -/
def cratesWeb : Web where
  caseMap := .ascii
  urlsplit url :=
    if url = "https://index.crates.io" then
      some { scheme := "https", netloc := "index.crates.io", hostname := some "index.crates.io"
             port := some none }
    else if url = "https://crates.io/api/v1/crates" then
      some { scheme := "https", netloc := "crates.io", hostname := some "crates.io"
             port := some none }
    else none
  join _ _ := none
  ipAddress a := if a = "108.138.85.20" then some { text := a } else none
  proxied _ := false

def cratesUpstream : Provider where
  upstreamUrl := "https://index.crates.io"
  auth := [("authorization", "Bearer s3cret")]

/-- A search of crates.io sends the credential of the index to the API's host. -/
theorem search_leaves_home : ∃ api, cargoApiBase cratesWeb none cratesUpstream.upstreamUrl =
      some (some api) ∧
    (requestFollowing cratesWeb {} cratesUpstream "GET" (cargoSearchUrl api) [] {} fun _ =>
      { guardedAt := 0, resolved := some ["108.138.85.20"], connectedAt := 0
        response := some { status := 200 } }).sent =
      [{ url := cargoSearchUrl api, headers := cratesUpstream.auth
         route := .direct ["108.138.85.20"] }] ∧
    cratesWeb.origin (cargoSearchUrl api) ≠ cratesWeb.origin cratesUpstream.upstreamUrl :=
  ⟨"https://crates.io", by decide +kernel⟩

end Minireg.Netguard
