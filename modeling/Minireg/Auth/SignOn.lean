import Minireg.Auth.OidcProvider
import Minireg.Lib.Run

/-!
# Single sign-on

Any number of browsers, some of them an attacker's, begin logins, sign in at the provider, and come
back with whatever code and state they have. The registry keeps nothing in between: what it needs
travels in a token that it has signed, and a cookie says which browser began. `logins_own` says of a
browser that minds its own cookies that it is only ever logged in as whoever signed in at the
provider in that browser, by a login that it began in the last ten minutes; `codes_own` that the
code of such a login lets in no other browser.
-/

namespace Minireg.Auth.SignOn

open Py Lib

/-! ## State tokens -/

/-- `settings.secret_key`, which signs the tokens of the registry. -/
structure SecretKey where
  encode : Claims → String
  /-- The payload of a text whose signature is good. -/
  verify : String → Option Claims

/-- Microseconds in a second. -/
def second : Time := 1000000

/-- What is random in a login. -/
structure Randoms where
  verifier : String
  nonce : String
  binder : String
  deriving DecidableEq, Repr

/-- `_safe_next`. -/
def safeNext (target : Option String) : String :=
  match target.map String.toList with
  | some ('/' :: rest) => if rest.head? = some '/' ∨ '\\' ∈ rest then "/" else target.getD "/"
  | _ => "/"

variable (settings : OidcSettings) (key : SecretKey)

/-- The payload of `create_state_token`. The data of the login has none of its own three claims. -/
def statePayload (now : Time) (random : Randoms) (next : String) : Claims :=
  [("nonce", .str random.nonce), ("verifier", .str random.verifier),
    ("next", .str (safeNext (some next))), ("bind", .str (settings.sha256 random.binder)),
    ("iat", .int (now / second)), ("exp", .int ((now + 600 * second) / second)),
    ("typ", .str "oidc_state")]

/-- What `jwt.decode` checks of the times. -/
def isTimely (now : Time) (payload : Claims) : Bool :=
  (match Json.get payload "exp" with
    | .null => true
    | .int exp => now < exp * second
    | _ => false) &&
  match Json.get payload "iat" with
    | .null => true
    | .int iat => iat * second ≤ now
    | _ => false

/-- `decode_state_token`. -/
def decodeStateToken (now : Time) (token : String) : Option Claims :=
  (key.verify token).filter fun payload =>
    isTimely now payload && Json.get payload "typ" = .str "oidc_state"

/-! ## The handlers -/

/-- A redirect to the provider, with its cookie. -/
structure Redirect where
  endpoint : Json
  params : Dict String String
  binder : String

/-- `oidc_login`. -/
def oidcLogin (now : Time) (random : Randoms) (next : String)
    (discovery : Except String (Nat × Claims)) : Except HttpRefusal Redirect :=
  if !settings.oidcEnabled then .error ⟨404, "OIDC is not enabled"⟩
  else match getDiscovery settings discovery with
    | .error _ => .error ⟨502, "single sign-on is unavailable right now; try again later"⟩
    | .ok document => .ok
      { endpoint := Json.get document "authorization_endpoint"
        params := authorizationParams settings (key.encode (statePayload settings now random next))
          random.nonce (settings.s256 random.verifier)
        binder := random.binder }

structure CallbackRequest where
  code : Option String := none
  state : Option String := none
  error : Option String := none
  /-- `OIDC_BIND_COOKIE`. -/
  cookie : Option String := none
  deriving DecidableEq, Repr

/-- An answer with a session cookie. -/
structure LoggedIn where
  profile : OidcProfile
  handled : Handled
  destination : String
  deriving DecidableEq, Repr

/-- `oidc_callback`. -/
def oidcCallback (now : Time) (users : List User) (provider : Provider)
    (request : CallbackRequest) : Except HttpRefusal LoggedIn :=
  match request.error.filter (· ≠ "") with
  | some error => .error ⟨401, "identity provider returned an error: " ++ error⟩
  | none =>
    match request.code.filter (· ≠ ""), request.state.filter (· ≠ "") with
    | some code, some state =>
      match decodeStateToken key now state with
      | none => .error ⟨400, "invalid or expired login state"⟩
      | some payload =>
        let expected := Json.get payload "bind"
        let presented := settings.sha256 (request.cookie.getD "")
        if expected.truthy && expected ≠ .str presented then
          .error ⟨400, "this login was started in a different browser; sign in again"⟩
        else match payload.get? "verifier", payload.get? "nonce" with
          | some verifier, some nonce =>
            match signIn settings provider code (textOf settings verifier) nonce with
            | .error _ => .error ⟨401, "single sign-on failed; try signing in again"⟩
            | .ok profile => do
              let handled ← Auth.oidcCallback settings.toAuthSettings users profile
              return {
                profile := profile
                handled := handled
                destination := safeNext (Json.get payload "next").asStr? }
          -- a `KeyError`
          | _, _ => .error ⟨500, "Internal Server Error"⟩
    | _, _ => .error ⟨400, "missing code or state"⟩

/-! ## The system -/

/-- A login that a browser has begun. -/
structure Flow where
  browser : Nat
  random : Randoms
  next : String
  startedAt : Time
  deriving DecidableEq, Repr

/-- A code of the provider: who has signed in, in which browser, and for which request. -/
structure Grant where
  code : String
  browser : Nat
  params : Dict String String
  subject : String
  deriving DecidableEq, Repr

/-- The cookie of a browser. -/
structure Jar where
  binder : String
  expires : Time
  deriving DecidableEq, Repr

structure Login extends LoggedIn where
  browser : Nat
  time : Time
  code : String
  deriving DecidableEq, Repr

structure World where
  flows : List Flow := []
  jars : Nat → Option Jar := fun _ => none
  grants : List Grant := []
  /-- The payloads that were signed with the secret key. -/
  signed : List Claims := []
  logins : List Login := []
  clock : Time := 0

inductive Act where
  | begin_ (browser : Nat) (random : Randoms) (next : String)
      (discovery : Except String (Nat × Claims))
  /-- Someone signs in at the provider, in a browser that was sent there. -/
  | authorize (grant : Grant)
  | callback (browser : Nat) (request : CallbackRequest) (users : List User) (provider : Provider)
  /-- The registry signs a token of another kind, such as a session. -/
  | sign (payload : Claims)
  | tick (elapsed : Nat)

namespace World

variable (w : World)

/-- What a browser sends back. -/
def cookie (browser : Nat) : Option String :=
  ((w.jars browser).filter fun jar => w.clock < jar.expires).map Jar.binder

def apply : Act → World
  | .begin_ browser random next discovery =>
    match oidcLogin settings key w.clock random next discovery with
    | .error _ => w
    | .ok redirect =>
      { w with
        flows := w.flows ++ [{ browser := browser, random := random, next := next
                               startedAt := w.clock }]
        jars := Function.update w.jars browser
          (some { binder := redirect.binder, expires := w.clock + 600 * second })
        signed := w.signed ++ [statePayload settings w.clock random next] }
  | .authorize grant => { w with grants := w.grants ++ [grant] }
  | .callback browser request users provider =>
    match oidcCallback settings key w.clock users provider request with
    | .error _ => w
    | .ok loggedIn =>
      { w with
        logins := w.logins ++ [{ toLoggedIn := loggedIn, browser := browser, time := w.clock
                                 code := request.code.getD "" }] }
  | .sign payload => { w with signed := w.signed ++ [payload] }
  | .tick elapsed => { w with clock := w.clock + elapsed }

end World

def signOn : System World Act where
  init w := w = {}
  Step w act w' := w' = w.apply settings key act

/-! ## What is relied on -/

/-- The request of a login, at the provider. -/
def Grant.Answers (grant : Grant) (flow : Flow) : Prop :=
  grant.params.get? "nonce" = some flow.random.nonce ∧
    grant.params.get? "code_challenge" = some (settings.s256 flow.random.verifier)

/-- Nobody has seen what is random in a new login, nor anything with its digest. -/
structure Fresh (w : World) (random : Randoms) : Prop where
  binder : settings.sha256 random.binder ≠ settings.sha256 ""
  binders : ∀ f ∈ w.flows, settings.sha256 f.random.binder ≠ settings.sha256 random.binder
  verifiers : ∀ f ∈ w.flows, settings.s256 f.random.verifier ≠ settings.s256 random.verifier
  nonces : ∀ g ∈ w.grants, g.params.get? "nonce" ≠ some random.nonce

/-- A provider redeems a code for the verifier of its challenge only, and its token names who signed
in and the nonce of the request. -/
structure Conforming (grants : List Grant) (provider : Provider) : Prop where
  redeems : ∀ request response jwksUri claims, provider.token request = .ok response →
    response.status = 200 →
    provider.decode jwksUri (Json.get response.json "id_token") = .ok claims →
    ∃ g ∈ grants, request.data.get? "code" = some g.code ∧
      g.params.get? "code_challenge" = (request.data.get? "code_verifier").map settings.s256 ∧
      claims.get? "sub" = some (.str g.subject) ∧
      (∃ issuer, issuer ≠ "" ∧ claims.get? "iss" = some (.str issuer)) ∧
      claims.get? "nonce" = (g.params.get? "nonce").map Json.str

variable (honest : Nat → Prop)

/-- What the attacker cannot do. She begins logins, in her own browsers and in others, opens any
page of the provider or of the registry in them, with every code and every state there is. She does
not know the request of a login that another browser has begun, nor its cookie, and signs nothing
with the secret key. -/
def Allowed (w : World) : Act → Prop
  | .begin_ _ random _ _ => Fresh settings w random
  | .authorize grant => (∀ g ∈ w.grants, g.code ≠ grant.code) ∧
    ∀ f ∈ w.flows, honest f.browser → grant.Answers settings f → grant.browser = f.browser
  | .callback browser request _ provider =>
    (honest browser → ∀ c ∈ request.cookie, w.cookie browser = some c) ∧
    (¬ honest browser → ∀ f ∈ w.flows, honest f.browser →
      settings.sha256 (request.cookie.getD "") ≠ settings.sha256 f.random.binder) ∧
    (∀ state ∈ request.state, ∀ payload ∈ key.verify state, payload ∈ w.signed) ∧
    Conforming settings w.grants provider
  | .sign payload => Json.get payload "typ" ≠ .str "oidc_state"
  | .tick _ => True

/-! ## What a callback has checked -/

section Callback

variable {settings key honest} {now : Time} {users : List User} {provider : Provider}
  {request : CallbackRequest} {loggedIn : LoggedIn}

theorem decodeStateToken_some {token : String} {payload : Claims}
    (h : decodeStateToken key now token = some payload) :
    key.verify token = some payload ∧ isTimely now payload = true ∧
      Json.get payload "typ" = .str "oidc_state" := by
  obtain ⟨hverify, hchecks⟩ := Option.filter_eq_some_iff.mp h
  obtain ⟨htimely, htyp⟩ := Bool.and_eq_true_iff.mp hchecks
  exact ⟨hverify, htimely, of_decide_eq_true htyp⟩

/-- A login has come through every check. -/
theorem oidcCallback_ok (h : oidcCallback settings key now users provider request = .ok loggedIn) :
    ∃ code state payload verifier nonce, request.code = some code ∧ request.state = some state ∧
      decodeStateToken key now state = some payload ∧
      ((Json.get payload "bind").truthy = true →
        Json.get payload "bind" = .str (settings.sha256 (request.cookie.getD ""))) ∧
      payload.get? "verifier" = some verifier ∧ payload.get? "nonce" = some nonce ∧
      signIn settings provider code (textOf settings verifier) nonce = .ok loggedIn.profile ∧
      Auth.oidcCallback settings.toAuthSettings users loggedIn.profile = .ok loggedIn.handled ∧
      loggedIn.destination = safeNext (Json.get payload "next").asStr? := by
  unfold oidcCallback at h
  split at h
  · cases h
  · split at h
    · next code state hcode hstate =>
      split at h
      · cases h
      · next payload hpayload =>
        dsimp only at h
        split at h
        · cases h
        · next hbind =>
          split at h
          · next verifier nonce hverifier hnonce =>
            split at h
            · cases h
            · next profile hprofile =>
              obtain ⟨handled, hhandled, h⟩ := bind_ok h
              obtain rfl := Except.ok.inj h
              refine ⟨code, state, payload, verifier, nonce,
                (Option.filter_eq_some_iff.mp hcode).1, (Option.filter_eq_some_iff.mp hstate).1,
                hpayload, fun htruthy => ?_, hverifier, hnonce, hprofile, hhandled, rfl⟩
              by_contra hne
              exact hbind (Bool.and_eq_true_iff.mpr ⟨htruthy, decide_eq_true hne⟩)
          · cases h
    · cases h

end Callback

/-! ## The account of a login -/

/-- The account as a handler leaves it. -/
def writtenAccount : Change → Option User
  | .insert user => some user
  | .update _ changed => some changed
  | .delete _ => none

theorem apply_subject (settings : AuthSettings) (profile : OidcProfile) (user : User) :
    (profile.apply settings user).oidcSubject = user.oidcSubject ∧
      (profile.apply settings user).oidcIssuer = user.oidcIssuer := by
  unfold OidcProfile.apply
  dsimp only
  split <;> split <;> exact ⟨rfl, rfl⟩

/-- An account that is found, linked or created has the subject of the profile. A disabled one of
the same address is not linked, and not let in. -/
theorem oidcAccount_subject {settings : AuthSettings} {users : List User} {profile : OidcProfile}
    {read user : User} (h : oidcAccount settings users profile = some (read, user))
    (hactive : user.isActive = true) :
    user.oidcSubject = some profile.subject ∧ user.oidcIssuer = some profile.issuer := by
  unfold oidcAccount at h
  split at h
  · next found hfound =>
    cases h
    have hkey := List.find?_some hfound
    obtain ⟨hissuer, hsubject⟩ := Bool.and_eq_true_iff.mp hkey
    exact ⟨of_decide_eq_true hsubject, of_decide_eq_true hissuer⟩
  · split at h
    · split at h
      · obtain ⟨rfl, rfl⟩ := Prod.mk.inj (Option.some.inj h)
        split
        · exact ⟨rfl, rfl⟩
        · next hnot =>
          rw [if_neg hnot] at hactive
          exact absurd hactive hnot
      · cases h
    · cases h

theorem oidcCallback_account {settings : AuthSettings} {users : List User} {profile : OidcProfile}
    {handled : Handled} (h : Auth.oidcCallback settings users profile = .ok handled) :
    ∃ user, writtenAccount handled.change = some user ∧
      user.oidcSubject = some profile.subject ∧ user.oidcIssuer = some profile.issuer := by
  unfold Auth.oidcCallback at h
  split at h
  · cases h
  · split at h
    · next read user haccount =>
      split at h
      · cases h
      · next hactive =>
        obtain rfl := Except.ok.inj h
        obtain ⟨hsubject, hissuer⟩ := apply_subject settings profile user
        obtain ⟨hsubject', hissuer'⟩ := oidcAccount_subject haccount (by simpa using hactive)
        exact ⟨_, rfl, hsubject.trans hsubject', hissuer.trans hissuer'⟩
    · split at h
      · cases h
      · obtain rfl := Except.ok.inj h
        obtain ⟨hsubject, hissuer⟩ := apply_subject settings profile
          { id := 0, username := uniqueUsername settings users profile.username
            email := profile.email, provider := .oidc, oidcIssuer := some profile.issuer
            oidcSubject := some profile.subject }
        exact ⟨_, rfl, hsubject, hissuer⟩

/-! ## The invariant -/

variable {settings key honest} {w : World}

/-- A login is one that its browser has begun, and is signed in to as whoever got the code. -/
structure Rightful (settings : OidcSettings) (honest : Nat → Prop) (w : World) (login : Login)
    (flow : Flow) (grant : Grant) : Prop where
  flow_mem : flow ∈ w.flows
  grant_mem : grant ∈ w.grants
  begun : flow.startedAt ≤ login.time
  inTime : login.time < flow.startedAt + 600 * second
  code : grant.code = login.code
  answers : grant.Answers settings flow
  subject : login.profile.subject = grant.subject
  destination : login.destination = safeNext (some flow.next)
  own : honest login.browser → flow.browser = login.browser
  safe : honest flow.browser → login.browser = flow.browser
  account : ∃ user, writtenAccount login.handled.change = some user ∧
    user.oidcSubject = some grant.subject ∧ user.oidcIssuer = some login.profile.issuer

structure Sound (settings : OidcSettings) (honest : Nat → Prop) (w : World) : Prop where
  started : ∀ f ∈ w.flows, f.startedAt ≤ w.clock
  binders : ∀ f ∈ w.flows, ∀ g ∈ w.flows,
    settings.sha256 f.random.binder = settings.sha256 g.random.binder → f = g
  verifiers : ∀ f ∈ w.flows, ∀ g ∈ w.flows,
    settings.s256 f.random.verifier = settings.s256 g.random.verifier → f = g
  bound : ∀ f ∈ w.flows, settings.sha256 f.random.binder ≠ settings.sha256 ""
  jars : ∀ b jar, w.jars b = some jar → ∃ f ∈ w.flows, f.browser = b ∧ f.random.binder = jar.binder
  signed : ∀ payload ∈ w.signed, Json.get payload "typ" = .str "oidc_state" →
    ∃ f ∈ w.flows, payload = statePayload settings f.startedAt f.random f.next
  codes : ∀ g ∈ w.grants, ∀ g' ∈ w.grants, g.code = g'.code → g = g'
  grants : ∀ g ∈ w.grants, ∀ f ∈ w.flows, honest f.browser → g.Answers settings f →
    g.browser = f.browser
  logins : ∀ l ∈ w.logins, ∃ f g, Rightful settings honest w l f g

theorem Rightful.mono {w' : World} {login : Login} {flow : Flow} {grant : Grant}
    (h : Rightful settings honest w login flow grant) (hflows : ∀ f ∈ w.flows, f ∈ w'.flows)
    (hgrants : ∀ g ∈ w.grants, g ∈ w'.grants) : Rightful settings honest w' login flow grant :=
  { h with flow_mem := hflows _ h.flow_mem, grant_mem := hgrants _ h.grant_mem }

theorem Sound.keeps {w' : World} (h : Sound settings honest w)
    (hflows : ∀ f ∈ w.flows, f ∈ w'.flows) (hgrants : ∀ g ∈ w.grants, g ∈ w'.grants) :
    ∀ l ∈ w.logins, ∃ f g, Rightful settings honest w' l f g := fun l hl => by
  obtain ⟨f, g, hrightful⟩ := h.logins l hl
  exact ⟨f, g, hrightful.mono hflows hgrants⟩

/-- The payload of a state is the one of a flow. -/
theorem statePayload_get (settings : OidcSettings) (now : Time) (random : Randoms) (next : String) :
    Json.get (statePayload settings now random next) "bind" =
        .str (settings.sha256 random.binder) ∧
      (statePayload settings now random next).get? "verifier" = some (.str random.verifier) ∧
      (statePayload settings now random next).get? "nonce" = some (.str random.nonce) ∧
      Json.get (statePayload settings now random next) "next" = .str (safeNext (some next)) ∧
      Json.get (statePayload settings now random next) "exp" =
        .int ((now + 600 * second) / second) :=
  ⟨rfl, rfl, rfl, rfl, rfl⟩

theorem isTimely_statePayload {now then_ : Time} {random : Randoms} {next : String}
    (h : isTimely now (statePayload settings then_ random next) = true) :
    now < then_ + 600 * second := by
  have hexp := (Bool.and_eq_true_iff.mp h).1
  rw [(statePayload_get settings then_ random next).2.2.2.2] at hexp
  refine lt_of_lt_of_le (of_decide_eq_true hexp) ?_
  exact Int.ediv_mul_le _ (by decide)

theorem safeNext_safeNext (target : Option String) :
    safeNext (some (safeNext target)) = safeNext target := by
  have hroot : safeNext (some "/") = "/" := by decide
  rcases target with _ | target
  · exact hroot
  · by_cases hsafe : safeNext (some target) = target
    · rw [hsafe, hsafe]
    · have hother : safeNext (some target) = "/" := by
        unfold safeNext at hsafe ⊢
        split
        · split
          · rfl
          · next hchars hrest =>
            simp only [hchars, if_neg hrest] at hsafe
            exact absurd rfl hsafe
        · rfl
      rw [hother]
      exact hroot

theorem sound_init : Sound settings honest {} where
  started _ h := by cases h
  binders _ h := by cases h
  verifiers _ h := by cases h
  bound _ h := by cases h
  jars _ _ h := by cases h
  signed _ h := by cases h
  codes _ h := by cases h
  grants _ h := by cases h
  logins _ h := by cases h

section Step

variable {browser : Nat} {random : Randoms} {next : String}

theorem eq_of_snoc {α β : Type} {l : List α} {x : α} {f : α → β}
    (h : ∀ a ∈ l, ∀ b ∈ l, f a = f b → a = b) (hx : ∀ a ∈ l, f a ≠ f x) :
    ∀ a ∈ l ++ [x], ∀ b ∈ l ++ [x], f a = f b → a = b := by
  simp only [List.forall_mem_append, List.forall_mem_singleton]
  exact ⟨fun a ha => ⟨h a ha, fun heq => absurd heq (hx a ha)⟩,
    fun b hb heq => absurd heq.symm (hx b hb), fun _ => trivial⟩

/-- What is random in a new login tells it from the others. -/
theorem Sound.begin_ (h : Sound settings honest w) (hfresh : Fresh settings w random) :
    Sound settings honest
      { w with
        flows := w.flows ++ [⟨browser, random, next, w.clock⟩]
        jars := Function.update w.jars browser (some ⟨random.binder, w.clock + 600 * second⟩)
        signed := w.signed ++ [statePayload settings w.clock random next] } := by
  have hmem : ∀ {f}, f ∈ w.flows ++ [(⟨browser, random, next, w.clock⟩ : Flow)] →
      f ∈ w.flows ∨ f = ⟨browser, random, next, w.clock⟩ := fun hf =>
    (List.mem_append.mp hf).imp_right List.mem_singleton.mp
  have hnew : (⟨browser, random, next, w.clock⟩ : Flow) ∈
      w.flows ++ [⟨browser, random, next, w.clock⟩] :=
    List.mem_append_right _ (List.mem_singleton_self _)
  have hold : ∀ f ∈ w.flows, f ∈ w.flows ++ [(⟨browser, random, next, w.clock⟩ : Flow)] :=
    fun f hf => List.mem_append_left _ hf
  refine
    { started := fun f hf => ?_
      binders := eq_of_snoc h.binders hfresh.binders
      verifiers := eq_of_snoc h.verifiers hfresh.verifiers
      bound := fun f hf => ?_
      jars := fun b jar hjar => ?_
      signed := fun payload hpayload htyp => ?_
      codes := h.codes
      grants := fun g hg f hf hhonest hanswers => ?_
      logins := h.keeps hold fun _ hg => hg }
  · rcases hmem hf with hf | rfl
    · exact h.started f hf
    · exact le_refl _
  · rcases hmem hf with hf | rfl
    · exact h.bound f hf
    · exact hfresh.binder
  · dsimp only at hjar
    by_cases hb : b = browser
    · subst hb
      rw [Function.update_self] at hjar
      obtain rfl := Option.some.inj hjar
      exact ⟨_, hnew, rfl, rfl⟩
    · rw [Function.update_of_ne hb] at hjar
      obtain ⟨f, hf, hbrowser, hbinder⟩ := h.jars b jar hjar
      exact ⟨f, hold f hf, hbrowser, hbinder⟩
  · rcases List.mem_append.mp hpayload with hpayload | hpayload
    · obtain ⟨f, hf, heq⟩ := h.signed payload hpayload htyp
      exact ⟨f, hold f hf, heq⟩
    · exact ⟨_, hnew, List.mem_singleton.mp hpayload⟩
  · rcases hmem hf with hf | rfl
    · exact h.grants g hg f hf hhonest hanswers
    · exact absurd hanswers.1 (hfresh.nonces g hg)

theorem Sound.authorize (h : Sound settings honest w) {grant : Grant}
    (hcode : ∀ g ∈ w.grants, g.code ≠ grant.code)
    (hbrowser : ∀ f ∈ w.flows, honest f.browser → grant.Answers settings f →
      grant.browser = f.browser) :
    Sound settings honest { w with grants := w.grants ++ [grant] } := by
  refine
    { h with
      codes := eq_of_snoc h.codes hcode
      grants := fun g hg f hf hhonest hanswers => ?_
      logins := h.keeps (fun _ hf => hf) fun _ hg => List.mem_append_left _ hg }
  rcases List.mem_append.mp hg with hg | hg
  · exact h.grants g hg f hf hhonest hanswers
  · obtain rfl := List.mem_singleton.mp hg
    exact hbrowser f hf hhonest hanswers

/-- The state names the flow, the cookie its browser, the verifier and the nonce the sign-in. -/
theorem Sound.rightful (h : Sound settings honest w) {request : CallbackRequest}
    {users : List User} {provider : Provider} {loggedIn : LoggedIn}
    (hown : honest browser → ∀ c ∈ request.cookie, w.cookie browser = some c)
    (hother : ¬ honest browser → ∀ f ∈ w.flows, honest f.browser →
      settings.sha256 (request.cookie.getD "") ≠ settings.sha256 f.random.binder)
    (hsigned : ∀ state ∈ request.state, ∀ payload ∈ key.verify state, payload ∈ w.signed)
    (hprovider : Conforming settings w.grants provider)
    (hok : oidcCallback settings key w.clock users provider request = .ok loggedIn) :
    ∃ f g, Rightful settings honest w
      ⟨loggedIn, browser, w.clock, request.code.getD ""⟩ f g := by
  obtain ⟨code, state, payload, verifier, nonce, hcode, hstate, hpayload, hbind, hverifier, hnonce,
    hsignIn, haccount, hdestination⟩ := oidcCallback_ok hok
  obtain ⟨hverify, htimely, htyp⟩ := decodeStateToken_some hpayload
  obtain ⟨f, hf, rfl⟩ := h.signed payload (hsigned state hstate payload hverify) htyp
  obtain ⟨hstored, hget, hget', hnext, -⟩ :=
    statePayload_get settings f.startedAt f.random f.next
  obtain rfl := Option.some.inj (hverifier.symm.trans hget)
  obtain rfl := Option.some.inj (hnonce.symm.trans hget')
  rw [hstored] at hbind
  have hdigest : settings.sha256 f.random.binder = settings.sha256 (request.cookie.getD "") :=
    Json.str.inj (hbind (bne_iff_ne.mpr (settings.sha256_ne_empty _)))
  -- the provider redeems the code for the verifier of this flow, in a token with its nonce
  obtain ⟨method, response, jwksUri, claims, userinfo, htoken, hstatus, hdecode, hclaim,
    hprofile⟩ := signIn_spec hsignIn
  obtain ⟨hdata, hdata'⟩ := tokenRequest_data settings method code f.random.verifier
  obtain ⟨g, hg, hgcode, hchallenge, hsubject, ⟨issuer, hne, hissuer⟩, hgnonce⟩ :=
    hprovider.redeems _ response jwksUri claims htoken hstatus hdecode
  have hcode' : g.code = code := Option.some.inj (hgcode.symm.trans hdata)
  have hchallenge' : g.params.get? "code_challenge" = some (settings.s256 f.random.verifier) :=
    hchallenge.trans (congrArg (Option.map settings.s256) hdata')
  have hnonce' : g.params.get? "nonce" = some f.random.nonce := by
    unfold Json.get at hclaim
    rcases hparam : g.params.get? "nonce" with _ | nonce
    · rw [hparam] at hgnonce
      rw [show claims.lookup "nonce" = none from hgnonce] at hclaim
      cases hclaim
    · rw [hparam] at hgnonce
      rw [show claims.lookup "nonce" = some (.str nonce) from hgnonce] at hclaim
      rw [Json.str.inj hclaim]
  have hprofile' := (buildProfile_ok hsubject hissuer hne hprofile).1
  have hbrowser : honest browser → f.browser = browser := fun hhonest => by
    rcases hcookie : request.cookie with _ | c
    · rw [hcookie] at hdigest
      exact absurd hdigest (h.bound f hf)
    · have hjar := hown hhonest c hcookie
      unfold World.cookie at hjar
      obtain ⟨jar, hthere, rfl⟩ := Option.map_eq_some_iff.mp hjar
      obtain ⟨f', hf', rfl, hbinder⟩ := h.jars browser jar (Option.filter_eq_some_iff.mp hthere).1
      rw [hcookie, Option.getD_some, ← hbinder] at hdigest
      rw [h.binders f hf f' hf' hdigest]
  refine ⟨f, g, ?_⟩
  exact
    { flow_mem := hf
      grant_mem := hg
      begun := h.started f hf
      inTime := isTimely_statePayload htimely
      code := by rw [hcode', hcode]; rfl
      answers := ⟨hnonce', hchallenge'⟩
      subject := hprofile'
      destination := by
        rw [hdestination, hnext]
        exact safeNext_safeNext _
      own := hbrowser
      safe := fun hhonest => by
        by_cases hhonest' : honest browser
        · exact (hbrowser hhonest').symm
        · exact absurd hdigest.symm (hother hhonest' f hf hhonest)
      account := by
        rw [← hprofile']
        exact oidcCallback_account haccount }

theorem sound_apply {a : Act} (h : Sound settings honest w)
    (hallowed : Allowed settings key honest w a) :
    Sound settings honest (w.apply settings key a) := by
  cases a with
  | begin_ browser random next discovery =>
    unfold World.apply
    dsimp only
    split
    · exact h
    · next redirect hredirect =>
      have hbinder : redirect.binder = random.binder := by
        unfold oidcLogin at hredirect
        split at hredirect
        · cases hredirect
        · split at hredirect
          · cases hredirect
          · obtain rfl := Except.ok.inj hredirect
            rfl
      rw [hbinder]
      exact h.begin_ hallowed
  | authorize grant => exact h.authorize hallowed.1 hallowed.2
  | callback browser request users provider =>
    obtain ⟨hown, hother, hsigned, hprovider⟩ := hallowed
    unfold World.apply
    dsimp only
    split
    · exact h
    · next loggedIn hok =>
      refine { h with logins := fun l hl => ?_ }
      rcases List.mem_append.mp hl with hl | hl
      · obtain ⟨f, g, hrightful⟩ := h.logins l hl
        exact ⟨f, g, hrightful.mono (fun _ hf => hf) fun _ hg => hg⟩
      · obtain rfl := List.mem_singleton.mp hl
        obtain ⟨f, g, hrightful⟩ := h.rightful hown hother hsigned hprovider hok
        exact ⟨f, g, hrightful.mono (fun _ hf => hf) fun _ hg => hg⟩
  | sign payload =>
    refine
      { h with
        signed := fun payload' hpayload htyp => ?_
        logins := h.keeps (fun _ hf => hf) fun _ hg => hg }
    rcases List.mem_append.mp hpayload with hpayload | hpayload
    · exact h.signed payload' hpayload htyp
    · exact absurd (List.mem_singleton.mp hpayload ▸ htyp) hallowed
  | tick elapsed =>
    refine
      { h with
        started := fun f hf => ?_
        logins := h.keeps (fun _ hf => hf) fun _ hg => hg }
    have hstarted := h.started f hf
    exact le_trans hstarted (Int.le_add_of_nonneg_right (Int.natCast_nonneg _))

theorem sound_of_reach (h : (signOn settings key).Reach (Allowed settings key honest) w) :
    Sound settings honest w := by
  refine h.invariant (fun w hw => ?_) fun w a w' hw hallowed hstep => ?_
  · rw [show w = {} from hw]
    exact sound_init
  · rw [show w' = w.apply settings key a from hstep]
    exact sound_apply hw hallowed

end Step

/-! ## What a login is -/

/-- **Nobody is logged in as someone else**: a browser that minds its own cookies is logged in only
as whoever signed in at the provider in that browser, for a login that it began in the last ten
minutes. -/
theorem logins_own (hreach : (signOn settings key).Reach (Allowed settings key honest) w)
    {login : Login} (hlogin : login ∈ w.logins) (hhonest : honest login.browser) :
    ∃ flow ∈ w.flows, ∃ grant ∈ w.grants, flow.browser = login.browser ∧
      grant.browser = login.browser ∧ grant.code = login.code ∧ grant.Answers settings flow ∧
      (flow.startedAt ≤ login.time ∧ login.time < flow.startedAt + 600 * second) ∧
      login.destination = safeNext (some flow.next) ∧
      ∃ user, writtenAccount login.handled.change = some user ∧
        user.oidcSubject = some grant.subject ∧ user.oidcIssuer = some login.profile.issuer := by
  have hsound := sound_of_reach hreach
  obtain ⟨f, g, h⟩ := hsound.logins login hlogin
  have hbrowser := h.own hhonest
  have hgrant := hsound.grants g h.grant_mem f h.flow_mem (hbrowser ▸ hhonest) h.answers
  exact ⟨f, h.flow_mem, g, h.grant_mem, hbrowser, hgrant.trans hbrowser, h.code, h.answers,
    ⟨h.begun, h.inTime⟩, h.destination, h.account⟩

/-- **A code is of use in its own browser only**, if it was given for the request of a login there,
whoever comes to know it. -/
theorem codes_own (hreach : (signOn settings key).Reach (Allowed settings key honest) w)
    {login : Login} (hlogin : login ∈ w.logins) {grant : Grant} (hgrant : grant ∈ w.grants)
    (hcode : grant.code = login.code) {flow : Flow} (hflow : flow ∈ w.flows)
    (hanswers : grant.Answers settings flow) (hhonest : honest flow.browser) :
    login.browser = flow.browser := by
  have hsound := sound_of_reach hreach
  obtain ⟨f, g, h⟩ := hsound.logins login hlogin
  obtain rfl := hsound.codes grant hgrant g h.grant_mem (hcode.trans h.code.symm)
  have hchallenge := Option.some.inj (hanswers.2.symm.trans h.answers.2)
  obtain rfl := hsound.verifiers flow hflow f h.flow_mem hchallenge
  exact h.safe hhonest

/-! Ada signs in, in browser 0. -/

def demoSettings : OidcSettings where
  hashPassword := id
  verifyPassword _ _ := false
  oidcIssuer := some "https://idp/"
  oidcClientId := some "minireg"
  publicUrl := "https://reg"
  sha256 s := "h" ++ s
  sha256_ne_empty s h := by
    have hlist := congrArg String.toList h
    rw [String.toList_append] at hlist
    exact List.cons_ne_nil _ _ hlist
  s256 s := "c" ++ s
  str _ := ""

def demoRandom : Randoms := { verifier := "v", nonce := "n", binder := "b" }

def demoKey : SecretKey where
  encode _ := "state"
  verify token :=
    if token = "state" then some (statePayload demoSettings 0 demoRandom "/packages") else none

def demoDiscovery : Except String (Nat × Claims) :=
  .ok (200, [("authorization_endpoint", .str "https://idp/authorize"),
    ("token_endpoint", .str "https://idp/token"), ("issuer", .str "https://idp"),
    ("jwks_uri", .str "https://idp/keys")])

def demoClaims : Claims :=
  [("sub", .str "ada"), ("iss", .str "https://idp"), ("nonce", .str "n")]

def demoProvider : Provider where
  discovery := demoDiscovery
  token request :=
    if request.data.get? "code" = some "k" ∧ request.data.get? "code_verifier" = some "v" then
      .ok { status := 200, json := [("id_token", .str "t")] }
    else .ok { status := 400 }
  decode _ idToken := if idToken = .str "t" then .ok demoClaims else .error ⟨"no signing key"⟩
  userinfo _ := []

def demoGrant : Grant where
  code := "k"
  browser := 0
  params := authorizationParams demoSettings "state" "n" "cv"
  subject := "ada"

def demoRequest : CallbackRequest :=
  { code := some "k", state := some "state", cookie := some "b" }

def demoBegun : World :=
  ({} : World).apply demoSettings demoKey (.begin_ 0 demoRandom "/packages" demoDiscovery)

def demoGranted : World := demoBegun.apply demoSettings demoKey (.authorize demoGrant)

def demoWorld : World :=
  demoGranted.apply demoSettings demoKey (.callback 0 demoRequest [] demoProvider)

theorem conforming_demoProvider : Conforming demoSettings demoGranted.grants demoProvider where
  redeems request response jwksUri claims hresponse _ hclaims := by
    unfold demoProvider at hresponse hclaims
    dsimp only at hresponse hclaims
    split at hresponse
    · next hredeems =>
      split at hclaims
      · obtain rfl := Except.ok.inj hclaims
        refine ⟨demoGrant, by decide +kernel, hredeems.1, ?_, rfl,
          ⟨"https://idp", by decide, rfl⟩, by decide +kernel⟩
        rw [hredeems.2]
        decide +kernel
      · cases hclaims
    · obtain rfl := Except.ok.inj hresponse
      rw [if_neg (by decide +kernel)] at hclaims
      cases hclaims

theorem reach_demoWorld :
    (signOn demoSettings demoKey).Reach (Allowed demoSettings demoKey (· = 0)) demoWorld := by
  have hbegin : Allowed demoSettings demoKey (· = 0) {}
      (.begin_ 0 demoRandom "/packages" demoDiscovery) :=
    { binder := by decide +kernel
      binders := fun _ h => by cases h
      verifiers := fun _ h => by cases h
      nonces := fun _ h => by cases h }
  have hbrowsers : ∀ f ∈ demoBegun.flows, f.browser = 0 := by decide +kernel
  have hauthorize : Allowed demoSettings demoKey (· = 0) demoBegun (.authorize demoGrant) :=
    ⟨fun _ h => absurd h List.not_mem_nil, fun f hf _ _ => (hbrowsers f hf).symm⟩
  have hcallback : Allowed demoSettings demoKey (· = 0) demoGranted
      (.callback 0 demoRequest [] demoProvider) :=
    ⟨fun _ => by decide +kernel, fun h => absurd rfl h, by decide +kernel,
      conforming_demoProvider⟩
  exact .step (.step (.step (.init rfl) hbegin rfl) hauthorize rfl) hcallback rfl

theorem demoWorld_own : ∃ login ∈ demoWorld.logins, ∃ flow ∈ demoWorld.flows,
    flow.browser = login.browser ∧ login.destination = safeNext (some flow.next) := by
  obtain ⟨login, hlogin⟩ := List.exists_mem_of_ne_nil demoWorld.logins (by decide +kernel)
  have hbrowsers : ∀ l ∈ demoWorld.logins, l.browser = 0 := by decide +kernel
  obtain ⟨flow, hflow, -, -, hbrowser, -, -, -, -, hdestination, -⟩ :=
    logins_own reach_demoWorld hlogin (hbrowsers login hlogin)
  exact ⟨login, hlogin, flow, hflow, hbrowser, hdestination⟩

theorem demoGrant_own : ∃ login ∈ demoWorld.logins, login.browser = 0 := by
  obtain ⟨login, hlogin⟩ := List.exists_mem_of_ne_nil demoWorld.logins (by decide +kernel)
  have hcodes : ∀ l ∈ demoWorld.logins, demoGrant.code = l.code := by decide +kernel
  have hbrowser := codes_own reach_demoWorld hlogin
    (by decide +kernel : demoGrant ∈ demoWorld.grants) (hcodes login hlogin)
    (by decide +kernel : (⟨0, demoRandom, "/packages", 0⟩ : Flow) ∈ demoWorld.flows)
    ⟨by decide +kernel, by decide +kernel⟩ rfl
  exact ⟨login, hlogin, hbrowser⟩

end Minireg.Auth.SignOn
