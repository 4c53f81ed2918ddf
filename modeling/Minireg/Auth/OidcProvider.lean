import Minireg.Auth.Users
import Minireg.Py.Dict
import Minireg.Py.Json
import Mathlib.Data.List.Sort

/-!
# The identity provider, as a client sees it

`services/oidc.py`: what a login asks of the provider, and what is made of its answers.
`signIn_spec` says where a profile comes from: the provider has redeemed the code with this
verifier, for a token that names this nonce. The subject is the one of the token, whatever the
userinfo endpoint says.
-/

namespace Minireg.Auth

open Py

/-- An `OidcError`. -/
structure OidcError where
  message : String
  deriving DecidableEq, Repr

abbrev Claims := Dict String Json

/-- The settings of single sign-on, and the primitives that it uses. -/
structure OidcSettings extends AuthSettings where
  oidcEnabled : Bool := true
  oidcIssuer : Option String := none
  oidcClientId : Option String := none
  oidcClientSecret : Option String := none
  oidcScopes : String := "openid profile email groups"
  oidcGroupsClaim : String := "groups"
  oidcUsernameClaim : String := "preferred_username"
  publicUrl : String
  /-- The hexadecimal SHA-256 digest of a text. -/
  sha256 : String → String
  sha256_ne_empty : ∀ s, sha256 s ≠ ""
  /-- The PKCE challenge of a verifier: its SHA-256 digest, in unpadded base64. -/
  s256 : String → String
  /-- `str` of a claim that is no text. -/
  str : Json → String

variable (settings : OidcSettings)

/-- `str(value)`. -/
def textOf : Json → String
  | .str s => s
  | value => settings.str value

/-! ## Discovery -/

/-- `s.rstrip("/")`. -/
def withoutSlashes (s : String) : String :=
  String.ofList (s.toList.reverse.dropWhile (· = '/')).reverse

def configuredIssuer : String := withoutSlashes (settings.oidcIssuer.getD "")

/-- `get_discovery`, on the answer of the endpoint: its status and its document. -/
def getDiscovery (answer : Except String (Nat × Claims)) : Except OidcError Claims :=
  if configuredIssuer settings = "" then .error ⟨"OIDC_ISSUER is not configured"⟩
  else match answer with
    | .error exc => .error ⟨"could not reach the OIDC discovery endpoint: " ++ exc⟩
    | .ok (status, document) =>
      if status ≠ 200 then .error ⟨"OIDC discovery returned HTTP " ++ toString status⟩
      else match ["authorization_endpoint", "token_endpoint", "issuer"].find? fun required =>
          (document.get? required).isNone with
        | some required => .error ⟨"OIDC discovery document is missing '" ++ required ++ "'"⟩
        | none =>
          -- the issuer has to be the one that is configured, not one that the document names
          let advertised := withoutSlashes (textOf settings (Json.get document "issuer"))
          if advertised ≠ configuredIssuer settings then
            .error ⟨"OIDC discovery issuer '" ++ advertised ++ "' does not match the configured " ++
              "issuer '" ++ configuredIssuer settings ++ "'"⟩
          else .ok document

/-! ## The requests -/

def redirectUri : String := settings.publicUrl ++ "/api/auth/oidc/callback"

/-- The query of `build_authorization_url`. -/
def authorizationParams (state nonce challenge : String) : Dict String String :=
  [("response_type", "code"), ("client_id", settings.oidcClientId.getD ""),
    ("redirect_uri", redirectUri settings), ("scope", settings.oidcScopes), ("state", state),
    ("nonce", nonce), ("code_challenge", challenge), ("code_challenge_method", "S256")]

inductive ClientAuth where
  | clientSecretBasic
  | clientSecretPost
  deriving DecidableEq, Repr

def ClientAuth.name : ClientAuth → String
  | .clientSecretBasic => "client_secret_basic"
  | .clientSecretPost => "client_secret_post"

/-- `token_auth_method`. -/
def tokenAuthMethod (discovery : Claims) : ClientAuth :=
  match Json.get discovery "token_endpoint_auth_methods_supported" with
  | .arr advertised =>
    if .str "client_secret_basic" ∉ advertised ∧ .str "client_secret_post" ∈ advertised then
      .clientSecretPost
    else .clientSecretBasic
  | _ => .clientSecretBasic

structure TokenRequest where
  data : Dict String String
  /-- The user and the password of the `authorization` header. -/
  basic : Option (String × String) := none
  deriving DecidableEq, Repr

def tokenRequest (method : ClientAuth) (code verifier : String) : TokenRequest :=
  let clientId := settings.oidcClientId.getD ""
  let data := [("grant_type", "authorization_code"), ("code", code),
    ("redirect_uri", redirectUri settings), ("code_verifier", verifier)]
  match settings.oidcClientSecret.filter (· ≠ ""), method with
  | some secret, .clientSecretBasic => { data := data, basic := some (clientId, secret) }
  | some secret, .clientSecretPost =>
    { data := data ++ [("client_id", clientId), ("client_secret", secret)] }
  | none, _ => { data := data ++ [("client_id", clientId)] }

structure TokenAnswer where
  status : Nat
  text : String := ""
  json : Claims := []

/-- What the requests to the provider come to. -/
structure Provider where
  discovery : Except String (Nat × Claims)
  token : TokenRequest → Except String TokenAnswer
  /-- The keys of the `jwks_uri`, and `jwt.decode` with them: signature, issuer, audience and
  expiry. -/
  decode : Json → Json → Except OidcError Claims
  /-- `fetch_userinfo`, which never raises. -/
  userinfo : Json → Claims

variable (provider : Provider)

/-- `exchange_code`. -/
def exchangeCode (code verifier : String) : Except OidcError Claims := do
  let discovery ← getDiscovery settings provider.discovery
  let method := tokenAuthMethod discovery
  match provider.token (tokenRequest settings method code verifier) with
  | .error exc => .error ⟨"token exchange failed: " ++ exc⟩
  | .ok response =>
    let failed := "token exchange returned HTTP " ++ toString response.status ++ ": " ++
      takeChars 300 response.text
    if response.status = 400 ∨ response.status = 401 then
      .error ⟨failed ++ " -- check the client secret, and that this " ++
        "client may authenticate with " ++ method.name ++ " at " ++
        textOf settings (Json.get discovery "token_endpoint")⟩
    else if response.status ≠ 200 then .error ⟨failed⟩
    else if (response.json.get? "id_token").isNone then
      .error ⟨"token response contained no id_token"⟩
    else .ok response.json

/-- `verify_id_token`. -/
def verifyIdToken (idToken nonce : Json) : Except OidcError Claims := do
  let discovery ← getDiscovery settings provider.discovery
  let jwksUri := Json.get discovery "jwks_uri"
  if !jwksUri.truthy then .error ⟨"discovery document has no jwks_uri"⟩
  else
    let claims ← provider.decode jwksUri idToken
    if Json.get claims "nonce" ≠ nonce then .error ⟨"id_token nonce mismatch"⟩
    else .ok claims

/-! ## The profile -/

/-- `_extract_groups`. -/
def extractGroups (claims : Claims) : List String :=
  match Json.get claims settings.oidcGroupsClaim with
  | .str raw =>
    ((raw.toList.splitOnP fun c => c = ',' || isSpace c).filter (· ≠ [])).map String.ofList
  | .arr items => items.filterMap fun
    | .str group => some group
    | .obj fields => (Json.get fields "name").asStr?.filter (· ≠ "")
    | _ => none
  | _ => []

/-- `_claim_is_true`. -/
def claimIsTrue : Json → Bool
  | .bool b => b
  | .str s => settings.case.lower (strip s) = "true"
  | _ => false

/-- `a or b`. -/
def orElse (a b : Json) : Json := if a.truthy then a else b

/-- `build_profile`. -/
def buildProfile (claims userinfo : Claims) : Except OidcError OidcProfile :=
  let merged : Claims := claims ++ userinfo
  let groups := (extractGroups settings claims ++ extractGroups settings userinfo).dedup
  let subject := Json.get merged "sub"
  if !subject.truthy then .error ⟨"id_token has no subject claim"⟩
  else
    let username := orElse (Json.get merged settings.oidcUsernameClaim)
      (orElse (Json.get merged "preferred_username")
        (orElse (Json.get merged "nickname") (orElse (Json.get merged "email") subject)))
    .ok
      { subject := textOf settings subject
        issuer := textOf settings (orElse (Json.get merged "iss")
          (.str (settings.oidcIssuer.getD "")))
        username := textOf settings username
        email := (Json.get merged "email").asStr?
        emailVerified := claimIsTrue settings (Json.get merged "email_verified")
        groups := groups.insertionSort (· ≤ ·) }

/-- The requests of `oidc_callback`, and the profile that they come to. -/
def signIn (code verifier : String) (nonce : Json) : Except OidcError OidcProfile := do
  let tokens ← exchangeCode settings provider code verifier
  let claims ← verifyIdToken settings provider (Json.get tokens "id_token") nonce
  let accessToken := Json.get tokens "access_token"
  buildProfile settings claims (if accessToken.truthy then provider.userinfo accessToken else [])

/-! ## Where a profile comes from -/

variable {settings provider} {claims userinfo : Claims} {profile : OidcProfile}

theorem get_append (key : String) :
    Json.get (claims ++ userinfo) key = ((claims.get? key).or (userinfo.get? key)).getD .null := by
  unfold Json.get
  exact congrArg (Option.getD · Json.null) (Dict.get?_append claims userinfo key)

/-- The subject and the issuer are those of the token. -/
theorem buildProfile_ok {subject issuer : String}
    (hsubject : claims.get? "sub" = some (.str subject))
    (hissuer : claims.get? "iss" = some (.str issuer)) (hne : issuer ≠ "")
    (h : buildProfile settings claims userinfo = .ok profile) :
    profile.subject = subject ∧ profile.issuer = issuer := by
  have hsub : Json.get (claims ++ userinfo) "sub" = .str subject := by
    rw [get_append, hsubject]
    rfl
  have hiss : Json.get (claims ++ userinfo) "iss" = .str issuer := by
    rw [get_append, hissuer]
    rfl
  have htruthy : (Json.str issuer).truthy = true := bne_iff_ne.mpr hne
  unfold buildProfile at h
  dsimp only at h
  rw [hsub, hiss] at h
  split at h
  · cases h
  · obtain rfl := Except.ok.inj h
    refine ⟨rfl, ?_⟩
    unfold orElse
    dsimp only
    rw [if_pos htruthy]
    rfl

theorem exchangeCode_ok {code verifier : String} {tokens : Claims}
    (h : exchangeCode settings provider code verifier = .ok tokens) :
    ∃ method response, provider.token (tokenRequest settings method code verifier) = .ok response ∧
      response.status = 200 ∧ response.json = tokens := by
  obtain ⟨discovery, -, h⟩ := bind_ok h
  dsimp only at h
  split at h
  · cases h
  · next response hresponse =>
    split at h
    · cases h
    · split at h
      · cases h
      · next hstatus =>
        split at h
        · cases h
        · exact ⟨_, response, hresponse, not_not.mp hstatus, Except.ok.inj h⟩

theorem verifyIdToken_ok {idToken nonce : Json}
    (h : verifyIdToken settings provider idToken nonce = .ok claims) :
    (∃ jwksUri, provider.decode jwksUri idToken = .ok claims) ∧
      Json.get claims "nonce" = nonce := by
  obtain ⟨discovery, -, h⟩ := bind_ok h
  dsimp only at h
  split at h
  · cases h
  · obtain ⟨found, hdecode, h⟩ := bind_ok h
    split at h
    · cases h
    · next hnonce =>
      obtain rfl := Except.ok.inj h
      exact ⟨⟨_, hdecode⟩, not_not.mp hnonce⟩

theorem signIn_spec {code verifier : String} {nonce : Json}
    (h : signIn settings provider code verifier nonce = .ok profile) :
    ∃ method response jwksUri claims userinfo,
      provider.token (tokenRequest settings method code verifier) = .ok response ∧
      response.status = 200 ∧
      provider.decode jwksUri (Json.get response.json "id_token") = .ok claims ∧
      Json.get claims "nonce" = nonce ∧ buildProfile settings claims userinfo = .ok profile := by
  obtain ⟨tokens, htokens, h⟩ := bind_ok h
  obtain ⟨claims, hclaims, h⟩ := bind_ok h
  obtain ⟨method, response, hresponse, hstatus, rfl⟩ := exchangeCode_ok htokens
  obtain ⟨⟨jwksUri, hdecode⟩, hnonce⟩ := verifyIdToken_ok hclaims
  exact ⟨method, response, jwksUri, claims, _, hresponse, hstatus, hdecode, hnonce, h⟩

/-- The code and the verifier are in the request, however the client authenticates. -/
theorem tokenRequest_data (settings : OidcSettings) (method : ClientAuth) (code verifier : String) :
    (tokenRequest settings method code verifier).data.get? "code" = some code ∧
      (tokenRequest settings method code verifier).data.get? "code_verifier" =
        some verifier := by
  unfold tokenRequest
  dsimp only
  split
  · exact ⟨rfl, rfl⟩
  · exact ⟨rfl, rfl⟩
  · exact ⟨rfl, rfl⟩

end Minireg.Auth
