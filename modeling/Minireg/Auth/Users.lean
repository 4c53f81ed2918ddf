import Minireg.Auth.Accounts
import Minireg.Lib.Transactions
import Minireg.Py.Raise
import Minireg.Py.Text

/-!
# Handlers that write an account

The sign-in routes, `POST /password`, `POST /logout-everywhere` and the administrator's routes for
accounts, each from the rows it reads to the write it flushes. A flush writes the columns that the
handler has changed (`User.flush`), with the values it has computed from what it read.
-/

namespace Minireg.Auth

open Lib.Transactions Py

/-- An `HTTPException`. -/
structure HttpRefusal where
  status : Nat
  detail : String
  deriving DecidableEq, Repr

/-- The settings and the primitives of `core/security.py` that the handlers use. -/
structure AuthSettings where
  hashPassword : String → String
  verifyPassword : String → Option String → Bool
  needsRehash : String → Bool := fun _ => false
  case : CaseMap := .ascii
  /-- `lower` of the database. -/
  dbLower : String → String := CaseMap.ascii.lower
  /-- What `secrets.token_hex` gives. -/
  tokenHex : String := ""
  sessionTtlSeconds : Nat := 43200
  oidcAutoCreateUsers : Bool := true
  oidcAdminGroup : Option String := none
  oidcUserGroup : Option String := none

/-! ## Writes -/

/-- A column of an `UPDATE`: it is written when the handler has changed it. -/
def flushColumn {α : Type} [DecidableEq α] (read changed stored : α) : α :=
  if changed = read then stored else changed

/-- The row that is stored once a handler has written what it changed of the row it read. -/
def User.flush (read changed stored : User) : User where
  id := stored.id
  username := flushColumn read.username changed.username stored.username
  email := flushColumn read.email changed.email stored.email
  passwordHash := flushColumn read.passwordHash changed.passwordHash stored.passwordHash
  isAdmin := flushColumn read.isAdmin changed.isAdmin stored.isAdmin
  sessionVersion := flushColumn read.sessionVersion changed.sessionVersion stored.sessionVersion
  isActive := flushColumn read.isActive changed.isActive stored.isActive
  canPublish := flushColumn read.canPublish changed.canPublish stored.canPublish
  publishViaOidcAdmin :=
    flushColumn read.publishViaOidcAdmin changed.publishViaOidcAdmin stored.publishViaOidcAdmin
  provider := flushColumn read.provider changed.provider stored.provider
  oidcSubject := flushColumn read.oidcSubject changed.oidcSubject stored.oidcSubject
  oidcIssuer := flushColumn read.oidcIssuer changed.oidcIssuer stored.oidcIssuer

/-- The row a handler writes. -/
inductive Change where
  /-- The database gives the id. -/
  | insert (user : User)
  | update (read changed : User)
  | delete (user : User)
  deriving DecidableEq, Repr

namespace Change

def write : Change → Write User.id
  | .insert user => .insert (fun id => { user with id := id }) fun _ => rfl
  | .update read changed => .update read.id (User.flush read changed) fun _ => rfl
  | .delete user => .delete user.id

/-- Whether the account may stop being an active administrator by it. -/
def demotes : Change → Bool
  | .insert _ => false
  | .update read changed => (read.isAdmin && !changed.isAdmin) || (read.isActive && !changed.isActive)
  | .delete _ => true

/-- Whether it raises `session_version`. -/
def endsSessions : Change → Bool
  | .update read changed => read.sessionVersion ≠ changed.sessionVersion
  | _ => false

end Change

/-- What a handler is to commit, and whether it counts the administrators before and answers with a
session cookie. -/
structure Handled where
  change : Change
  guarded : Bool := false
  setsCookie : Bool := false
  deriving DecidableEq, Repr

namespace User

variable (user : User)

/-- `user.session_version = (user.session_version or 0) + 1`. -/
def endSessions : User := { user with sessionVersion := user.sessionVersion + 1 }

end User

/-! ## Accounts of the administrator -/

/-- A password that may be set. -/
abbrev NewPassword := { password : String // 12 ≤ password.length ∧ password.length ≤ 256 }

structure UserCreate where
  username : String
  email : Option String := none
  password : Option NewPassword := none
  isAdmin : Bool := false
  canPublish : Bool := false
  isActive : Bool := true
  deriving DecidableEq, Repr

structure UserUpdate where
  email : Option String := none
  password : Option NewPassword := none
  isAdmin : Option Bool := none
  canPublish : Option Bool := none
  isActive : Option Bool := none
  deriving DecidableEq, Repr

/-- `require_admin`. -/
def requireAdmin (identity : Identity) : Except HttpRefusal User :=
  match identity.user with
  | none => .error ⟨401, "authentication required"⟩
  | some user =>
    if !user.isAdmin then .error ⟨403, "admin privileges required"⟩
    else if identity.method = .basicPassword then
      .error ⟨403, "an account password over HTTP Basic is read-only; use an API token " ++
        "(or sign in in the browser) for this"⟩
    else if !identity.hasScope "admin" then .error ⟨403, "token lacks the 'admin' scope"⟩
    else .ok user

variable (settings : AuthSettings)

/-- `create_user`. -/
def createUser (identity : Identity) (payload : UserCreate) : Except HttpRefusal Handled := do
  let _ ← requireAdmin identity
  return {
    change := .insert
      { id := 0
        username := payload.username
        email := payload.email
        passwordHash := payload.password.map (settings.hashPassword ·.val)
        isAdmin := payload.isAdmin
        canPublish := payload.canPublish || payload.isAdmin
        isActive := payload.isActive } }

/-- The account with the fields that the payload names. An explicit `can_publish` is no longer the
grant of an admin group. -/
def UserUpdate.fields (payload : UserUpdate) (user : User) : User :=
  let canPublish := payload.canPublish.getD user.canPublish
  let isAdmin := payload.isAdmin.getD user.isAdmin
  { user with
    email := payload.email <|> user.email
    isAdmin := isAdmin
    canPublish := isAdmin || canPublish
    publishViaOidcAdmin := canPublish = user.canPublish && user.publishViaOidcAdmin
    isActive := payload.isActive.getD user.isActive
    passwordHash := (payload.password.map (settings.hashPassword ·.val)) <|> user.passwordHash }

/-- `withdrawn` of `update_user`: a right that was there is gone. -/
def User.withdrawn (before after : User) : Bool :=
  (before.isAdmin && !after.isAdmin) || (before.canPublish && !after.canPublish) ||
    (before.isActive && !after.isActive)

/-- What `update_user` makes of the account. -/
def UserUpdate.apply (payload : UserUpdate) (user : User) : Except HttpRefusal User :=
  if payload.password.isSome && user.provider = .oidc then
    .error ⟨400, "password is managed by the identity provider"⟩
  else
    let changed := payload.fields settings user
    .ok (if payload.password.isSome || user.withdrawn changed then changed.endSessions else changed)

/-- `update_user`, up to its flush. -/
def updateUser (users : List User) (identity : Identity) (userId : Nat) (payload : UserUpdate) :
    Except HttpRefusal Handled := do
  let admin ← requireAdmin identity
  match users.find? (·.id = userId) with
  | none => .error ⟨404, "user not found"⟩
  | some user =>
    if user.id = admin.id ∧ payload.isAdmin = some false then
      .error ⟨400, "you cannot revoke your own admin rights"⟩
    else if payload.isActive = some false ∧ user.id = admin.id then
      .error ⟨400, "you cannot disable your own account"⟩
    else
      let changed ← payload.apply settings user
      return {
        change := .update user changed
        guarded := true
        setsCookie := user.id = admin.id && identity.method = .session }

/-- `delete_user`, up to its flush. -/
def deleteUser (users : List User) (identity : Identity) (userId : Nat) :
    Except HttpRefusal Handled := do
  let admin ← requireAdmin identity
  match users.find? (·.id = userId) with
  | none => .error ⟨404, "user not found"⟩
  | some user =>
    if user.id = admin.id then .error ⟨400, "you cannot delete your own account"⟩
    else return { change := .delete user, guarded := true }

/-- `_would_orphan_admins`. -/
def wouldOrphanAdmins (users : List User) : Bool := !users.any User.activeAdmin

/-! ## Sessions -/

/-- `login`. -/
def login (users : List User) (username password : String) : Except HttpRefusal Handled :=
  let found := users.find? (·.username = username)
  let passwordOk := settings.verifyPassword password (found.bind (·.passwordHash))
  match found with
  | none => .error ⟨401, "invalid username or password"⟩
  | some user =>
    if !passwordOk || user.provider ≠ .local_ then .error ⟨401, "invalid username or password"⟩
    else if !user.isActive then .error ⟨403, "account is disabled"⟩
    else .ok
      { change := .update user
          (if settings.needsRehash (user.passwordHash.getD "") then
            { user with passwordHash := some (settings.hashPassword password) }
          else user)
        setsCookie := true }

/-- `require_primary_credential`. -/
def requirePrimaryCredential (identity : Identity) : Except HttpRefusal User :=
  match identity.user with
  | none => .error ⟨401, "authentication required"⟩
  | some user =>
    if identity.method = .basicPassword then
      .error ⟨403, "an account password over HTTP Basic is read-only; use an API token " ++
        "(or sign in in the browser) for this"⟩
    else if !identity.isPrimary then
      .error ⟨403, "this action needs a browser session or an admin-scoped token; " ++
        "a token cannot grant scopes it does not hold"⟩
    else .ok user

/-- `logout_everywhere`. -/
def logoutEverywhere (identity : Identity) : Except HttpRefusal Handled := do
  let user ← requirePrimaryCredential identity
  return { change := .update user user.endSessions }

/-- `change_password`. -/
def changePassword (identity : Identity) (currentPassword : String) (newPassword : NewPassword) :
    Except HttpRefusal Handled := do
  let user ← requirePrimaryCredential identity
  if user.provider = .oidc then .error ⟨400, "password is managed by the identity provider"⟩
  else if !settings.verifyPassword currentPassword user.passwordHash then
    .error ⟨401, "current password is incorrect"⟩
  else return {
    change := .update user
      { user.endSessions with passwordHash := some (settings.hashPassword newPassword.val) }
    setsCookie := true }

/-! ## Single sign-on -/

/-- `group_matches`. A bare name also matches the local part of an SPN. -/
def groupMatches (configured : Option String) (groups : List String) : Bool :=
  let wanted := strip (configured.getD "")
  wanted ≠ "" && groups.any fun group =>
    group = wanted ||
      ('@' ∉ wanted.toList && String.ofList (group.toList.takeWhile (· ≠ '@')) = wanted)

structure OidcProfile where
  subject : String
  issuer : String
  username : String
  email : Option String := none
  emailVerified : Bool := false
  groups : List String := []
  deriving DecidableEq, Repr

namespace OidcProfile

variable (profile : OidcProfile)

def isAdmin : Bool := groupMatches settings.oidcAdminGroup profile.groups

/-- `is_permitted`: membership is required where a group is configured. -/
def isPermitted : Bool :=
  settings.oidcUserGroup.getD "" = "" ||
    groupMatches settings.oidcUserGroup profile.groups || profile.isAdmin settings

end OidcProfile

/-- `_unique_username`. -/
def uniqueUsername (users : List User) (wanted : String) : String :=
  let stripped := takeChars 150 (strip wanted)
  let base := if stripped = "" then "user" else stripped
  let taken := fun candidate => users.any (·.username = candidate)
  let stem := takeChars 146 base
  let candidates := base :: (List.range' 2 98).map fun n => stem ++ "-" ++ toString n
  (candidates.find? fun candidate => !taken candidate).getD
    (takeChars 141 base ++ "-" ++ settings.tokenHex)

/-- An active local account is linked: its password goes, and the sessions it may have opened. -/
def OidcProfile.link (profile : OidcProfile) (user : User) : User :=
  { user.endSessions with
    oidcIssuer := some profile.issuer
    oidcSubject := some profile.subject
    provider := .oidc
    passwordHash := none }

/-- The account of a profile, as it is read and as the link leaves it. -/
def oidcAccount (users : List User) (profile : OidcProfile) : Option (User × User) :=
  match users.find? fun u =>
      u.oidcIssuer = some profile.issuer && u.oidcSubject = some profile.subject with
  | some user => some (user, user)
  | none =>
    match profile.email.filter (· ≠ ""), profile.emailVerified with
    | some email, true =>
      match users.filter fun u =>
          u.email.any (settings.dbLower · = settings.case.lower email) && u.provider = .local_ with
      | [user] => some (user, if user.isActive then profile.link user else user)
      | _ => none
    | _, _ => none

/-- What the groups of the provider and its claims make of the account. -/
def OidcProfile.apply (profile : OidcProfile) (user : User) : User :=
  let isAdmin := profile.isAdmin settings
  let user := { user with
    isAdmin := isAdmin
    email := profile.email.filter (· ≠ "") <|> user.email }
  if isAdmin then
    if user.canPublish then user else { user with canPublish := true, publishViaOidcAdmin := true }
  else if user.publishViaOidcAdmin then
    { user with canPublish := false, publishViaOidcAdmin := false }
  else user

/-- `oidc_callback`, from the profile to the commit. -/
def oidcCallback (users : List User) (profile : OidcProfile) : Except HttpRefusal Handled :=
  if !profile.isPermitted settings then
    .error ⟨403, "your account is not permitted to access this registry"⟩
  else match oidcAccount settings users profile with
    | some (read, user) =>
      if !user.isActive then .error ⟨403, "account is disabled"⟩
      else .ok { change := .update read (profile.apply settings user), setsCookie := true }
    | none =>
      if !settings.oidcAutoCreateUsers then
        .error ⟨403, "no local account exists and automatic creation is disabled"⟩
      else .ok
        { change := .insert (profile.apply settings
            { id := 0
              username := uniqueUsername settings users profile.username
              email := profile.email
              provider := .oidc
              oidcIssuer := some profile.issuer
              oidcSubject := some profile.subject })
          setsCookie := true }

/-! ## What the handlers change -/

section Lemmas

variable {settings : AuthSettings} {users : List User} {identity : Identity} {handled : Handled}

@[simp] theorem flushColumn_self {α : Type} [DecidableEq α] (read stored : α) :
    flushColumn read read stored = stored := if_pos rfl

/-- A handler changes an account that it has read, and raises its version by one or not at all. -/
structure Change.Raises (users : List User) (change : Change) : Prop where
  inserted : ∀ user, change = .insert user → user.sessionVersion = 0
  updated : ∀ read changed, change = .update read changed → read ∈ users ∧
    (changed.sessionVersion = read.sessionVersion ∨
      changed.sessionVersion = read.sessionVersion + 1)
  deleted : ∀ user, change = .delete user → user ∈ users

theorem Change.Raises.update {read changed : User} (hread : read ∈ users)
    (hversion : changed.sessionVersion = read.sessionVersion ∨
      changed.sessionVersion = read.sessionVersion + 1) :
    (Change.update read changed).Raises users where
  inserted _ h := by cases h
  updated _ _ h := by cases h; exact ⟨hread, hversion⟩
  deleted _ h := by cases h

theorem Change.Raises.insert {user : User} (hversion : user.sessionVersion = 0) :
    (Change.insert user).Raises users where
  inserted _ h := by cases h; exact hversion
  updated _ _ h := by cases h
  deleted _ h := by cases h

theorem Change.Raises.delete {user : User} (huser : user ∈ users) :
    (Change.delete user).Raises users where
  inserted _ h := by cases h
  updated _ _ h := by cases h
  deleted _ h := by cases h; exact huser

/-- Whoever is let through is the account of the identity. -/
theorem requirePrimaryCredential_ok {user : User}
    (h : requirePrimaryCredential identity = .ok user) : identity.user = some user := by
  unfold requirePrimaryCredential at h
  split at h
  · cases h
  · next found huser =>
    split at h
    · cases h
    · split at h
      · cases h
      · rw [huser, Except.ok.inj h]

theorem createUser_raises {payload : UserCreate}
    (h : createUser settings identity payload = .ok handled) : handled.change.Raises users := by
  obtain ⟨_, -, hreturn⟩ := bind_ok h
  obtain rfl := Except.ok.inj hreturn
  exact .insert rfl

/-- An edit raises the version, or leaves it. -/
theorem UserUpdate.apply_version {payload : UserUpdate} {user changed : User}
    (h : payload.apply settings user = .ok changed) :
    changed.sessionVersion = user.sessionVersion ∨
      changed.sessionVersion = user.sessionVersion + 1 := by
  unfold UserUpdate.apply at h
  split at h
  · cases h
  · obtain rfl := Except.ok.inj h
    split
    · exact .inr rfl
    · exact .inl rfl

theorem updateUser_raises {userId : Nat} {payload : UserUpdate}
    (h : updateUser settings users identity userId payload = .ok handled) :
    handled.change.Raises users := by
  obtain ⟨admin, -, h⟩ := bind_ok h
  split at h
  · cases h
  · next user huser =>
    split at h
    · cases h
    · split at h
      · cases h
      · obtain ⟨changed, hchanged, hreturn⟩ := bind_ok h
        obtain rfl := Except.ok.inj hreturn
        exact .update (List.mem_of_find?_eq_some huser) (UserUpdate.apply_version hchanged)

theorem deleteUser_raises {userId : Nat} (h : deleteUser users identity userId = .ok handled) :
    handled.change.Raises users := by
  obtain ⟨admin, -, h⟩ := bind_ok h
  split at h
  · cases h
  · next user huser =>
    split at h
    · cases h
    · obtain rfl := Except.ok.inj h
      exact .delete (List.mem_of_find?_eq_some huser)

theorem login_raises {username password : String}
    (h : login settings users username password = .ok handled) : handled.change.Raises users := by
  unfold login at h
  dsimp only at h
  split at h
  · cases h
  · next user huser =>
    split at h
    · cases h
    · split at h
      · cases h
      · obtain rfl := Except.ok.inj h
        refine .update (List.mem_of_find?_eq_some huser) (.inl ?_)
        split <;> rfl

theorem logoutEverywhere_raises (hidentity : ∀ user, identity.user = some user → user ∈ users)
    (h : logoutEverywhere identity = .ok handled) : handled.change.Raises users := by
  obtain ⟨user, huser, hreturn⟩ := bind_ok h
  obtain rfl := Except.ok.inj hreturn
  exact .update (hidentity user (requirePrimaryCredential_ok huser)) (.inr rfl)

theorem changePassword_raises {currentPassword : String} {newPassword : NewPassword}
    (hidentity : ∀ user, identity.user = some user → user ∈ users)
    (h : changePassword settings identity currentPassword newPassword = .ok handled) :
    handled.change.Raises users := by
  obtain ⟨user, huser, h⟩ := bind_ok h
  split at h
  · cases h
  · split at h
    · cases h
    · obtain rfl := Except.ok.inj h
      exact .update (hidentity user (requirePrimaryCredential_ok huser)) (.inr rfl)

@[simp] theorem OidcProfile.apply_version {profile : OidcProfile} {user : User} :
    (profile.apply settings user).sessionVersion = user.sessionVersion := by
  unfold OidcProfile.apply
  dsimp only
  split <;> split <;> rfl

theorem OidcProfile.apply_isAdmin {profile : OidcProfile} {user : User} :
    (profile.apply settings user).isAdmin = profile.isAdmin settings := by
  unfold OidcProfile.apply
  dsimp only
  split <;> split <;> rfl

theorem OidcProfile.apply_isActive {profile : OidcProfile} {user : User} :
    (profile.apply settings user).isActive = user.isActive := by
  unfold OidcProfile.apply
  dsimp only
  split <;> split <;> rfl

/-- The account of a profile is one of the table; a link raises its version. -/
theorem oidcAccount_some {profile : OidcProfile} {read user : User}
    (h : oidcAccount settings users profile = some (read, user)) :
    read ∈ users ∧ user.isActive = read.isActive ∧
      (user.sessionVersion = read.sessionVersion ∨
        user.sessionVersion = read.sessionVersion + 1) := by
  unfold oidcAccount at h
  split at h
  · next found hfound =>
    cases h
    exact ⟨List.mem_of_find?_eq_some hfound, rfl, .inl rfl⟩
  · split at h
    · split at h
      · next found hcandidates =>
        cases h
        have hmem : read ∈ users := List.mem_of_mem_filter (hcandidates ▸ List.mem_singleton_self _)
        refine ⟨hmem, ?_⟩
        split
        · exact ⟨rfl, .inr rfl⟩
        · exact ⟨rfl, .inl rfl⟩
      · cases h
    · cases h

theorem oidcCallback_raises {profile : OidcProfile}
    (h : oidcCallback settings users profile = .ok handled) : handled.change.Raises users := by
  unfold oidcCallback at h
  split at h
  · cases h
  · split at h
    · next read user haccount =>
      obtain ⟨hread, -, hversion⟩ := oidcAccount_some haccount
      split at h
      · cases h
      · obtain rfl := Except.ok.inj h
        refine .update hread ?_
        rw [OidcProfile.apply_version]
        exact hversion
    · split at h
      · cases h
      · obtain rfl := Except.ok.inj h
        exact .insert OidcProfile.apply_version

end Lemmas

end Minireg.Auth
