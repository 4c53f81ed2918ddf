import Minireg.Auth.Users
import Minireg.Lib.Run

/-!
# Browser sessions

The account table under any number of requests, each of which reads, flushes, commits and answers in
steps of its own. A session cookie names the version its account had, and is accepted while the row
has that version. `Forward` is the condition on a commit under which the versions only grow.
-/

namespace Minireg.Auth

open Lib Lib.Transactions

/-! ## The system -/

/-- The payload of a session token. -/
structure Cookie where
  userId : Nat
  sessionVersion : Nat
  jti : Nat
  exp : Time
  deriving DecidableEq, Repr

inductive Credential where
  | cookie (cookie : Cookie)
  | token (token : ApiToken)
  deriving DecidableEq, Repr

inductive UserRequest where
  | create (payload : UserCreate)
  | update (userId : Nat) (payload : UserUpdate)
  | delete (userId : Nat)
  | login (username password : String)
  | changePassword (currentPassword : String) (newPassword : NewPassword)
  | logoutEverywhere
  | oidcCallback (profile : OidcProfile)

/-- What a handler makes of what it reads. -/
def handleRequest (settings : AuthSettings) (users : List User) (identity : Identity) :
    UserRequest → Except HttpRefusal Handled
  | .create payload => createUser settings identity payload
  | .update userId payload => updateUser settings users identity userId payload
  | .delete userId => deleteUser users identity userId
  | .login username password => login settings users username password
  | .changePassword currentPassword newPassword =>
    changePassword settings identity currentPassword newPassword
  | .logoutEverywhere => logoutEverywhere identity
  | .oidcCallback profile => oidcCallback settings users profile

structure Handler where
  handled : Handled
  /-- The cookies that had been issued when it started. -/
  before : List Cookie
  /-- The account it has written, once it has committed. -/
  committed : Option Nat := none

structure Accounts where
  txns : Txns User.id := {}
  handlers : Nat → Option Handler := fun _ => none
  cookies : List Cookie := []
  /-- `revoked_sessions`. -/
  revoked : List Cookie := []
  /-- The cookies that a committed request was to end. -/
  ended : List Cookie := []
  clock : Time := 0

inductive AccountAct where
  | request (i : Nat) (credential : Option Credential) (request : UserRequest)
  | flush (i : Nat)
  | commit (i : Nat)
  | answer (i : Nat)
  /-- The handler is cancelled, or its connection to the database is lost. -/
  | abort (i : Nat)
  | logout (cookie : Cookie)
  | tick (elapsed : Nat)

namespace Change

/-- The account that is written, `next` where the database gives its id. -/
def userId (next : Nat) : Change → Nat
  | .insert _ => next
  | .update read _ => read.id
  | .delete user => user.id

/-- The version that a cookie of the answer names. -/
def sessionVersion : Change → Nat
  | .insert user => user.sessionVersion
  | .update _ changed => changed.sessionVersion
  | .delete user => user.sessionVersion

/-- An `UPDATE` of a row that is gone raises. -/
def stale (users : List User) : Change → Bool
  | .update read _ => users.all (·.id ≠ read.id)
  | _ => false

end Change

namespace Handled

variable (handled : Handled)

/-- The accounts as the transaction sees them once it has flushed. -/
def view (t : Txns User.id) : List User := handled.change.write.apply t.next t.rows

/-- Why a flush is rolled back. -/
def refused (t : Txns User.id) : Bool :=
  handled.change.stale t.rows || (handled.guarded && wouldOrphanAdmins (handled.view t))

end Handled

/-- The constraints of `users` beside its key. -/
def uniqueUsers (users : List User) : Bool :=
  decide (users.map (·.username)).Nodup &&
    decide (users.filterMap fun u => u.oidcIssuer.bind fun issuer =>
      u.oidcSubject.map fun subject => (issuer, subject)).Nodup

namespace Accounts

variable (settings : AuthSettings) (a : Accounts)

def users : List User := a.txns.rows

/-- `decode_session_token`: the registry signed the cookie, and it has not expired. -/
def decodeSessionToken (cookie : Cookie) : Bool :=
  cookie ∈ a.cookies && decide (a.clock < cookie.exp)

/-- `session_revoked`. -/
def sessionRevoked (cookie : Cookie) : Bool := a.revoked.any (·.jti = cookie.jti)

/-- `resolve_identity`. -/
def resolveIdentity : Option Credential → Identity
  | none => {}
  | some (.cookie cookie) =>
    if a.decodeSessionToken cookie then
      match a.users.find? (·.id = cookie.userId) with
      | some user =>
        if user.isActive && cookie.sessionVersion = user.sessionVersion &&
            !a.sessionRevoked cookie then
          { user := some user, method := .session }
        else {}
      | none => {}
    else {}
  | some (.token token) =>
    if token.revoked || token.expiresAt.any (· < a.clock) then {}
    else match a.users.find? (·.id = token.userId) with
      | some user =>
        if user.isActive then { user := some user, token := some token, method := .token } else {}
      | none => {}

def setHandler (i : Nat) (handler : Option Handler) : Accounts :=
  { a with handlers := Function.update a.handlers i handler }

/-- The handler is gone, with its transaction. -/
def forget (i : Nat) : Accounts := { a.setHandler i none with txns := a.txns.rollback i }

/-- A commit, and what it ends. -/
def committed (i : Nat) (h : Handler) (t : Txns User.id) : Accounts :=
  let id := h.handled.change.userId a.txns.next
  { a.setHandler i (some { h with committed := some id }) with
    txns := t
    ended := if h.handled.change.endsSessions then a.ended ++ h.before.filter (·.userId = id)
      else a.ended }

/-- The answer, with the session cookie that `create_session_token` makes. -/
def answered (i : Nat) (h : Handler) (id : Nat) : Accounts :=
  { a.setHandler i none with
    cookies := if h.handled.setsCookie then
        a.cookies ++ [
          { userId := id
            sessionVersion := h.handled.change.sessionVersion
            jti := a.cookies.length
            exp := a.clock + settings.sessionTtlSeconds }]
      else a.cookies }

def step : AccountAct → Option Accounts
  | .request i credential request =>
    match a.handlers i with
    | some _ => none
    | none =>
      match handleRequest settings a.users (a.resolveIdentity credential) request with
      | .error _ => some a
      | .ok handled => some (a.setHandler i (some { handled := handled, before := a.cookies }))
  | .flush i =>
    match a.handlers i with
    | none => none
    | some h =>
      if h.committed.isSome then none
      else (a.txns.flush i h.handled.change.write).map fun t =>
        if h.handled.refused a.txns then a.setHandler i none else { a with txns := t }
  | .commit i =>
    match a.handlers i with
    | none => none
    | some h =>
      (a.txns.commit i).map fun t => if uniqueUsers t.rows then a.committed i h t else a.forget i
  | .answer i =>
    match a.handlers i with
    | none => none
    | some h => h.committed.map (a.answered settings i h)
  | .abort i => some (a.forget i)
  | .logout cookie =>
    if (a.resolveIdentity (some (.cookie cookie))).user.isSome then
      some { a with revoked := cookie :: a.revoked.filter fun c => !(c.exp < a.clock) }
    else none
  | .tick elapsed => some { a with clock := a.clock + elapsed }

/-- Some account can administer the registry. -/
def HasAdmin : Prop := ∃ u ∈ a.users, u.activeAdmin = true

end Accounts

/-- The accounts from any table of them, before the first request. -/
def accounts (settings : AuthSettings) : System Accounts AccountAct where
  init a := (∀ u ∈ a.users, u.id < a.txns.next) ∧
    (∀ u ∈ a.users, ∀ v ∈ a.users, u.id = v.id → u = v) ∧ a.txns.opened = (fun _ => none) ∧
    a.handlers = (fun _ => none) ∧ a.cookies = [] ∧ a.ended = []
  Step a act a' := a.step settings act = some a'

/-! ## One step -/

namespace Accounts

variable {settings : AuthSettings} {a a' : Accounts} {act : AccountAct}

/-- The user of an identity is a row of the table. -/
theorem mem_of_resolveIdentity {credential : Option Credential} {user : User}
    (h : (a.resolveIdentity credential).user = some user) : user ∈ a.users := by
  unfold resolveIdentity at h
  split at h
  · cases h
  · split at h
    · split at h
      · next found hfound =>
        split at h
        · cases h
          exact List.mem_of_find?_eq_some hfound
        · cases h
      · cases h
    · cases h
  · split at h
    · cases h
    · split at h
      · next found hfound =>
        split at h
        · cases h
          exact List.mem_of_find?_eq_some hfound
        · cases h
      · cases h

theorem handleRequest_raises {credential : Option Credential} {request : UserRequest}
    {handled : Handled}
    (h : handleRequest settings a.users (a.resolveIdentity credential) request = .ok handled) :
    handled.change.Raises a.users := by
  cases request with
  | create payload => exact createUser_raises h
  | update userId payload => exact updateUser_raises h
  | delete userId => exact deleteUser_raises h
  | login username password => exact login_raises h
  | changePassword currentPassword newPassword =>
    exact changePassword_raises (fun _ => mem_of_resolveIdentity) h
  | logoutEverywhere => exact logoutEverywhere_raises (fun _ => mem_of_resolveIdentity) h
  | oidcCallback profile => exact oidcCallback_raises h

/-- What a step can do to the accounts and to the requests on them. -/
inductive Moves (settings : AuthSettings) (a : Accounts) : AccountAct → Accounts → Prop where
  | started (i : Nat) (credential : Option Credential) (request : UserRequest) (handled : Handled)
      (idle : a.handlers i = none)
      (handles :
        handleRequest settings a.users (a.resolveIdentity credential) request = .ok handled) :
      Moves settings a (.request i credential request)
        (a.setHandler i (some { handled := handled, before := a.cookies }))
  | flushed (i : Nat) (h : Handler) (t : Txns User.id) (running : a.handlers i = some h)
      (uncommitted : h.committed = none)
      (flushes : a.txns.flush i h.handled.change.write = some t)
      (passes : h.handled.refused a.txns = false) :
      Moves settings a (.flush i) { a with txns := t }
  | committed (i : Nat) (h : Handler) (t : Txns User.id) (running : a.handlers i = some h)
      (commits : a.txns.commit i = some t) : Moves settings a (.commit i) (a.committed i h t)
  | answered (i : Nat) (h : Handler) (id : Nat) (running : a.handlers i = some h)
      (written : h.committed = some id) :
      Moves settings a (.answer i) (a.answered settings i h id)
  | forgotten (act : AccountAct) (i : Nat) : Moves settings a act (a.forget i)
  | aside (act : AccountAct) (a' : Accounts) (txns : a'.txns = a.txns)
      (handlers : a'.handlers = a.handlers) (cookies : a'.cookies = a.cookies)
      (ended : a'.ended = a.ended) : Moves settings a act a'

theorem rollback_of_none {t : Txns User.id} {i : Nat} (h : t.opened i = none) :
    t.rollback i = t := by
  unfold Txns.rollback
  rw [h]

theorem moves_of_step (hstep : a.step settings act = some a') : Moves settings a act a' := by
  cases act with
  | request i credential request =>
    unfold step at hstep
    dsimp only at hstep
    split at hstep
    · cases hstep
    · next hidle =>
      split at hstep
      · cases hstep
        exact .aside _ _ rfl rfl rfl rfl
      · next handled hhandled =>
        cases hstep
        exact .started i credential request handled hidle hhandled
  | flush i =>
    unfold step at hstep
    dsimp only at hstep
    split at hstep
    · cases hstep
    · next h hrunning =>
      split at hstep
      · cases hstep
      · next huncommitted =>
        obtain ⟨t, hflush, rfl⟩ := Option.map_eq_some_iff.mp hstep
        split
        · -- the flush is rolled back, with the lock it took
          have hforget : a.setHandler i none = a.forget i := by
            unfold forget
            rw [rollback_of_none (Txns.flush_some hflush).1]
            rfl
          exact hforget ▸ .forgotten _ i
        · next hpasses =>
          exact .flushed i h t hrunning (Option.not_isSome_iff_eq_none.mp huncommitted) hflush
            (Bool.not_eq_true _ ▸ hpasses)
  | commit i =>
    unfold step at hstep
    dsimp only at hstep
    split at hstep
    · cases hstep
    · next h hrunning =>
      obtain ⟨t, hcommit, rfl⟩ := Option.map_eq_some_iff.mp hstep
      split
      · exact .committed i h t hrunning hcommit
      · exact .forgotten _ i
  | answer i =>
    unfold step at hstep
    dsimp only at hstep
    split at hstep
    · cases hstep
    · next h hrunning =>
      obtain ⟨id, hwritten, rfl⟩ := Option.map_eq_some_iff.mp hstep
      exact .answered i h id hrunning hwritten
  | abort i =>
    cases hstep
    exact .forgotten _ i
  | logout cookie =>
    unfold step at hstep
    dsimp only at hstep
    split at hstep
    · cases hstep
      exact .aside _ _ rfl rfl rfl rfl
    · cases hstep
  | tick elapsed =>
    cases hstep
    exact .aside _ _ rfl rfl rfl rfl

/-- Every open transaction is that of a handler, and has passed its guard. -/
structure Tracked (a : Accounts) : Prop where
  txns : a.txns.Sound
  opened : ∀ i o, a.txns.opened i = some o → ∃ h, a.handlers i = some h ∧ h.committed = none ∧
    o.write = h.handled.change.write ∧
    (h.handled.guarded = true → ∃ u ∈ o.view, u.activeAdmin = true)

theorem Tracked.init (h : (accounts settings).init a) : a.Tracked := by
  obtain ⟨hids, hunique, hopened, -⟩ := h
  refine ⟨⟨hids, hunique, fun i o id hi => ?_, fun i o r hi => ?_⟩, fun i o hi => ?_⟩ <;>
    · rw [hopened] at hi
      cases hi

/-- Another handler keeps its transaction. -/
theorem Tracked.setHandler (h : a.Tracked) {i : Nat} {handler : Option Handler}
    (hclosed : a.txns.opened i = none) : (a.setHandler i handler).Tracked := by
  refine ⟨h.txns, fun j o hj => ?_⟩
  obtain ⟨p, hp, hrest⟩ := h.opened j o hj
  refine ⟨p, ?_, hrest⟩
  have hji : j ≠ i := fun hji => by
    rw [hji] at hj
    exact Option.some_ne_none o (hj.symm.trans hclosed)
  exact (Function.update_of_ne hji _ _).trans hp

theorem Tracked.closed_of_idle (h : a.Tracked) {i : Nat} (hidle : a.handlers i = none) :
    a.txns.opened i = none := by
  rcases hi : a.txns.opened i with _ | o
  · rfl
  · obtain ⟨p, hp, -⟩ := h.opened i o hi
    rw [hidle] at hp
    cases hp

theorem Tracked.closed_of_committed (h : a.Tracked) {i : Nat} {p : Handler} {id : Nat}
    (hrunning : a.handlers i = some p) (hwritten : p.committed = some id) :
    a.txns.opened i = none := by
  rcases hi : a.txns.opened i with _ | o
  · rfl
  · obtain ⟨q, hq, hnone, -⟩ := h.opened i o hi
    obtain rfl := Option.some.inj (hrunning.symm.trans hq)
    rw [hwritten] at hnone
    cases hnone

theorem rollback_opened (t : Txns User.id) (i j : Nat) :
    (t.rollback i).opened j = if j = i then none else t.opened j := by
  unfold Txns.rollback
  split
  · next hi =>
    split
    · next hji => exact hji ▸ hi
    · rfl
  · exact Function.update_apply _ _ _ _

/-- **Every step** keeps the handlers and the transactions together. -/
theorem Tracked.moves (h : a.Tracked) (hmoves : Moves settings a act a') : a'.Tracked := by
  cases hmoves with
  | started i credential request handled idle handles => exact h.setHandler (h.closed_of_idle idle)
  | flushed i p t running uncommitted flushes passes =>
    refine ⟨h.txns.flush flushes, fun j o hj => ?_⟩
    obtain ⟨-, -, rfl⟩ := Txns.flush_some flushes
    dsimp only at hj ⊢
    by_cases hji : j = i
    · subst hji
      rw [Function.update_self] at hj
      obtain rfl := Option.some.inj hj
      refine ⟨p, running, uncommitted, rfl, fun hguarded => ?_⟩
      unfold Handled.refused wouldOrphanAdmins at passes
      rw [hguarded, Bool.true_and, Bool.or_eq_false_iff, Bool.not_eq_false'] at passes
      exact List.any_eq_true.mp passes.2
    · rw [Function.update_of_ne hji] at hj
      exact h.opened j o hj
  | committed i p t running commits =>
    obtain ⟨o, hi, -, -, -, hopened⟩ := Txns.commit_some commits
    refine ⟨h.txns.commit commits, fun j q hj => ?_⟩
    have hji : j ≠ i := fun hji => by
      dsimp only [Accounts.committed] at hj
      rw [hopened, hji, Function.update_self] at hj
      cases hj
    dsimp only [Accounts.committed] at hj
    rw [hopened, Function.update_of_ne hji] at hj
    obtain ⟨p', hp', hrest⟩ := h.opened j q hj
    exact ⟨p', (Function.update_of_ne hji _ _).trans hp', hrest⟩
  | answered i p id running written =>
    have hset : (a.setHandler i none).Tracked :=
      h.setHandler (h.closed_of_committed running written)
    exact ⟨hset.txns, hset.opened⟩
  | forgotten act i =>
    refine ⟨h.txns.rollback, fun j o hj => ?_⟩
    dsimp only [Accounts.forget] at hj
    rw [rollback_opened] at hj
    split at hj
    · cases hj
    · next hji =>
      obtain ⟨p, hp, hrest⟩ := h.opened j o hj
      exact ⟨p, (Function.update_of_ne hji _ _).trans hp, hrest⟩
  | aside act a' txns handlers cookies ended =>
    refine ⟨txns ▸ h.txns, fun i o hi => ?_⟩
    rw [txns] at hi
    rw [handlers]
    exact h.opened i o hi

end Accounts

/-! ## Versions that only grow -/

/-- The condition on a step: no commit writes back a lower version than the row has. -/
def Accounts.Forward (a : Accounts) (act : AccountAct) : Prop :=
  ∀ i h read changed, act = .commit i → a.handlers i = some h →
    h.handled.change = .update read changed → read.sessionVersion ≠ changed.sessionVersion →
      ∀ u ∈ a.users, u.id = read.id → u.sessionVersion ≤ changed.sessionVersion

/-- The account has that version or a later one, if it is there. -/
def AtLeast (users : List User) (id version : Nat) : Prop :=
  ∀ u ∈ users, u.id = id → version ≤ u.sessionVersion

theorem AtLeast.mono {users : List User} {id m n : Nat} (h : AtLeast users id n) (hmn : m ≤ n) :
    AtLeast users id m := fun u hu hid => hmn.trans (h u hu hid)

/-- What a handler knows of the version of its account. -/
structure Handler.Sound (h : Handler) (users : List User) (next : Nat) : Prop where
  /-- Before its commit, the version it has read is not above the stored one. -/
  uncommitted : h.committed = none → ∀ read changed, h.handled.change = .update read changed →
    (changed.sessionVersion = read.sessionVersion ∨
      changed.sessionVersion = read.sessionVersion + 1) ∧
    read.id < next ∧ AtLeast users read.id read.sessionVersion ∧
    ∀ c ∈ h.before, c.userId = read.id → c.sessionVersion ≤ read.sessionVersion
  committed : ∀ id, h.committed = some id →
    id < next ∧ AtLeast users id h.handled.change.sessionVersion
  inserted : ∀ user, h.handled.change = .insert user → user.sessionVersion = 0
  deleted : ∀ user, h.handled.change = .delete user → user.id < next

/-- Rows keep their versions or raise them. -/
def Grows (users : List User) (next : Nat) (users' : List User) : Prop :=
  ∀ u' ∈ users', u'.id = next ∨ ∃ u ∈ users, u.id = u'.id ∧ u.sessionVersion ≤ u'.sessionVersion

section Grows

variable {users users' : List User} {next id version : Nat} {p : Handler}

theorem AtLeast.grows (h : AtLeast users id version) (hid : id < next)
    (hgrows : Grows users next users') : AtLeast users' id version := by
  intro u' hu' hkey
  rcases hgrows u' hu' with hnew | ⟨u, hu, hsame, hle⟩
  · exact absurd (hkey.symm.trans hnew) (Nat.ne_of_lt hid)
  · exact (h u hu (hsame.trans hkey)).trans hle

theorem Handler.Sound.grows (h : p.Sound users next) (hgrows : Grows users next users') :
    p.Sound users' (next + 1) := by
  refine ⟨fun huncommitted read changed hchange => ?_, fun id hwritten => ?_, h.inserted,
    fun user huser => Nat.lt_succ_of_lt (h.deleted user huser)⟩
  · obtain ⟨hversion, hid, hread, hbefore⟩ := h.uncommitted huncommitted read changed hchange
    exact ⟨hversion, Nat.lt_succ_of_lt hid, hread.grows hid hgrows, hbefore⟩
  · obtain ⟨hid, hleast⟩ := h.committed id hwritten
    exact ⟨Nat.lt_succ_of_lt hid, hleast.grows hid hgrows⟩

/-- Under `Forward` a commit only raises versions. -/
theorem grows_of_forward
    (hforward : ∀ read changed, p.handled.change = .update read changed →
      read.sessionVersion ≠ changed.sessionVersion →
        ∀ u ∈ users, u.id = read.id → u.sessionVersion ≤ changed.sessionVersion) :
    Grows users next (p.handled.change.write.apply next users) := by
  intro u' hu'
  rcases hchange : p.handled.change with user | ⟨read, changed⟩ | user <;>
    rw [hchange] at hu'
  · rcases Write.mem_apply_insert.mp hu' with hu' | rfl
    · exact .inr ⟨u', hu', rfl, le_rfl⟩
    · exact .inl rfl
  · obtain ⟨u, hu, rfl⟩ := Write.mem_apply_update.mp hu'
    refine .inr ⟨u, hu, ?_⟩
    split
    · next hid =>
      refine ⟨rfl, ?_⟩
      dsimp only [User.flush]
      unfold flushColumn
      split
      · exact le_rfl
      · next hne => exact hforward read changed hchange (fun h => hne h.symm) u hu hid
    · exact ⟨rfl, le_rfl⟩
  · exact .inr ⟨u', (Write.mem_apply_delete.mp hu').1, rfl, le_rfl⟩

/-- The row that is written has the version that the handler leaves. -/
theorem Handler.Sound.atLeast (h : p.Sound users next) (huncommitted : p.committed = none) :
    AtLeast (p.handled.change.write.apply next users) (p.handled.change.userId next)
      p.handled.change.sessionVersion := by
  intro u' hu' hid
  rcases hchange : p.handled.change with user | ⟨read, changed⟩ | user <;>
    rw [hchange] at hu' hid
  · dsimp only [Change.sessionVersion]
    rw [h.inserted user hchange]
    exact Nat.zero_le _
  · obtain ⟨-, -, hread, -⟩ := h.uncommitted huncommitted read changed hchange
    obtain ⟨u, hu, rfl⟩ := Write.mem_apply_update.mp hu'
    split at hid
    · next hkey =>
      rw [if_pos hkey]
      dsimp only [User.flush, Change.sessionVersion]
      unfold flushColumn
      split
      · next hsame => exact hsame ▸ hread u hu hkey
      · exact le_rfl
    · next hkey => exact absurd hid hkey
  · exact absurd hid (Write.mem_apply_delete.mp hu').2

/-- The account that is written has an id of the sequence. -/
theorem Handler.Sound.userId_lt (h : p.Sound users next) (huncommitted : p.committed = none) :
    p.handled.change.userId next < next + 1 := by
  rcases hchange : p.handled.change with user | ⟨read, changed⟩ | user
  · exact Nat.lt_succ_self _
  · exact Nat.lt_succ_of_lt (h.uncommitted huncommitted read changed hchange).2.1
  · exact Nat.lt_succ_of_lt (h.deleted user hchange)

/-- What a request was to end is behind the row that it has written. -/
theorem Handler.Sound.ends (h : p.Sound users next) (huncommitted : p.committed = none)
    (hends : p.handled.change.endsSessions = true) {c : Cookie}
    (hc : c ∈ p.before) (hid : c.userId = p.handled.change.userId next) :
    c.userId < next ∧
      AtLeast (p.handled.change.write.apply next users) c.userId (c.sessionVersion + 1) := by
  have hleast := h.atLeast huncommitted
  rcases hchange : p.handled.change with user | ⟨read, changed⟩ | user <;>
    rw [hchange] at hends hid hleast
  · cases hends
  · obtain ⟨hversion, hlt, -, hbefore⟩ := h.uncommitted huncommitted read changed hchange
    have hne : read.sessionVersion ≠ changed.sessionVersion := of_decide_eq_true hends
    have hraised := hversion.resolve_left fun hsame => hne hsame.symm
    have hle := hbefore c hc hid
    dsimp only [Change.userId] at hid hleast
    rw [hid]
    refine ⟨hlt, hleast.mono ?_⟩
    dsimp only [Change.sessionVersion]
    rw [hraised]
    exact Nat.succ_le_succ hle
  · cases hends

end Grows

namespace Accounts

/-- No cookie is ahead of its account, and those that were ended are behind it. -/
structure Versions (a : Accounts) : Prop where
  tracked : a.Tracked
  cookies : ∀ c ∈ a.cookies,
    c.userId < a.txns.next ∧ AtLeast a.users c.userId c.sessionVersion
  ended : ∀ c ∈ a.ended,
    c.userId < a.txns.next ∧ AtLeast a.users c.userId (c.sessionVersion + 1)
  handlers : ∀ i h, a.handlers i = some h → h.Sound a.users a.txns.next

variable {settings : AuthSettings} {a a' : Accounts} {act : AccountAct}

theorem Versions.init (h : (accounts settings).init a) : a.Versions := by
  obtain ⟨-, -, -, hhandlers, hcookies, hended⟩ := id h
  refine ⟨Tracked.init h, fun c hc => ?_, fun c hc => ?_, fun i p hi => ?_⟩
  · rw [hcookies] at hc
    cases hc
  · rw [hended] at hc
    cases hc
  · rw [hhandlers] at hi
    cases hi

/-- A handler that has read the row knows its version. -/
theorem Versions.started (h : a.Versions) {handled : Handled}
    (hraises : handled.change.Raises a.users) :
    Handler.Sound { handled := handled, before := a.cookies } a.users a.txns.next := by
  refine ⟨fun _ read changed hchange => ?_, fun id hwritten => by (cases hwritten),
    hraises.inserted, fun user huser => h.tracked.txns.ids user (hraises.deleted user huser)⟩
  obtain ⟨hread, hversion⟩ := hraises.updated read changed hchange
  refine ⟨hversion, h.tracked.txns.ids read hread, fun u hu hid => ?_, fun c hc hid => ?_⟩
  · rw [h.tracked.txns.unique u hu read hread hid]
  · exact (h.cookies c hc).2 read hread hid.symm

/-- **Every step** that goes forward keeps the cookies behind the versions. -/
theorem Versions.moves (h : a.Versions) (hforward : a.Forward act) (hmoves : Moves settings a act a') :
    a'.Versions := by
  have htracked := h.tracked.moves hmoves
  cases hmoves with
  | started i credential request handled idle handles =>
    refine ⟨htracked, h.cookies, h.ended, fun j p hj => ?_⟩
    by_cases hji : j = i
    · subst hji
      obtain rfl := Option.some.inj ((Function.update_self j _ _).symm.trans hj)
      exact h.started (handleRequest_raises handles)
    · exact h.handlers j p ((Function.update_of_ne hji _ _).symm.trans hj)
  | flushed i p t running uncommitted flushes passes =>
    obtain ⟨-, -, rfl⟩ := Txns.flush_some flushes
    exact ⟨htracked, h.cookies, h.ended, h.handlers⟩
  | committed i p t running commits =>
    obtain ⟨o, hi, hrows, hnext, -, -⟩ := Txns.commit_some commits
    obtain ⟨q, hq, huncommitted, hwrite, -⟩ := h.tracked.opened i o hi
    obtain rfl := Option.some.inj (running.symm.trans hq)
    replace hrows : t.rows = p.handled.change.write.apply a.txns.next a.users := hwrite ▸ hrows
    have hp := h.handlers i p running
    have hgrows : Grows a.users a.txns.next t.rows := hrows ▸
      grows_of_forward fun read changed hchange => hforward i p read changed rfl running hchange
    refine ⟨htracked, fun c hc => ?_, fun c hc => ?_, fun j q hj => ?_⟩
    · obtain ⟨hlt, hleast⟩ := h.cookies c hc
      exact ⟨hnext ▸ Nat.lt_succ_of_lt hlt, hleast.grows hlt hgrows⟩
    · have hold : ∀ c ∈ a.ended, c.userId < t.next ∧
          AtLeast t.rows c.userId (c.sessionVersion + 1) := fun c hc => by
        obtain ⟨hlt, hleast⟩ := h.ended c hc
        exact ⟨hnext ▸ Nat.lt_succ_of_lt hlt, hleast.grows hlt hgrows⟩
      dsimp only [Accounts.committed] at hc
      split at hc
      · next hends =>
        rcases List.mem_append.mp hc with hc | hc
        · exact hold c hc
        · obtain ⟨hbefore, hid⟩ := List.mem_filter.mp hc
          obtain ⟨hlt, hleast⟩ :=
            hp.ends huncommitted hends hbefore (of_decide_eq_true hid)
          rw [← hrows] at hleast
          exact ⟨hnext ▸ Nat.lt_succ_of_lt hlt, hleast⟩
      · exact hold c hc
    · dsimp only [Accounts.committed, Accounts.setHandler] at hj ⊢
      rw [hnext]
      by_cases hji : j = i
      · subst hji
        rw [Function.update_self] at hj
        obtain rfl := Option.some.inj hj
        refine ⟨fun hnone => by (cases hnone), fun id hid => ?_, hp.inserted,
          fun user huser => Nat.lt_succ_of_lt (hp.deleted user huser)⟩
        obtain rfl := Option.some.inj hid
        have hleast := hp.atLeast huncommitted
        rw [← hrows] at hleast
        exact ⟨hp.userId_lt huncommitted, hleast⟩
      · rw [Function.update_of_ne hji] at hj
        exact (h.handlers j q hj).grows hgrows
  | answered i p id running written =>
    obtain ⟨hlt, hleast⟩ := (h.handlers i p running).committed id written
    refine ⟨htracked, fun c hc => ?_, h.ended, fun j q hj => ?_⟩
    · dsimp only [Accounts.answered] at hc
      split at hc
      · rcases List.mem_append.mp hc with hc | hc
        · exact h.cookies c hc
        · obtain rfl := List.mem_singleton.mp hc
          exact ⟨hlt, hleast⟩
      · exact h.cookies c hc
    · dsimp only [Accounts.answered, Accounts.setHandler] at hj
      by_cases hji : j = i
      · subst hji
        rw [Function.update_self] at hj
        cases hj
      · rw [Function.update_of_ne hji] at hj
        exact h.handlers j q hj
  | forgotten act i =>
    have hkept : (a.txns.rollback i).rows = a.txns.rows ∧
        (a.txns.rollback i).next = a.txns.next := by
      unfold Txns.rollback
      split <;> exact ⟨rfl, rfl⟩
    unfold Accounts.forget at htracked ⊢
    refine ⟨htracked, ?_, ?_, fun j q hj => ?_⟩
    · dsimp only [Accounts.users]
      rw [hkept.1, hkept.2]
      exact h.cookies
    · dsimp only [Accounts.users]
      rw [hkept.1, hkept.2]
      exact h.ended
    · dsimp only [Accounts.users, Accounts.setHandler] at hj ⊢
      rw [hkept.1, hkept.2]
      by_cases hji : j = i
      · subst hji
        rw [Function.update_self] at hj
        cases hj
      · rw [Function.update_of_ne hji] at hj
        exact h.handlers j q hj
  | aside act a' txns handlers cookies ended =>
    refine ⟨htracked, ?_, ?_, ?_⟩
    · rw [cookies, Accounts.users, txns]
      exact h.cookies
    · rw [ended, Accounts.users, txns]
      exact h.ended
    · rw [handlers, Accounts.users, txns]
      exact h.handlers

end Accounts

/-- **A session that was ended stays ended**, in every run whose commits go forward. -/
theorem sessions_ended {settings : AuthSettings} {a : Accounts}
    (h : (accounts settings).Reach Accounts.Forward a) {c : Cookie} (hc : c ∈ a.ended) :
    (a.resolveIdentity (some (.cookie c))).user = none := by
  have hversions : a.Versions :=
    h.invariant (fun _ hinit => Accounts.Versions.init hinit) fun _ _ _ hversions hforward hstep =>
      hversions.moves hforward (Accounts.moves_of_step hstep)
  unfold Accounts.resolveIdentity
  dsimp only
  split
  · split
    · next user huser =>
      -- the row is ahead of the cookie
      have hahead := (hversions.ended c hc).2 user (List.mem_of_find?_eq_some huser)
        (of_decide_eq_true (List.find?_some huser :))
      rw [if_neg]
      simp [Nat.ne_of_lt (Nat.lt_of_succ_le hahead)]
    · rfl
  · rfl

/-- `Forward`, to be evaluated. -/
def Accounts.goesForward (a : Accounts) : AccountAct → Bool
  | .commit i =>
    match a.handlers i with
    | some { handled := { change := .update read changed, .. }, .. } =>
      decide (read.sessionVersion = changed.sessionVersion) ||
        a.users.all fun u => u.id ≠ read.id || decide (u.sessionVersion ≤ changed.sessionVersion)
    | _ => true
  | _ => true

theorem Accounts.forward_of_goesForward {a : Accounts} {act : AccountAct}
    (h : a.goesForward act = true) : a.Forward act := by
  intro i p read changed hact hi hchange hraised u hu hid
  subst hact
  unfold goesForward at h
  dsimp only at h
  obtain ⟨⟨change, guarded, setsCookie⟩, before, committed⟩ := p
  dsimp only at hchange
  subst hchange
  rw [hi] at h
  dsimp only at h
  rw [Bool.or_eq_true, decide_eq_true_eq, or_iff_right hraised, List.all_eq_true] at h
  simpa [hid] using h u hu

/-- A server whose password hashes are the passwords. -/
def plainSettings : AuthSettings where
  hashPassword password := password
  verifyPassword password hash := hash == some password

def ada : User where
  id := 1
  username := "ada"
  passwordHash := some "correct horse"

/-- The cookie of the `jti`-th sign-in of `ada`. -/
def adaCookie (jti version : Nat) : Cookie :=
  { userId := 1, sessionVersion := version, jti := jti, exp := 43200 }

def adaAlone : Accounts := { txns := { rows := [ada], next := 2 } }

/-- A request of the handler, from its read to its answer. -/
def wholeRequest (i : Nat) (credential : Option Credential) (request : UserRequest) :
    List AccountAct := [.request i credential request, .flush i, .commit i, .answer i]

/-- `ada` signs in, and signs out everywhere. -/
def signOut : List AccountAct :=
  wholeRequest 0 none (.login "ada" "correct horse") ++
    wholeRequest 1 (some (.cookie (adaCookie 0 0))) .logoutEverywhere

theorem adaAlone_init : (accounts plainSettings).init adaAlone :=
  ⟨by decide, by decide, rfl, rfl, rfl, rfl⟩

theorem sessions_ended_signOut : ∃ a, (accounts plainSettings).Reach Accounts.Forward a ∧
    adaCookie 0 0 ∈ a.cookies ∧ adaCookie 0 0 ∈ a.ended ∧
      (a.resolveIdentity (some (.cookie (adaCookie 0 0)))).user = none := by
  have hrun : ∃ a : Accounts,
      signOut.foldlM (fun (a : Accounts) act =>
        if a.goesForward act then a.step plainSettings act else none) adaAlone = some a ∧
      adaCookie 0 0 ∈ a.cookies ∧ adaCookie 0 0 ∈ a.ended := ⟨_, rfl, by decide, by decide⟩
  obtain ⟨a, hexec, hissued, hended⟩ := hrun
  have hreach : (accounts plainSettings).Reach Accounts.Forward a :=
    System.Reach.exec (fun _ _ _ hstep => by
      obtain ⟨hforward, hstep⟩ := Option.ite_none_right_eq_some.mp hstep
      exact ⟨Accounts.forward_of_goesForward hforward, hstep⟩) (.init adaAlone_init) hexec
  exact ⟨a, hreach, hissued, hended, sessions_ended hreach hended⟩

/-- Two requests to sign out everywhere read the same version. The second is committed after another
sign-in was signed out, and brings its version back. -/
def lateSignOut : List AccountAct :=
  wholeRequest 0 none (.login "ada" "correct horse") ++
    [.request 1 (some (.cookie (adaCookie 0 0))) .logoutEverywhere] ++
    wholeRequest 2 (some (.cookie (adaCookie 0 0))) .logoutEverywhere ++
    wholeRequest 3 none (.login "ada" "correct horse") ++
    wholeRequest 4 (some (.cookie (adaCookie 1 1))) .logoutEverywhere ++ [.flush 1, .commit 1]

theorem session_revived : ∃ a, (accounts plainSettings).Reach (fun _ _ => True) a ∧
    adaCookie 1 1 ∈ a.ended ∧
      (a.resolveIdentity (some (.cookie (adaCookie 1 1)))).user.isSome = true := by
  have hrun : ∃ a : Accounts,
      lateSignOut.foldlM (Accounts.step plainSettings) adaAlone = some a ∧
      adaCookie 1 1 ∈ a.ended ∧
      (a.resolveIdentity (some (.cookie (adaCookie 1 1)))).user.isSome = true :=
    ⟨_, rfl, by decide, by decide⟩
  obtain ⟨a, hexec, hended, haccepted⟩ := hrun
  exact ⟨a, System.Reach.exec (fun _ _ _ hstep => ⟨trivial, hstep⟩) (.init adaAlone_init) hexec,
    hended, haccepted⟩

end Minireg.Auth
