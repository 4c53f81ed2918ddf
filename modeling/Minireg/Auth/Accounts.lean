import Minireg.Upstreams.Base

/-!
# Accounts and credentials

The rows of `users` and `api_tokens`, as far as they decide who may do what, and the identity that a
request is made with.
-/

namespace Minireg.Auth

inductive AuthProvider where
  | local_
  | oidc
  deriving DecidableEq, Repr

structure User where
  id : Nat
  username : String
  email : Option String := none
  passwordHash : Option String := none
  isAdmin : Bool := false
  /-- Raised whenever every session of the account has to end. -/
  sessionVersion : Nat := 0
  isActive : Bool := true
  canPublish : Bool := false
  /-- `can_publish` came with the admin group of the identity provider. -/
  publishViaOidcAdmin : Bool := false
  provider : AuthProvider := .local_
  oidcSubject : Option String := none
  oidcIssuer : Option String := none
  deriving DecidableEq, Repr

/-- Whether the account can administer the registry. -/
def User.activeAdmin (u : User) : Bool := u.isAdmin && u.isActive

structure ApiToken where
  id : Nat
  userId : Nat
  scopes : List String := []
  expiresAt : Option Time := none
  revoked : Bool := false
  dockerRepoPrefixes : List String := []
  deriving DecidableEq, Repr

inductive AuthMethod where
  | session
  | token
  | basic
  /-- An account password over HTTP Basic. -/
  | basicPassword
  | anonymous
  deriving DecidableEq, Repr

structure Identity where
  user : Option User := none
  token : Option ApiToken := none
  method : AuthMethod := .anonymous
  deriving DecidableEq, Repr

namespace Identity

variable (identity : Identity) (scope : String)

/-- `token_has_scope`: a session has no token to ask. -/
def tokenHasScope : Bool :=
  identity.token.any fun t => scope ∈ t.scopes || "admin" ∈ t.scopes

/-- `has_scope`: a session has every right of its user, a password may only read. -/
def hasScope : Bool :=
  identity.user.isSome &&
    (if identity.method = .basicPassword then scope = "read"
     else identity.token.isNone || identity.tokenHasScope scope)

/-- `require_primary_credential`: a session, or an admin-scoped token. -/
def isPrimary : Bool :=
  identity.user.isSome && identity.method ≠ .basicPassword &&
    (identity.token.isNone || identity.tokenHasScope "admin")

/-- The holder of a primary credential has every scope. -/
theorem hasScope_of_isPrimary {identity : Identity} (h : identity.isPrimary = true)
    (scope : String) : identity.hasScope scope = true := by
  unfold isPrimary at h
  unfold hasScope
  obtain ⟨⟨huser, hmethod⟩, htoken⟩ : (identity.user.isSome = true ∧
      identity.method ≠ .basicPassword) ∧
      (identity.token.isNone = true ∨ identity.tokenHasScope "admin" = true) := by simpa using h
  rw [huser, if_neg hmethod, Bool.true_and]
  refine Bool.or_eq_true _ _ |>.mpr (htoken.imp_right fun hadmin => ?_)
  unfold tokenHasScope at hadmin ⊢
  obtain ⟨t, ht, hscope⟩ := Option.any_eq_true _ _ |>.mp hadmin
  exact Option.any_eq_true _ _ |>.mpr ⟨t, ht, by simpa using Or.inr (by simpa using hscope)⟩

end Identity

end Minireg.Auth
