import Minireg.Auth.Sessions

/-!
# The last administrator

Who is an administrator over any run of requests on the accounts. An edit and a deletion count the
administrators that would be left, in the transaction that flushes them; a sign-in through the
identity provider writes `is_admin` from the groups of the profile and counts nobody.
-/

namespace Minireg.Auth

open Lib Lib.Transactions Py

/-! ## What takes an administrator away -/

namespace Accounts

variable (a : Accounts)

/-- An active administrator other than that account. -/
def OtherAdmin (id : Nat) : Prop := ∃ u ∈ a.users, u.activeAdmin = true ∧ u.id ≠ id

/-- The condition on a commit. Where the administrators that a guarded request counted were all other
accounts, there is another one still; a request that counts nobody does not demote, or not the last
one. -/
def Spares (act : AccountAct) : Prop :=
  ∀ i h o, act = .commit i → a.handlers i = some h → a.txns.opened i = some o →
    let id := h.handled.change.userId a.txns.next
    (h.handled.guarded = true → (∃ u ∈ o.view, u.activeAdmin = true) →
      (∀ u ∈ o.view, u.activeAdmin = true → u.id ≠ id) → a.OtherAdmin id) ∧
    (h.handled.guarded = false → h.handled.change.demotes = true → a.OtherAdmin id)

end Accounts

/-- An edit that does not demote leaves an active administrator one. -/
theorem User.flush_activeAdmin {read changed stored : User}
    (hkeeps : (Change.update read changed).demotes = false) (hstored : stored.activeAdmin = true) :
    (User.flush read changed stored).activeAdmin = true := by
  have hcolumn : ∀ read changed stored : Bool, (read && !changed) = false → stored = true →
      flushColumn read changed stored = true := by decide
  unfold Change.demotes at hkeeps
  rw [Bool.or_eq_false_iff] at hkeeps
  unfold User.activeAdmin at hstored ⊢
  rw [Bool.and_eq_true] at hstored ⊢
  exact ⟨hcolumn _ _ _ hkeeps.1 hstored.1, hcolumn _ _ _ hkeeps.2 hstored.2⟩

/-! ## Which requests can do it -/

section Requests

variable {settings : AuthSettings} {users : List User} {identity : Identity} {handled : Handled}

/-- An edit that keeps both columns does not demote. -/
theorem demotes_of_same {read changed : User} (hadmin : changed.isAdmin = read.isAdmin)
    (hactive : changed.isActive = read.isActive) :
    (Change.update read changed).demotes = false := by
  unfold Change.demotes
  dsimp only
  rw [hadmin, hactive, Bool.and_not_self, Bool.and_not_self, Bool.or_false]

/-- **Only a sign-in without the admin group** demotes and counts nobody. -/
theorem handleRequest_demotes {request : UserRequest}
    (h : handleRequest settings users identity request = .ok handled)
    (hguarded : handled.guarded = false) (hdemotes : handled.change.demotes = true) :
    ∃ profile, request = .oidcCallback profile ∧ profile.isAdmin settings = false := by
  have hnot : ∀ {read changed : User}, handled.change = .update read changed →
      changed.isAdmin = read.isAdmin → changed.isActive ≠ read.isActive :=
    fun hchange hadmin hactive => by
      rw [hchange, demotes_of_same hadmin hactive] at hdemotes
      cases hdemotes
  cases request with
  | create payload =>
    obtain ⟨_, -, hreturn⟩ := bind_ok h
    obtain rfl := Except.ok.inj hreturn
    cases hdemotes
  | update userId payload =>
    obtain ⟨admin, -, h⟩ := bind_ok h
    split at h
    · cases h
    · split at h
      · cases h
      · split at h
        · cases h
        · obtain ⟨changed, -, hreturn⟩ := bind_ok h
          obtain rfl := Except.ok.inj hreturn
          cases hguarded
  | delete userId =>
    obtain ⟨admin, -, h⟩ := bind_ok h
    split at h
    · cases h
    · split at h
      · cases h
      · obtain rfl := Except.ok.inj h
        cases hguarded
  | login username password =>
    unfold handleRequest login at h
    dsimp only at h
    split at h
    · cases h
    · split at h
      · cases h
      · split at h
        · cases h
        · obtain rfl := Except.ok.inj h
          refine absurd ?_ (hnot rfl ?_) <;> split <;> rfl
  | changePassword currentPassword newPassword =>
    obtain ⟨user, -, h⟩ := bind_ok h
    split at h
    · cases h
    · split at h
      · cases h
      · obtain rfl := Except.ok.inj h
        refine absurd ?_ (hnot rfl ?_) <;> rfl
  | logoutEverywhere =>
    obtain ⟨user, -, hreturn⟩ := bind_ok h
    obtain rfl := Except.ok.inj hreturn
    refine absurd ?_ (hnot rfl ?_) <;> rfl
  | oidcCallback profile =>
    unfold handleRequest oidcCallback at h
    dsimp only at h
    split at h
    · cases h
    · split at h
      · next read user haccount =>
        split at h
        · cases h
        · obtain rfl := Except.ok.inj h
          refine ⟨profile, rfl, ?_⟩
          -- the account stays active, so what it lost is the group
          unfold Change.demotes at hdemotes
          dsimp only at hdemotes
          rw [OidcProfile.apply_isAdmin, OidcProfile.apply_isActive,
            (oidcAccount_some haccount).2.1, Bool.and_not_self, Bool.or_false, Bool.and_eq_true,
            Bool.not_eq_true'] at hdemotes
          exact hdemotes.2
      · split at h
        · cases h
        · obtain rfl := Except.ok.inj h
          cases hdemotes

end Requests

/-! ## Every run -/

namespace Accounts

variable {settings : AuthSettings} {a a' : Accounts} {act : AccountAct}

/-- Another administrator is untouched by the write. -/
theorem OtherAdmin.apply {change : Change} (htracked : a.Tracked)
    (h : a.OtherAdmin (change.userId a.txns.next)) :
    ∃ u ∈ change.write.apply a.txns.next a.users, u.activeAdmin = true := by
  obtain ⟨u, hu, hadmin, hne⟩ := h
  refine ⟨u, (Write.mem_apply_of_ne ?_ ?_).mpr hu, hadmin⟩
  · intro htarget
    cases change with
    | insert user => cases htarget
    | update read changed => exact hne (Option.some.inj htarget).symm
    | delete user => exact hne (Option.some.inj htarget).symm
  · exact Nat.ne_of_lt (htracked.txns.ids u hu)

theorem mem_of_mem_apply {change : Change} {u : User} (hne : u.id ≠ change.userId a.txns.next)
    (hu : u ∈ change.write.apply a.txns.next a.users) : u ∈ a.users := by
  cases change with
  | insert user =>
    rcases Write.mem_apply_insert.mp hu with hu | rfl
    · exact hu
    · exact absurd rfl hne
  | update read changed =>
    obtain ⟨stored, hstored, rfl⟩ := Write.mem_apply_update.mp hu
    split at hne
    · next hid => exact absurd hid hne
    · next hid => rwa [if_neg hid]
  | delete user => exact (Write.mem_apply_delete.mp hu).1

/-- A write that does not demote leaves an administrator. -/
theorem HasAdmin.apply {change : Change} (h : a.HasAdmin) (hkeeps : change.demotes = false) :
    ∃ u ∈ change.write.apply a.txns.next a.users, u.activeAdmin = true := by
  obtain ⟨u, hu, hadmin⟩ := h
  cases change with
  | insert user => exact ⟨u, Write.mem_apply_insert.mpr (.inl hu), hadmin⟩
  | update read changed =>
    refine ⟨_, Write.mem_apply_update.mpr ⟨u, hu, rfl⟩, ?_⟩
    split
    · exact User.flush_activeAdmin hkeeps hadmin
    · exact hadmin
  | delete user => cases hkeeps

/-- **The guard**: what a request counted of its own account it leaves. -/
theorem guarded_apply {i : Nat} {h : Handler} {o : Open User.id} (htracked : a.Tracked)
    (hi : a.txns.opened i = some o) (hwrite : o.write = h.handled.change.write)
    (hguard : ∃ u ∈ o.view, u.activeAdmin = true)
    (hspares : (∃ u ∈ o.view, u.activeAdmin = true) →
      (∀ u ∈ o.view, u.activeAdmin = true → u.id ≠ h.handled.change.userId a.txns.next) →
        a.OtherAdmin (h.handled.change.userId a.txns.next))
    (hadmin : a.HasAdmin) :
    ∃ u ∈ h.handled.change.write.apply a.txns.next a.users, u.activeAdmin = true := by
  by_cases hothers : ∀ u ∈ o.view, u.activeAdmin = true → u.id ≠ h.handled.change.userId a.txns.next
  · exact (hspares hguard hothers).apply htracked
  · push Not at hothers
    obtain ⟨u, hu, hactive, hid⟩ := hothers
    cases hchange : h.handled.change with
    | insert user => exact hadmin.apply rfl
    | update read changed =>
      refine ⟨u, ?_, hactive⟩
      rw [hchange] at hid hwrite
      have hown := (htracked.txns.own i o u hi (by rw [hwrite, hid]; rfl)).mp hu
      rwa [hwrite] at hown
    | delete user =>
      refine ⟨u, ?_, hactive⟩
      rw [hchange] at hid hwrite
      have hown := (htracked.txns.own i o u hi (by rw [hwrite, hid]; rfl)).mp hu
      rwa [hwrite] at hown

theorem HasAdmin.moves (h : a.HasAdmin) (htracked : a.Tracked) (hspares : a.Spares act)
    (hmoves : Moves settings a act a') : a'.HasAdmin := by
  cases hmoves with
  | started i credential request handled idle handles => exact h
  | flushed i p t running uncommitted flushes passes =>
    obtain ⟨-, -, rfl⟩ := Txns.flush_some flushes
    exact h
  | committed i p t running commits =>
    obtain ⟨o, hi, hrows, -⟩ := Txns.commit_some commits
    obtain ⟨q, hq, -, hwrite, hguard⟩ := htracked.opened i o hi
    obtain rfl := Option.some.inj (running.symm.trans hq)
    obtain ⟨hguarded, hunguarded⟩ := hspares i p o rfl running hi
    rw [hwrite] at hrows
    suffices hleft : ∃ u ∈ p.handled.change.write.apply a.txns.next a.users, u.activeAdmin = true by
      unfold HasAdmin Accounts.users Accounts.committed
      dsimp only
      rw [hrows]
      exact hleft
    cases hcounts : p.handled.guarded with
    | true => exact guarded_apply htracked hi hwrite (hguard hcounts) (hguarded hcounts) h
    | false =>
      cases hdemotes : p.handled.change.demotes with
      | true => exact (hunguarded hcounts hdemotes).apply htracked
      | false => exact h.apply hdemotes
  | answered i p id running written => exact h
  | forgotten act i =>
    have hkept : (a.txns.rollback i).rows = a.txns.rows := by
      unfold Txns.rollback
      split <;> rfl
    unfold HasAdmin Accounts.users Accounts.forget
    dsimp only
    rw [hkept]
    exact h
  | aside act a' txns handlers cookies ended =>
    unfold HasAdmin Accounts.users
    rw [txns]
    exact h

/-- A guarded request whose accounts are those it counted spares an administrator. -/
theorem spares_of_undisturbed (htracked : a.Tracked) {i : Nat}
    (h : ∀ p o, a.handlers i = some p → a.txns.opened i = some o →
      p.handled.guarded = true ∧ o.view = p.handled.view a.txns) : a.Spares (.commit i) := by
  rintro j p o hact hj ho
  obtain rfl := AccountAct.commit.inj hact
  obtain ⟨hguarded, hview⟩ := h p o hj ho
  refine ⟨fun _ _ hothers => ?_, fun hnot => absurd (hguarded.symm.trans hnot) (by decide)⟩
  obtain ⟨q, hq, -, -, hguard⟩ := htracked.opened i o ho
  obtain rfl := Option.some.inj (hj.symm.trans hq)
  obtain ⟨u, hu, hadmin⟩ := hguard hguarded
  have hne := hothers u hu hadmin
  refine ⟨u, mem_of_mem_apply hne ?_, hadmin, hne⟩
  rw [hview] at hu
  exact hu

end Accounts

/-- **An administrator remains** in every run whose commits spare one. -/
theorem admin_remains {settings : AuthSettings} {a a' : Accounts}
    (h : (accounts settings).Reach (fun _ _ => True) a) (hadmin : a.HasAdmin)
    (hpath : (accounts settings).Path Accounts.Spares a a') : a'.HasAdmin := by
  have htracked : a.Tracked :=
    h.invariant (fun _ hinit => Accounts.Tracked.init hinit) fun _ _ _ htracked _ hstep =>
      htracked.moves (Accounts.moves_of_step hstep)
  refine (hpath.invariant (I := fun a => a.Tracked ∧ a.HasAdmin)
    (fun a act a' hboth hspares hstep => ?_) ⟨htracked, hadmin⟩).2
  have hmoves := Accounts.moves_of_step hstep
  exact ⟨hboth.1.moves hmoves, hboth.2.moves hboth.1 hspares hmoves⟩

/-- `Spares`, to be evaluated. -/
def Accounts.spares (a : Accounts) : AccountAct → Bool
  | .commit i =>
    match a.handlers i, a.txns.opened i with
    | some h, some o =>
      let id := h.handled.change.userId a.txns.next
      let other := a.users.any fun u => u.activeAdmin && decide (u.id ≠ id)
      if h.handled.guarded then
        !o.view.any User.activeAdmin || o.view.any (fun u => u.activeAdmin && u.id = id) || other
      else !h.handled.change.demotes || other
    | _, _ => true
  | _ => true

theorem Accounts.spares_of_eq {a : Accounts} {act : AccountAct} (h : a.spares act = true) :
    a.Spares act := by
  intro i p o hact hi ho
  subst hact
  unfold spares at h
  dsimp only at h
  rw [hi, ho] at h
  dsimp only at h
  have hother : (a.users.any fun u => u.activeAdmin &&
      decide (u.id ≠ p.handled.change.userId a.txns.next)) = true →
      a.OtherAdmin (p.handled.change.userId a.txns.next) := fun hany => by
    obtain ⟨u, hu, hboth⟩ := List.any_eq_true.mp hany
    rw [Bool.and_eq_true, decide_eq_true_eq] at hboth
    exact ⟨u, hu, hboth⟩
  refine ⟨fun hguarded ⟨u, hu, hadmin⟩ hothers => ?_, fun hunguarded hdemotes => ?_⟩
  · rw [if_pos hguarded, Bool.or_eq_true, Bool.or_eq_true] at h
    rcases h with (hnone | hown) | hany
    · rw [Bool.not_eq_true', List.any_eq_false] at hnone
      exact absurd hadmin (hnone u hu)
    · obtain ⟨v, hv, hboth⟩ := List.any_eq_true.mp hown
      rw [Bool.and_eq_true, decide_eq_true_eq] at hboth
      exact absurd hboth.2 (hothers v hv hboth.1)
    · exact hother hany
  · rw [hunguarded, hdemotes] at h
    exact hother h

/-- A credential of the account, good for everything its owner may do. -/
def adminToken (userId : Nat) : Credential :=
  .token { id := userId, userId := userId, scopes := ["admin"] }

/-- `ada` and `bob` administer the registry. -/
def twoAdmins : Accounts where
  txns :=
    { rows := [{ id := 1, username := "ada", isAdmin := true },
        { id := 2, username := "bob", isAdmin := true }]
      next := 3 }

theorem twoAdmins_init : (accounts plainSettings).init twoAdmins :=
  ⟨by decide, by decide, rfl, rfl, rfl, rfl⟩

/-- `ada` demotes `bob`. -/
def oneDemotion : List AccountAct :=
  wholeRequest 0 (some (adminToken 1)) (.update 2 { isAdmin := some false })

theorem admin_remains_demotion : ∃ a, (accounts plainSettings).Path Accounts.Spares twoAdmins a ∧
    (a.users.map User.activeAdmin = [true, false]) ∧ a.HasAdmin := by
  have hrun : ∃ a : Accounts,
      oneDemotion.foldlM (fun (a : Accounts) act =>
        if a.spares act then a.step plainSettings act else none) twoAdmins = some a ∧
      a.users.map User.activeAdmin = [true, false] := ⟨_, rfl, by decide⟩
  obtain ⟨a, hexec, hadmins⟩ := hrun
  have hpath : (accounts plainSettings).Path Accounts.Spares twoAdmins a :=
    System.Path.exec (fun _ _ _ hstep => by
      obtain ⟨hspares, hstep⟩ := Option.ite_none_right_eq_some.mp hstep
      exact ⟨Accounts.spares_of_eq hspares, hstep⟩) hexec
  exact ⟨a, hpath, hadmins, admin_remains (.init twoAdmins_init) ⟨_, List.mem_cons_self, rfl⟩ hpath⟩

/-- Each demotes the other, and both count before either commits. -/
def crossDemotions : List AccountAct :=
  [.request 0 (some (adminToken 1)) (.update 2 { isAdmin := some false }),
   .request 1 (some (adminToken 2)) (.update 1 { isAdmin := some false }),
   .flush 0, .flush 1, .commit 0, .commit 1]

/-- The only administrator is an account of the identity provider. -/
def ssoAdmin : Accounts where
  txns :=
    { rows := [{ id := 1, username := "ada", isAdmin := true, provider := .oidc,
                 oidcSubject := some "ada", oidcIssuer := some "idp" }]
      next := 2 }

/-- `ada` signs in after the provider took the group away. -/
def ssoDemotion : List AccountAct :=
  wholeRequest 0 none (.oidcCallback { subject := "ada", issuer := "idp", username := "ada" })

theorem no_admin_remains :
    (∃ a, (accounts plainSettings).Path (fun _ _ => True) twoAdmins a ∧ ¬a.HasAdmin) ∧
      ∃ a, (accounts plainSettings).init ssoAdmin ∧ ssoAdmin.HasAdmin ∧
        (accounts plainSettings).Path (fun _ _ => True) ssoAdmin a ∧ ¬a.HasAdmin := by
  have hnone : ∀ a : Accounts, a.users.any User.activeAdmin = false → ¬a.HasAdmin := by
    rintro a hany ⟨u, hu, hadmin⟩
    exact List.any_eq_false.mp hany u hu hadmin
  constructor
  · have hrun : ∃ a : Accounts, crossDemotions.foldlM (Accounts.step plainSettings) twoAdmins =
        some a ∧ a.users.any User.activeAdmin = false := ⟨_, rfl, by decide⟩
    obtain ⟨a, hexec, hany⟩ := hrun
    exact ⟨a, System.Path.exec (fun _ _ _ hstep => ⟨trivial, hstep⟩) hexec, hnone a hany⟩
  · have hrun : ∃ a : Accounts, ssoDemotion.foldlM (Accounts.step plainSettings) ssoAdmin =
        some a ∧ a.users.any User.activeAdmin = false := ⟨_, rfl, by decide⟩
    obtain ⟨a, hexec, hany⟩ := hrun
    exact ⟨a, ⟨by decide, by decide, rfl, rfl, rfl, rfl⟩, ⟨_, List.mem_cons_self, rfl⟩,
      System.Path.exec (fun _ _ _ hstep => ⟨trivial, hstep⟩) hexec, hnone a hany⟩

end Minireg.Auth
