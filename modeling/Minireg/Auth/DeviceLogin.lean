import Minireg.Auth.Accounts
import Minireg.Lib.Run

/-!
# Device authorization

One row of `device_authorizations` under the handlers of `api/cli.py`: any number of polls and of
approvals, each of which reads the row, decides, and commits what it has decided later, when the row
may be another one. Nothing locks the row in between. `Alone` is the condition on a commit: what it
takes is still there to be taken.
-/

namespace Minireg.Auth

open Lib

/-! ## The handlers -/

structure DeviceAuthorization where
  expiresAt : Time
  requestedScopes : List String := ["read"]
  approvedUserId : Option Nat := none
  approvedAt : Option Time := none
  denied : Bool := false
  tokenId : Option Nat := none
  /-- Held until the CLI collects it. -/
  tokenPlaintext : Option String := none
  collectedAt : Option Time := none
  deriving DecidableEq, Repr

/-- What a CLI login may ask for, in the order of `sorted`. -/
def cliScopes : List String := ["admin", "docker:push", "publish", "read"]

def orRead (scopes : List String) : List String := if scopes = [] then ["read"] else scopes

/-- The scopes an approval grants, in the order of `sorted`. -/
def grantedScopes (user : User) (token : Option ApiToken) (requested : List String) : List String :=
  let granted := orRead (cliScopes.filter (· ∈ requested))
  let granted := if user.isAdmin then granted else granted.filter (· ≠ "admin")
  let granted := if user.canPublish || user.isAdmin then granted
    else granted.filter (· ∉ ["publish", "docker:push"])
  orRead (match token with
    | some t => granted.filter (· ∈ t.scopes)
    | none => granted)

/-- An API token that an approval mints, with its plaintext and with what it was approved by. -/
structure Minted where
  token : ApiToken
  plaintext : String
  identity : Identity
  approver : User
  deriving DecidableEq, Repr

inductive DeviceReply where
  | expiredToken
  | accessDenied
  | pending
  | complete (token : String)
  | notFound
  | alreadyApproved
  | forbidden
  deriving DecidableEq, Repr

/-- What a handler does once it has read the row. -/
inductive Decision where
  /-- It commits nothing. -/
  | answer (reply : DeviceReply)
  | remove (reply : DeviceReply)
  | collect (plaintext : String)
  | deny
  | approve (minted : Minted)
  deriving DecidableEq, Repr

/-- `device_poll`, up to its commit. -/
def devicePoll (now : Time) (record : Option DeviceAuthorization) : Decision :=
  match record with
  | none => .answer .expiredToken
  | some record =>
    if record.expiresAt < now then .remove .expiredToken
    else if record.denied then .remove .accessDenied
    else if record.approvedAt = none then .answer .pending
    else match record.tokenPlaintext with
      | none => .answer .expiredToken
      | some plaintext => .collect plaintext

/-- The body of an approval, and what `generate_token` and the insert give it. -/
structure ApproveRequest where
  approve : Bool := true
  scopes : List String := ["read"]
  tokenId : Nat
  plaintext : String
  tokenExpiresAt : Option Time := none
  deriving DecidableEq, Repr

/-- `device_approve`, up to its commit. -/
def deviceApprove (now : Time) (identity : Identity) (payload : ApproveRequest)
    (record : Option DeviceAuthorization) : Decision :=
  match identity.user, identity.isPrimary, record with
  | some user, true, some record =>
    if record.expiresAt < now then .answer .notFound
    else if record.approvedAt ≠ none then .answer .alreadyApproved
    else if !payload.approve then .deny
    else .approve
      { token :=
          { id := payload.tokenId
            userId := user.id
            scopes := grantedScopes user identity.token payload.scopes
            expiresAt := payload.tokenExpiresAt }
        plaintext := payload.plaintext
        identity := identity
        approver := user }
  | some _, true, none => .answer .notFound
  | _, _, _ => .answer .forbidden

/-! ## The system -/

inductive DeviceEvent where
  | approved (plaintext : String)
  | denied
  /-- A poll was answered with the plaintext. -/
  | handedOut (plaintext : String)
  deriving DecidableEq, Repr

structure DeviceLogin where
  /-- `device_start` has been answered. -/
  started : Bool := false
  record : Option DeviceAuthorization := none
  /-- What the handlers that have read the row are going to commit. -/
  decided : Nat → Option Decision := fun _ => none
  /-- The API tokens that were minted for it. -/
  minted : List Minted := []
  history : List DeviceEvent := []
  clock : Time := 0

inductive DeviceAct where
  | start (expiresAt : Time) (requestedScopes : List String)
  | poll (i : Nat)
  | approve (i : Nat) (identity : Identity) (payload : ApproveRequest)
  | commit (i : Nat)
  /-- The handler is cancelled, or its commit fails. -/
  | abort (i : Nat)
  /-- Another `device_start` removes the rows that have expired. -/
  | reap
  | tick (elapsed : Nat)

namespace DeviceLogin

variable (d : DeviceLogin)

def decide (i : Nat) (decision : Decision) : DeviceLogin :=
  { d with decided := Function.update d.decided i (some decision) }

/-- What the commit of a decision makes of the row that is there then. An update of a row that is
gone raises, and nothing is committed. -/
def apply : Decision → DeviceLogin
  | .answer _ => d
  | .remove _ => { d with record := none }
  | .collect plaintext =>
    match d.record with
    | none => d
    | some record =>
      { d with
        record := some { record with tokenPlaintext := none, collectedAt := some d.clock }
        history := d.history ++ [.handedOut plaintext] }
  | .deny =>
    match d.record with
    | none => d
    | some record =>
      { d with record := some { record with denied := true }, history := d.history ++ [.denied] }
  | .approve minted =>
    match d.record with
    | none => d
    | some record =>
      { d with
        record := some
          { record with
            approvedUserId := some minted.approver.id
            approvedAt := some d.clock
            tokenId := some minted.token.id
            tokenPlaintext := some minted.plaintext }
        minted := d.minted ++ [minted]
        history := d.history ++ [.approved minted.plaintext] }

def step : DeviceAct → Option DeviceLogin
  | .start expiresAt requestedScopes =>
    if d.started then none
    else some
      { d with
        started := true
        record := some { expiresAt := expiresAt, requestedScopes := requestedScopes } }
  | .poll i =>
    match d.decided i with
    | some _ => none
    | none => some (d.decide i (devicePoll d.clock d.record))
  | .approve i identity payload =>
    match d.decided i with
    | some _ => none
    | none => some (d.decide i (deviceApprove d.clock identity payload d.record))
  | .commit i =>
    (d.decided i).map fun decision =>
      { d.apply decision with decided := Function.update d.decided i none }
  | .abort i => some { d with decided := Function.update d.decided i none }
  | .reap => some { d with record := d.record.filter fun record => !(record.expiresAt < d.clock) }
  | .tick elapsed => some { d with clock := d.clock + elapsed }

/-- What the handlers were to take is there when they commit: the plaintext that a poll hands out,
and the approval that nobody has given yet. -/
def Alone (a : DeviceAct) : Prop :=
  ∀ i record, a = .commit i → d.record = some record →
    (∀ plaintext, d.decided i = some (.collect plaintext) → record.tokenPlaintext ≠ none) ∧
      ∀ minted, d.decided i = some (.approve minted) → record.approvedAt = none

/-- Every plaintext that was handed out was approved, and not denied before. -/
def HandsOutApproved : Prop :=
  ∀ before after plaintext, d.history = before ++ .handedOut plaintext :: after →
    ∃ first later, before = first ++ .approved plaintext :: later ∧ .denied ∉ first

/-- A minted token has no scope but what the CLI may have, the approver may do and the approving
credential has. -/
def ScopesWithin : Prop :=
  ∀ m ∈ d.minted, m.identity.user = some m.approver ∧ m.token.userId = m.approver.id ∧
    ∀ scope ∈ m.token.scopes, scope ∈ cliScopes ∧
      (scope = "admin" → m.approver.isAdmin = true) ∧
      (scope = "publish" ∨ scope = "docker:push" →
        m.approver.canPublish = true ∨ m.approver.isAdmin = true) ∧
      m.identity.hasScope scope = true ∧
      ∀ t, m.identity.token = some t → scope ∈ t.scopes ∨ scope = "read"

def handedOut : Nat :=
  d.history.countP fun e => match e with
    | .handedOut _ => true
    | _ => false

end DeviceLogin

def deviceLogin : System DeviceLogin DeviceAct where
  init d := d.started = false ∧ d.record = none ∧ d.decided = (fun _ => none) ∧ d.minted = [] ∧
    d.history = []
  Step d a d' := d.step a = some d'

/-! ## Scopes -/

theorem mem_orRead {scopes : List String} {scope : String} (h : scope ∈ orRead scopes) :
    scope ∈ scopes ∨ scope = "read" := by
  unfold orRead at h
  split at h
  · exact .inr (List.mem_singleton.mp h)
  · exact .inl h

/-- What an approval may grant. -/
theorem grantedScopes_within {user : User} {token : Option ApiToken} {requested : List String}
    {scope : String} (h : scope ∈ grantedScopes user token requested) :
    scope ∈ cliScopes ∧ (scope = "admin" → user.isAdmin = true) ∧
      (scope = "publish" ∨ scope = "docker:push" → user.canPublish = true ∨ user.isAdmin = true) ∧
      ∀ t, token = some t → scope ∈ t.scopes ∨ scope = "read" := by
  rcases mem_orRead h with h | rfl
  · -- each filter takes away what a right is missing for
    have hrights : ∀ granted : List String, scope ∈ (match token with
        | some t => granted.filter (· ∈ t.scopes)
        | none => granted) → scope ∈ granted ∧ ∀ t, token = some t → scope ∈ t.scopes := by
      intro granted hscope
      cases token with
      | none => exact ⟨hscope, fun t ht => by cases ht⟩
      | some t =>
        obtain ⟨hmem, hin⟩ := List.mem_filter.mp hscope
        refine ⟨hmem, fun t' ht' => ?_⟩
        obtain rfl := Option.some.inj ht'
        exact of_decide_eq_true hin
    obtain ⟨hpublish, htoken⟩ := hrights _ h
    have hadmin : scope ∈ (if user.isAdmin then orRead (cliScopes.filter (· ∈ requested))
        else (orRead (cliScopes.filter (· ∈ requested))).filter (· ≠ "admin")) ∧
        (scope = "publish" ∨ scope = "docker:push" → user.canPublish = true ∨ user.isAdmin = true) := by
      split at hpublish
      · next hcan => exact ⟨hpublish, fun _ => by simpa using hcan⟩
      · obtain ⟨hmem, hnot⟩ := List.mem_filter.mp hpublish
        exact ⟨hmem, fun hscope => absurd hscope (by simpa using hnot)⟩
    have hcli : scope ∈ orRead (cliScopes.filter (· ∈ requested)) ∧
        (scope = "admin" → user.isAdmin = true) := by
      have hmem := hadmin.1
      split at hmem
      · next hisAdmin => exact ⟨hmem, fun _ => hisAdmin⟩
      · obtain ⟨hmem, hnot⟩ := List.mem_filter.mp hmem
        exact ⟨hmem, fun hscope => absurd hscope (by simpa using hnot)⟩
    refine ⟨?_, hcli.2, hadmin.2, fun t ht => .inl (htoken t ht)⟩
    rcases mem_orRead hcli.1 with hmem | rfl
    · exact (List.mem_filter.mp hmem).1
    · decide
  · exact ⟨by decide, fun hscope => by simp at hscope, fun hscope => by simp at hscope,
      fun _ _ => .inr rfl⟩

/-! ## Every run -/

namespace DeviceLogin

/-- The plaintext was approved, and not denied before. -/
def Cleared (history : List DeviceEvent) (plaintext : String) : Prop :=
  ∃ first later, history = first ++ .approved plaintext :: later ∧ .denied ∉ first

theorem Cleared.append {history : List DeviceEvent} {plaintext : String}
    (h : Cleared history plaintext) (e : DeviceEvent) : Cleared (history ++ [e]) plaintext := by
  obtain ⟨first, later, rfl, hdenied⟩ := h
  exact ⟨first, later ++ [e], by simp, hdenied⟩

theorem cleared_of_mem {history : List DeviceEvent} {plaintext : String}
    (h : .approved plaintext ∈ history) (hdenied : .denied ∉ history) :
    Cleared history plaintext := by
  obtain ⟨first, later, rfl⟩ := List.append_of_mem h
  exact ⟨first, later, rfl, fun hfirst => hdenied (List.mem_append_left _ hfirst)⟩

/-- Where an event is that is in a history or is added to it. -/
theorem append_eq_split {history before after : List DeviceEvent} {e x : DeviceEvent}
    (h : history ++ [e] = before ++ x :: after) :
    (∃ after', history = before ++ x :: after') ∨ before = history ∧ x = e := by
  rcases List.eq_nil_or_concat after with rfl | ⟨after', y, rfl⟩
  · obtain ⟨hbefore, hx⟩ := List.append_inj' h rfl
    exact .inr ⟨hbefore.symm, (List.cons.inj hx).1.symm⟩
  · have hsplit : history ++ [e] = (before ++ x :: after') ++ [y] := by simpa using h
    exact .inl ⟨after', (List.append_inj' hsplit rfl).1⟩

variable {d d' : DeviceLogin}

/-- What is decided is cleared and within bounds. -/
structure Sound (d : DeviceLogin) : Prop where
  fresh : d.started = false → d.record = none ∧ d.history = []
  denied : ∀ r, d.record = some r → r.denied = false → .denied ∉ d.history
  approved : ∀ r p, d.record = some r → r.tokenPlaintext = some p → .approved p ∈ d.history
  cleared : ∀ i p, d.decided i = some (.collect p) → Cleared d.history p
  bounded : ∀ i m, d.decided i = some (.approve m) → ScopesWithin { d with minted := [m] }
  handsOut : d.HandsOutApproved
  scopes : d.ScopesWithin

theorem devicePoll_collect {now : Time} {record : Option DeviceAuthorization} {p : String}
    (h : devicePoll now record = .collect p) :
    ∃ r, record = some r ∧ r.denied = false ∧ r.tokenPlaintext = some p := by
  unfold devicePoll at h
  split at h
  · cases h
  · next r =>
    split at h
    · cases h
    · split at h
      · cases h
      · next hdenied =>
        split at h
        · cases h
        · split at h
          · cases h
          · next plaintext hplaintext =>
            obtain rfl : plaintext = p := by cases h; rfl
            exact ⟨r, rfl, by simpa using hdenied, hplaintext⟩

theorem devicePoll_not_approve {now : Time} {record : Option DeviceAuthorization} {m : Minted} :
    devicePoll now record ≠ .approve m := by
  unfold devicePoll
  split
  · simp
  · split_ifs <;> try simp
    split <;> simp

theorem deviceApprove_approve {now : Time} {identity : Identity} {payload : ApproveRequest}
    {record : Option DeviceAuthorization} {m : Minted}
    (h : deviceApprove now identity payload record = .approve m) :
    ScopesWithin { d with minted := [m] } := by
  unfold deviceApprove at h
  split at h
  · next user record huser hprimary =>
    split at h
    · cases h
    · split at h
      · cases h
      · split at h
        · cases h
        · cases h
          intro m hm
          obtain rfl := List.mem_singleton.mp hm
          refine ⟨huser, rfl, fun scope hscope => ?_⟩
          obtain ⟨hcli, hadmin, hpublish, htoken⟩ := grantedScopes_within hscope
          exact ⟨hcli, hadmin, hpublish, Identity.hasScope_of_isPrimary hprimary scope, htoken⟩
  · cases h
  · cases h

theorem deviceApprove_not_collect {now : Time} {identity : Identity} {payload : ApproveRequest}
    {record : Option DeviceAuthorization} {p : String} :
    deviceApprove now identity payload record ≠ .collect p := by
  unfold deviceApprove
  split
  · split_ifs <;> simp
  · simp
  · simp

theorem HandsOutApproved.append (h : d.HandsOutApproved) {e : DeviceEvent}
    (hhistory : d'.history = d.history ++ [e])
    (hcleared : ∀ p, e = .handedOut p → Cleared d.history p) : d'.HandsOutApproved := by
  intro before after p hsplit
  rw [hhistory] at hsplit
  rcases append_eq_split hsplit with ⟨after', hold⟩ | ⟨rfl, he⟩
  · exact h before after' p hold
  · exact hcleared p he.symm

theorem decided_decide {i j : Nat} {decision x : Decision}
    (h : (d.decide i decision).decided j = some x) : x = decision ∨ d.decided j = some x := by
  have hupdate : Function.update d.decided i (some decision) j = some x := h
  rcases eq_or_ne j i with rfl | hne
  · rw [Function.update_self] at hupdate
    exact .inl (Option.some.inj hupdate).symm
  · rw [Function.update_of_ne hne] at hupdate
    exact .inr hupdate

/-- What a handler reads is sound. -/
theorem Sound.decide (h : d.Sound) (i : Nat) {decision : Decision}
    (hcollect : ∀ p, decision = .collect p → Cleared d.history p)
    (happrove : ∀ m, decision = .approve m → ScopesWithin { d with minted := [m] }) :
    (d.decide i decision).Sound := by
  refine ⟨h.fresh, h.denied, h.approved, fun j p hj => ?_, fun j m hj => ?_, h.handsOut, h.scopes⟩
  · rcases decided_decide hj with hread | hold
    · exact hcollect p hread.symm
    · exact h.cleared j p hold
  · rcases decided_decide hj with hread | hold
    · exact happrove m hread.symm
    · exact h.bounded j m hold

/-- A handler that has ended commits nothing any more. -/
theorem Sound.forget (h : d.Sound) (i : Nat) :
    Sound { d with decided := Function.update d.decided i none } := by
  have hkept : ∀ j decision, Function.update d.decided i none j = some decision →
      d.decided j = some decision := by
    intro j decision hj
    rcases eq_or_ne j i with rfl | hne
    · rw [Function.update_self] at hj
      cases hj
    · rwa [Function.update_of_ne hne] at hj
  exact ⟨h.fresh, h.denied, h.approved, fun j p hj => h.cleared j p (hkept j _ hj),
    fun j m hj => h.bounded j m (hkept j _ hj), h.handsOut, h.scopes⟩

/-- The row is gone. -/
theorem Sound.gone (h : d.Sound) : Sound { d with record := none } where
  fresh hnew := ⟨rfl, (h.fresh hnew).2⟩
  denied _ hr := by cases hr
  approved _ _ hr := by cases hr
  cleared := h.cleared
  bounded := h.bounded
  handsOut := h.handsOut
  scopes := h.scopes

theorem apply_of_none (h : d.record = none) (decision : Decision) : d.apply decision = d := by
  cases decision with
  | remove reply =>
    unfold DeviceLogin.apply
    rw [← h]
  | _ => simp only [DeviceLogin.apply, h]

theorem started_of_record {p : Prop} {r : DeviceAuthorization}
    (hfresh : d.started = false → d.record = none ∧ p) (hrecord : d.record = some r) :
    d.started ≠ false := by
  intro hnew
  rw [(hfresh hnew).1] at hrecord
  cases hrecord

/-- A reaper takes the row or leaves it. -/
theorem filter_cases (record : Option DeviceAuthorization) (p : DeviceAuthorization → Bool) :
    record.filter p = record ∨ record.filter p = none := by
  rcases record with _ | r
  · exact .inl rfl
  · rw [Option.filter_some]
    split
    · exact .inl rfl
    · exact .inr rfl

theorem Sound.apply (h : d.Sound) {i : Nat} {decision : Decision}
    (hi : d.decided i = some decision) : (d.apply decision).Sound := by
  rcases hrecord : d.record with _ | r
  · rwa [apply_of_none hrecord]
  have hstarted := started_of_record h.fresh hrecord
  cases decision with
  | answer reply => exact h
  | remove reply => exact h.gone
  | collect p =>
    simp only [DeviceLogin.apply, hrecord]
    refine ⟨fun hnew => absurd hnew hstarted, fun r' hr' hdenied => ?_, fun r' q hr' hq => ?_,
      fun j q hj => (h.cleared j q hj).append _, h.bounded, ?_, h.scopes⟩
    · obtain rfl := Option.some.inj hr'
      have hnot := h.denied r hrecord hdenied
      simpa using hnot
    · obtain rfl := Option.some.inj hr'
      cases hq
    · exact h.handsOut.append rfl fun q hq => by cases hq; exact h.cleared i p hi
  | deny =>
    simp only [DeviceLogin.apply, hrecord]
    refine ⟨fun hnew => absurd hnew hstarted, fun r' hr' hdenied => ?_, fun r' q hr' hq => ?_,
      fun j q hj => (h.cleared j q hj).append _, h.bounded, ?_, h.scopes⟩
    · obtain rfl := Option.some.inj hr'
      cases hdenied
    · obtain rfl := Option.some.inj hr'
      exact List.mem_append_left _ (h.approved r q hrecord hq)
    · exact h.handsOut.append rfl fun q hq => by cases hq
  | approve m =>
    simp only [DeviceLogin.apply, hrecord]
    refine ⟨fun hnew => absurd hnew hstarted, fun r' hr' hdenied => ?_, fun r' q hr' hq => ?_,
      fun j q hj => (h.cleared j q hj).append _, h.bounded, ?_, fun m' hm' => ?_⟩
    · obtain rfl := Option.some.inj hr'
      have hnot := h.denied r hrecord hdenied
      simpa using hnot
    · obtain rfl := Option.some.inj hr'
      obtain rfl := Option.some.inj hq
      exact List.mem_append_right _ List.mem_cons_self
    · exact h.handsOut.append rfl fun q hq => by cases hq
    · rcases List.mem_append.mp hm' with hm' | hm'
      · exact h.scopes m' hm'
      · obtain rfl := List.mem_singleton.mp hm'
        exact h.bounded i m' hi m' List.mem_cons_self

/-- **Every step** hands out only what was approved. -/
theorem Sound.step (h : d.Sound) {a : DeviceAct} (hstep : d.step a = some d') : d'.Sound := by
  cases a with
  | start expiresAt requestedScopes =>
    unfold DeviceLogin.step at hstep
    dsimp only at hstep
    split at hstep
    · cases hstep
    · next hnew =>
      obtain rfl := Option.some.inj hstep
      obtain ⟨-, hhistory⟩ := h.fresh (by simpa using hnew)
      refine ⟨fun hstarted => by (cases hstarted), fun r hr _ => ?_, fun r p hr hp => ?_, h.cleared,
        h.bounded, h.handsOut, h.scopes⟩
      · dsimp only
        rw [hhistory]
        exact List.not_mem_nil
      · obtain rfl := Option.some.inj hr
        cases hp
  | poll i =>
    unfold DeviceLogin.step at hstep
    dsimp only at hstep
    split at hstep
    · cases hstep
    · obtain rfl := Option.some.inj hstep
      refine h.decide i (fun p hp => ?_) fun m hm => absurd hm devicePoll_not_approve
      obtain ⟨r, hr, hdenied, hplaintext⟩ := devicePoll_collect hp
      exact cleared_of_mem (h.approved r p hr hplaintext) (h.denied r hr hdenied)
  | approve i identity payload =>
    unfold DeviceLogin.step at hstep
    dsimp only at hstep
    split at hstep
    · cases hstep
    · obtain rfl := Option.some.inj hstep
      exact h.decide i (fun p hp => absurd hp deviceApprove_not_collect)
        fun m hm => deviceApprove_approve hm
  | commit i =>
    obtain ⟨decision, hi, rfl⟩ := Option.map_eq_some_iff.mp hstep
    have hkept : (d.apply decision).decided = d.decided := by
      cases decision <;> unfold DeviceLogin.apply <;> dsimp only <;> split <;> rfl
    rw [← hkept]
    exact (h.apply hi).forget i
  | abort i =>
    obtain rfl := Option.some.inj hstep
    exact h.forget i
  | reap =>
    obtain rfl := Option.some.inj hstep
    rcases filter_cases d.record fun r => !(r.expiresAt < d.clock) with hkept | hgone
    · rwa [hkept]
    · rw [hgone]
      exact h.gone
  | tick elapsed =>
    obtain rfl := Option.some.inj hstep
    exact ⟨h.fresh, h.denied, h.approved, h.cleared, h.bounded, h.handsOut, h.scopes⟩

/-! ## Runs whose commits are alone -/

/-- One token, and one poll that gets it. -/
structure Counted (d : DeviceLogin) : Prop where
  fresh : d.started = false → d.record = none ∧ d.minted = []
  unapproved : ∀ r, d.record = some r → r.approvedAt = none → d.minted = []
  minted : d.minted.length ≤ 1
  held : ∀ r, d.record = some r → r.tokenPlaintext ≠ none → d.handedOut < d.minted.length
  handed : d.handedOut ≤ d.minted.length

theorem handedOut_append (d : DeviceLogin) (e : DeviceEvent) (record : Option DeviceAuthorization)
    (minted : List Minted) :
    handedOut { d with record := record, minted := minted, history := d.history ++ [e] } =
      d.handedOut + (if e matches .handedOut _ then 1 else 0) := by
  unfold handedOut
  rw [List.countP_append, List.countP_singleton]

theorem Counted.gone (h : d.Counted) : Counted { d with record := none } where
  fresh hnew := ⟨rfl, (h.fresh hnew).2⟩
  unapproved _ hr := by cases hr
  minted := h.minted
  held _ hr := by cases hr
  handed := h.handed

theorem Counted.apply (h : d.Counted) {i : Nat} {decision : Decision}
    (hi : d.decided i = some decision) (halone : d.Alone (.commit i)) :
    (d.apply decision).Counted := by
  rcases hrecord : d.record with _ | r
  · rwa [apply_of_none hrecord]
  have hstarted := started_of_record h.fresh hrecord
  cases decision with
  | answer reply => exact h
  | remove reply => exact h.gone
  | collect p =>
    simp only [DeviceLogin.apply, hrecord]
    -- the plaintext is there, so it has not been handed out
    have hheld := h.held r hrecord ((halone i r rfl hrecord).1 p hi)
    have hcount := handedOut_append d (.handedOut p)
      (some { r with tokenPlaintext := none, collectedAt := some d.clock }) d.minted
    refine ⟨fun hnew => absurd hnew hstarted, fun r' hr' hnone => ?_, h.minted, fun r' hr' hsome => ?_, ?_⟩
    · obtain rfl := Option.some.inj hr'
      exact h.unapproved r hrecord hnone
    · obtain rfl := Option.some.inj hr'
      exact absurd rfl hsome
    · rw [hcount]
      exact hheld
  | deny =>
    simp only [DeviceLogin.apply, hrecord]
    have hcount := handedOut_append d .denied (some { r with denied := true }) d.minted
    refine ⟨fun hnew => absurd hnew hstarted, fun r' hr' hnone => ?_, h.minted, fun r' hr' hsome => ?_, ?_⟩
    · obtain rfl := Option.some.inj hr'
      exact h.unapproved r hrecord hnone
    · obtain rfl := Option.some.inj hr'
      rw [hcount]
      exact h.held r hrecord hsome
    · rw [hcount]
      exact h.handed
  | approve m =>
    simp only [DeviceLogin.apply, hrecord]
    -- nobody has approved yet, so no token is there and none was handed out
    have hempty := h.unapproved r hrecord ((halone i r rfl hrecord).2 m hi)
    have hnone : d.handedOut = 0 := by
      have hhanded := h.handed
      rw [hempty] at hhanded
      exact Nat.le_zero.mp hhanded
    have hlength : (d.minted ++ [m]).length = 1 := by rw [hempty]; rfl
    have hcount := handedOut_append d (.approved m.plaintext)
      (some { r with
        approvedUserId := some m.approver.id
        approvedAt := some d.clock
        tokenId := some m.token.id
        tokenPlaintext := some m.plaintext }) (d.minted ++ [m])
    refine ⟨fun hnew => absurd hnew hstarted, fun r' hr' hunapproved => ?_, hlength.le, fun r' hr' _ => ?_, ?_⟩
    · obtain rfl := Option.some.inj hr'
      cases hunapproved
    · rw [hcount, hnone]
      exact hlength ▸ Nat.zero_lt_one
    · rw [hcount, hnone]
      exact Nat.zero_le _

theorem Counted.step (h : d.Counted) {a : DeviceAct} (halone : d.Alone a)
    (hstep : d.step a = some d') : d'.Counted := by
  cases a with
  | start expiresAt requestedScopes =>
    unfold DeviceLogin.step at hstep
    dsimp only at hstep
    split at hstep
    · cases hstep
    · next hnew =>
      obtain rfl := Option.some.inj hstep
      obtain ⟨-, hminted⟩ := h.fresh (by simpa using hnew)
      refine ⟨fun hstarted => by (cases hstarted), fun r hr _ => hminted, h.minted,
        fun r hr hsome => ?_, h.handed⟩
      obtain rfl := Option.some.inj hr
      exact absurd rfl hsome
  | poll | approve =>
    unfold DeviceLogin.step at hstep
    dsimp only at hstep
    split at hstep
    · cases hstep
    · obtain rfl := Option.some.inj hstep
      exact ⟨h.fresh, h.unapproved, h.minted, h.held, h.handed⟩
  | commit i =>
    obtain ⟨decision, hi, rfl⟩ := Option.map_eq_some_iff.mp hstep
    have happlied := h.apply hi halone
    exact ⟨happlied.fresh, happlied.unapproved, happlied.minted, happlied.held, happlied.handed⟩
  | reap =>
    obtain rfl := Option.some.inj hstep
    rcases filter_cases d.record fun r => !(r.expiresAt < d.clock) with hkept | hgone
    · rwa [hkept]
    · rw [hgone]
      exact h.gone
  | abort | tick =>
    obtain rfl := Option.some.inj hstep
    exact ⟨h.fresh, h.unapproved, h.minted, h.held, h.handed⟩

end DeviceLogin

/-- **What a login hands out**: in every run only what was approved and within its scopes, and where
the commits are alone one token to one poll. -/
theorem deviceLogin_once {d e : DeviceLogin} (hd : deviceLogin.Reach (fun _ _ => True) d)
    (he : deviceLogin.Reach DeviceLogin.Alone e) :
    d.HandsOutApproved ∧ d.ScopesWithin ∧ e.handedOut ≤ 1 ∧ e.minted.length ≤ 1 := by
  have hsound : d.Sound := by
    refine hd.invariant (fun d hinit => ?_) fun d a d' hsound _ hstep => hsound.step hstep
    obtain ⟨-, hrecord, hdecided, hminted, hhistory⟩ := hinit
    refine ⟨fun _ => ⟨hrecord, hhistory⟩, fun r hr => ?_, fun r p hr => ?_, fun i p hi => ?_,
      fun i m hi => ?_, fun before after p hsplit => ?_, fun m hm => ?_⟩
    · rw [hrecord] at hr
      cases hr
    · rw [hrecord] at hr
      cases hr
    · rw [hdecided] at hi
      cases hi
    · rw [hdecided] at hi
      cases hi
    · rw [hhistory] at hsplit
      simp at hsplit
    · rw [hminted] at hm
      cases hm
  have hcounted : e.Counted := by
    refine he.invariant (fun e hinit => ?_) fun e a e' hcounted halone hstep =>
      hcounted.step halone hstep
    obtain ⟨-, hrecord, -, hminted, hhistory⟩ := hinit
    have hnone : e.handedOut = 0 := by
      unfold DeviceLogin.handedOut
      rw [hhistory]
      rfl
    refine ⟨fun _ => ⟨hrecord, hminted⟩, fun r hr => ?_, ?_, fun r hr => ?_, ?_⟩
    · rw [hrecord] at hr
      cases hr
    · rw [hminted]
      exact Nat.zero_le 1
    · rw [hrecord] at hr
      cases hr
    · rw [hnone]
      exact Nat.zero_le _
  exact ⟨hsound.handsOut, hsound.scopes, hcounted.handed.trans hcounted.minted, hcounted.minted⟩

/-- Somebody who may publish, in a browser session. -/
def demoApprover : Identity where
  user := some { id := 1, username := "ada", canPublish := true }
  method := .session

def approveWith (plaintext : String) : ApproveRequest where
  scopes := ["publish"]
  tokenId := 5
  plaintext := plaintext

/-- The login is approved and polled for, and polled for again. -/
def oneLogin : List DeviceAct :=
  [.start 600 ["publish"], .approve 0 demoApprover (approveWith "mrg_a"), .commit 0, .poll 1,
   .commit 1, .poll 2, .commit 2]

/-- `Alone`, to be evaluated. -/
def DeviceLogin.taken (d : DeviceLogin) : DeviceAct → Bool
  | .commit i =>
    match d.decided i, d.record with
    | some (.collect _), some record => record.tokenPlaintext.isSome
    | some (.approve _), some record => record.approvedAt.isNone
    | _, _ => true
  | _ => true

theorem DeviceLogin.alone_of_taken {d : DeviceLogin} {a : DeviceAct} (h : d.taken a = true) :
    d.Alone a := by
  intro i record ha hrecord
  subst ha
  unfold taken at h
  dsimp only at h
  rw [hrecord] at h
  refine ⟨fun plaintext hi hnone => ?_, fun minted hi => ?_⟩
  · rw [hi] at h
    simp [hnone] at h
  · rw [hi] at h
    simpa using h

theorem deviceLogin_once_demo : ∃ e : DeviceLogin,
    e.handedOut = 1 ∧ e.minted.length = 1 ∧ e.handedOut ≤ 1 ∧ e.HandsOutApproved := by
  have hrun : ∃ e : DeviceLogin,
      oneLogin.foldlM (fun (d : DeviceLogin) a => if d.taken a then d.step a else none) {} = some e ∧
      e.handedOut = 1 ∧ e.minted.length = 1 := ⟨_, rfl, by decide, by decide⟩
  obtain ⟨e, hexec, hhanded, hminted⟩ := hrun
  have hreach : deviceLogin.Reach DeviceLogin.Alone e :=
    System.Reach.exec (fun _ _ _ hstep => by
      obtain ⟨htaken, hstep⟩ := Option.ite_none_right_eq_some.mp hstep
      exact ⟨DeviceLogin.alone_of_taken htaken, hstep⟩) (.init ⟨rfl, rfl, rfl, rfl, rfl⟩) hexec
  have honce := deviceLogin_once (hreach.mono fun _ _ _ => trivial) hreach
  exact ⟨e, hhanded, hminted, honce.2.2.1, honce.1⟩

/-- Two polls read the plaintext before either has committed. -/
def twoPolls : List DeviceAct :=
  [.start 600 ["publish"], .approve 0 demoApprover (approveWith "mrg_a"), .commit 0, .poll 1,
   .poll 2, .commit 1, .commit 2]

/-- Two approvals read the row before either has committed. -/
def twoApprovals : List DeviceAct :=
  [.start 600 ["publish"], .approve 0 demoApprover (approveWith "mrg_a"),
   .approve 1 demoApprover (approveWith "mrg_b"), .commit 0, .commit 1]

theorem deviceLogin_twice :
    (∃ d, deviceLogin.Reach (fun _ _ => True) d ∧ d.handedOut = 2) ∧
      ∃ d, deviceLogin.Reach (fun _ _ => True) d ∧ d.minted.length = 2 := by
  constructor
  · have hrun : ∃ d, twoPolls.foldlM DeviceLogin.step {} = some d ∧ d.handedOut = 2 :=
      ⟨_, rfl, by decide⟩
    obtain ⟨d, hexec, hhanded⟩ := hrun
    exact ⟨d, System.Reach.exec (fun _ _ _ hstep => ⟨trivial, hstep⟩)
      (.init ⟨rfl, rfl, rfl, rfl, rfl⟩) hexec, hhanded⟩
  · have hrun : ∃ d, twoApprovals.foldlM DeviceLogin.step {} = some d ∧ d.minted.length = 2 :=
      ⟨_, rfl, by decide⟩
    obtain ⟨d, hexec, hminted⟩ := hrun
    exact ⟨d, System.Reach.exec (fun _ _ _ hstep => ⟨trivial, hstep⟩)
      (.init ⟨rfl, rfl, rfl, rfl, rfl⟩) hexec, hminted⟩

end Minireg.Auth
