import Mathlib.Data.Rat.Floor
import Minireg.Core.SemverBounds
import Minireg.Py.Fnmatch
import Minireg.Upstreams.Base

/-!
# Rules and the CVE policy

`evaluate` judges one subject: block rules first, then allowlist mode, then the
CVE policy. `Admits` is what the three mean together, with no order of rules in
it; `evaluate_allowed_iff` says a verdict is that, and the laws of the decision
follow from it.
-/

namespace Minireg

open Py Semver

/-! ## Rules -/

inductive RuleAction where
  | allow | block
  deriving DecidableEq, Repr

/-- A `package_rules` row. -/
structure PackageRule where
  id : Nat
  ecosystem : Option Ecosystem := none
  pattern : String
  action : RuleAction
  versionSpec : Option String := none
  reason : Option String := none
  enabled : Bool := true
  deriving DecidableEq, Repr

/-- Outside the policy engine: the case maps, and `packaging`'s specifier sets.
`specifierContains spec version` is `none` where either does not parse. -/
structure PolicyEnv where
  caseMap : CaseMap
  specifierContains : String → String → Option Bool

section Matching

variable (env : PolicyEnv) (eco : Ecosystem)

/-- `_normalize_pattern`. -/
def normalizePattern (pattern : String) : String :=
  let base := env.caseMap.lower (strip pattern)
  if eco = .pypi then String.ofList (collapseSeps false base.toList) else base

/-- `_matches_name`. -/
def matchesName (pattern normalizedName : String) : Bool :=
  Fnmatch.fnmatchcase normalizedName (normalizePattern env eco pattern)

/-- `_matches_version`. -/
def matchesVersion (spec : Option String) (version : Option String) : Except ValueError Bool :=
  if spec.getD "" = "" then .ok true
  else match version with
    | none => .ok false
    | some version => do
      let spec := strip (spec.getD "")
      if spec = "*" || spec = "x" || spec = "X" then return true
      else if eco = .pypi then
        return (env.specifierContains spec version).getD (Fnmatch.fnmatchcase version spec)
      else if ← isValidRange spec then satisfies version spec true
      else return version = spec || Fnmatch.fnmatchcase version spec

end Matching

/-! ## The CVE policy -/

structure CvePolicy where
  enabled : Bool := false
  minScore : Rat := 7
  maxScore : Rat := 10
  blockUnscored : Bool := false
  requireFixAvailable : Bool := false
  deriving DecidableEq, Repr

/-- `CvePolicy.blocks`. -/
def CvePolicy.blocks (policy : CvePolicy) (score : Option Rat) (scanned : Bool)
    (hasAdvisories : Option Bool) : Bool :=
  if !policy.enabled then false
  else match score with
    | none => policy.blockUnscored
    | some score =>
      if !scanned then policy.blockUnscored
      else if score = 0 && !hasAdvisories.getD false then false
      else policy.minScore ≤ score && score ≤ policy.maxScore

/-- `round(q)`: the nearest integer, a tie going to the even one. -/
def roundHalfEven (q : Rat) : Int :=
  let f := q.floor
  if q - f < 1 / 2 ∨ q - f = 1 / 2 ∧ f % 2 = 0 then f else f + 1

/-- `f"{score:.1f}"`, of a score that is not negative. -/
def fixed1 (score : Rat) : String :=
  let tenths := (roundHalfEven (score * 10)).toNat
  toString (tenths / 10) ++ "." ++ toString (tenths % 10)

/-! ## The engine -/

structure Verdict where
  allowed : Bool
  reason : Option String := none
  ruleId : Option Nat := none
  source : Option String := none
  deriving DecidableEq, Repr

/-- `ALLOWED`. -/
def Verdict.allow : Verdict := { allowed := true }

/-- The stored rules and the two settings the engine reads. -/
structure PolicyEngine where
  rules : List PackageRule := []
  allowlistMode : Bool := false
  cvePolicy : CvePolicy := {}
  deriving DecidableEq, Repr

/-- `_load_rules`: only enabled rules are loaded. -/
def PolicyEngine.loadRules (engine : PolicyEngine) : List PackageRule :=
  engine.rules.filter PackageRule.enabled

/-- What is judged: a name and, below it, one version with its stored facts. -/
structure Subject where
  ecosystem : Ecosystem
  normalizedName : String
  version : Option String := none
  maxCvss : Option Rat := none
  hasFix : Bool := false
  scanned : Bool := true
  hasAdvisories : Option Bool := none
  malicious : Bool := false
  nameLevel : Bool := false
  deriving DecidableEq, Repr

section Evaluation

variable (env : PolicyEnv) (engine : PolicyEngine) (s : Subject)

/-- The rules that apply to the subject's ecosystem. -/
def applicable : List PackageRule :=
  engine.loadRules.filter fun r => r.ecosystem = none || r.ecosystem = some s.ecosystem

/-- Whether a rule's pattern covers the subject's name. -/
def coversName (r : PackageRule) : Bool :=
  matchesName env s.ecosystem r.pattern (env.caseMap.lower s.normalizedName)

/-- One turn of the block loop. -/
def blocksSubject (r : PackageRule) : Except ValueError Bool :=
  if r.action = .block && coversName env s r then
    matchesVersion env s.ecosystem r.versionSpec s.version
  else .ok false

/-- One turn of the allow loop. At name level a version-scoped rule allows the package. -/
def allowsSubject (r : PackageRule) : Except ValueError Bool :=
  if r.action = .allow && coversName env s r then
    if s.nameLevel then .ok true else matchesVersion env s.ecosystem r.versionSpec s.version
  else .ok false

/-- The CVE part of `evaluate`. -/
def cveVerdict (policy : CvePolicy) : Verdict :=
  if s.version.isSome && policy.enabled && s.malicious then
    { allowed := false
      reason := some ("blocked by CVE policy: an OSV malicious-package advisory " ++
        "names this version as malware")
      source := some "cve" }
  else if s.version.isSome && policy.blocks s.maxCvss s.scanned s.hasAdvisories then
    if !s.scanned then
      { allowed := false
        reason := some ("package has not been scanned for CVEs and unscanned " ++
          "packages are blocked")
        source := some "cve" }
    else match s.maxCvss with
      | none =>
        { allowed := false
          reason := some ("package has advisories with no published severity and " ++
            "unscored packages are blocked")
          source := some "cve" }
      | some score =>
        if policy.requireFixAvailable && !s.hasFix then .allow
        else
          { allowed := false
            reason := some ("blocked by CVE policy: highest CVSS " ++ fixed1 score ++
              " falls within the blocked range " ++ fixed1 policy.minScore ++ "-" ++
              fixed1 policy.maxScore)
            source := some "cve" }
  else .allow

/-- The allow loop, where allowlist mode is on. -/
def onAllowlist : Except ValueError Bool :=
  if !engine.allowlistMode then .ok true
  else ((applicable engine s).findM? (allowsSubject env s)).map Option.isSome

/-- `PolicyEngine.evaluate`. -/
def evaluate : Except ValueError Verdict := do
  match ← (applicable engine s).findM? (blocksSubject env s) with
  | some rule =>
    return { allowed := false
             reason := if rule.reason.getD "" ≠ "" then rule.reason
               else some ("blocked by rule '" ++ rule.pattern ++ "'")
             ruleId := some rule.id
             source := some "block_rule" }
  | none =>
    if !(← onAllowlist env engine s) then
      return { allowed := false
               reason := some "allowlist mode is enabled and this package is not on the allowlist"
               source := some "allowlist" }
    else return cveVerdict s engine.cvePolicy

end Evaluation

/-- `is_name_blocked`: the subject is the package as a whole. -/
def isNameBlocked (env : PolicyEnv) (engine : PolicyEngine) (eco : Ecosystem)
    (normalizedName : String) : Except ValueError Verdict :=
  evaluate env engine
    { ecosystem := eco, normalizedName := normalizedName, nameLevel := true }

/-! ## What a decision means -/

/-- A search that returns: what it finds answers yes, and where it finds nothing all answer no. -/
theorem findM?_ok {α ε : Type} {p : α → Except ε Bool} {l : List α} {o : Option α}
    (h : l.findM? p = .ok o) :
    (o = none ↔ ∀ a ∈ l, p a ≠ .ok true) ∧ (o = none → ∀ a ∈ l, p a = .ok false) := by
  induction l with
  | nil =>
    obtain rfl : none = o := Except.ok.inj h
    exact ⟨⟨fun _ a ha => absurd ha List.not_mem_nil, fun _ => rfl⟩,
      fun _ a ha => absurd ha List.not_mem_nil⟩
  | cons a l ih =>
    rw [List.findM?] at h
    rcases hp : p a with e | b
    · rw [hp] at h
      cases h
    · rw [hp] at h
      cases b with
      | true =>
        obtain rfl : some a = o := Except.ok.inj h
        have hne := Option.some_ne_none a
        exact ⟨⟨fun hnone => absurd hnone hne, fun hall => absurd hp (hall a List.mem_cons_self)⟩,
          fun hnone => absurd hnone hne⟩
      | false =>
        obtain ⟨hiff, hfalse⟩ := ih h
        constructor
        · rw [hiff, List.forall_mem_cons]
          exact ⟨fun hall => ⟨by simp [hp], hall⟩, And.right⟩
        · intro ho b hb
          rcases List.mem_cons.mp hb with rfl | hb
          · exact hp
          · exact hfalse ho b hb

section Meaning

variable {env : PolicyEnv} {engine : PolicyEngine} {s : Subject}

/-- A rule of the engine that blocks the subject. -/
def Blocked (env : PolicyEnv) (engine : PolicyEngine) (s : Subject) : Prop :=
  ∃ r ∈ applicable engine s, blocksSubject env s r = .ok true

/-- A rule of the engine that puts the subject on the allowlist. -/
def Listed (env : PolicyEnv) (engine : PolicyEngine) (s : Subject) : Prop :=
  ∃ r ∈ applicable engine s, allowsSubject env s r = .ok true

/-- What the rules and the two settings admit, whatever the order of the rules. -/
structure Admits (env : PolicyEnv) (engine : PolicyEngine) (s : Subject) : Prop where
  notBlocked : ¬ Blocked env engine s
  listed : engine.allowlistMode = true → Listed env engine s
  cve : (cveVerdict s engine.cvePolicy).allowed = true

theorem onAllowlist_ok {b : Bool} (h : onAllowlist env engine s = .ok b) :
    b = true ↔ (engine.allowlistMode = true → Listed env engine s) := by
  unfold onAllowlist at h
  rcases hmode : engine.allowlistMode with _ | _
  · rw [hmode] at h
    obtain rfl : true = b := Except.ok.inj h
    exact ⟨fun _ => nofun, fun _ => rfl⟩
  · rw [hmode, if_neg (by decide)] at h
    rcases hfind : (applicable engine s).findM? (allowsSubject env s) with e | found
    · rw [hfind] at h
      cases h
    · rw [hfind] at h
      obtain rfl : found.isSome = b := Except.ok.inj h
      have hnone := (findM?_ok hfind).1
      rw [Option.isSome_iff_ne_none, Ne, hnone]
      unfold Listed
      push Not
      exact ⟨fun hex _ => hex, fun hex => hex rfl⟩

/-- **A verdict is what the rules and settings admit.** -/
theorem evaluate_allowed_iff {v : Verdict} (h : evaluate env engine s = .ok v) :
    v.allowed = true ↔ Admits env engine s := by
  unfold evaluate at h
  rcases hblock : (applicable engine s).findM? (blocksSubject env s) with e | found
  · rw [hblock] at h
    cases h
  rw [hblock] at h
  obtain ⟨hnone, -⟩ := findM?_ok hblock
  cases found with
  | some r =>
    obtain rfl := Except.ok.inj h
    refine ⟨nofun, fun hadm => absurd ?_ hadm.notBlocked⟩
    by_contra hno
    exact absurd (hnone.mpr fun a ha hblocks => hno ⟨a, ha, hblocks⟩) nofun
  | none =>
    have hblocked : ¬ Blocked env engine s := fun ⟨a, ha, hblocks⟩ => hnone.mp rfl a ha hblocks
    rcases hlist : onAllowlist env engine s with e | b
    · rw [hlist] at h
      cases h
    rw [hlist] at h
    have hlisted := onAllowlist_ok hlist
    cases b with
    | false =>
      obtain rfl := Except.ok.inj h
      exact ⟨nofun, fun hadm => absurd (hlisted.mpr hadm.listed) nofun⟩
    | true =>
      obtain rfl : cveVerdict s engine.cvePolicy = v := Except.ok.inj h
      exact ⟨fun hcve => ⟨hblocked, hlisted.mp rfl, hcve⟩, Admits.cve⟩

/-! ## The laws of the decision -/

/-- The allowed bit, where the evaluation returns. -/
def allowedBit (env : PolicyEnv) (engine : PolicyEngine) (s : Subject) : Option Bool :=
  (evaluate env engine s).toOption.map Verdict.allowed

theorem allowedBit_some {b : Bool} (h : allowedBit env engine s = some b) :
    b = true ↔ Admits env engine s := by
  unfold allowedBit at h
  rcases hv : evaluate env engine s with e | v
  · rw [hv] at h
    cases h
  · rw [hv] at h
    obtain rfl : v.allowed = b := Option.some.inj h
    exact evaluate_allowed_iff hv

theorem mem_applicable {r : PackageRule} : r ∈ applicable engine s ↔
    r ∈ engine.rules ∧ r.enabled = true ∧ (r.ecosystem = none ∨ r.ecosystem = some s.ecosystem) := by
  unfold applicable PolicyEngine.loadRules
  rw [List.mem_filter, List.mem_filter, and_assoc]
  simp

/-- More rules block more. -/
theorem Blocked.mono {engine' : PolicyEngine} (hsub : engine.rules ⊆ engine'.rules)
    (h : Blocked env engine s) : Blocked env engine' s := by
  obtain ⟨r, hr, hblocks⟩ := h
  obtain ⟨hin, hrest⟩ := mem_applicable.mp hr
  exact ⟨r, mem_applicable.mpr ⟨hsub hin, hrest⟩, hblocks⟩

/-- More rules list more. -/
theorem Listed.mono {engine' : PolicyEngine} (hsub : engine.rules ⊆ engine'.rules)
    (h : Listed env engine s) : Listed env engine' s := by
  obtain ⟨r, hr, hallows⟩ := h
  obtain ⟨hin, hrest⟩ := mem_applicable.mp hr
  exact ⟨r, mem_applicable.mpr ⟨hsub hin, hrest⟩, hallows⟩

/-- A rule of the other kind has no say in the block loop. -/
theorem Blocked.of_cons {engine' : PolicyEngine} {r : PackageRule} (hallow : r.action = .allow)
    (hsub : engine'.rules ⊆ r :: engine.rules) (h : Blocked env engine' s) :
    Blocked env engine s := by
  obtain ⟨b, hb, hblocks⟩ := h
  obtain ⟨hin, hrest⟩ := mem_applicable.mp hb
  rcases List.mem_cons.mp (hsub hin) with rfl | hin
  · simp [blocksSubject, hallow] at hblocks
  · exact ⟨b, mem_applicable.mpr ⟨hin, hrest⟩, hblocks⟩

theorem Listed.of_cons {engine' : PolicyEngine} {r : PackageRule} (hblock : r.action = .block)
    (hsub : engine'.rules ⊆ r :: engine.rules) (h : Listed env engine' s) :
    Listed env engine s := by
  obtain ⟨a, ha, hallows⟩ := h
  obtain ⟨hin, hrest⟩ := mem_applicable.mp ha
  rcases List.mem_cons.mp (hsub hin) with rfl | hin
  · simp [allowsSubject, hblock] at hallows
  · exact ⟨a, mem_applicable.mpr ⟨hin, hrest⟩, hallows⟩

/-- The order of the rules does not matter. -/
theorem Admits.perm {rules : List PackageRule} (hperm : engine.rules.Perm rules)
    (h : Admits env engine s) : Admits env { engine with rules := rules } s where
  notBlocked hblocked := h.notBlocked (hblocked.mono hperm.symm.subset)
  listed hmode := (h.listed hmode).mono hperm.subset
  cve := h.cve

/-- What a longer list with one more block rule admits, the shorter one admits. -/
theorem Admits.without_block {rules : List PackageRule} {r : PackageRule}
    (hperm : rules.Perm (r :: engine.rules)) (hblock : r.action = .block)
    (h : Admits env { engine with rules := rules } s) : Admits env engine s where
  notBlocked hblocked := h.notBlocked
    (hblocked.mono fun _ hr => hperm.symm.subset (List.mem_cons_of_mem _ hr))
  listed hmode := (h.listed hmode).of_cons hblock hperm.subset
  cve := h.cve

/-- One more allow rule takes nothing away. -/
theorem Admits.with_allow {rules : List PackageRule} {r : PackageRule}
    (hperm : rules.Perm (r :: engine.rules)) (hallow : r.action = .allow)
    (h : Admits env engine s) : Admits env { engine with rules := rules } s where
  notBlocked hblocked := h.notBlocked (hblocked.of_cons hallow hperm.subset)
  listed hmode := (h.listed hmode).mono fun _ hr =>
    hperm.symm.subset (List.mem_cons_of_mem _ hr)
  cve := h.cve

/-- Malware is refused while the CVE policy is on. -/
theorem not_admits_malicious (hversion : s.version.isSome = true) (hmalicious : s.malicious = true)
    (henabled : engine.cvePolicy.enabled = true) : ¬ Admits env engine s := by
  intro h
  have hcve := h.cve
  unfold cveVerdict at hcve
  rw [if_pos (by simp [hversion, hmalicious, henabled])] at hcve
  cases hcve

/-! ## When the evaluation returns -/

theorem strip_length (t : String) : (strip t).length ≤ t.length := by
  unfold strip
  rw [String.length_ofList, ← String.length_toList]
  exact stripChars_length t.toList

/-- The widths of the columns: a spec has at most 255 characters, a version at most 128. -/
def FitsColumns (engine : PolicyEngine) (s : Subject) : Prop :=
  (∀ r ∈ engine.rules, (r.versionSpec.getD "").length ≤ 255) ∧ (s.version.getD "").length ≤ 128

theorem matchesVersion_returns {eco : Ecosystem} {spec version : Option String}
    (hspec : (spec.getD "").length ≤ 255) (hversion : (version.getD "").length ≤ 128) :
    Returns (matchesVersion env eco spec version) := by
  have hstrip := (strip_length (spec.getD "")).trans hspec
  have hmax : maxRangeLength = 2000 ∧ maxStrDigits = 4300 := ⟨rfl, rfl⟩
  unfold matchesVersion
  split
  · exact Avoids.ok _
  · rcases version with _ | version
    · exact Avoids.ok _
    · dsimp only
      split
      · exact Avoids.ok _
      · split
        · exact Avoids.ok _
        · refine (isValidRange_returns (by omega)).bind fun valid _ => ?_
          split
          · exact satisfies_returns (hversion.trans (by omega)) (by omega)
          · exact Avoids.ok _

/-- Stored rules and versions never make the evaluation raise. -/
theorem evaluate_returns (h : FitsColumns engine s) : Returns (evaluate env engine s) := by
  have hturn : ∀ r ∈ applicable engine s,
      Returns (matchesVersion env s.ecosystem r.versionSpec s.version) := fun r hr =>
    matchesVersion_returns (h.1 r (mem_applicable.mp hr).1) h.2
  have hblock : Returns ((applicable engine s).findM? (blocksSubject env s)) :=
    Avoids.findM? fun r hr => by
      unfold blocksSubject
      split
      · exact hturn r hr
      · exact Avoids.ok _
  have hlist : Returns (onAllowlist env engine s) := by
    unfold onAllowlist
    split
    · exact Avoids.ok _
    · refine (Avoids.findM? fun r hr => ?_).map
      unfold allowsSubject
      split
      · split
        · exact Avoids.ok _
        · exact hturn r hr
      · exact Avoids.ok _
  unfold evaluate
  refine hblock.bind fun found _ => ?_
  rcases found with _ | r
  · refine hlist.bind fun b _ => ?_
    cases b <;> exact Avoids.ok _
  · exact Avoids.ok _

theorem allowedBit_isSome (h : FitsColumns engine s) : (allowedBit env engine s).isSome = true := by
  have hreturns : Returns (evaluate env engine s) := evaluate_returns h
  obtain ⟨v, hv⟩ := hreturns.exists_ok
  unfold allowedBit
  rw [hv]
  rfl

/-! ## The decision -/

/-- **The laws of the decision.** The bit does not depend on the order of the rules; one more block
rule allows nothing new, and one that matches refuses; one more allow rule, or allowlist mode off,
refuses nothing new; malware is refused while the CVE policy is on. Stored rules and versions
always get a bit. -/
theorem evaluate_laws (env : PolicyEnv) (engine : PolicyEngine) (s : Subject) :
    (∀ rules, engine.rules.Perm rules → ∀ b b', allowedBit env engine s = some b →
      allowedBit env { engine with rules := rules } s = some b' → b = b') ∧
    (∀ rules r, r.action = .block → rules.Perm (r :: engine.rules) →
      allowedBit env engine s = some false →
        allowedBit env { engine with rules := rules } s ≠ some true) ∧
    (∀ r ∈ engine.rules, r.enabled = true → r.action = .block →
      (r.ecosystem = none ∨ r.ecosystem = some s.ecosystem) → coversName env s r = true →
      matchesVersion env s.ecosystem r.versionSpec s.version = .ok true →
        allowedBit env engine s ≠ some true) ∧
    (∀ rules r, r.action = .allow → rules.Perm (r :: engine.rules) →
      allowedBit env engine s = some true →
        allowedBit env { engine with rules := rules } s ≠ some false) ∧
    (allowedBit env engine s = some true →
      allowedBit env { engine with allowlistMode := false } s ≠ some false) ∧
    (s.version.isSome = true → s.malicious = true → engine.cvePolicy.enabled = true →
      allowedBit env engine s ≠ some true) ∧
    (FitsColumns engine s → (allowedBit env engine s).isSome = true) := by
  refine ⟨?_, ?_, ?_, ?_, ?_, ?_, allowedBit_isSome⟩
  · intro rules hperm b b' hb hb'
    have hiff : Admits env engine s ↔ Admits env { engine with rules := rules } s :=
      ⟨Admits.perm hperm, @Admits.perm env { engine with rules := rules } s _ hperm.symm⟩
    rw [Bool.eq_iff_iff, allowedBit_some hb, allowedBit_some hb', hiff]
  · intro rules r hblock hperm hdenied hallowed
    have hadmits := ((allowedBit_some hallowed).mp rfl).without_block hperm hblock
    exact absurd ((allowedBit_some hdenied).mpr hadmits) nofun
  · intro r hr henabled hblock heco hname hmatch hallowed
    refine ((allowedBit_some hallowed).mp rfl).notBlocked
      ⟨r, mem_applicable.mpr ⟨hr, henabled, heco⟩, ?_⟩
    unfold blocksSubject
    rw [if_pos (by simp [hblock, hname]), hmatch]
  · intro rules r hallow hperm hallowed hdenied
    have hadmits := ((allowedBit_some hallowed).mp rfl).with_allow hperm hallow
    exact absurd ((allowedBit_some hdenied).mpr hadmits) nofun
  · intro hallowed hdenied
    obtain ⟨hblocked, -, hcve⟩ := (allowedBit_some hallowed).mp rfl
    exact absurd ((allowedBit_some hdenied).mpr ⟨hblocked, nofun, hcve⟩) nofun
  · intro hversion hmalicious henabled hallowed
    exact not_admits_malicious hversion hmalicious henabled ((allowedBit_some hallowed).mp rfl)

/-- Specifier sets that match nothing, for packages that are not PyPI's. -/
def npmEnv : PolicyEnv where
  caseMap := .ascii
  specifierContains _ _ := none

def blockOldLog : PackageRule :=
  { id := 2, pattern := "@corp/log", action := .block, versionSpec := some "<2.1.0" }

/-- A listed scope in which the old releases of one package are blocked. -/
def corpEngine : PolicyEngine where
  rules := [{ id := 1, pattern := "@corp/*", action := .allow }, blockOldLog]
  allowlistMode := true
  cvePolicy := { enabled := true }

def corpLog (version : String) : Subject :=
  { ecosystem := .npm, normalizedName := "@corp/log", version := some version, maxCvss := some 0 }

example : allowedBit npmEnv corpEngine (corpLog "2.1.0") = some true := by decide +kernel

/-- A matching block rule refuses a listed release, wherever it stands in the list. -/
theorem evaluate_laws_corpLog :
    allowedBit npmEnv corpEngine (corpLog "2.0.9") = some false ∧
      allowedBit npmEnv { corpEngine with rules := corpEngine.rules.reverse } (corpLog "2.0.9") =
        some false := by
  have hfits : FitsColumns corpEngine (corpLog "2.0.9") := by
    refine ⟨?_, by decide⟩
    simp only [corpEngine, List.forall_mem_cons]
    exact ⟨by decide, by decide, nofun⟩
  obtain ⟨hperm, -, hblock, -, -, -, hsome⟩ := evaluate_laws npmEnv corpEngine (corpLog "2.0.9")
  have hbit := hblock blockOldLog (by decide) rfl rfl (.inl rfl) (by decide +kernel)
    (by decide +kernel)
  obtain ⟨b, hb⟩ := Option.isSome_iff_exists.mp (hsome hfits)
  obtain ⟨b', hb'⟩ : ∃ b', allowedBit npmEnv
      { corpEngine with rules := corpEngine.rules.reverse } (corpLog "2.0.9") = some b' :=
    ⟨false, by decide +kernel⟩
  cases b with
  | true => exact absurd hb hbit
  | false => exact ⟨hb, hb'.trans (congrArg some (hperm _ (List.reverse_perm _).symm _ _ hb hb').symm)⟩

end Meaning

end Minireg
