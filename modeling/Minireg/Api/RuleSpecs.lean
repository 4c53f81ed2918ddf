import Minireg.Core.SemverModes
import Minireg.Core.SemverPrint
import Minireg.Lib.Run
import Minireg.Services.Policy

/-!
# Version specs of rules

An administrator writes a rule's version spec; `validateVersionSpec` decides
whether it is stored, `expandSpec` is what the interface shows of it, and the
engine reads it when a version is judged. Shown is the range without
prereleases, enforced the range with them: `shown_is_enforced` says where the two
agree. `specs_enforced` says which stored specs the engine reads as ranges.
-/

namespace Minireg

open Py Semver Lib

/-! ## The endpoints -/

/-- `packaging`: which specifier sets and versions it parses. -/
structure Packaging (env : PolicyEnv) where
  specifier : String → Bool
  version : String → Bool
  /-- Membership is decided exactly where both parse. -/
  contains : ∀ spec v, (env.specifierContains spec v).isSome = (specifier spec && version v)
  /-- A wildcard is no specifier. -/
  wildcard : ∀ spec ∈ ["*", "x", "X"], specifier spec = false
  /-- The empty set holds every version. -/
  empty : ∀ v, version v = true → env.specifierContains "" v = some true

/-- What a request on a rule fails with. -/
inductive RuleError where
  | badRequest (detail : String)
  | notFound
  | raised (e : ValueError)
  deriving DecidableEq, Repr

structure RuleCreate where
  ecosystem : Option Ecosystem := none
  pattern : String
  action : RuleAction
  versionSpec : Option String := none
  reason : Option String := none
  enabled : Bool := true

/-- The fields a request sets; a field it sends as null stays as it is. -/
structure RuleUpdate where
  pattern : Option String := none
  action : Option RuleAction := none
  versionSpec : Option String := none
  reason : Option String := none
  enabled : Option Bool := none

section

variable {env : PolicyEnv} (pkg : Packaging env)

/-- `is_valid_range`, where a number it cannot convert fails the request. -/
def checkRange (spec : String) : Except RuleError Bool := (isValidRange spec).mapError .raised

/-- The detail of a spec the semver grammar refuses. -/
def semverDetail (ecosystem : Option Ecosystem) (spec : String) : String :=
  let grammar := if ecosystem = some .cargo then "semver range" else "npm version range"
  let caveat := if ecosystem = some .cargo then
      " Note a bare '1.2.3' pins that exact version here, unlike in Cargo.toml where it means " ++
        "'^1.2.3'."
    else ""
  "'" ++ spec ++ "' is not a valid " ++ grammar ++ ". Examples: " ++
    "'1.2.3', '<4.17.21', '^1.2.3', '>=3.0.0 <3.0.2', '1.x || 2.x'." ++ caveat

def pypiDetail (spec : String) : String :=
  "'" ++ spec ++ "' is not a valid PEP 440 specifier. Examples: " ++
    "'==1.2.3', '<2.0', '>=1.0,<2.0', '~=1.4.2'."

/-- `str(parse_range(spec))`, of a range that parses. -/
def rangeText (spec : String) : Option String := (parseRange spec).toOption.map Range.text

/-- `_validate_version_spec`. -/
def validateVersionSpec (ecosystem : Option Ecosystem) (spec : Option String) :
    Except RuleError (Option String) := do
  let spec := strip (spec.getD "")
  if spec = "" then return none
  let checkSemver := ecosystem = none || ecosystem = some .npm || ecosystem = some .cargo
  let checkPypi := ecosystem = none || ecosystem = some .pypi
  if checkSemver then
    if !(← checkRange spec) then throw (.badRequest (semverDetail ecosystem spec))
  -- a rule for every ecosystem passes here: PyPI reads its spec as a glob
  if checkPypi && !pkg.specifier spec && ecosystem = some .pypi then
    throw (.badRequest (pypiDetail spec))
  return if checkSemver then rangeText spec else some spec

/-- `_expand_spec`: what `rule_payload` shows of a spec. -/
def expandSpec (ecosystem : Option Ecosystem) (spec : Option String) : Option String :=
  if spec.getD "" = "" || ecosystem = some .pypi then none else rangeText (spec.getD "")

/-- `create_rule`: the row it inserts. -/
def createRule (id : Nat) (payload : RuleCreate) : Except RuleError PackageRule := do
  let _ ← validateVersionSpec pkg payload.ecosystem payload.versionSpec
  return { id := id, ecosystem := payload.ecosystem, pattern := payload.pattern,
           action := payload.action, versionSpec := payload.versionSpec,
           reason := payload.reason, enabled := payload.enabled }

/-- `update_rule`: the row it leaves. The ecosystem of a rule never changes. -/
def updateRule (rule : PackageRule) (payload : RuleUpdate) : Except RuleError PackageRule := do
  let _ ← validateVersionSpec pkg rule.ecosystem payload.versionSpec
  return { rule with
    pattern := payload.pattern.getD rule.pattern
    action := payload.action.getD rule.action
    versionSpec := payload.versionSpec.or rule.versionSpec
    reason := payload.reason.or rule.reason
    enabled := payload.enabled.getD rule.enabled }

/-- A request on the rules. -/
inductive RuleAct where
  | create (id : Nat) (payload : RuleCreate)
  | update (id : Nat) (payload : RuleUpdate)
  | delete (id : Nat)

/-- What a request leaves of the table. -/
def stepRules (rules : List PackageRule) : RuleAct → Except RuleError (List PackageRule)
  | .create id payload => do
    let rule ← createRule pkg id payload
    return rules ++ [rule]
  | .update id payload =>
    match rules.find? fun rule => rule.id = id with
    | none => .error .notFound
    | some rule => do
      let updated ← updateRule pkg rule payload
      return rules.map fun r => if r.id = id then updated else r
  | .delete id =>
    match rules.find? fun rule => rule.id = id with
    | none => .error .notFound
    | some _ => .ok (rules.filter fun r => r.id ≠ id)

/-- The rules table, under every order of requests. -/
def ruleTable : System (List PackageRule) RuleAct where
  init rules := rules = []
  Step rules act rules' := stepRules pkg rules act = .ok rules'

end

/-! ## What an accepted spec parses as -/

variable {env : PolicyEnv} {pkg : Packaging env} {spec version : String}

theorem toList_strip (spec : String) : (strip spec).toList = stripChars spec.toList :=
  String.toList_ofList

/-- Stripping a spec does not change how it parses. -/
theorem parseRange_strip (spec : String) (b : Bool) :
    parseRange (strip spec) b = parseRange spec b := by
  unfold parseRange
  rw [toList_strip, stripChars_idem]

theorem checkRange_ok (h : checkRange spec = .ok true) : ∃ r, parseRange spec = .ok r := by
  unfold checkRange isValidRange at h
  rcases hparse : parseRange spec with e | r
  · rw [hparse] at h
    rcases e with msg | e <;> cases h
  · exact ⟨r, rfl⟩

/-- The ecosystems whose specs are semver ranges. -/
def semverChecked (ecosystem : Option Ecosystem) : Prop :=
  ecosystem = none ∨ ecosystem = some .npm ∨ ecosystem = some .cargo

/-- **An accepted spec** of a rule for npm, for Cargo or for every ecosystem is a semver range. -/
theorem validate_semver {ecosystem : Option Ecosystem} {described : Option String}
    (h : validateVersionSpec pkg ecosystem (some spec) = .ok described)
    (heco : semverChecked ecosystem) : ∃ r, parseRange spec = .ok r := by
  rw [← parseRange_strip]
  unfold validateVersionSpec at h
  dsimp only [Option.getD_some] at h
  split at h
  · next hempty =>
    rw [hempty]
    exact ⟨_, rfl⟩
  · have hchecked :
        (ecosystem = none || ecosystem = some .npm || ecosystem = some .cargo) = true := by
      rcases heco with rfl | rfl | rfl <;> rfl
    rw [hchecked] at h
    rcases hcheck : checkRange (strip spec) with e | b
    · rw [hcheck] at h
      cases h
    · cases b with
      | true => exact checkRange_ok hcheck
      | false =>
        rw [hcheck] at h
        cases h

/-- **An accepted spec of a PyPI rule** is a specifier set. -/
theorem validate_pypi {described : Option String}
    (h : validateVersionSpec pkg (some .pypi) (some spec) = .ok described)
    (hspec : strip spec ≠ "") : pkg.specifier (strip spec) = true := by
  by_contra hinvalid
  unfold validateVersionSpec at h
  dsimp only [Option.getD_some] at h
  rw [if_neg hspec] at h
  simp only [Bool.not_eq_true] at hinvalid
  rw [hinvalid] at h
  cases h

/-! ## What the engine reads -/

theorem parseRange_wildcard {r : Range} (hspec : spec = "*" ∨ spec = "x" ∨ spec = "X")
    (h : parseRange spec true = .ok r) (v : SemVer) : r.test v = true := by
  have hany : parseRange spec true =
      .ok { sets := [anyComparator], includePrerelease := true } := by
    rcases hspec with rfl | rfl | rfl <;> rfl
  cases hany.symm.trans h
  simp [Range.test, testSet, anyComparator, Comparator.test]

/-- **The engine reads a semver range** with prereleases included. -/
theorem matchesVersion_semver {eco : Ecosystem} {r r' : Range} {v : SemVer} (heco : eco ≠ .pypi)
    (hvalid : parseRange spec = .ok r) (hopen : parseRange spec true = .ok r')
    (hv : SemVer.parse version = .ok (some v)) :
    matchesVersion env eco (some spec) (some version) = .ok (r'.test v) := by
  rw [← parseRange_strip] at hvalid hopen
  unfold matchesVersion
  dsimp only [Option.getD_some]
  split
  · next hempty =>
    have hany : parseRange (strip "") true =
        .ok { sets := [anyComparator], includePrerelease := true } := rfl
    rw [hempty] at hopen
    cases hany.symm.trans hopen
    simp [Range.test, testSet, anyComparator, Comparator.test]
  split
  · next hwildcard =>
    simp only [Bool.or_eq_true, decide_eq_true_iff, or_assoc] at hwildcard
    rw [parseRange_wildcard hwildcard hopen v]
    rfl
  · have hcheck : isValidRange (strip spec) = .ok true := by
      unfold isValidRange
      rw [hvalid]
    have hsatisfies : satisfies version (strip spec) true = .ok (r'.test v) := by
      unfold satisfies
      simp only [hv, bind, Except.bind, hopen]
      rfl
    rw [hcheck]
    exact hsatisfies

/-- **The engine reads a specifier set** where `packaging` parses it. -/
theorem matchesVersion_pypi {b : Bool} (hspec : spec ≠ "")
    (hwildcard : strip spec ∉ ["*", "x", "X"])
    (hcontains : env.specifierContains (strip spec) version = some b) :
    matchesVersion env .pypi (some spec) (some version) = .ok b := by
  unfold matchesVersion
  dsimp only [Option.getD_some]
  rw [if_neg hspec]
  split
  · next h =>
    simp only [Bool.or_eq_true, decide_eq_true_iff, or_assoc] at h
    exact absurd (by simpa using h) hwildcard
  · rw [if_pos rfl, hcontains]
    rfl

/-! ## Enforcement -/

/-- A version the ecosystem can read. -/
def Readable (pkg : Packaging env) (eco : Ecosystem) (version : String) : Prop :=
  if eco = .pypi then pkg.version version = true else ∃ v, SemVer.parse version = .ok (some v)

/-- Whether a version is in the range the ecosystem's own grammar reads in a spec. -/
def rangeGrammar (env : PolicyEnv) (eco : Ecosystem) (spec version : String) : Option Bool :=
  if eco = .pypi then env.specifierContains (strip spec) version
  else match parseRange (strip spec) true, SemVer.parse version with
    | .ok r, .ok (some v) => some (r.test v)
    | _, _ => none

/-- A rule whose spec was accepted for its ecosystem. -/
def Accepted (pkg : Packaging env) (r : PackageRule) : Prop :=
  ∃ described, validateVersionSpec pkg r.ecosystem r.versionSpec = .ok described

theorem createRule_accepted {id : Nat} {payload : RuleCreate} {r : PackageRule}
    (h : createRule pkg id payload = .ok r) : Accepted pkg r := by
  obtain ⟨described, hvalid, h⟩ := bind_ok h
  cases h
  exact ⟨described, hvalid⟩

theorem updateRule_accepted {payload : RuleUpdate} {r r' : PackageRule}
    (h : updateRule pkg r payload = .ok r') (hr : Accepted pkg r) : Accepted pkg r' := by
  obtain ⟨described, hvalid, h⟩ := bind_ok h
  cases h
  unfold Accepted
  rcases hspec : payload.versionSpec with _ | spec
  · exact hr
  · rw [hspec] at hvalid
    exact ⟨described, hvalid⟩

/-- Every request keeps the rules accepted. -/
theorem stepRules_accepted {rules rules' : List PackageRule} {act : RuleAct}
    (h : ∀ r ∈ rules, Accepted pkg r) (hstep : stepRules pkg rules act = .ok rules') :
    ∀ r ∈ rules', Accepted pkg r := by
  cases act with
  | create id payload =>
    obtain ⟨rule, hrule, hstep⟩ := bind_ok hstep
    cases hstep
    intro r hr
    rcases List.mem_append.mp hr with hr | hr
    · exact h r hr
    · rw [List.mem_singleton.mp hr]
      exact createRule_accepted hrule
  | update id payload =>
    rw [stepRules] at hstep
    split at hstep
    · cases hstep
    · next rule hfind =>
      obtain ⟨updated, hupdated, hstep⟩ := bind_ok hstep
      cases hstep
      intro r hr
      obtain ⟨r₀, hr₀, rfl⟩ := List.mem_map.mp hr
      split
      · exact updateRule_accepted hupdated (h rule (List.mem_of_find?_eq_some hfind))
      · exact h r₀ hr₀
  | delete id =>
    rw [stepRules] at hstep
    split at hstep
    · cases hstep
    · cases hstep
      exact fun r hr => h r (List.mem_of_mem_filter hr)

/-- Every stored rule was accepted. -/
theorem reach_accepted {rules : List PackageRule}
    (h : (ruleTable pkg).Reach (fun _ _ => True) rules) : ∀ r ∈ rules, Accepted pkg r := by
  refine h.invariant (I := fun rules => ∀ r ∈ rules, Accepted pkg r) (fun rules hinit => ?_)
    fun rules act rules' hrules _ hstep => ?_
  · obtain rfl : rules = [] := hinit
    exact fun r hr => absurd hr List.not_mem_nil
  · exact stepRules_accepted hrules hstep

/-- An accepted spec of a semver ecosystem is read as a range. -/
theorem enforced_semver {eco : Ecosystem} {r : Range} (heco : eco ≠ .pypi)
    (hvalid : parseRange spec = .ok r) (hversion : Readable pkg eco version) :
    ∃ b, rangeGrammar env eco spec version = some b ∧
      matchesVersion env eco (some spec) (some version) = .ok b := by
  unfold Readable at hversion
  rw [if_neg heco] at hversion
  obtain ⟨v, hv⟩ := hversion
  obtain ⟨r', hopen, -, -⟩ := parseRange_opens hvalid
  refine ⟨r'.test v, ?_, matchesVersion_semver heco hvalid hopen hv⟩
  unfold rangeGrammar
  rw [if_neg heco, parseRange_strip, hopen, hv]

/-- A specifier set is read as one. -/
theorem enforced_pypi (hspec : strip spec = "" ∨ pkg.specifier (strip spec) = true)
    (hversion : Readable pkg .pypi version) :
    ∃ b, rangeGrammar env .pypi spec version = some b ∧
      matchesVersion env .pypi (some spec) (some version) = .ok b := by
  unfold Readable at hversion
  rw [if_pos rfl] at hversion
  obtain ⟨b, hb⟩ : ∃ b, env.specifierContains (strip spec) version = some b := by
    rcases hspec with hempty | hspec
    · exact ⟨true, hempty ▸ pkg.empty version hversion⟩
    · rw [← Option.isSome_iff_exists, pkg.contains, hspec, hversion]
      rfl
  refine ⟨b, by rw [rangeGrammar, if_pos rfl, hb], ?_⟩
  by_cases hnone : spec = ""
  · subst hnone
    have htrue := pkg.empty version hversion
    rw [show strip "" = "" from rfl, htrue] at hb
    rw [← Option.some.inj hb]
    rfl
  · refine matchesVersion_pypi hnone (fun hmem => ?_) hb
    rcases hspec with hempty | hspec
    · rw [hempty] at hmem
      revert hmem
      decide
    · rw [pkg.wildcard _ hmem] at hspec
      cases hspec

/-- **Stored specs are enforced as ranges** in every ecosystem with packages that the rule applies
to; in PyPI, where the spec is a specifier set, as those of all PyPI rules are. A block rule blocks
every version of the range. -/
theorem specs_enforced {rules : List PackageRule}
    (h : (ruleTable pkg).Reach (fun _ _ => True) rules) {r : PackageRule} (hr : r ∈ rules)
    (hspec : r.versionSpec = some spec) {eco : Ecosystem} (hpackages : eco ≠ .docker)
    (happlies : r.ecosystem = none ∨ r.ecosystem = some eco)
    (hpypi : eco = .pypi → r.ecosystem = none → pkg.specifier (strip spec) = true) :
    (∀ version, Readable pkg eco version → ∃ b, rangeGrammar env eco spec version = some b ∧
      matchesVersion env eco (some spec) (some version) = .ok b) ∧
    (r.enabled = true → r.action = .block →
      ∀ (engine : PolicyEngine) (s : Subject) (version : String) (verdict : Verdict),
        engine.rules = rules → s.ecosystem = eco → coversName env s r = true →
          s.version = some version → Readable pkg eco version →
            rangeGrammar env eco spec version = some true →
              evaluate env engine s = .ok verdict → verdict.allowed = false) := by
  obtain ⟨described, haccepted⟩ := reach_accepted h r hr
  rw [hspec] at haccepted
  have hread (version : String) (hversion : Readable pkg eco version) :
      ∃ b, rangeGrammar env eco spec version = some b ∧
        matchesVersion env eco (some spec) (some version) = .ok b := by
    by_cases heco : eco = .pypi
    · subst heco
      refine enforced_pypi ?_ hversion
      by_cases hempty : strip spec = ""
      · exact .inl hempty
      · rcases happlies with hnone | hsome
        · exact .inr (hpypi rfl hnone)
        · rw [hsome] at haccepted
          exact .inr (validate_pypi haccepted hempty)
    · have hchecked : semverChecked r.ecosystem := by
        rcases happlies with hnone | hsome
        · exact .inl hnone
        · cases eco with
          | npm => exact .inr (.inl hsome)
          | cargo => exact .inr (.inr hsome)
          | pypi => exact absurd rfl heco
          | docker => exact absurd rfl hpackages
      obtain ⟨range, hrange⟩ := validate_semver haccepted hchecked
      exact enforced_semver heco hrange hversion
  refine ⟨hread, ?_⟩
  intro henabled hblock engine s version verdict hrules heco hcovers hversion hreadable hin heval
  obtain ⟨b, hgrammar, hmatches⟩ := hread version hreadable
  obtain rfl : true = b := Option.some.inj (hin.symm.trans hgrammar)
  have hblocked : Blocked env engine s := by
    refine ⟨r, mem_applicable.mpr ⟨hrules ▸ hr, henabled, heco ▸ happlies⟩, ?_⟩
    unfold blocksSubject
    rw [hblock, hcovers, heco, hspec, hversion]
    exact hmatches
  rw [← Bool.not_eq_true, evaluate_allowed_iff heval]
  exact fun hadmits => hadmits.notBlocked hblocked

/-! ## What the interface shows -/

/-- The alternatives of a spec, each as it is shown and as it is enforced. -/
def alternatives (spec : String) : List (List Comparator × List Comparator) :=
  match parseRange spec, parseRange spec true with
  | .ok shown, .ok enforced => shown.sets.zip enforced.sets
  | _, _ => []

/-- A prerelease that only opened lower bounds admit: an alternative shuts it out by nothing but
lower bounds at its own release that are enforced open, and no alternative admits it as shown. -/
structure Hidden (spec : String) (v : SemVer) : Prop where
  prerelease : v.isPrerelease = true
  opened : ∃ alt ∈ alternatives spec, ∀ p ∈ alt.1.zip alt.2, p.1.test v = true ∨ OpenedAt v p
  shown : ∀ alt ∈ alternatives spec, ∃ c ∈ alt.1, c.test v = false

theorem testSet_true (cs : List Comparator) (v : SemVer) :
    testSet cs v true = cs.all fun c => c.test v := by
  simp [testSet]

/-- An alternative as it is enforced. -/
theorem enforced_iff {cs cs' : List Comparator} (h : OpensAll cs cs') (v : SemVer) :
    (∀ c ∈ cs', c.test v = true) ↔
      ∀ p ∈ cs.zip cs', p.1.test v = true ∨ v.isPrerelease = true ∧ OpenedAt v p := by
  induction h with
  | nil => simp
  | @cons c c' cs cs' hopens _ ih =>
    rw [List.forall_mem_cons, List.zip_cons_cons, List.forall_mem_cons, ih, hopens.test_iff v]

theorem forall_zip_fst {α β : Type} {R : α → β → Prop} {l : List α} {l' : List β}
    (h : List.Forall₂ R l l') {P : α → Prop} : (∀ p ∈ l.zip l', P p.1) ↔ ∀ a ∈ l, P a := by
  conv_rhs => rw [← List.map_fst_zip h.length_eq.le]
  exact List.forall_mem_map.symm

/-- **The two readings of a range**: what is shown, and what is enforced. -/
theorem test_alternatives {r r' : Range} (hr : parseRange spec = .ok r)
    (hr' : parseRange spec true = .ok r') (v : SemVer) :
    (Range.test { sets := r.sets, includePrerelease := true } v = true ↔
      ∃ alt ∈ alternatives spec, ∀ c ∈ alt.1, c.test v = true) ∧
    (r'.test v = true ↔ ∃ alt ∈ alternatives spec,
      ∀ p ∈ alt.1.zip alt.2, p.1.test v = true ∨ v.isPrerelease = true ∧ OpenedAt v p) ∧
    ∀ alt ∈ alternatives spec, OpensAll alt.1 alt.2 := by
  obtain ⟨r'', hr'', hinclude, hopens⟩ := parseRange_opens hr
  cases hr'.symm.trans hr''
  have halt : alternatives spec = r.sets.zip r'.sets := by
    unfold alternatives
    rw [hr, hr']
  have hpairs : ∀ alt ∈ alternatives spec, OpensAll alt.1 alt.2 := by
    rw [halt]
    exact fun alt hmem => List.forall₂_zip hopens hmem
  have hfst : (alternatives spec).map Prod.fst = r.sets := by
    rw [halt, List.map_fst_zip hopens.length_eq.le]
  have hsnd : (alternatives spec).map Prod.snd = r'.sets := by
    rw [halt, List.map_snd_zip hopens.length_eq.ge]
  refine ⟨?_, ?_, hpairs⟩
  · unfold Range.test
    dsimp only
    rw [← hfst, List.any_map, List.any_eq_true]
    simp only [Function.comp_apply, testSet_true, List.all_eq_true]
  · unfold Range.test
    rw [hinclude, ← hsnd, List.any_map, List.any_eq_true]
    simp only [Function.comp_apply, testSet_true, List.all_eq_true]
    exact exists_congr fun alt => and_congr_right fun hmem => enforced_iff (hpairs alt hmem) v

/-- The two readings differ exactly on the hidden prereleases. -/
theorem test_eq_iff {r r' : Range} (hr : parseRange spec = .ok r)
    (hr' : parseRange spec true = .ok r') (v : SemVer) :
    r'.test v = Range.test { sets := r.sets, includePrerelease := true } v ↔ ¬ Hidden spec v := by
  obtain ⟨hshown, henforced, hpairs⟩ := test_alternatives hr hr' v
  rw [Bool.eq_iff_iff, hshown, henforced]
  constructor
  · rintro hiff ⟨hprerelease, ⟨alt, hmem, halt⟩, hnone⟩
    obtain ⟨alt', hmem', hall⟩ := hiff.mp ⟨alt, hmem, fun p hp =>
      (halt p hp).imp_right fun hopened => ⟨hprerelease, hopened⟩⟩
    obtain ⟨c, hc, hfalse⟩ := hnone alt' hmem'
    rw [hall c hc] at hfalse
    cases hfalse
  · intro hhidden
    constructor
    · rintro ⟨alt, hmem, halt⟩
      by_contra hnone
      push Not at hnone
      refine hhidden ⟨?_, ⟨alt, hmem, fun p hp => (halt p hp).imp_right And.right⟩,
        fun alt' hmem' => (hnone alt' hmem').imp fun c hc => ⟨hc.1, Bool.eq_false_iff.mpr hc.2⟩⟩
      -- a release would be admitted as shown
      by_contra hrelease
      have hall : ∀ c ∈ alt.1, c.test v = true := (forall_zip_fst (hpairs alt hmem)).mp
        fun p hp => (halt p hp).resolve_right fun hopened => hrelease hopened.1
      obtain ⟨c, hc, hfalse⟩ := hnone alt hmem
      exact hfalse (hall c hc)
    · rintro ⟨alt, hmem, hall⟩
      exact ⟨alt, hmem, fun p hp => .inl (hall p.1 (List.of_mem_zip hp).1)⟩

/-- **The shown expansion is the enforced rule** for every version but the hidden prereleases. -/
theorem shown_is_enforced {eco : Ecosystem} (heco : eco = .npm ∨ eco = .cargo)
    (hspec : spec ≠ "") {described : Option String}
    (haccepted : validateVersionSpec pkg (some eco) (some spec) = .ok described) {v : SemVer}
    (hv : SemVer.parse version = .ok (some v)) :
    ∃ shown, expandSpec (some eco) (some spec) = some shown ∧
      (matchesVersion env eco (some spec) (some version) =
        matchesVersion env eco (some shown) (some version) ↔ ¬ Hidden spec v) := by
  have hpypi : eco ≠ .pypi := by
    rcases heco with rfl | rfl <;> decide
  obtain ⟨r, hr⟩ := validate_semver haccepted (by
    rcases heco with rfl | rfl
    · exact .inr (.inl rfl)
    · exact .inr (.inr rfl))
  obtain ⟨r', hr', -, -⟩ := parseRange_opens hr
  have hprint := parseRange_printable hr
  have hexpand : expandSpec (some eco) (some spec) = some r.text := by
    unfold expandSpec rangeText
    rw [Option.getD_some, hr, if_neg (by simp [hspec, hpypi])]
    rfl
  refine ⟨r.text, hexpand, ?_⟩
  rw [matchesVersion_semver hpypi hr hr' hv,
    matchesVersion_semver hpypi (parseRange_text hprint false) (parseRange_text hprint true) hv,
    Except.ok.injEq]
  exact test_eq_iff hr hr' v

/-! ## Two rules -/

/-- Of the specs below, the empty one is the only specifier set. -/
def ruleEnv : PolicyEnv where
  caseMap := .ascii
  specifierContains spec _ := if spec = "" then some true else none

def rulePackaging : Packaging ruleEnv where
  specifier spec := spec = ""
  version _ := true
  contains spec v := by
    unfold ruleEnv
    dsimp only
    split
    · next h => simp [h]
    · next h => simp [h]
  wildcard := by decide
  empty _ _ := rfl

/-- `1.x` is shown without the prereleases of `1.0.0`, and enforced with them. -/
theorem hidden_alpha :
    validateVersionSpec rulePackaging (some .npm) (some "1.x") = .ok (some ">=1.0.0 <2.0.0-0") ∧
      expandSpec (some .npm) (some "1.x") = some ">=1.0.0 <2.0.0-0" ∧
      matchesVersion ruleEnv .npm (some "1.x") (some "1.0.0-alpha") = .ok true ∧
      matchesVersion ruleEnv .npm (some ">=1.0.0 <2.0.0-0") (some "1.0.0-alpha") = .ok false := by
  decide +kernel

/-- `1.0.0-alpha`. -/
def alphaVersion : SemVer :=
  { major := 1, minor := 0, patch := 0, prerelease := [.alpha "alpha"] }

theorem shown_is_enforced_alpha :
    ∃ shown, expandSpec (some .npm) (some "1.x") = some shown ∧
      (matchesVersion ruleEnv .npm (some "1.x") (some "1.0.0-alpha") =
        matchesVersion ruleEnv .npm (some shown) (some "1.0.0-alpha") ↔
          ¬ Hidden "1.x" alphaVersion) := by
  have haccepted : validateVersionSpec rulePackaging (some .npm) (some "1.x") =
      .ok (some ">=1.0.0 <2.0.0-0") := by decide +kernel
  have hversion : SemVer.parse "1.0.0-alpha" = .ok (some alphaVersion) := by decide +kernel
  exact shown_is_enforced (.inl rfl) (by decide) haccepted hversion

/-- A rule for every ecosystem, with a spec of npm's. -/
def agnosticRule : PackageRule :=
  { id := 1, pattern := "left-pad", action := .block, versionSpec := some "^1.2.3" }

def leftPad (eco : Ecosystem) : Subject :=
  { ecosystem := eco, normalizedName := "left-pad", version := some "1.3.0" }

theorem reach_agnosticRule : (ruleTable rulePackaging).Reach (fun _ _ => True) [agnosticRule] := by
  have hstep : stepRules rulePackaging [] (.create 1
      { pattern := "left-pad", action := .block, versionSpec := some "^1.2.3" }) =
        .ok [agnosticRule] := by decide +kernel
  exact .step (.init rfl) trivial hstep

/-- PyPI reads `^1.2.3` as a glob, which matches no version. -/
theorem agnostic_rule_globs :
    (ruleTable rulePackaging).Reach (fun _ _ => True) [agnosticRule] ∧
      matchesVersion ruleEnv .npm (some "^1.2.3") (some "1.3.0") = .ok true ∧
      matchesVersion ruleEnv .pypi (some "^1.2.3") (some "1.3.0") = .ok false ∧
      allowedBit ruleEnv { rules := [agnosticRule] } (leftPad .npm) = some false ∧
      allowedBit ruleEnv { rules := [agnosticRule] } (leftPad .pypi) = some true :=
  ⟨reach_agnosticRule, by decide +kernel, by decide +kernel, by decide +kernel, by decide +kernel⟩

theorem specs_enforced_agnosticRule :
    (∀ version, Readable rulePackaging .npm version →
      ∃ b, rangeGrammar ruleEnv .npm "^1.2.3" version = some b ∧
        matchesVersion ruleEnv .npm (some "^1.2.3") (some version) = .ok b) ∧
    (agnosticRule.enabled = true → agnosticRule.action = .block →
      ∀ (engine : PolicyEngine) (s : Subject) (version : String) (verdict : Verdict),
        engine.rules = [agnosticRule] → s.ecosystem = .npm →
          coversName ruleEnv s agnosticRule = true → s.version = some version →
            Readable rulePackaging .npm version →
              rangeGrammar ruleEnv .npm "^1.2.3" version = some true →
                evaluate ruleEnv engine s = .ok verdict → verdict.allowed = false) :=
  specs_enforced reach_agnosticRule (List.mem_singleton_self _) rfl (by decide) (.inl rfl)
    fun heco => absurd heco (by decide)

end Minireg
