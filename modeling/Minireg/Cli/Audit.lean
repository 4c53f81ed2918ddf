import Mathlib.Algebra.GroupWithZero.Nat
import Mathlib.Data.List.Perm.Basic
import Mathlib.Data.Prod.Lex
import Mathlib.Algebra.Order.Ring.Unbundled.Rat
import Minireg.Py.Raise
import Minireg.Py.Text

/-!
# The exit code of `minireg audit`

`cmdAudit` asks the registry about each source, a chunk of packages at a
time, and turns the findings into an exit code. `gate` is what that code
should be: a function of the answers alone. With `--json` the loop goes on to
the next source before it has looked at the blocked findings and the unscanned
packages, so the code is the gate's only where neither of them decides.
-/

namespace Minireg.Cli

open Minireg.Py

/-! ## The registry's answers -/

/-- A CVE of a finding. -/
structure Cve where
  severity : Option String
  deriving DecidableEq

structure Finding where
  name : String
  version : String
  maxCvss : Option Rat
  blocked : Bool
  cves : List Cve
  deriving DecidableEq

/-- `{"name": …, "version": …}`. -/
structure LockedPackage where
  name : String
  version : String
  deriving DecidableEq

/-- What `audit_packages` answers: it lists at most fifty of the packages it could not scan. -/
structure AuditAnswer where
  checked : Nat
  findings : List Finding
  unscanned : List LockedPackage
  unscannedTotal : Nat
  listed : unscanned.length = min 50 unscannedTotal

theorem AuditAnswer.unscanned_ne_nil (a : AuditAnswer) :
    a.unscanned ≠ [] ↔ a.unscannedTotal ≠ 0 := by
  have hlisted := a.listed
  rw [Ne, ← List.length_eq_zero_iff]
  omega

/-- The body of one request. -/
structure AuditBody where
  ecosystem : String
  packages : List LockedPackage
  scanUnknown : Bool
  refresh : Bool

structure ApiError where
  status : Nat
  detail : String

/-- The registry, and whatever the rest of the world keeps: a request may change its state. -/
abbrev Api (W : Type) := AuditBody → W → Except ApiError (AuditAnswer × W)

/-! ## The command -/

/-- `SEVERITY_ORDER`. -/
def severityOrder : String → Option Nat
  | "none" => some 0
  | "low" => some 1
  | "medium" => some 2
  | "high" => some 3
  | "critical" => some 4
  | _ => none

structure AuditArgs where
  failOn : String
  failOnUnscanned : Option Bool
  json : Bool
  offline : Bool
  refresh : Bool

/-- A dependency file and the exactly pinned packages read from it. -/
structure AuditSource where
  path : String
  ecosystem : String
  packages : List LockedPackage

/-- `die`: the message, and exit code 1. -/
inductive Die where
  | noSources
  | unauthorized
  | auditFailed (detail : String)
  | unknownFailOn (threshold : String)
  deriving DecidableEq

/-- What `--json` prints. -/
structure JsonReport where
  findings : List Finding
  unscannedTotal : Nat
  blocked : Bool
  deriving DecidableEq

structure Outcome where
  code : Nat
  report : Option JsonReport
  deriving DecidableEq

/-- `AUDIT_CHUNK`. -/
def auditChunk : Nat := 500

/-- `packages[start : start + AUDIT_CHUNK]` for each `start`. -/
def chunks (packages : List LockedPackage) : List (List LockedPackage) :=
  (List.range ((packages.length + auditChunk - 1) / auditChunk)).map fun i =>
    (packages.drop (i * auditChunk)).take auditChunk

/-- The accumulator of `audit_request`. -/
structure Merged where
  checked : Nat := 0
  findings : List Finding := []
  unscanned : List LockedPackage := []
  unscannedTotal : Nat := 0

def Merged.add (m : Merged) (result : AuditAnswer) : Merged where
  checked := m.checked + result.checked
  findings := m.findings ++ result.findings
  unscanned := m.unscanned ++ result.unscanned
  unscannedTotal := m.unscannedTotal + result.unscannedTotal

/-- The sort key `(f.get("max_cvss") or 0, f.get("blocked"))`. -/
def Finding.key (f : Finding) : Lex (Rat × Bool) := toLex (f.maxCvss.getD 0, f.blocked)

def auditBody (args : AuditArgs) (ecosystem : String) (chunk : List LockedPackage) : AuditBody where
  ecosystem := ecosystem
  packages := chunk
  scanUnknown := !args.offline
  refresh := args.refresh

section

variable {W : Type}

def auditRequest (api : Api W) (args : AuditArgs) (source : AuditSource) (w : W) :
    Except ApiError (Merged × W) := do
  let (merged, w) ← (chunks source.packages).foldlM (fun (merged, w) chunk => do
      let (result, w) ← api (auditBody args source.ecosystem chunk) w
      return (merged.add result, w)) (({} : Merged), w)
  return ({ merged with
    findings := merged.findings.mergeSort fun f g => decide (g.key ≤ f.key)
    unscanned := merged.unscanned.take 50 }, w)

/-- What the loop over the sources accumulates. -/
structure Totals where
  findings : List Finding := []
  exitBlocked : Bool := false
  unscanned : Nat := 0

/-- One source. -/
def auditSource (api : Api W) (args : AuditArgs) :
    Totals × W → AuditSource → Except Die (Totals × W)
  | (totals, w), source =>
    if source.packages.isEmpty then .ok (totals, w)
    else
      match auditRequest api args source w with
      | .error e => .error (if e.status = 401 then .unauthorized else .auditFailed e.detail)
      | .ok (result, w) =>
        let totals := { totals with findings := totals.findings ++ result.findings }
        -- `if args.json: continue`, before the findings are looked at and the unscanned counted
        if args.json then .ok (totals, w)
        else .ok ({ totals with
          exitBlocked := totals.exitBlocked || result.findings.any (·.blocked)
          unscanned := totals.unscanned + result.unscannedTotal }, w)

def auditExitCode (cm : CaseMap) (args : AuditArgs) (findings : List Finding)
    (exitBlocked : Bool) (unscanned : Nat) : Except Die Nat :=
  let threshold := cm.lower args.failOn
  if threshold = "" ∨ threshold = "never" then .ok 0
  else
    match severityOrder threshold with
    | none => .error (.unknownFailOn threshold)
    | some limit =>
      if findings.any fun finding => finding.cves.any fun cve =>
          decide (limit ≤ (severityOrder (cve.severity.getD "none")).getD 0) then .ok 2
      else if exitBlocked then .ok 2
      else if unscanned ≠ 0 ∧ args.failOnUnscanned.getD true then .ok 3
      else .ok 0

def cmdAudit (cm : CaseMap) (api : Api W) (args : AuditArgs) (sources : List AuditSource)
    (w : W) : Except Die (Outcome × W) := do
  if sources.isEmpty then throw .noSources
  let (totals, w) ← sources.foldlM (auditSource api args) ({}, w)
  let code ← auditExitCode cm args totals.findings totals.exitBlocked totals.unscanned
  return ({ code := code
            report := if args.json then
                some { findings := totals.findings, unscannedTotal := totals.unscanned,
                       blocked := totals.exitBlocked }
              else none }, w)

/-! ## What the exit code should be -/

/-- The severities a CVE can have, and the thresholds. -/
inductive Severity where
  | none
  | low
  | medium
  | high
  | critical
  deriving DecidableEq

namespace Severity

def rank : Severity → Nat
  | none => 0
  | low => 1
  | medium => 2
  | high => 3
  | critical => 4

def label : Severity → String
  | none => "none"
  | low => "low"
  | medium => "medium"
  | high => "high"
  | critical => "critical"

instance : LE Severity := ⟨fun s t => s.rank ≤ t.rank⟩

instance (s t : Severity) : Decidable (s ≤ t) := inferInstanceAs (Decidable (s.rank ≤ t.rank))

/-- A CVE without a severity the CLI knows has none. -/
def ofLabel : Option String → Severity
  | some "low" => low
  | some "medium" => medium
  | some "high" => high
  | some "critical" => critical
  | _ => none

end Severity

/-- A finding with a CVE at the threshold or above. -/
def Severe (threshold : Severity) (answers : List AuditAnswer) : Prop :=
  ∃ a ∈ answers, ∃ f ∈ a.findings, ∃ cve ∈ f.cves, threshold ≤ .ofLabel cve.severity

/-- A finding the registry refuses to serve. -/
def Blocks (answers : List AuditAnswer) : Prop := ∃ a ∈ answers, ∃ f ∈ a.findings, f.blocked = true

/-- A package reported as unscanned. -/
def Unscanned (answers : List AuditAnswer) : Prop := ∃ a ∈ answers, a.unscanned ≠ []

instance (threshold : Severity) (answers : List AuditAnswer) :
    Decidable (Severe threshold answers) :=
  inferInstanceAs (Decidable (∃ a ∈ answers, ∃ f ∈ a.findings, ∃ cve ∈ f.cves, _ ≤ _))

instance (answers : List AuditAnswer) : Decidable (Blocks answers) :=
  inferInstanceAs (Decidable (∃ a ∈ answers, ∃ f ∈ a.findings, _ = _))

instance (answers : List AuditAnswer) : Decidable (Unscanned answers) :=
  inferInstanceAs (Decidable (∃ a ∈ answers, ¬ _ = _))

/-- The exit code the answers call for. -/
def gate (threshold : Severity) (noFailOnUnscanned : Bool) (answers : List AuditAnswer) : Nat :=
  if Blocks answers ∨ Severe threshold answers then 2
  else if Unscanned answers ∧ noFailOnUnscanned = false then 3
  else 0

/-- The bodies an audit sends, in their order. -/
def auditBodies (args : AuditArgs) (sources : List AuditSource) : List AuditBody :=
  sources.flatMap fun source => (chunks source.packages).map (auditBody args source.ecosystem)

/-- The answers to a list of bodies, each successful. -/
def answersTo (api : Api W) : List AuditBody → W → Except ApiError (List AuditAnswer × W)
  | [], w => .ok ([], w)
  | body :: rest, w => do
    let (answer, w) ← api body w
    let (answers, w) ← answersTo api rest w
    return (answer :: answers, w)

/-! ## The loops -/

variable {api : Api W} {args : AuditArgs} {w w' : W} {given : List AuditAnswer}

theorem answersTo_cons {body : AuditBody} {rest : List AuditBody}
    (h : answersTo api (body :: rest) w = .ok (given, w')) :
    ∃ answer w₁ answers, api body w = .ok (answer, w₁) ∧
      answersTo api rest w₁ = .ok (answers, w') ∧ given = answer :: answers := by
  obtain ⟨⟨answer, w₁⟩, hfirst, h⟩ := bind_ok h
  obtain ⟨⟨answers, w₂⟩, hrest, h⟩ := bind_ok h
  cases h
  exact ⟨answer, w₁, answers, hfirst, hrest, rfl⟩

theorem answersTo_append {front back : List AuditBody}
    (h : answersTo api (front ++ back) w = .ok (given, w')) :
    ∃ first w₁ last, answersTo api front w = .ok (first, w₁) ∧
      answersTo api back w₁ = .ok (last, w') ∧ given = first ++ last := by
  induction front generalizing w given with
  | nil => exact ⟨[], w, given, rfl, h, rfl⟩
  | cons body front ih =>
    obtain ⟨answer, w₁, answers, hfirst, hrest, rfl⟩ := answersTo_cons h
    obtain ⟨first, w₂, last, hfront, hback, rfl⟩ := ih hrest
    refine ⟨answer :: first, w₂, last, ?_, hback, rfl⟩
    simp only [answersTo, hfirst, hfront, bind, Except.bind, pure, Except.pure]

/-- The chunks of one source: their answers are added up in order. -/
theorem foldlM_chunks {ecosystem : String} {chunks : List (List LockedPackage)} (m : Merged)
    (h : answersTo api (chunks.map (auditBody args ecosystem)) w = .ok (given, w')) :
    chunks.foldlM (fun (merged, w) chunk => do
      let (result, w) ← api (auditBody args ecosystem chunk) w
      return (merged.add result, w)) (m, w) = .ok (given.foldl Merged.add m, w') := by
  induction chunks generalizing m w given with
  | nil =>
    cases h
    rfl
  | cons chunk chunks ih =>
    obtain ⟨answer, w₁, answers, hfirst, hrest, rfl⟩ := answersTo_cons h
    rw [List.foldlM_cons]
    simp only [hfirst, bind, Except.bind, pure, Except.pure]
    exact ih (m.add answer) hrest

theorem foldl_add (m : Merged) (given : List AuditAnswer) :
    (given.foldl Merged.add m).findings = m.findings ++ given.flatMap (·.findings) ∧
      (given.foldl Merged.add m).unscannedTotal =
        m.unscannedTotal + (given.map (·.unscannedTotal)).sum := by
  induction given generalizing m with
  | nil => simp
  | cons answer given ih =>
    rw [List.foldl_cons, (ih _).1, (ih _).2]
    simp only [Merged.add, List.flatMap_cons, List.append_assoc, List.map_cons, List.sum_cons,
      Nat.add_assoc, and_self]

/-- A request answered throughout keeps every finding and counts every unscanned package. -/
theorem auditRequest_answers {source : AuditSource}
    (h : answersTo api ((chunks source.packages).map (auditBody args source.ecosystem)) w =
      .ok (given, w')) :
    ∃ result, auditRequest api args source w = .ok (result, w') ∧
      result.findings.Perm (given.flatMap (·.findings)) ∧
      result.unscannedTotal = (given.map (·.unscannedTotal)).sum := by
  have hadd := foldl_add {} given
  unfold auditRequest
  rw [foldlM_chunks {} h]
  refine ⟨_, rfl, ?_, ?_⟩
  · exact (List.mergeSort_perm _ _).trans (by rw [hadd.1]; rfl)
  · exact hadd.2.trans (Nat.zero_add _)

/-- What the loop over the sources has accumulated from these answers. -/
structure Totals.Of (json : Bool) (given : List AuditAnswer) (t t' : Totals) : Prop where
  findings : t'.findings.Perm (t.findings ++ given.flatMap (·.findings))
  exitBlocked : t'.exitBlocked =
    if json then t.exitBlocked else t.exitBlocked || (given.flatMap (·.findings)).any (·.blocked)
  unscanned : t'.unscanned =
    if json then t.unscanned else t.unscanned + (given.map (·.unscannedTotal)).sum

theorem Totals.Of.trans {json : Bool} {first last : List AuditAnswer} {t t' t'' : Totals}
    (h : Totals.Of json first t t') (h' : Totals.Of json last t' t'') :
    Totals.Of json (first ++ last) t t'' where
  findings := by
    rw [List.flatMap_append, ← List.append_assoc]
    exact h'.findings.trans (h.findings.append_right _)
  exitBlocked := by
    rw [h'.exitBlocked, h.exitBlocked, List.flatMap_append, List.any_append, ← Bool.or_assoc]
    cases json <;> rfl
  unscanned := by
    rw [h'.unscanned, h.unscanned, List.map_append, List.sum_append, ← Nat.add_assoc]
    cases json <;> rfl

/-- **One source.** -/
theorem auditSource_answers {source : AuditSource} (t : Totals)
    (h : answersTo api ((chunks source.packages).map (auditBody args source.ecosystem)) w =
      .ok (given, w')) :
    ∃ t', auditSource api args (t, w) source = .ok (t', w') ∧ Totals.Of args.json given t t' := by
  obtain ⟨result, hresult, hfindings, hunscanned⟩ := auditRequest_answers h
  unfold auditSource
  dsimp only
  split
  · next hempty =>
    rw [List.isEmpty_iff.mp hempty] at h
    cases h
    exact ⟨t, rfl, by simp, by simp, by simp⟩
  rw [hresult]
  dsimp only
  split
  · next hjson =>
    refine ⟨_, rfl, hfindings.append_left _, ?_, ?_⟩
    · rw [if_pos hjson]
    · rw [if_pos hjson]
  · next hjson =>
    refine ⟨_, rfl, hfindings.append_left _, ?_, ?_⟩
    · rw [if_neg hjson, hfindings.any_eq]
    · rw [if_neg hjson, hunscanned]

/-- **All sources**, by induction over them. -/
theorem foldlM_sources {sources : List AuditSource} (t : Totals)
    (h : answersTo api (auditBodies args sources) w = .ok (given, w')) :
    ∃ t', sources.foldlM (auditSource api args) (t, w) = .ok (t', w') ∧
      Totals.Of args.json given t t' := by
  induction sources generalizing t w given with
  | nil =>
    cases h
    exact ⟨t, rfl, by simp, by simp, by simp⟩
  | cons source sources ih =>
    unfold auditBodies at h
    rw [List.flatMap_cons] at h
    obtain ⟨first, w₁, last, hfirst, hlast, rfl⟩ := answersTo_append h
    obtain ⟨t₁, hsource, hof⟩ := auditSource_answers t hfirst
    obtain ⟨t₂, hrest, hof'⟩ := ih t₁ hlast
    refine ⟨t₂, ?_, hof.trans hof'⟩
    rw [List.foldlM_cons, hsource]
    exact hrest

/-! ## The exit code -/

/-- The labels carry their rank in `SEVERITY_ORDER`. -/
theorem severityOrder_label (s : Severity) : severityOrder s.label = some s.rank := by
  cases s <;> rfl

/-- What `SEVERITY_ORDER.get((cve.get("severity") or "none"), 0)` is of a label. -/
theorem severityOrder_ofLabel (label : Option String) :
    (severityOrder (label.getD "none")).getD 0 = (Severity.ofLabel label).rank := by
  cases label with
  | none => rfl
  | some label =>
    unfold Severity.ofLabel severityOrder
    rw [Option.getD_some]
    split <;> simp_all [Severity.rank]

/-- **The exit code of what was accumulated.** -/
theorem auditExitCode_eq {cm : CaseMap} {threshold : Severity} {findings : List Finding}
    (hthreshold : cm.lower args.failOn = threshold.label) (exitBlocked : Bool) (unscanned : Nat) :
    auditExitCode cm args findings exitBlocked unscanned = .ok
      (if (∃ f ∈ findings, ∃ cve ∈ f.cves, threshold ≤ .ofLabel cve.severity) ∨ exitBlocked then 2
      else if unscanned ≠ 0 ∧ args.failOnUnscanned ≠ some false then 3 else 0) := by
  have hgiven : ¬ (threshold.label = "" ∨ threshold.label = "never") := by
    cases threshold <;> decide
  have hsevere : (findings.any fun finding => finding.cves.any fun cve =>
      decide (threshold.rank ≤ (severityOrder (cve.severity.getD "none")).getD 0)) = true ↔
        ∃ f ∈ findings, ∃ cve ∈ f.cves, threshold ≤ .ofLabel cve.severity := by
    simp only [severityOrder_ofLabel, List.any_eq_true, decide_eq_true_iff]
    rfl
  have hfail : args.failOnUnscanned.getD true = true ↔ args.failOnUnscanned ≠ some false := by
    rcases args.failOnUnscanned with _ | _ | _ <;> decide
  unfold auditExitCode
  simp only [hthreshold, if_neg hgiven, severityOrder_label, hsevere, hfail]
  by_cases hcve : ∃ f ∈ findings, ∃ cve ∈ f.cves, threshold ≤ .ofLabel cve.severity
  · rw [if_pos hcve, if_pos (.inl hcve)]
  · rw [if_neg hcve]
    simp only [hcve, false_or]
    cases exitBlocked with
    | true => rfl
    | false =>
      simp only [Bool.false_eq_true, if_false]
      split <;> rfl

theorem severe_iff {threshold : Severity} {findings : List Finding}
    (hfindings : findings.Perm (given.flatMap (·.findings))) :
    (∃ f ∈ findings, ∃ cve ∈ f.cves, threshold ≤ .ofLabel cve.severity) ↔
      Severe threshold given := by
  simp only [hfindings.mem_iff, List.mem_flatMap]
  exact ⟨fun ⟨f, ⟨a, ha, hf⟩, hcve⟩ => ⟨a, ha, f, hf, hcve⟩,
    fun ⟨a, ha, f, hf, hcve⟩ => ⟨f, ⟨a, ha, hf⟩, hcve⟩⟩

theorem blocks_iff : (given.flatMap (·.findings)).any (·.blocked) = true ↔ Blocks given := by
  simp only [List.any_eq_true, List.mem_flatMap]
  exact ⟨fun ⟨f, ⟨a, ha, hf⟩, hb⟩ => ⟨a, ha, f, hf, hb⟩,
    fun ⟨a, ha, f, hf, hb⟩ => ⟨f, ⟨a, ha, hf⟩, hb⟩⟩

theorem unscanned_iff : (given.map (·.unscannedTotal)).sum ≠ 0 ↔ Unscanned given := by
  simp only [Ne, List.sum_eq_zero_iff_forall_eq_nat, List.mem_map, forall_exists_index, and_imp,
    forall_apply_eq_imp_iff₂, not_forall]
  exact ⟨fun ⟨a, ha, hne⟩ => ⟨a, ha, a.unscanned_ne_nil.mpr hne⟩,
    fun ⟨a, ha, hne⟩ => ⟨a, ha, a.unscanned_ne_nil.mp hne⟩⟩

/-- The exit code of an audit whose requests are all answered. With `--json` only the severities
count. -/
theorem cmdAudit_code {cm : CaseMap} {threshold : Severity} {sources : List AuditSource}
    (hsources : sources ≠ []) (hthreshold : cm.lower args.failOn = threshold.label)
    (hanswers : answersTo api (auditBodies args sources) w = .ok (given, w')) :
    ∃ report, cmdAudit cm api args sources w = .ok (⟨
      if args.json then if Severe threshold given then 2 else 0
      else gate threshold (args.failOnUnscanned == some false) given, report⟩, w') := by
  obtain ⟨t, hloop, hof⟩ := foldlM_sources {} hanswers
  have hfindings : t.findings.Perm (given.flatMap (·.findings)) := hof.findings
  have hcode : auditExitCode cm args t.findings t.exitBlocked t.unscanned = .ok
      (if args.json then if Severe threshold given then 2 else 0
      else gate threshold (args.failOnUnscanned == some false) given) := by
    rw [auditExitCode_eq hthreshold, hof.exitBlocked, hof.unscanned]
    simp only [severe_iff hfindings]
    split
    · simp only [Bool.false_eq_true, or_false, ne_eq, not_true_eq_false, false_and, if_false]
    · simp only [Bool.false_or, Nat.zero_add, blocks_iff, unscanned_iff, gate, beq_eq_false_iff_ne,
        or_comm (a := Blocks given)]
  unfold cmdAudit
  rw [if_neg (by rwa [List.isEmpty_iff]), hloop]
  simp only [bind, Except.bind, hcode]
  exact ⟨_, rfl⟩

/-- **The audit's exit code is the one its answers call for**, with `--json` and without, exactly
when a CVE reaches the threshold, or nothing is blocked and what is unscanned was accepted. -/
theorem audit_gates {cm : CaseMap} {threshold : Severity} {sources : List AuditSource}
    (hsources : sources ≠ []) (hthreshold : cm.lower args.failOn = threshold.label)
    (hanswers : answersTo api (auditBodies args sources) w = .ok (given, w')) :
    (∀ json, ∃ report, cmdAudit cm api { args with json := json } sources w =
      .ok (⟨gate threshold (args.failOnUnscanned == some false) given, report⟩, w')) ↔
    Severe threshold given ∨
      ¬ Blocks given ∧ (Unscanned given → args.failOnUnscanned = some false) := by
  have hcode (json : Bool) : ∃ report, cmdAudit cm api { args with json := json } sources w =
      .ok (⟨if json then if Severe threshold given then 2 else 0
        else gate threshold (args.failOnUnscanned == some false) given, report⟩, w') :=
    cmdAudit_code hsources hthreshold hanswers
  constructor
  · intro hgates
    obtain ⟨report, hgate⟩ := hgates true
    obtain ⟨report', hjson⟩ := hcode true
    have hsame := (Outcome.mk.inj (Prod.mk.inj (Except.ok.inj (hjson.symm.trans hgate))).1).1
    simp only [if_true] at hsame
    by_cases hsevere : Severe threshold given
    · exact .inl hsevere
    refine .inr ?_
    unfold gate at hsame
    simp only [hsevere, if_false, or_false] at hsame
    split at hsame
    · cases hsame
    · next hblocks =>
      refine ⟨hblocks, fun hunscanned => ?_⟩
      by_contra hfail
      rw [if_pos ⟨hunscanned, by simpa using hfail⟩] at hsame
      cases hsame
  · intro hcond json
    obtain ⟨report, h⟩ := hcode json
    refine ⟨report, h.trans ?_⟩
    suffices hgate : gate threshold (args.failOnUnscanned == some false) given =
        if Severe threshold given then 2 else 0 by
      cases json with
      | false => rfl
      | true => simp only [if_true, hgate]
    unfold gate
    rcases hcond with hsevere | ⟨hblocks, haccepted⟩
    · rw [if_pos (.inr hsevere), if_pos hsevere]
    · by_cases hsevere : Severe threshold given
      · rw [if_pos (.inr hsevere), if_pos hsevere]
      · rw [if_neg (by tauto), if_neg (by
          rintro ⟨hunscanned, hfail⟩
          rw [haccepted hunscanned] at hfail
          cases hfail), if_neg hsevere]

end

/-! ## A blocked package behind `--json` -/

/-- `evil@1.0.0` has no CVE; a rule of the registry refuses it. -/
def refusedAnswer : AuditAnswer where
  checked := 1
  findings := [{ name := "evil", version := "1.0.0", maxCvss := none, blocked := true, cves := [] }]
  unscanned := []
  unscannedTotal := 0
  listed := rfl

def refusing : Api Unit := fun _ w => .ok (refusedAnswer, w)

def evilLock : AuditSource where
  path := "package-lock.json"
  ecosystem := "npm"
  packages := [{ name := "evil", version := "1.0.0" }]

/-- `minireg audit --fail-on high --json`. -/
def jsonArgs : AuditArgs where
  failOn := "high"
  failOnUnscanned := none
  json := true
  offline := false
  refresh := false

/-- `--json` exits 0 where the gate is 2. -/
theorem json_hides_blocked :
    (∃ report, cmdAudit .ascii refusing jsonArgs [evilLock] () = .ok (⟨0, report⟩, ())) ∧
      gate .high false [refusedAnswer] = 2 := by
  have hhigh : CaseMap.ascii.lower jsonArgs.failOn = Severity.label .high := by decide
  have hanswers : answersTo refusing (auditBodies jsonArgs [evilLock]) () =
      .ok ([refusedAnswer], ()) := rfl
  exact ⟨cmdAudit_code (List.cons_ne_nil _ _) hhigh hanswers, by decide⟩

theorem audit_gates_refused :
    (∀ json, ∃ report, cmdAudit .ascii refusing { jsonArgs with json := json } [evilLock] () =
      .ok (⟨gate .high false [refusedAnswer], report⟩, ())) ↔
    Severe .high [refusedAnswer] ∨ ¬ Blocks [refusedAnswer] ∧
      (Unscanned [refusedAnswer] → jsonArgs.failOnUnscanned = some false) :=
  audit_gates (List.cons_ne_nil _ _) (by decide) rfl

end Minireg.Cli
