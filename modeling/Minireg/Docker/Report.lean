import Minireg.Docker.Policy
import Minireg.Docker.Registry

/-!
# Scan reports

`parseReport` reads what the scanner worker posts: its findings, each name
bounded and cleaned, one per vulnerability, package and installed version.
Everything in a report is untrusted. The decoder of reports and Python's case
maps are parameters (`ScanEnv`).
-/

namespace Minireg.Docker

open Py

structure ScanEnv extends RegistryEnv where
  /-- `orjson.loads`. -/
  orjson : List UInt8 → Option Json
  caseMap : CaseMap

/-- `ReportInvalid`, or the `TypeError` of iterating over a number. -/
inductive ReportError where
  | invalid (message : String)
  | typeError
  deriving DecidableEq, Repr

structure ParsedFinding where
  vulnId : String
  pkgName : String
  installedVersion : Option String
  fixedVersion : Option String
  severity : Severity
  deriving DecidableEq, Repr

def maxReportBytes : Nat := 64 * 1024 * 1024
def maxSbomBytes : Nat := 64 * 1024 * 1024
def maxFindings : Nat := 25000

/-- `_s`: the text of a string or a number, bounded. -/
def reportText (codec : JsonCodec) (value : Json) (limit : Nat) : Option String :=
  match value with
  | .null | .arr _ | .obj _ => none
  | v =>
    let text := (codec.str v).toList.filter (· ≠ '\x00')
    if text = [] then none else some (String.ofList (text.take limit))

def isAsciiAlnum (c : Char) : Bool :=
  ('A' ≤ c && c ≤ 'Z') || ('a' ≤ c && c ≤ 'z') || ('0' ≤ c && c ≤ '9')

/-- `_VULN_ID.match(s)`. Python's `$` matches before a final newline. -/
def isVulnId (s : String) : Bool :=
  match s.toList with
  | [] => false
  | c :: rest =>
    let rest := if rest.getLast? = some '\n' then rest.dropLast else rest
    isAsciiAlnum c && 1 ≤ rest.length && rest.length ≤ 63 &&
      rest.all fun c => isAsciiAlnum c || c ∈ ['.', '_', ':', '-']

def severityNames : List (String × Severity) :=
  [("UNKNOWN", .unknown), ("LOW", .low), ("MEDIUM", .medium), ("HIGH", .high),
   ("CRITICAL", .critical)]

/-- A severity of the report; anything else is unknown. -/
def reportSeverity (env : ScanEnv) (value : Json) : Severity :=
  (severityNames.lookup
    (env.caseMap.upper ((reportText env.codec value 10).getD "UNKNOWN"))).getD .unknown

/-- `policy.severities or SEVERITIES`. -/
def wanted (policy : ImagePolicy) (severity : Severity) : Bool :=
  policy.severities = [] || severity ∈ policy.severities

/-- What one entry of `Vulnerabilities` reports, unless it is passed over. -/
def parseFinding (env : ScanEnv) (policy : ImagePolicy) (v : Json) : Option ParsedFinding :=
  v.asObj?.bind fun v =>
    (reportText env.codec (Json.get v "VulnerabilityID") 64).bind fun vulnId =>
      let severity := reportSeverity env (Json.get v "Severity")
      let fixed := reportText env.codec (Json.get v "FixedVersion") 255
      if !isVulnId vulnId || !wanted policy severity || (policy.ignoreUnfixed && fixed.isNone) then
        none
      else
        some
          { vulnId := vulnId
            pkgName := (reportText env.codec (Json.get v "PkgName") 255).getD "?"
            installedVersion := reportText env.codec (Json.get v "InstalledVersion") 128
            fixedVersion := fixed
            severity := severity }

/-- What findings are told apart by. -/
def ParsedFinding.key (f : ParsedFinding) : String × String × Option String :=
  (f.vulnId, f.pkgName, f.installedVersion)

/-- `value or []`, iterated: the keys of an object and the characters of a text
are no findings. -/
def iterate (value : Json) : Except ReportError (List Json) :=
  if !value.truthy then .ok []
  else
    match value with
    | .arr xs => .ok xs
    | .obj _ | .str _ => .ok []
    | _ => .error .typeError

/-- The findings of one `Vulnerabilities` list, after those already seen. -/
def collectFindings (env : ScanEnv) (policy : ImagePolicy) :
    List Json → List ParsedFinding → Except ReportError (List ParsedFinding)
  | [], found => .ok found
  | v :: rest, found =>
    match parseFinding env policy v with
    | none => collectFindings env policy rest found
    | some f =>
      if f.key ∈ found.map ParsedFinding.key then collectFindings env policy rest found
      else if found.length + 1 > maxFindings then
        .error (.invalid ("report lists more than " ++ toString maxFindings ++ " findings"))
      else collectFindings env policy rest (found ++ [f])

/-- The findings of the `Results` list. -/
def collectResults (env : ScanEnv) (policy : ImagePolicy) :
    List Json → List ParsedFinding → Except ReportError (List ParsedFinding)
  | [], found => .ok found
  | result :: rest, found =>
    match result.asObj? with
    | none => collectResults env policy rest found
    | some result =>
      match iterate (Json.get result "Vulnerabilities") with
      | .error e => .error e
      | .ok vs =>
        match collectFindings env policy vs found with
        | .error e => .error e
        | .ok found => collectResults env policy rest found

def parseReport (env : ScanEnv) (policy : ImagePolicy) (raw : List UInt8) :
    Except ReportError (List ParsedFinding) :=
  if raw.length > maxReportBytes then
    .error (.invalid ("report exceeds " ++ toString maxReportBytes ++ " bytes"))
  else
    match env.orjson raw with
    | none => .error (.invalid "report is not JSON")
    | some (.obj doc) =>
      match (if doc.lookup "Results" = none then some [] else (Json.get doc "Results").asArr?) with
      | none => .error (.invalid "report is not a Trivy JSON report")
      | some results => collectResults env policy results []
    | some _ => .error (.invalid "report is not a Trivy JSON report")

def validateSbom (env : ScanEnv) (raw : List UInt8) : Except ReportError Unit :=
  if raw.length > maxSbomBytes then
    .error (.invalid ("SBOM exceeds " ++ toString maxSbomBytes ++ " bytes"))
  else
    match env.orjson raw with
    | none => .error (.invalid "SBOM is not JSON")
    | some (.obj doc) =>
      if Json.get doc "bomFormat" = .str "CycloneDX" then .ok ()
      else .error (.invalid "SBOM is not a CycloneDX document")
    | some _ => .error (.invalid "SBOM is not a CycloneDX document")

end Minireg.Docker
