import Minireg.Py.Json
import Minireg.Py.Raise
import Minireg.Py.Text

/-!
# Reading an OSV record

What the scanner takes from the JSON of an advisory: its CVE, whether it is a
malicious-package record, its severity and the version that fixes a package. A record of
an unexpected shape raises, where the source's access to it does. The CVSS equations and
the number and date parsers are parameters.
-/

namespace Minireg.Osv

open Py

abbrev Record := List (String × Json)

abbrev Time := Int

structure Codec where
  caseMap : CaseMap
  /-- `\d`. -/
  isDecimal : Char → Bool
  cvss3Base : String → Option Rat
  cvss4Base : String → Option Rat
  cvss2Base : String → Option Rat
  /-- `float(text)`. -/
  parseFloat : String → Option Rat
  /-- `datetime.fromisoformat`, after `Z` was replaced. -/
  parseIso : String → Option Time

/-! ## Values of the document -/

/-- `value or ""`, where only a text will do. -/
def textOr : Json → Except String String
  | .str s => .ok s
  | v => if v.truthy then .error "TypeError: expected string" else .ok ""

/-- `for x in value or []`. -/
def iterOr : Json → Except String (List Json)
  | .arr xs => .ok xs
  | .obj fields => .ok (fields.map fun e => .str e.1)
  | .str s => .ok (s.toList.map fun c => .str (String.ofList [c]))
  | v => if v.truthy then .error "TypeError: object is not iterable" else .ok []

/-- `value.get`. -/
def fieldsOf : Json → Except String Record
  | .obj fields => .ok fields
  | _ => .error "AttributeError: object has no attribute 'get'"

/-- `value or {}`, and `.get` on it. -/
def fieldsOr (v : Json) : Except String Record := if v.truthy then fieldsOf v else .ok []

/-! ## Identifiers -/

section

variable (codec : Codec)

/-- `^TAG-\d{4}-\d{least,}$`, ignoring case; `$` also matches before a final newline. -/
def matchesId (tag : String) (least : Nat) (text : String) : Bool :=
  let head := text.toList.take tag.length
  let rest := text.toList.drop tag.length
  let number := rest.drop 6
  let digits := if number.getLast? = some '\n' then number.dropLast else number
  head.map Char.toUpper = tag.toList && rest[0]? = some '-' && rest[5]? = some '-' &&
    ((rest.drop 1).take 4).all codec.isDecimal && least ≤ digits.length &&
    digits.all codec.isDecimal

/-- `CVE_RE.match`. -/
def isCve (text : String) : Bool := matchesId codec "CVE" 4 text

/-- `MAL_RE.match`. -/
def isMal (text : String) : Bool := matchesId codec "MAL" 1 text

/-- `is_malicious`. -/
def isMalicious (record : Record) : Except String Bool := do
  let ident ← textOr (Json.get record "id")
  if isMal codec ident then return true
  let aliases ← iterOr (Json.get record "aliases")
  return (aliases.filterMap Json.asStr?).any (isMal codec)

/-- `extract_cve`. -/
def extractCve (record : Record) : Except String (Option String) := do
  let ident ← textOr (Json.get record "id")
  if isCve codec ident then return some (codec.caseMap.upper ident)
  let aliases ← iterOr (Json.get record "aliases")
  return ((aliases.filterMap Json.asStr?).find? (isCve codec)).map codec.caseMap.upper

/-! ## Severity -/

/-- `SEVERITY_BANDS`. -/
def severityBands : List (Rat × String) :=
  [(9, "critical"), (7, "high"), (4, "medium"), (1 / 10, "low"), (0, "none")]

def severityLabel (score : Option Rat) : Option String :=
  score.map fun s => ((severityBands.find? fun band => band.1 ≤ s).map Prod.snd).getD "none"

/-- `MALICIOUS_SCORE`. -/
def maliciousScore : Rat := 10

/-- `_SEVERITY_PREFERENCE`. -/
def severityPreference (stype : String) : Nat :=
  if stype = "CVSS_V3" then 3 else if stype = "CVSS_V4" then 2 else if stype = "CVSS_V2" then 1
  else 0

/-- `_SEVERITY_LABEL_FLOOR`. -/
def severityLabelFloor (label : String) : Option Rat :=
  if label = "CRITICAL" then some 9 else if label = "HIGH" then some 7
  else if label = "MODERATE" then some 4 else if label = "MEDIUM" then some 4
  else if label = "LOW" then some (1 / 10) else none

/-- `parse_cvss_vector`. -/
def parseCvssVector (vector : String) : Option Rat :=
  let vector := strip vector
  if "CVSS:3".toList.isPrefixOf vector.toList then codec.cvss3Base vector
  else if "CVSS:4".toList.isPrefixOf vector.toList then codec.cvss4Base vector
  else if "AV:".toList.isPrefixOf vector.toList then codec.cvss2Base vector
  else none

structure Candidate where
  preference : Nat
  score : Rat
  stype : String
  vector : String

/-- One entry of `severity`. -/
def severityEntry (entry : Json) : Except String (Option Candidate) :=
  match entry with
  | .obj fields => do
    let stype := codec.caseMap.upper (← textOr (Json.get fields "type"))
    let raw ← textOr (Json.get fields "score")
    return ((parseCvssVector codec raw).or (codec.parseFloat raw)).map fun score =>
      { preference := severityPreference stype, score := score, stype := stype, vector := raw }
  | _ => .ok none

/-- The vector GHSA-derived records hide in `database_specific`. -/
def hiddenVector (record : Record) : Except String (List Candidate) := do
  match Json.get (← fieldsOr (Json.get record "database_specific")) "cvss" with
  | .obj fields =>
    let vector ← textOr (Json.get fields "vectorString")
    return ((parseCvssVector codec vector).map fun score =>
      { preference := 2, score := score, stype := "CVSS_V3", vector := vector }).toList
  | _ => return []

/-- `candidates.sort(key=lambda c: (c[0], c[1]), reverse=True)`, and its first. -/
def topCandidate : List Candidate → Option Candidate
  | [] => none
  | c :: cs => some (cs.foldl (fun best d =>
      if best.preference < d.preference ||
        (best.preference = d.preference && best.score < d.score) then d else best) c)

structure Severity where
  score : Option Rat := none
  stype : Option String := none
  vector : Option String := none
  deriving DecidableEq, Repr

/-- `best_severity`. -/
def bestSeverity (record : Record) : Except String Severity := do
  let entries ← (← iterOr (Json.get record "severity")).mapM (severityEntry codec)
  let candidates := entries.filterMap id
  let candidates ← if candidates = [] then hiddenVector codec record else pure candidates
  match topCandidate candidates with
  | some best =>
    return { score := some best.score
             stype := if best.stype = "" then none else some best.stype
             vector := if best.vector = "" then none else some best.vector }
  | none =>
    let label := Json.get (← fieldsOr (Json.get record "database_specific")) "severity"
    -- the text of anything else is no label
    let text := codec.caseMap.upper (strip (label.asStr?.getD ""))
    return match severityLabelFloor text with
      | some floor => { score := some floor, stype := some "LABEL", vector := some text }
      | none => {}

/-! ## The fixed version -/

/-- `_UNINSTALLABLE_RANGE_TYPES`. -/
def uninstallable (rangeType : String) : Bool := rangeType = "GIT"

/-- `if "fixed" in event: return event["fixed"]`. -/
def fixedEvent : Json → Except String (Option Json)
  | .obj fields => .ok (fields.lookup "fixed")
  | .str s =>
    if hasSub "fixed".toList s.toList then .error "TypeError: string indices must be integers"
    else .ok none
  | .arr xs =>
    if .str "fixed" ∈ xs then .error "TypeError: list indices must be integers" else .ok none
  | _ => .error "TypeError: argument is not iterable"

/-- The first value that a loop returns. -/
def firstM {α β : Type} (f : α → Except String (Option β)) : List α → Except String (Option β)
  | [] => .ok none
  | x :: xs => do
    match ← f x with
    | some y => return some y
    | none => firstM f xs

def fixedInRange (range : Json) : Except String (Option Json) := do
  let fields ← fieldsOf range
  if uninstallable (codec.caseMap.upper (← textOr (Json.get fields "type"))) then return none
  firstM fixedEvent (← iterOr (Json.get fields "events"))

/-- `fixed_version_for`. The value of the event is returned as it is. -/
def fixedVersionFor (record : Record) (packageName : String) : Except String Json := do
  let affected ← iterOr (Json.get record "affected")
  let found ← firstM (fun entry => do
    let fields ← fieldsOf entry
    let package ← fieldsOr (Json.get fields "package")
    match (package.lookup "name").getD (.str "") with
    | .str name =>
      if codec.caseMap.lower name ≠ codec.caseMap.lower packageName then return none
      firstM (fixedInRange codec) (← iterOr (Json.get fields "ranges"))
    | _ => throw "AttributeError: object has no attribute 'lower'") affected
  return found.getD .null

/-- A value bound to a text column. -/
def bindText : Json → Except String (Option String)
  | .null => .ok none
  | .str s => .ok (some s)
  | _ => .error "DataError: expected str"

/-- `_parse_dt`. -/
def parseDt (value : Json) : Option Time :=
  value.asStr?.bind fun s => codec.parseIso (String.ofList (s.toList.flatMap fun c =>
    if c = 'Z' then "+00:00".toList else [c]))

end

end Minireg.Osv
