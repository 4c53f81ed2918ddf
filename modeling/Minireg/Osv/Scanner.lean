import Mathlib.Data.List.Sort
import Minireg.Lib.Table
import Minireg.Osv.Record
import Minireg.Py.Dict
import Minireg.Upstreams.Base

/-!
# The OSV scanner

The tables a scan writes: the stored records, the versions with the verdict the policy
reads, and the links between them. `hydrate` fetches and stores records,
`reapplyRecords` and `recomputeVersions` carry a changed record to the versions linked to
it, `rescoreStored` reads every stored record again. An exception leaves no state.
-/

namespace Minireg.Osv

open Py Lib

/-! ## Rows -/

/-- `aliases` holds what iterating over the column gives. -/
structure Vulnerability where
  id : String
  cveId : String
  severityType : Option String := none
  cvssVector : Option String := none
  cvssScore : Option Rat := none
  severityLabel : Option String := none
  aliases : List Json := []
  modified : Option Time := none
  raw : Record := []
  fetchedAt : Time
  deriving DecidableEq

/-- A version, with the name of its package. -/
structure PackageVersion where
  id : Nat
  packageName : String
  ecosystem : Ecosystem
  maxCvss : Option Rat := none
  hasFix : Bool := false
  hasAdvisories : Bool := false
  isMalicious : Bool := false
  scannedAt : Option Time := none
  deriving DecidableEq

structure PackageVulnerability where
  versionId : Nat
  vulnerabilityId : String
  fixedVersion : Option String := none
  deriving DecidableEq

/-- `uq_pkgvuln`. -/
def PackageVulnerability.key (link : PackageVulnerability) : Nat × String :=
  (link.versionId, link.vulnerabilityId)

structure OsvDb where
  vulnerabilities : Table Vulnerability.id := .empty _
  versions : Table PackageVersion.id := .empty _
  links : Table PackageVulnerability.key := .empty _
  deriving DecidableEq

structure OsvSettings where
  enabled : Bool := true
  batchSize : Int := 200
  refreshInterval : Time := 21600
  cveOnly : Bool := false

/-! ## Verdicts -/

/-- `if score is not None and (current is None or score > current)`. -/
def worse (current score : Option Rat) : Option Rat :=
  match score, current with
  | some s, some c => if c < s then some s else some c
  | some s, none => some s
  | none, _ => current

/-- The links of a version, with the stored records they point to. -/
def linked (db : OsvDb) (versionId : Nat) : List (PackageVulnerability × Vulnerability) :=
  db.links.rows.filterMap fun link =>
    if link.versionId = versionId then
      (db.vulnerabilities.find? link.vulnerabilityId).map fun v => (link, v)
    else none

/-- `bool(fixed)`, of a column. -/
def hasText (text : Option String) : Bool := text.getD "" ≠ ""

def worstScore (pairs : List (PackageVulnerability × Vulnerability)) : Option Rat :=
  pairs.foldl (fun worst p => worse worst p.2.cvssScore) none

section Stored

variable (codec : Codec)

/-- The malware test on the columns of a stored record. -/
def storedMalicious (v : Vulnerability) : Bool :=
  isMal codec v.id || (v.aliases.filterMap Json.asStr?).any (isMal codec) ||
    v.severityType = some "MALICIOUS"

/-- One version of `_recompute_versions`. -/
def recomputed (db : OsvDb) (v : PackageVersion) : PackageVersion :=
  let pairs := linked db v.id
  if pairs = [] || v.scannedAt = none then v
  else { v with
    maxCvss := worstScore pairs
    hasFix := pairs.any fun p => hasText p.1.fixedVersion
    hasAdvisories := true
    isMalicious := pairs.any fun p => storedMalicious codec p.2 }

theorem recomputed_id (db : OsvDb) (v : PackageVersion) : (recomputed codec db v).id = v.id := by
  unfold recomputed
  dsimp only
  split <;> rfl

/-- `_recompute_versions`. -/
def recomputeVersions (versionIds : List Nat) (db : OsvDb) : OsvDb :=
  { db with
    versions := db.versions.modify
      (fun v => if v.id ∈ versionIds then recomputed codec db v else v) (by
        intro v
        split
        · exact recomputed_id codec db v
        · rfl) }

/-! ## Fixed versions -/

/-- Read the fixed version of a link again, where `records` has its record. -/
def refixed (records : String → Option Record) (db : OsvDb) (link : PackageVulnerability) :
    Except String PackageVulnerability :=
  match records link.vulnerabilityId, db.versions.find? link.versionId with
  | some raw, some v => do
    let fixed ← bindText (← fixedVersionFor codec raw v.packageName)
    return { link with fixedVersion := fixed }
  | _, _ => .ok link

theorem refixed_frame {records : String → Option Record} {db : OsvDb}
    {link link' : PackageVulnerability} (h : refixed codec records db link = .ok link') :
    ∃ fixed, link' = { link with fixedVersion := fixed } := by
  unfold refixed at h
  split at h
  · obtain ⟨value, -, h⟩ := bind_ok h
    obtain ⟨fixed, -, h⟩ := bind_ok h
    exact ⟨fixed, (Except.ok.inj h).symm⟩
  · exact ⟨link.fixedVersion, (Except.ok.inj h).symm⟩

theorem refixed_key {records : String → Option Record} {db : OsvDb}
    (link link' : PackageVulnerability) (h : refixed codec records db link = .ok link') :
    link'.key = link.key := by
  obtain ⟨fixed, rfl⟩ := refixed_frame codec h
  rfl

def refixLinks (records : String → Option Record) (db : OsvDb) : Except String OsvDb := do
  let links ← db.links.modifyM (refixed codec records db) (refixed_key codec)
  return { db with links := links }

/-- `_reapply_records`. -/
def reapplyRecords (records : Dict String Record) (db : OsvDb) : Except String OsvDb := do
  let db' ← refixLinks codec (Dict.get? records) db
  let touched := db.links.rows.filter fun link =>
    (Dict.get? records link.vulnerabilityId).isSome && (db.versions.find? link.versionId).isSome
  return recomputeVersions codec (touched.map PackageVulnerability.versionId) db'

/-! ## Rescoring -/

/-- The severity of a stored record, read again. -/
def rescored (v : Vulnerability) : Except String Vulnerability :=
  if v.raw = [] then .ok v
  else do
    let severity ← bestSeverity codec v.raw
    return if severity.score ≠ v.cvssScore || severity.stype ≠ v.severityType then
      { v with
        cvssScore := severity.score
        severityType := severity.stype
        cvssVector := severity.vector
        severityLabel := severityLabel severity.score }
    else v

theorem rescored_id (v v' : Vulnerability) (h : rescored codec v = .ok v') : v'.id = v.id := by
  unfold rescored at h
  split at h
  · rw [← Except.ok.inj h]
  · obtain ⟨severity, -, h⟩ := bind_ok h
    obtain rfl := Except.ok.inj h
    split <;> rfl

/-- The database before the links are read again. -/
def rescoredDb (db : OsvDb) (vulnerabilities : Table Vulnerability.id) : OsvDb :=
  let db := { db with vulnerabilities := vulnerabilities }
  { db with
    versions := db.versions.modify fun v =>
      { v with maxCvss := if linked db v.id = [] then v.maxCvss else worstScore (linked db v.id) } }

/-- `rescore_stored`. -/
def rescoreStored (db : OsvDb) : Except String OsvDb := do
  let vulnerabilities ← db.vulnerabilities.modifyM (rescored codec) (rescored_id codec)
  let db := rescoredDb db vulnerabilities
  refixLinks codec (fun id => (db.vulnerabilities.find? id).map Vulnerability.raw) db

end Stored

/-! ## Fetching records -/

/-- What a scan runs with: the clock, and what `_fetch_vuln` returns for an id. -/
structure Scanner where
  codec : Codec
  settings : OsvSettings
  now : Time
  fetchVuln : String → Option Record

/-- What `_hydrate` returns for an id. -/
structure Advisory where
  id : String
  cveId : String
  cvssScore : Option Rat
  raw : Record
  malicious : Bool
  fixedVersion : Json := .null
  deriving DecidableEq

/-- `records`, `failed`, and the stale records that were read again. -/
structure Hydration where
  cached : Dict String Advisory
  failed : List String := []
  refreshed : Dict String Record := []
  db : OsvDb

section Hydrate

variable (scanner : Scanner)

/-- `_is_stale`. -/
def isStale (row : Vulnerability) (reportedModified : Option Time) : Bool :=
  match reportedModified with
  | some reported => row.modified.all (· < reported)
  | none => scanner.now - row.fetchedAt > scanner.settings.refreshInterval

/-- A stored record, as `_hydrate` returns it. -/
def storedAdvisory (v : Vulnerability) : Advisory where
  id := v.id
  cveId := v.cveId
  cvssScore := v.cvssScore
  raw := v.raw
  malicious := storedMalicious scanner.codec v

/-- The row of a fetched record; `none` when `OSV_CVE_ONLY` drops it. -/
def hydratedRow (osvId : String) (record : Record) : Except String (Option Vulnerability) := do
  let cveId ← extractCve scanner.codec record
  let malicious ← isMalicious scanner.codec record
  if scanner.settings.cveOnly && cveId = none && !malicious then return none
  let severity ← bestSeverity scanner.codec record
  let severity : Severity := if malicious && severity.score = none then
      { score := some maliciousScore, stype := some "MALICIOUS", vector := none }
    else severity
  return some
    { id := osvId
      cveId := cveId.getD osvId
      severityType := severity.stype
      cvssVector := severity.vector
      cvssScore := severity.score
      severityLabel := severityLabel severity.score
      aliases := ← iterOr (Json.get record "aliases")
      modified := parseDt scanner.codec (Json.get record "modified")
      raw := record
      fetchedAt := scanner.now }

/-- One id of the loop over what was fetched. -/
def hydrateOne (stale : List String) (s : Hydration) (requested : String) :
    Except String Hydration :=
  match (scanner.fetchVuln requested).filter fun record =>
      Json.get record "id" = .str requested with
  | none =>
    if requested ∈ stale then .ok s else .ok { s with failed := s.failed ++ [requested] }
  | some record => do
    match ← hydratedRow scanner requested record with
    | none => return { s with cached := s.cached.filter fun e => e.1 ≠ requested }
    | some row =>
      let advisory : Advisory :=
        { id := requested
          cveId := row.cveId
          cvssScore := row.cvssScore
          raw := record
          malicious := ← isMalicious scanner.codec record }
      return { s with
        cached := Dict.set s.cached requested advisory
        refreshed := if requested ∈ stale then Dict.set s.refreshed requested record
          else s.refreshed
        db := { s.db with vulnerabilities := s.db.vulnerabilities.put row } }

/-- `_hydrate`. -/
def hydrate (reported : Dict String (Option Time)) (db : OsvDb) : Except String Hydration := do
  let known := db.vulnerabilities.rows.filter fun v => (Dict.get? reported v.id).isSome
  let stale := (known.filter fun v =>
    isStale scanner v ((Dict.get? reported v.id).getD none)).map Vulnerability.id
  let missing := (reported.map Prod.fst).filter fun i =>
    i ∉ known.map Vulnerability.id || i ∈ stale
  let start : Hydration :=
    { cached := known.map fun v => (v.id, storedAdvisory scanner v), db := db }
  let s ← (missing.insertionSort (· ≤ ·)).foldlM (hydrateOne scanner stale) start
  if s.refreshed = [] then return s
  return { s with db := ← reapplyRecords scanner.codec s.refreshed s.db }

variable {scanner : Scanner}

/-- The fetched record has the id that was asked for. -/
def Fetched (scanner : Scanner) (osvId : String) (record : Record) : Prop :=
  scanner.fetchVuln osvId = some record ∧ Json.get record "id" = .str osvId

/-- Nothing was read for the id. -/
def Unread (scanner : Scanner) (osvId : String) : Prop := ∀ record, ¬ Fetched scanner osvId record

theorem fetched_iff {osvId : String} {record : Record} :
    (scanner.fetchVuln osvId).filter (fun record => Json.get record "id" = .str osvId) =
      some record ↔ Fetched scanner osvId record := by
  rw [Option.filter_eq_some_iff]
  simp [Fetched]

/-- **What one turn of the loop does**: the id was not read, its record is dropped, or its record
is written. -/
theorem hydrateOne_cases {stale : List String} {s s' : Hydration} {requested : String}
    (h : hydrateOne scanner stale s requested = .ok s') :
    (Unread scanner requested ∧ requested ∈ stale ∧ s' = s) ∨
    (Unread scanner requested ∧ requested ∉ stale ∧
      s' = { s with failed := s.failed ++ [requested] }) ∨
    ∃ record, Fetched scanner requested record ∧
      ((hydratedRow scanner requested record = .ok none ∧
          s' = { s with cached := s.cached.filter fun e => e.1 ≠ requested }) ∨
        ∃ row malicious, hydratedRow scanner requested record = .ok (some row) ∧
          isMalicious scanner.codec record = .ok malicious ∧
          s' = { s with
            cached := Dict.set s.cached requested
              { id := requested, cveId := row.cveId, cvssScore := row.cvssScore, raw := record
                malicious := malicious }
            refreshed := if requested ∈ stale then Dict.set s.refreshed requested record
              else s.refreshed
            db := { s.db with vulnerabilities := s.db.vulnerabilities.put row } }) := by
  unfold hydrateOne at h
  split at h
  · next hnone =>
    have hunread : Unread scanner requested := by
      intro record hrecord
      rw [fetched_iff.mpr hrecord] at hnone
      cases hnone
    split at h
    · next hstale => exact .inl ⟨hunread, hstale, (Except.ok.inj h).symm⟩
    · next hstale => exact .inr (.inl ⟨hunread, hstale, (Except.ok.inj h).symm⟩)
  · next record hrecord =>
    refine .inr (.inr ⟨record, fetched_iff.mp hrecord, ?_⟩)
    obtain ⟨row, hrow, h⟩ := bind_ok h
    rcases row with _ | row
    · exact .inl ⟨hrow, (Except.ok.inj h).symm⟩
    · obtain ⟨malicious, hmalicious, h⟩ := bind_ok h
      exact .inr ⟨row, malicious, hrow, hmalicious, (Except.ok.inj h).symm⟩

end Hydrate

end Minireg.Osv
