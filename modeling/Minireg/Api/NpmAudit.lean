import Minireg.Core.SemverBounds
import Minireg.Core.SemverJoined
import Minireg.Lib.Picker
import Minireg.Lib.Table
import Minireg.Osv.Record
import Minireg.Py.Grouping

/-!
# npm audit

`audit_bulk` answers which of the versions a client has installed are known to be
vulnerable. It joins the links between versions and advisories, and writes the versions of
an advisory as one range, which npm reads again.
-/

namespace Minireg.NpmAudit

open Py Lib Semver

/-! ## The tables -/

structure AuditPackage where
  id : Nat
  ecosystem : Ecosystem
  normalizedName : String
  deriving DecidableEq

/-- `uq_package_eco_name`. -/
def AuditPackage.key (p : AuditPackage) : Ecosystem × String := (p.ecosystem, p.normalizedName)

structure AuditVersion where
  id : Nat
  packageId : Nat
  version : String
  deriving DecidableEq

structure AuditLink where
  versionId : Nat
  vulnerabilityId : String
  fixedVersion : Option String := none
  suppressed : Bool := false
  deriving DecidableEq

/-- `uq_pkgvuln`. -/
def AuditLink.key (link : AuditLink) : Nat × String := (link.versionId, link.vulnerabilityId)

structure AuditVulnerability where
  id : String
  cveId : String
  summary : Option String := none
  severityLabel : Option String := none
  cvssScore : Option Rat := none
  cvssVector : Option String := none
  deriving DecidableEq

/-- `String(128)`, the columns of a version and of a fixed version. -/
def versionColumn : Nat := 128

/-- The tables, with their constraints: a link is to a stored record, and the versions fit
their columns. -/
structure AuditDb where
  packages : Table AuditPackage.id := .empty _
  named : (packages.rows.map AuditPackage.key).Nodup := by decide
  versions : Table AuditVersion.id := .empty _
  vulnerabilities : Table AuditVulnerability.id := .empty _
  links : Table AuditLink.key := .empty _
  known : ∀ link ∈ links.rows, ∃ v ∈ vulnerabilities.rows, v.id = link.vulnerabilityId := by decide
  short : ∀ v ∈ versions.rows, v.version.length ≤ versionColumn := by decide
  shortFix : ∀ link ∈ links.rows, (link.fixedVersion.getD "").length ≤ versionColumn := by decide

/-! ## The handler -/

/-- `MAX_AUDIT_BULK_NAMES`. -/
def maxAuditBulkNames : Nat := 4000

/-- `AUDIT_QUERY_CHUNK`. -/
def auditQueryChunk : Nat := 500

/-- `normalized_for`, of an npm name. -/
def normalizedFor (name : String) : String := strip name

/-- The names of the body with the versions installed. What is no list is left out, and of a
list what is no string. -/
def requestedVersions (fields : List (String × Json)) : Dict String (List String) :=
  fields.filterMap fun e => e.2.asArr?.map fun versions => (e.1, versions.filterMap Json.asStr?)

/-- The names as sent, under what they normalize to. -/
def byNormalized (requested : Dict String (List String)) : Dict String (List String) :=
  Dict.group (requested.map fun e => (normalizedFor e.1, e.1))

/-- A row of the query for the links. -/
structure LinkRow where
  packageId : Nat
  version : String
  vulnerabilityId : String
  fixedVersion : Option String

section Queries

variable (db : AuditDb)

/-- The ids of the npm packages with one of the names. -/
def packageRows (names : List String) : List (Nat × String) :=
  (chunks auditQueryChunk names).flatMap fun chunk => db.packages.rows.filterMap fun p =>
    if p.ecosystem = .npm ∧ p.normalizedName ∈ chunk then some (p.id, p.normalizedName) else none

/-- The links of the packages that are not suppressed, joined with their versions. -/
def linkRows (packageIds : List Nat) : List LinkRow :=
  (chunks auditQueryChunk packageIds).flatMap fun chunk => db.links.rows.flatMap fun link =>
    db.versions.rows.filterMap fun v =>
      if v.id = link.versionId ∧ v.packageId ∈ chunk ∧ link.suppressed = false then
        some { packageId := v.packageId, version := v.version,
               vulnerabilityId := link.vulnerabilityId, fixedVersion := link.fixedVersion }
      else none

/-- The stored records with one of the ids. -/
def vulnerabilityRows (ids : List String) : List (String × AuditVulnerability) :=
  (chunks auditQueryChunk ids).flatMap fun chunk => db.vulnerabilities.rows.filterMap fun v =>
    if v.id ∈ chunk then some (v.id, v) else none

/-- `package_ids`: the stored packages of the requested names. -/
def packageIds (requested : Dict String (List String)) : Dict Nat String :=
  Dict.ofPairs (packageRows db ((byNormalized requested).map Prod.fst))

end Queries

/-- `affected`: every known version of a package that has the vulnerability. -/
def affectedVersions (rows : List LinkRow) : Dict (Nat × String) (List String) :=
  Dict.group (rows.map fun r => ((r.packageId, r.vulnerabilityId), r.version))

/-- A text that is there and not empty. -/
def truthy (text : Option String) : Option String := text.filter (· ≠ "")

/-- `fixes`. -/
def fixedVersions (rows : List LinkRow) : Dict (Nat × String) (List String) :=
  Dict.group (rows.filterMap fun r =>
    (truthy r.fixedVersion).map fun fixed => ((r.packageId, r.vulnerabilityId), fixed))

/-- What the loop over `affected` appends to `hits`: for every requested name the
vulnerabilities that an installed version has. -/
def hitPairs (requested : Dict String (List String)) (ids : Dict Nat String)
    (affected : Dict (Nat × String) (List String)) : List (String × String × List String) :=
  affected.flatMap fun e =>
    let names := ((byNormalized requested).get? ((ids.get? e.1.1).getD "")).getD []
    let installed := names.filter fun name =>
      e.2.any fun version => version ∈ (requested.get? name).getD []
    installed.map fun name => (name, e.1.2, e.2)

/-! ## Advisories -/

/-- `_NPM_SEVERITY`. -/
def npmSeverityNames : Dict String String :=
  [("critical", "critical"), ("high", "high"), ("medium", "moderate"), ("moderate", "moderate"),
   ("low", "low")]

/-- `npm_severity`. -/
def npmSeverity (cm : CaseMap) (label : Option String) (score : Option Rat) : String :=
  let lowered := cm.lower (label.getD "")
  match npmSeverityNames.get? lowered with
  | some mapped => mapped
  | none =>
    if lowered = "none" then "info"
    else if score.isSome then
      (npmSeverityNames.get? ((Osv.severityLabel score).getD "")).getD "info"
    else "low"

structure Advisory where
  id : String
  url : String
  title : String
  severity : String
  vulnerableVersions : String
  cwe : List String := []
  score : Rat
  vectorString : Option String
  fixAvailable : Option String
  deriving DecidableEq

section Handler

variable (cm : CaseMap) (order : SetOrder String)

/-- One advisory, from the stored record, the versions it is about and those that fix it. -/
def advisoryOf (vuln : AuditVulnerability) (versions fixed : List String) :
    Except ValueError Advisory := do
  let fixVersion ← maxSemver ((order.elements fixed).insertionSort (· ≤ ·))
  let sorted ← sortSemver (order.elements versions)
  return {
    id := vuln.id
    url := "https://osv.dev/vulnerability/" ++ vuln.id
    title := (truthy vuln.summary).getD vuln.cveId
    severity := npmSeverity cm vuln.severityLabel vuln.cvssScore
    vulnerableVersions := join " || " sorted
    score := vuln.cvssScore.getD 0
    vectorString := vuln.cvssVector
    fixAvailable := truthy fixVersion }

/-- The advisories of one requested name. -/
def advisoriesOf (details : Dict String AuditVulnerability) (fixed : String → List String)
    (entries : List (String × List String)) : Except ValueError (List Advisory) :=
  let known := (entries.insertionSort fun a b => a.1 ≤ b.1).filterMap fun e =>
    (details.get? e.1).map fun vuln => (vuln, e)
  known.mapM fun e => advisoryOf cm order e.1 e.2.2 (fixed e.2.1)

/-- `fixes` of the package that a name normalizes to. -/
def fixesOf (ids : Dict Nat String) (rows : List LinkRow) (name vulnId : String) : List String :=
  let normalizedToId := Dict.ofPairs (ids.map fun e => (e.2, e.1))
  let packageId := (normalizedToId.get? (normalizedFor name)).getD 0
  ((fixedVersions rows).get? (packageId, vulnId)).getD []

/-- `vuln_ids`. -/
def vulnIds (hits : Dict String (List (String × List String))) : List String :=
  (hits.flatMap fun e => e.2.map Prod.fst).dedup.insertionSort (· ≤ ·)

/-- The last loop of the handler: an answer for every name that is hit. -/
def answersOf (db : AuditDb) (ids : Dict Nat String) (rows : List LinkRow)
    (hits : Dict String (List (String × List String))) :
    Except ValueError (Dict String (List Advisory)) := do
  let details := Dict.ofPairs (vulnerabilityRows db (vulnIds hits))
  let answers ← hits.mapM fun e =>
    (advisoriesOf cm order details (fixesOf ids rows e.1) e.2).map fun advisories =>
      (e.1, advisories)
  return answers.filter fun e => !e.2.isEmpty

/-- What the names of a body are answered. -/
def reportsOf (db : AuditDb) (requested : Dict String (List String)) :
    Except ValueError (Dict String (List Advisory)) :=
  if requested.isEmpty then .ok []
  else
    let ids := packageIds db requested
    if ids.isEmpty then .ok []
    else
      let rows := linkRows db (ids.map Prod.fst)
      let hits := Dict.group (hitPairs requested ids (affectedVersions rows))
      if hits.isEmpty then .ok [] else answersOf cm order db ids rows hits

inductive AuditResponse where
  | refused (statusCode : Nat) (error : String)
  | answered (out : Dict String (List Advisory))
  deriving DecidableEq

/-- `audit_bulk`. A body that is no JSON object is answered with nothing. -/
def auditBulk (db : AuditDb) (body : Option Json) : Except ValueError AuditResponse :=
  match body with
  | some (.obj fields) =>
    if maxAuditBulkNames < fields.length then
      .ok (.refused 413 ("too many packages in one request (limit " ++
        toString maxAuditBulkNames ++ ")"))
    else (reportsOf cm order db (requestedVersions fields)).map .answered
  | _ => .ok (.answered [])

end Handler

/-! ## What the queries find -/

section Queries

variable {db : AuditDb}

/-- The package that a name normalizes to. -/
def AuditDb.IsPackage (db : AuditDb) (name : String) (p : AuditPackage) : Prop :=
  p ∈ db.packages.rows ∧ p.key = (.npm, normalizedFor name)

theorem AuditDb.IsPackage.unique {name : String} {p q : AuditPackage} (hp : db.IsPackage name p)
    (hq : db.IsPackage name q) : p = q :=
  List.inj_on_of_nodup_map db.named hp.1 hq.1 (hp.2.trans hq.2.symm)

/-- A version of the package has a link to the advisory that is not suppressed. -/
def AuditDb.Linked (db : AuditDb) (packageId : Nat) (version id : String) : Prop :=
  ∃ v ∈ db.versions.rows, v.packageId = packageId ∧ v.version = version ∧
    ∃ link ∈ db.links.rows, link.versionId = v.id ∧ link.vulnerabilityId = id ∧
      link.suppressed = false

theorem mem_packageRows {names : List String} {i : Nat} {n : String} :
    (i, n) ∈ packageRows db names ↔
      n ∈ names ∧ ∃ p ∈ db.packages.rows, p.key = (.npm, n) ∧ p.id = i := by
  refine mem_flatMap_chunks (by decide) fun chunk => ?_
  simp only [List.mem_filterMap, Option.ite_none_right_eq_some, Option.some.injEq, Prod.mk.injEq,
    AuditPackage.key]
  constructor
  · rintro ⟨p, hp, ⟨hnpm, hchunk⟩, rfl, rfl⟩
    exact ⟨hchunk, p, hp, ⟨hnpm, rfl⟩, rfl⟩
  · rintro ⟨hchunk, p, hp, ⟨hnpm, rfl⟩, rfl⟩
    exact ⟨p, hp, ⟨hnpm, hchunk⟩, rfl, rfl⟩

theorem mem_linkRows {ids : List Nat} {r : LinkRow} :
    r ∈ linkRows db ids ↔ r.packageId ∈ ids ∧
      ∃ v ∈ db.versions.rows, v.packageId = r.packageId ∧ v.version = r.version ∧
        ∃ link ∈ db.links.rows, link.versionId = v.id ∧
          link.vulnerabilityId = r.vulnerabilityId ∧ link.suppressed = false ∧
          link.fixedVersion = r.fixedVersion := by
  refine mem_flatMap_chunks (by decide) fun chunk => ?_
  simp only [List.mem_flatMap, List.mem_filterMap, Option.ite_none_right_eq_some,
    Option.some.injEq]
  constructor
  · rintro ⟨link, hlink, v, hv, ⟨hid, hchunk, hsuppressed⟩, rfl⟩
    exact ⟨hchunk, v, hv, rfl, rfl, link, hlink, hid.symm, rfl, hsuppressed, rfl⟩
  · rintro ⟨hchunk, v, hv, hpackage, hversion, link, hlink, hid, hvuln, hsuppressed, hfixed⟩
    refine ⟨link, hlink, v, hv, ⟨hid.symm, hpackage ▸ hchunk, hsuppressed⟩, ?_⟩
    rw [hpackage, hversion, hvuln, hfixed]

theorem mem_vulnerabilityRows {ids : List String} {i : String} {vuln : AuditVulnerability} :
    (i, vuln) ∈ vulnerabilityRows db ids ↔
      i ∈ ids ∧ vuln ∈ db.vulnerabilities.rows ∧ vuln.id = i := by
  refine mem_flatMap_chunks (by decide) fun chunk => ?_
  simp only [List.mem_filterMap, Option.ite_none_right_eq_some, Option.some.injEq, Prod.mk.injEq]
  constructor
  · rintro ⟨v, hv, hchunk, rfl, rfl⟩
    exact ⟨hchunk, hv, rfl⟩
  · rintro ⟨hchunk, hv, rfl⟩
    exact ⟨vuln, hv, hchunk, rfl, rfl⟩

theorem get?_details {ids : List String} {i : String} {vuln : AuditVulnerability} :
    (Dict.ofPairs (vulnerabilityRows db ids)).get? i = some vuln ↔
      i ∈ ids ∧ vuln ∈ db.vulnerabilities.rows ∧ vuln.id = i := by
  rw [Dict.get?_ofPairs, mem_vulnerabilityRows]
  intro i v w hv hw
  obtain ⟨-, hv, hvid⟩ := mem_vulnerabilityRows.mp hv
  obtain ⟨-, hw, hwid⟩ := mem_vulnerabilityRows.mp hw
  exact Table.eq_of_key (t := db.vulnerabilities) hv hw (hvid.trans hwid.symm)

theorem mem_byNormalized {requested : Dict String (List String)} {n : String} :
    n ∈ (byNormalized requested).map Prod.fst ↔ ∃ e ∈ requested, normalizedFor e.1 = n := by
  simp only [List.mem_map, Prod.exists, exists_and_right, exists_eq_right]
  constructor
  · rintro ⟨names, hnames⟩
    obtain ⟨name, hname⟩ := List.exists_mem_of_ne_nil _ (Dict.group_ne_nil hnames)
    obtain ⟨e, he, heq⟩ := List.mem_map.mp ((Dict.mem_of_group hnames).mp hname)
    exact ⟨e.1, ⟨e.2, he⟩, congrArg Prod.fst heq⟩
  · rintro ⟨name, ⟨versions, he⟩, rfl⟩
    exact Dict.exists_group (List.mem_map.mpr ⟨_, he, rfl⟩)

theorem mem_names {requested : Dict String (List String)} {name n : String} :
    name ∈ ((byNormalized requested).get? n).getD [] ↔
      normalizedFor name = n ∧ ∃ versions, (name, versions) ∈ requested := by
  unfold byNormalized
  rw [Dict.getD_group, Dict.mem_valuesOf, List.mem_map]
  constructor
  · rintro ⟨e, he, heq⟩
    cases heq
    exact ⟨rfl, e.2, he⟩
  · rintro ⟨rfl, versions, he⟩
    exact ⟨_, he, rfl⟩

theorem mem_packageIds {requested : Dict String (List String)} {i : Nat} {n : String} :
    (i, n) ∈ packageIds db requested ↔ (∃ e ∈ requested, normalizedFor e.1 = n) ∧
      ∃ p ∈ db.packages.rows, p.key = (.npm, n) ∧ p.id = i := by
  unfold packageIds
  rw [Dict.mem_ofPairs, mem_packageRows, mem_byNormalized]
  intro i n m hn hm
  obtain ⟨-, p, hp, hpkey, hpid⟩ := mem_packageRows.mp hn
  obtain ⟨-, q, hq, hqkey, hqid⟩ := mem_packageRows.mp hm
  have hsame : p = q := Table.eq_of_key (t := db.packages) hp hq (hpid.trans hqid.symm)
  rw [hsame] at hpkey
  exact congrArg Prod.snd (hpkey.symm.trans hqkey)

theorem get?_packageIds {requested : Dict String (List String)} {i : Nat} {n : String} :
    (packageIds db requested).get? i = some n ↔ (∃ e ∈ requested, normalizedFor e.1 = n) ∧
      ∃ p ∈ db.packages.rows, p.key = (.npm, n) ∧ p.id = i := by
  rw [← mem_packageIds]
  exact Dict.get?_eq_some_iff (Dict.nodup_keys_ofPairs _)

end Queries

/-! ## Hits -/

section Hits

variable {db : AuditDb} {ids : List Nat} {i : Nat} {vulnId v : String} {versions : List String}

/-- The versions of an advisory come with the links to it. -/
theorem mem_affectedPairs :
    ((i, vulnId), v) ∈ (linkRows db ids).map
        (fun r => ((r.packageId, r.vulnerabilityId), r.version)) ↔
      i ∈ ids ∧ db.Linked i v vulnId := by
  rw [List.mem_map]
  constructor
  · rintro ⟨r, hr, heq⟩
    cases heq
    obtain ⟨hid, v, hv, hpackage, hversion, link, hlink, hrest, hvuln, hsuppressed, -⟩ :=
      mem_linkRows.mp hr
    exact ⟨hid, v, hv, hpackage, hversion, link, hlink, hrest, hvuln, hsuppressed⟩
  · rintro ⟨hid, v, hv, hpackage, rfl, link, hlink, hrest, rfl, hsuppressed⟩
    exact ⟨⟨i, v.version, link.vulnerabilityId, link.fixedVersion⟩, mem_linkRows.mpr
      ⟨hid, v, hv, hpackage, rfl, link, hlink, hrest, rfl, hsuppressed, rfl⟩, rfl⟩

theorem mem_affected (h : ((i, vulnId), versions) ∈ affectedVersions (linkRows db ids)) :
    v ∈ versions ↔ i ∈ ids ∧ db.Linked i v vulnId :=
  (Dict.mem_of_group h).trans mem_affectedPairs

theorem exists_affected (hi : i ∈ ids) (h : db.Linked i v vulnId) :
    ∃ versions, ((i, vulnId), versions) ∈ affectedVersions (linkRows db ids) :=
  Dict.exists_group (mem_affectedPairs.mpr ⟨hi, h⟩)

variable {requested : Dict String (List String)} {name : String} {e : String × List String}
  {p : AuditPackage}

theorem mem_ids (hp : db.IsPackage name p) (hname : ∃ installed, (name, installed) ∈ requested) :
    (p.id, normalizedFor name) ∈ packageIds db requested := by
  obtain ⟨installed, hname⟩ := hname
  exact mem_packageIds.mpr ⟨⟨_, hname, rfl⟩, p, hp.1, hp.2, rfl⟩

/-- The rows that `affected` is built from. -/
def auditRows (db : AuditDb) (requested : Dict String (List String)) : List LinkRow :=
  linkRows db ((packageIds db requested).map Prod.fst)

/-- **A hit** is an installed version of the package with a link to the vulnerability. -/
theorem mem_hitPairs :
    (name, e) ∈ hitPairs requested (packageIds db requested)
        (affectedVersions (auditRows db requested)) ↔
      (∃ installed, (name, installed) ∈ requested) ∧ (∃ p, db.IsPackage name p ∧
        ((p.id, e.1), e.2) ∈ affectedVersions (auditRows db requested)) ∧
      ∃ v ∈ e.2, v ∈ (requested.get? name).getD [] := by
  unfold hitPairs
  simp only [List.mem_flatMap, List.mem_map, List.mem_filter, List.any_eq_true,
    decide_eq_true_eq, mem_names]
  constructor
  · rintro ⟨⟨⟨i, vulnId⟩, versions⟩, haffected, n, ⟨⟨hn, hrequested⟩, hinstalled⟩, heq⟩
    cases heq
    obtain ⟨v, hv, -⟩ := id hinstalled
    obtain ⟨⟨i, n⟩, hmem, rfl⟩ := List.mem_map.mp ((mem_affected haffected).mp hv).1
    rw [get?_packageIds.mpr (mem_packageIds.mp hmem), Option.getD_some] at hn
    obtain ⟨-, p, hp, hkey, rfl⟩ := mem_packageIds.mp hmem
    exact ⟨hrequested, ⟨p, ⟨hp, hn ▸ hkey⟩, haffected⟩, hinstalled⟩
  · rintro ⟨hrequested, ⟨p, hp, haffected⟩, hinstalled⟩
    have hid := get?_packageIds.mpr (mem_packageIds.mp (mem_ids hp hrequested))
    refine ⟨_, haffected, name, ⟨⟨?_, hrequested⟩, hinstalled⟩, rfl⟩
    rw [hid]
    rfl

end Hits

/-! ## Reports -/

/-- The column limits keep Python from refusing a number. -/
def Short (version : String) : Prop := version.length ≤ versionColumn

theorem sort_short {versions : List String} (h : ∀ v ∈ versions, Short v) :
    ∃ sorted, sortSemver versions = .ok sorted := by
  have hkeys : ∀ v ∈ versions, ∃ keyed, (semverKey v).map (fun k => (k, v)) = .ok keyed := by
    intro v hv
    have hlen : v.length ≤ maxStrDigits := (h v hv).trans (by decide)
    obtain ⟨parsed, hparsed⟩ := (parse_returns hlen).exists_ok
    unfold semverKey
    rw [hparsed]
    exact ⟨_, rfl⟩
  obtain ⟨keyed, hkeyed⟩ := mapM_of_returns hkeys
  unfold sortSemver
  rw [hkeyed]
  exact ⟨_, rfl⟩

theorem max_short {versions : List String} (h : ∀ v ∈ versions, Short v) :
    ∃ greatest, maxSemver versions = .ok greatest := by
  unfold maxSemver
  split
  · exact ⟨none, rfl⟩
  · have hpool : ∀ v ∈ (if versions.filter isStableSemver = [] then versions
        else versions.filter isStableSemver), Short v := by
      split
      · exact h
      · exact fun v hv => h v (List.mem_filter.mp hv).1
    obtain ⟨sorted, hsorted⟩ := sort_short hpool
    dsimp only
    rw [hsorted]
    exact ⟨_, rfl⟩

section Reports

variable {cm : CaseMap} {order : SetOrder String} {db : AuditDb}
  {vuln : AuditVulnerability} {versions fixed : List String} {a : Advisory}

theorem advisoryOf_returns (cm : CaseMap) (order : SetOrder String) (vuln : AuditVulnerability)
    (hversions : ∀ v ∈ versions, Short v) (hfixed : ∀ v ∈ fixed, Short v) :
    ∃ a, advisoryOf cm order vuln versions fixed = .ok a := by
  have hfixes : ∀ v ∈ (order.elements fixed).insertionSort (· ≤ ·), Short v := fun v hv =>
    hfixed v (order.mem_elements.mp ((List.perm_insertionSort _ _).mem_iff.mp hv))
  have helements : ∀ v ∈ order.elements versions, Short v := fun v hv =>
    hversions v (order.mem_elements.mp hv)
  obtain ⟨greatest, hgreatest⟩ := max_short hfixes
  obtain ⟨sorted, hsorted⟩ := sort_short helements
  unfold advisoryOf
  rw [hgreatest, hsorted]
  exact ⟨_, rfl⟩

/-- The range of an advisory joins its versions. -/
theorem advisoryOf_range (h : advisoryOf cm order vuln versions fixed = .ok a) :
    a.id = vuln.id ∧ ∃ sorted, a.vulnerableVersions = join " || " sorted ∧
      ∀ v, v ∈ sorted ↔ v ∈ versions := by
  unfold advisoryOf at h
  obtain ⟨greatest, -, h⟩ := bind_ok h
  obtain ⟨sorted, hsorted, h⟩ := bind_ok h
  cases h
  exact ⟨rfl, sorted, rfl, fun v => (sortSemver_perm hsorted).mem_iff.trans order.mem_elements⟩

/-- An advisory of a name, in an answer. -/
def Reports (out : Dict String (List Advisory)) (name : String) (a : Advisory) : Prop :=
  ∃ advisories, out.get? name = some advisories ∧ a ∈ advisories

theorem advisoriesOf_spec {details : Dict String AuditVulnerability}
    {fixed : String → List String} {entries : List (String × List String)}
    {advisories : List Advisory}
    (h : advisoriesOf cm order details fixed entries = .ok advisories) :
    a ∈ advisories ↔ ∃ e ∈ entries, ∃ vuln, details.get? e.1 = some vuln ∧
      advisoryOf cm order vuln e.2 (fixed e.1) = .ok a := by
  unfold advisoriesOf at h
  have hknown (vuln : AuditVulnerability) (e : String × List String) :
      (vuln, e) ∈ (entries.insertionSort fun a b => a.1 ≤ b.1).filterMap (fun e =>
        (details.get? e.1).map fun vuln => (vuln, e)) ↔
      e ∈ entries ∧ details.get? e.1 = some vuln := by
    simp only [List.mem_filterMap, (List.perm_insertionSort _ _).mem_iff, Option.map_eq_some_iff,
      Prod.mk.injEq]
    constructor
    · rintro ⟨e, he, vuln, hvuln, rfl, rfl⟩
      exact ⟨he, hvuln⟩
    · rintro ⟨he, hvuln⟩
      exact ⟨e, he, vuln, hvuln, rfl, rfl⟩
  constructor
  · intro ha
    obtain ⟨⟨vuln, e⟩, he, hadvisory⟩ := mapM_mem h a ha
    obtain ⟨he, hvuln⟩ := (hknown vuln e).mp he
    exact ⟨e, he, vuln, hvuln, hadvisory⟩
  · rintro ⟨e, he, vuln, hvuln, hadvisory⟩
    obtain ⟨b, hb, hb'⟩ := mapM_mem_of_mem h (vuln, e) ((hknown vuln e).mpr ⟨he, hvuln⟩)
    obtain rfl := Except.ok.inj (hb'.symm.trans hadvisory)
    exact hb

variable {ids : Dict Nat String} {rows : List LinkRow}
  {hits : Dict String (List (String × List String))} {out : Dict String (List Advisory)}
  {name : String}

/-- The stored record of a vulnerability that a name is hit by. -/
theorem get?_hitDetails {e : String × List (String × List String)} (he : e ∈ hits)
    {d : String × List String} (hd : d ∈ e.2) :
    (Dict.ofPairs (vulnerabilityRows db (vulnIds hits))).get? d.1 = some vuln ↔
      vuln ∈ db.vulnerabilities.rows ∧ vuln.id = d.1 := by
  have hid : d.1 ∈ vulnIds hits := by
    unfold vulnIds
    rw [(List.perm_insertionSort _ _).mem_iff, List.mem_dedup, List.mem_flatMap]
    exact ⟨e, he, List.mem_map.mpr ⟨d, hd, rfl⟩⟩
  rw [get?_details, and_iff_right hid]

/-- **What is answered for a name**: an advisory for every stored record it is hit by. -/
theorem answersOf_spec (h : answersOf cm order db ids rows hits = .ok out)
    (hnodup : (hits.map Prod.fst).Nodup) :
    Reports out name a ↔ ∃ entries, (name, entries) ∈ hits ∧ ∃ d ∈ entries,
      ∃ vuln ∈ db.vulnerabilities.rows, vuln.id = d.1 ∧
        advisoryOf cm order vuln d.2 (fixesOf ids rows name d.1) = .ok a := by
  unfold answersOf at h
  obtain ⟨answers, hanswers, h⟩ := bind_ok h
  obtain rfl := Except.ok.inj h
  have hkeys : answers.map Prod.fst = hits.map Prod.fst :=
    mapM_map hanswers fun e answer he => by
      obtain ⟨advisories, -, rfl⟩ := map_ok he
      rfl
  have hout : ((answers.filter fun e => !e.2.isEmpty).map Prod.fst).Nodup := by
    rw [← hkeys] at hnodup
    exact hnodup.sublist (List.filter_sublist.map _)
  unfold Reports
  simp only [Dict.get?_eq_some_iff hout, List.mem_filter]
  constructor
  · rintro ⟨advisories, ⟨hmem, -⟩, ha⟩
    obtain ⟨e, he, hanswer⟩ := mapM_mem hanswers _ hmem
    obtain ⟨advisories', hadvisories, heq⟩ := map_ok hanswer
    cases heq
    obtain ⟨d, hd, vuln, hvuln, hadvisory⟩ := (advisoriesOf_spec hadvisories).mp ha
    obtain ⟨hmem, hid⟩ := (get?_hitDetails he hd).mp hvuln
    exact ⟨e.2, he, d, hd, vuln, hmem, hid, hadvisory⟩
  · rintro ⟨entries, he, d, hd, vuln, hmem, hid, hadvisory⟩
    obtain ⟨answer, hanswer, hok⟩ := mapM_mem_of_mem hanswers _ he
    obtain ⟨advisories, hadvisories, rfl⟩ := map_ok hok
    have ha := (advisoriesOf_spec hadvisories).mpr
      ⟨d, hd, vuln, (get?_hitDetails he hd).mpr ⟨hmem, hid⟩, hadvisory⟩
    refine ⟨advisories, ⟨hanswer, ?_⟩, ha⟩
    cases advisories with
    | nil => cases ha
    | cons => rfl

theorem answersOf_returns (h : ∀ e ∈ hits, ∀ d ∈ e.2,
      (∀ v ∈ d.2, Short v) ∧ ∀ v ∈ fixesOf ids rows e.1 d.1, Short v) :
    ∃ out, answersOf cm order db ids rows hits = .ok out := by
  have hanswer : ∀ e ∈ hits, ∃ answer,
      (advisoriesOf cm order (Dict.ofPairs (vulnerabilityRows db (vulnIds hits)))
        (fixesOf ids rows e.1) e.2).map (fun advisories => (e.1, advisories)) = .ok answer := by
    intro e he
    have hadvisories : ∃ advisories, advisoriesOf cm order
        (Dict.ofPairs (vulnerabilityRows db (vulnIds hits))) (fixesOf ids rows e.1) e.2 =
          .ok advisories := by
      refine mapM_of_returns fun k hk => ?_
      obtain ⟨d, hd, hknown⟩ := List.mem_filterMap.mp hk
      obtain ⟨vuln, -, rfl⟩ := Option.map_eq_some_iff.mp hknown
      have hshort := h e he d ((List.perm_insertionSort _ _).mem_iff.mp hd)
      exact advisoryOf_returns cm order vuln hshort.1 hshort.2
    obtain ⟨advisories, hadvisories⟩ := hadvisories
    rw [hadvisories]
    exact ⟨_, rfl⟩
  obtain ⟨answers, hanswers⟩ := mapM_of_returns hanswer
  unfold answersOf
  dsimp only
  rw [hanswers]
  exact ⟨_, rfl⟩

variable {requested : Dict String (List String)}

/-- What a client may install, and what fixes it, are stored versions and columns. -/
theorem short_hit {d : String × List String}
    (h : (name, d) ∈ hitPairs requested (packageIds db requested)
      (affectedVersions (auditRows db requested))) :
    (∀ v ∈ d.2, Short v) ∧
      ∀ v ∈ fixesOf (packageIds db requested) (auditRows db requested) name d.1, Short v := by
  obtain ⟨-, ⟨p, -, haffected⟩, -⟩ := mem_hitPairs.mp h
  constructor
  · intro v hv
    obtain ⟨-, stored, hstored, -, rfl, -⟩ := (mem_affected haffected).mp hv
    exact db.short stored hstored
  · intro v hv
    unfold fixesOf fixedVersions at hv
    dsimp only at hv
    rw [Dict.getD_group, Dict.mem_valuesOf] at hv
    obtain ⟨r, hr, hfixed⟩ := List.mem_filterMap.mp hv
    obtain ⟨fixed, htruthy, heq⟩ := Option.map_eq_some_iff.mp hfixed
    obtain rfl : fixed = v := congrArg Prod.snd heq
    obtain ⟨-, -, -, -, -, link, hlink, -, -, -, hcolumn⟩ := mem_linkRows.mp hr
    have hshort := db.shortFix link hlink
    rw [hcolumn, (Option.filter_eq_some_iff.mp htruthy).1] at hshort
    exact hshort

/-- **The loops answer the hits.** -/
theorem reportsOf_spec (cm : CaseMap) (order : SetOrder String) (db : AuditDb)
    (requested : Dict String (List String)) : ∃ out, reportsOf cm order db requested = .ok out ∧
    ∀ name a, Reports out name a ↔ ∃ d, (name, d) ∈ hitPairs requested (packageIds db requested)
        (affectedVersions (auditRows db requested)) ∧
      ∃ vuln ∈ db.vulnerabilities.rows, vuln.id = d.1 ∧ advisoryOf cm order vuln d.2
        (fixesOf (packageIds db requested) (auditRows db requested) name d.1) = .ok a := by
  have hnothing (hempty : ∀ name d, (name, d) ∉ hitPairs requested (packageIds db requested)
      (affectedVersions (auditRows db requested))) (name : String) (a : Advisory) :
      Reports [] name a ↔ ∃ d, (name, d) ∈ hitPairs requested (packageIds db requested)
        (affectedVersions (auditRows db requested)) ∧
      ∃ vuln ∈ db.vulnerabilities.rows, vuln.id = d.1 ∧ advisoryOf cm order vuln d.2
        (fixesOf (packageIds db requested) (auditRows db requested) name d.1) = .ok a := by
    constructor
    · rintro ⟨advisories, hget, -⟩
      cases hget
    · rintro ⟨d, hd, -⟩
      exact absurd hd (hempty name d)
  unfold reportsOf
  dsimp only
  split
  · next hrequested =>
    refine ⟨[], rfl, hnothing fun name d hd => ?_⟩
    obtain ⟨⟨installed, hname⟩, -⟩ := mem_hitPairs.mp hd
    rw [List.isEmpty_iff.mp hrequested] at hname
    cases hname
  split
  · next hids =>
    refine ⟨[], rfl, hnothing fun name d hd => ?_⟩
    obtain ⟨hname, ⟨p, hp, -⟩, -⟩ := mem_hitPairs.mp hd
    have hid := mem_ids hp hname
    rw [List.isEmpty_iff.mp hids] at hid
    cases hid
  split
  · next hhits =>
    refine ⟨[], rfl, hnothing fun name d hd => ?_⟩
    obtain ⟨entries, hentries⟩ := Dict.exists_group hd
    have hnone := List.isEmpty_iff.mp hhits
    unfold auditRows at hentries
    rw [hnone] at hentries
    cases hentries
  · have hreturns : ∃ out, answersOf cm order db (packageIds db requested)
        (auditRows db requested) (Dict.group (hitPairs requested (packageIds db requested)
          (affectedVersions (auditRows db requested)))) = .ok out :=
      answersOf_returns fun e he d hd => short_hit ((Dict.mem_of_group he).mp hd)
    obtain ⟨out, hout⟩ := hreturns
    refine ⟨out, hout, fun name a => (answersOf_spec hout (Dict.nodup_keys_group _)).trans ?_⟩
    constructor
    · rintro ⟨entries, hentries, d, hd, hrest⟩
      exact ⟨d, (Dict.mem_of_group hentries).mp hd, hrest⟩
    · rintro ⟨d, hd, hrest⟩
      obtain ⟨entries, hentries⟩ := Dict.exists_group hd
      exact ⟨entries, hentries, d, (Dict.mem_of_group hentries).mpr hd, hrest⟩

end Reports

/-! ## The answer -/

section Answer

variable (db : AuditDb)

/-- A version of the package that a name normalizes to is stored. -/
def AuditDb.Stored (name version : String) : Prop :=
  ∃ p, db.IsPackage name p ∧ ∃ v ∈ db.versions.rows, v.packageId = p.id ∧ v.version = version

/-- A stored version of the package has a link to the advisory that is not suppressed. -/
def AuditDb.Affected (name version id : String) : Prop :=
  ∃ p, db.IsPackage name p ∧ db.Linked p.id version id

/-- No two stored versions of the package are equal in precedence. -/
def AuditDb.Distinct (name : String) : Prop :=
  ∀ s t v w, db.Stored name s → db.Stored name t → Parses s v → Parses t w →
    v.equivalent w = true → s = t

/-- A version of a name in the body of a request. -/
def Requested (body : List (String × Json)) (name version : String) : Prop :=
  ∃ versions, (name, .arr versions) ∈ body ∧ .str version ∈ versions

/-- An answer that reports what the links say. -/
structure Exact (body : List (String × Json)) (out : Dict String (List Advisory)) : Prop where
  reported : ∀ name id, (∃ a, Reports out name a ∧ a.id = id) ↔
    ∃ version, Requested body name version ∧ db.Affected name version id
  range : ∀ name a, Reports out name a → db.Distinct name →
    (∀ version, db.Affected name version a.id → ReadsAlone version) →
    ∀ version, db.Stored name version →
      (satisfies version a.vulnerableVersions = .ok true ↔ db.Affected name version a.id)

variable {db}

theorem AuditDb.Affected.stored {name version id : String} (h : db.Affected name version id) :
    db.Stored name version := by
  obtain ⟨p, hp, v, hv, hpackage, hversion, -⟩ := h
  exact ⟨p, hp, v, hv, hpackage, hversion⟩

theorem AuditDb.IsPackage.affected_iff {name version id : String} {p : AuditPackage}
    (hp : db.IsPackage name p) : db.Affected name version id ↔ db.Linked p.id version id := by
  constructor
  · rintro ⟨q, hq, hlinked⟩
    exact hp.unique hq ▸ hlinked
  · exact fun h => ⟨p, hp, h⟩

theorem mem_requestedVersions {body : List (String × Json)} {name : String}
    {installed : List String} : (name, installed) ∈ requestedVersions body ↔
      ∃ versions, (name, .arr versions) ∈ body ∧ versions.filterMap Json.asStr? = installed := by
  unfold requestedVersions
  rw [List.mem_filterMap]
  constructor
  · rintro ⟨⟨n, j⟩, he, hsome⟩
    obtain ⟨versions, hversions, heq⟩ := Option.map_eq_some_iff.mp hsome
    cases heq
    cases j <;> cases hversions
    exact ⟨versions, he, rfl⟩
  · rintro ⟨versions, he, rfl⟩
    exact ⟨_, he, rfl⟩

theorem nodup_requested (body : Table fun e : String × Json => e.1) :
    ((requestedVersions body.rows).map Prod.fst).Nodup := by
  have hnodup := List.pairwise_map.mp body.nodup
  unfold requestedVersions
  refine List.pairwise_map.mpr (List.pairwise_filterMap.mpr (hnodup.imp ?_))
  intro e e' hne b hb b' hb'
  obtain ⟨versions, -, rfl⟩ := Option.map_eq_some_iff.mp hb
  obtain ⟨versions', -, rfl⟩ := Option.map_eq_some_iff.mp hb'
  exact hne

theorem mem_asStrs {versions : List Json} {version : String} :
    version ∈ versions.filterMap Json.asStr? ↔ .str version ∈ versions := by
  rw [List.mem_filterMap]
  constructor
  · rintro ⟨j, hj, hsome⟩
    cases j <;> cases hsome
    exact hj
  · exact fun h => ⟨_, h, rfl⟩

theorem mem_installed {body : Table fun e : String × Json => e.1} {name version : String} :
    version ∈ ((requestedVersions body.rows).get? name).getD [] ↔
      Requested body.rows name version := by
  have hget {installed : List String} :=
    Dict.get?_eq_some_iff (nodup_requested body) (k := name) (v := installed)
  constructor
  · intro h
    rcases hinstalled : (requestedVersions body.rows).get? name with _ | installed
    · rw [hinstalled] at h
      cases h
    · rw [hinstalled] at h
      obtain ⟨versions, hversions, rfl⟩ := mem_requestedVersions.mp (hget.mp hinstalled)
      exact ⟨versions, hversions, mem_asStrs.mp h⟩
  · rintro ⟨versions, hversions, hmem⟩
    rw [hget.mpr (mem_requestedVersions.mpr ⟨versions, hversions, rfl⟩)]
    exact mem_asStrs.mpr hmem

/-- The versions of a hit are those with a link. -/
theorem hit_versions {requested : Dict String (List String)} {name version : String}
    {d : String × List String} (h : (name, d) ∈ hitPairs requested (packageIds db requested)
      (affectedVersions (auditRows db requested))) :
    version ∈ d.2 ↔ db.Affected name version d.1 := by
  obtain ⟨hname, ⟨p, hp, haffected⟩, -⟩ := mem_hitPairs.mp h
  have hid := List.mem_map_of_mem (f := Prod.fst) (mem_ids hp hname)
  rw [hp.affected_iff, mem_affected haffected, and_iff_right hid]

variable {cm : CaseMap} {order : SetOrder String}

/-- A request that is answered has a hit for every installed version with a link. -/
theorem exists_hit {body : Table fun e : String × Json => e.1} {name version id : String}
    (hrequested : Requested body.rows name version) (haffected : db.Affected name version id) :
    ∃ versions, (name, (id, versions)) ∈ hitPairs (requestedVersions body.rows)
      (packageIds db (requestedVersions body.rows))
      (affectedVersions (auditRows db (requestedVersions body.rows))) := by
  obtain ⟨p, hp, hlinked⟩ := haffected
  have hfields := hrequested
  obtain ⟨versions, hversions, -⟩ := hfields
  have hname : ∃ installed, (name, installed) ∈ requestedVersions body.rows :=
    ⟨_, mem_requestedVersions.mpr ⟨versions, hversions, rfl⟩⟩
  have hid := List.mem_map_of_mem (f := Prod.fst) (mem_ids hp hname)
  obtain ⟨known, hknown⟩ := exists_affected hid hlinked
  refine ⟨known, mem_hitPairs.mpr ⟨hname, ⟨p, hp, hknown⟩, version, ?_, ?_⟩⟩
  · exact (mem_affected hknown).mpr ⟨hid, hlinked⟩
  · exact mem_installed.mpr hrequested

/-- **The audit answers exactly**: an advisory is reported for a name when an installed version
has a link to it, and the range of the advisory admits the stored versions that have one. -/
theorem auditBulk_exact (cm : CaseMap) (order : SetOrder String) (db : AuditDb)
    (body : Table fun e : String × Json => e.1) (hlimit : body.rows.length ≤ maxAuditBulkNames) :
    ∃ out, auditBulk cm order db (some (.obj body.rows)) = .ok (.answered out) ∧
      Exact db body.rows out := by
  obtain ⟨out, hout, hreports⟩ := reportsOf_spec cm order db (requestedVersions body.rows)
  refine ⟨out, ?_, ?_, ?_⟩
  · unfold auditBulk
    dsimp only
    rw [if_neg (Nat.not_lt.mpr hlimit), hout]
    rfl
  · intro name id
    constructor
    · rintro ⟨a, ha, rfl⟩
      obtain ⟨d, hd, vuln, -, hid, hadvisory⟩ := (hreports name a).mp ha
      obtain ⟨-, -, version, hversion, hinstalled⟩ := mem_hitPairs.mp hd
      rw [(advisoryOf_range hadvisory).1, hid]
      exact ⟨version, mem_installed.mp hinstalled, (hit_versions hd).mp hversion⟩
    · rintro ⟨version, hrequested, haffected⟩
      obtain ⟨versions, hd⟩ := exists_hit hrequested haffected
      obtain ⟨p, hp, v, hv, -, -, link, hlink, -, hvuln, -⟩ := haffected
      obtain ⟨vuln, hvulnMem, hid⟩ := db.known link hlink
      obtain ⟨a, hadvisory⟩ := advisoryOf_returns cm order vuln (short_hit hd).1 (short_hit hd).2
      refine ⟨a, (hreports name a).mpr ⟨_, hd, vuln, hvulnMem, hid.trans hvuln, hadvisory⟩, ?_⟩
      rw [(advisoryOf_range hadvisory).1, hid, hvuln]
  · intro name a ha hdistinct hreads version hstored
    obtain ⟨d, hd, vuln, -, hid, hadvisory⟩ := (hreports name a).mp ha
    obtain ⟨hida, sorted, hrange, hsorted⟩ := advisoryOf_range hadvisory
    have hmem (v : String) : v ∈ sorted ↔ db.Affected name v a.id := by
      rw [hsorted, hit_versions hd, hida, hid]
    have hne : sorted ≠ [] := by
      obtain ⟨-, -, v, hv, -⟩ := mem_hitPairs.mp hd
      exact List.ne_nil_of_mem ((hsorted v).mpr hv)
    rw [hrange, satisfies_joined hne fun u hu => hreads u ((hmem u).mp hu)]
    constructor
    · rintro ⟨u, hu, v, w, hv, hw, hequal⟩
      have haffected := (hmem u).mp hu
      rw [hdistinct version u v w hstored haffected.stored hv hw hequal]
      exact haffected
    · intro haffected
      obtain ⟨v, hv⟩ := (hreads version haffected).parses
      exact ⟨version, (hmem version).mpr haffected, v, v, hv, hv, decide_eq_true rfl⟩

/-- A package with two versions, the first of which is vulnerable. -/
def lodashAudit (vulnerable : String) (h : vulnerable.length ≤ 128) : AuditDb where
  packages := { rows := [{ id := 1, ecosystem := .npm, normalizedName := "lodash" }] }
  versions :=
    { rows := [⟨1, 1, vulnerable⟩, ⟨2, 1, "3.0.0"⟩]
      nodup := show [1, 2].Nodup by decide }
  vulnerabilities := { rows := [{ id := "GHSA-1", cveId := "CVE-2021-1" }] }
  links := { rows := [{ versionId := 1, vulnerabilityId := "GHSA-1" }] }
  short v hv := by
    rcases List.mem_cons.mp hv with rfl | hv
    · exact h
    · rw [List.mem_singleton.mp hv]
      decide

/-- The body that names one version. -/
def lodashBody (version : String) : Table fun e : String × Json => e.1 where
  rows := [("lodash", .arr [.str version])]
  nodup := List.nodup_singleton _

/-- A prerelease is its own range. -/
theorem auditBulk_exact_prerelease :
    ∃ out, auditBulk .ascii (.leaving "") (lodashAudit "2.0.0-rc.1" (by decide))
        (some (.obj (lodashBody "2.0.0-rc.1").rows)) = .ok (.answered out) ∧
      Exact (lodashAudit "2.0.0-rc.1" (by decide)) (lodashBody "2.0.0-rc.1").rows out :=
  auditBulk_exact .ascii (.leaving "") (lodashAudit "2.0.0-rc.1" (by decide))
    (lodashBody "2.0.0-rc.1") (by decide)

/-- A body with one name more than are accepted. -/
def manyNames : Table fun e : String × Json => e.1 where
  rows := ("lodash", .arr [.str "1.0.0"]) ::
    (List.range 4000).map fun i => (String.ofList (List.replicate i 'a'), .arr [])
  nodup := by
    rw [List.map_cons, List.map_map, List.nodup_cons]
    constructor
    · intro h
      obtain ⟨i, -, hi⟩ := List.mem_map.mp h
      have hchars := congrArg String.toList hi
      simp only [Function.comp, String.toList_ofList] at hchars
      have hl : 'l' ∈ List.replicate i 'a' := by
        rw [hchars]
        decide
      exact absurd (List.eq_of_mem_replicate hl) (by decide)
    · refine List.Nodup.map (fun i j hij => ?_) List.nodup_range
      have hlength := congrArg (fun s : String => s.toList.length) hij
      simpa using hlength

theorem lodashAudit_affected (vulnerable : String) (h : vulnerable.length ≤ 128) :
    (lodashAudit vulnerable h).Affected "lodash" vulnerable "GHSA-1" := by
  refine ⟨⟨1, .npm, "lodash"⟩, ⟨List.mem_singleton.mpr rfl, by decide +kernel⟩,
    ⟨1, 1, vulnerable⟩, List.mem_cons_self, rfl, rfl, ?_⟩
  exact ⟨{ versionId := 1, vulnerabilityId := "GHSA-1" }, List.mem_singleton.mpr rfl, rfl, rfl, rfl⟩

/-- Too many names are refused, and a version that white space cuts apart is no range. -/
theorem auditBulk_inexact :
    (auditBulk .ascii (.leaving "") (lodashAudit "1.0.0" (by decide))
        (some (.obj manyNames.rows)) =
          .ok (.refused 413 "too many packages in one request (limit 4000)") ∧
      Requested manyNames.rows "lodash" "1.0.0" ∧
      (lodashAudit "1.0.0" (by decide)).Affected "lodash" "1.0.0" "GHSA-1") ∧
    (∃ a, auditBulk .ascii (.leaving "") (lodashAudit "v 1.2.3" (by decide))
        (some (.obj (lodashBody "v 1.2.3").rows)) = .ok (.answered [("lodash", [a])]) ∧
      a.id = "GHSA-1" ∧ satisfies "v 1.2.3" a.vulnerableVersions = .ok false) ∧
    (lodashAudit "v 1.2.3" (by decide)).Affected "lodash" "v 1.2.3" "GHSA-1" ∧
    (lodashAudit "v 1.2.3" (by decide)).Distinct "lodash" := by
  have hstored {version : String}
      (h : (lodashAudit "v 1.2.3" (by decide)).Stored "lodash" version) :
      version = "v 1.2.3" ∨ version = "3.0.0" := by
    obtain ⟨p, -, v, hv, -, rfl⟩ := h
    rcases List.mem_cons.mp hv with rfl | hv
    · exact .inl rfl
    · rw [List.mem_singleton.mp hv]
      exact .inr rfl
  have hone : Parses "v 1.2.3" { major := 1, minor := 2, patch := 3 } := by
    unfold Parses
    decide +kernel
  have hthree : Parses "3.0.0" { major := 3, minor := 0, patch := 0 } := by
    unfold Parses
    decide +kernel
  refine ⟨⟨?_, ?_, lodashAudit_affected _ _⟩, ?_, lodashAudit_affected _ _, ?_⟩
  · have hlength : maxAuditBulkNames < manyNames.rows.length := by
      unfold manyNames maxAuditBulkNames
      simp
    unfold auditBulk
    dsimp only
    rw [if_pos hlength]
    decide +kernel
  · exact ⟨_, List.mem_cons_self, List.mem_cons_self⟩
  · refine ⟨⟨"GHSA-1", "https://osv.dev/vulnerability/GHSA-1", "CVE-2021-1", "low", "v 1.2.3", [],
      0, none, none⟩, ?_, rfl, ?_⟩
    · decide +kernel
    · decide +kernel
  · intro s t v w hs ht hv hw hequal
    rcases hstored hs with rfl | rfl
    · rcases hstored ht with rfl | rfl
      · rfl
      · obtain rfl := Option.some.inj (Except.ok.inj (hv.symm.trans hone))
        obtain rfl := Option.some.inj (Except.ok.inj (hw.symm.trans hthree))
        cases hequal
    · rcases hstored ht with rfl | rfl
      · obtain rfl := Option.some.inj (Except.ok.inj (hv.symm.trans hthree))
        obtain rfl := Option.some.inj (Except.ok.inj (hw.symm.trans hone))
        cases hequal
      · rfl

end Answer

end Minireg.NpmAudit
