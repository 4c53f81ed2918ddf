import Minireg.Docker.IndexVerdict
import Minireg.Docker.Queue
import Mathlib.Data.String.Basic

/-!
# Deny entries and reported ids

The deny list is stored in upper case, a report's ids as the report writes them, and an entry of a
report may be passed over for its severity or for want of a fix. `denied_iff` says when an image
whose report lists a denied id, up to letter case, is refused.
-/

namespace Minireg.Docker

open Py Lib

/-! ## The deny list -/

/-- What `_cve_list` makes of one entry. -/
def cveEntry (env : ScanEnv) (item : Json) : String :=
  env.caseMap.upper (strip (env.codec.str item))

/-- `_cve_list`. -/
def cveList (env : ScanEnv) (value : Json) : List String :=
  match value with
  | .arr items =>
    (((items.map (cveEntry env)).filter fun s => s ≠ "" && s.length ≤ 64).dedup.insertionSort
      (· ≤ ·)).take 5000
  | _ => []

/-- The policy with the deny list as it was typed. -/
def ImagePolicy.denying (env : ScanEnv) (policy : ImagePolicy) (typed : Json) : ImagePolicy :=
  { policy with denyCves := cveList env typed }

/-! ## What a report lists -/

/-- The entries of the `Vulnerabilities` lists. -/
def reportEntries (env : ScanEnv) (raw : List UInt8) : List Json :=
  (((env.orjson raw).bind Json.asObj?).bind fun doc => (Json.get doc "Results").asArr?).getD []
    |>.flatMap fun result =>
      (result.asObj?.bind fun result => (Json.get result "Vulnerabilities").asArr?).getD []

/-- The id an entry reports. -/
def vulnIdOf (env : ScanEnv) (v : Json) : Option String :=
  v.asObj?.bind fun v => reportText env.codec (Json.get v "VulnerabilityID") 64

/-- The entry is recorded: its id is one, its severity is wanted, and it has a fix or needs none. -/
def recorded (env : ScanEnv) (policy : ImagePolicy) (v : Json) : Bool :=
  let field := fun key => (v.asObj?.map (Json.get · key)).getD .null
  (vulnIdOf env v).any isVulnId && wanted policy (reportSeverity env (field "Severity")) &&
    !(policy.ignoreUnfixed && (reportText env.codec (field "FixedVersion") 255).isNone)

/-- A reported id equals an entry of the deny list up to letter case. -/
def ReportsDenied (env : ScanEnv) (typed : Json) (raw : List UInt8) : Prop :=
  ∃ v ∈ reportEntries env raw, ∃ id, vulnIdOf env v = some id ∧
    ∃ item ∈ typed.asArr?.getD [], cveEntry env item = env.caseMap.upper id

/-- An entry of the report is recorded whose id is in the stored deny list as it is written. -/
def RecordsDenied (env : ScanEnv) (policy : ImagePolicy) (typed : Json) (raw : List UInt8) : Prop :=
  ∃ v ∈ reportEntries env raw, recorded env policy v = true ∧
    ∃ id, vulnIdOf env v = some id ∧ id ∈ cveList env typed

section Report

variable {env : ScanEnv} {policy : ImagePolicy} {found found' : List ParsedFinding} {id : String}

theorem parseFinding_id (v : Json) : (parseFinding env policy v).map ParsedFinding.vulnId =
    if recorded env policy v = true then vulnIdOf env v else none := by
  unfold parseFinding recorded vulnIdOf
  rcases v.asObj? with _ | fields
  · rfl
  rw [Option.bind_some, Option.bind_some]
  simp only [Option.map_some, Option.getD_some]
  rcases reportText env.codec (Json.get fields "VulnerabilityID") 64 with _ | vulnId
  · rfl
  rw [Option.bind_some, Option.any_some]
  by_cases hvalid : isVulnId vulnId = true
  · by_cases hwanted : wanted policy (reportSeverity env (Json.get fields "Severity")) = true
    · by_cases hfixed : (policy.ignoreUnfixed &&
          (reportText env.codec (Json.get fields "FixedVersion") 255).isNone) = true
      · simp [hvalid, hwanted, hfixed]
      · simp [hvalid, hwanted, hfixed]
    · simp [hwanted]
  · simp [hvalid]

theorem collectFindings_ids {vs : List Json}
    (h : collectFindings env policy vs found = .ok found') :
    (∃ f ∈ found', f.vulnId = id) ↔ (∃ f ∈ found, f.vulnId = id) ∨
      ∃ v ∈ vs, (parseFinding env policy v).map ParsedFinding.vulnId = some id := by
  induction vs generalizing found with
  | nil =>
    obtain rfl := Except.ok.inj h
    simp
  | cons v vs ih =>
    unfold collectFindings at h
    split at h
    · next hv =>
      rw [ih h]
      simp [hv]
    · next f hv =>
      have hhead : (∃ v' ∈ v :: vs, (parseFinding env policy v').map ParsedFinding.vulnId = some id) ↔
          f.vulnId = id ∨
            ∃ v' ∈ vs, (parseFinding env policy v').map ParsedFinding.vulnId = some id := by
        simp [hv]
      rw [hhead]
      split at h
      · next hseen =>
        -- the entry that was recorded before has this id
        rw [ih h]
        obtain ⟨g, hg, hkey⟩ := List.mem_map.mp hseen
        have hid : g.vulnId = f.vulnId := congrArg Prod.fst hkey
        constructor
        · exact Or.imp_right .inr
        · rintro (hold | hnew | hrest)
          · exact .inl hold
          · exact .inl ⟨g, hg, hid.trans hnew⟩
          · exact .inr hrest
      · split at h
        · cases h
        · rw [ih h]
          simp [or_and_right, exists_or, or_assoc]

theorem iterate_ok {value : Json} {vs : List Json} (h : iterate value = .ok vs) :
    vs = value.asArr?.getD [] := by
  unfold iterate at h
  split at h
  · next hfalse =>
    obtain rfl := Except.ok.inj h
    cases value with
    | arr xs =>
      cases xs with
      | nil => rfl
      | cons x xs => cases hfalse
    | _ => rfl
  · split at h
    · exact (Except.ok.inj h).symm
    · exact (Except.ok.inj h).symm
    · exact (Except.ok.inj h).symm
    · cases h

theorem collectResults_ids {results : List Json}
    (h : collectResults env policy results found = .ok found') :
    (∃ f ∈ found', f.vulnId = id) ↔ (∃ f ∈ found, f.vulnId = id) ∨
      ∃ v ∈ results.flatMap fun result =>
        (result.asObj?.bind fun result => (Json.get result "Vulnerabilities").asArr?).getD [],
        (parseFinding env policy v).map ParsedFinding.vulnId = some id := by
  induction results generalizing found with
  | nil =>
    obtain rfl := Except.ok.inj h
    simp
  | cons result results ih =>
    unfold collectResults at h
    rw [List.flatMap_cons]
    split at h
    · next hobj =>
      rw [ih h, hobj]
      rfl
    · next fields hobj =>
      split at h
      · cases h
      · next vs hiter =>
        split at h
        · cases h
        · next found₁ hcollect =>
          rw [ih h, collectFindings_ids hcollect, hobj, or_assoc]
          rw [iterate_ok hiter]
          simp only [List.mem_append, or_and_right, exists_or]
          rfl

/-- **What a report leaves of its ids**: those of the entries that are recorded. -/
theorem parseReport_ids {raw : List UInt8} (h : parseReport env policy raw = .ok found) :
    (∃ f ∈ found, f.vulnId = id) ↔
      ∃ v ∈ reportEntries env raw, recorded env policy v = true ∧ vulnIdOf env v = some id := by
  have hid : ∀ v, (parseFinding env policy v).map ParsedFinding.vulnId = some id ↔
      recorded env policy v = true ∧ vulnIdOf env v = some id := by
    intro v
    rw [parseFinding_id]
    split
    · next hrec => simp [hrec]
    · next hrec => simp [hrec]
  unfold parseReport at h
  split at h
  · cases h
  split at h
  · cases h
  · next doc hdoc =>
    have hentries : ∀ results : List Json, (Json.get doc "Results").asArr?.getD [] = results →
        collectResults env policy results [] = .ok found → ((∃ f ∈ found, f.vulnId = id) ↔
          ∃ v ∈ reportEntries env raw, recorded env policy v = true ∧ vulnIdOf env v = some id) := by
      rintro results rfl hcollect
      rw [collectResults_ids hcollect]
      unfold reportEntries
      rw [hdoc]
      simp [hid, Json.asObj?]
    split at h
    · cases h
    · next results hresults =>
      refine hentries results ?_ h
      split at hresults
      · next hnone =>
        obtain rfl := Option.some.inj hresults
        unfold Json.get
        rw [hnone]
        rfl
      · rw [hresults]
        rfl
  · cases h

end Report

/-! ## The verdict after a scan -/

section Verdict

variable {env : ScanEnv} {policy : ImagePolicy} {db db' : Db} {repo : DockerRepository}
  {m : DockerManifest}

/-- The deny list refuses, or the rules do without it. -/
theorem evaluateRules_denying (manifestId : Nat) (rules : GateRules) (label : String) :
    (evaluateRules db manifestId policy rules label).allowed = false ↔
      (evaluateRules db manifestId { policy with denyCves := [] } rules label).allowed = false ∨
        ∃ f ∈ findingsOf db manifestId, f.vulnId ∈ policy.denyCves := by
  have hnone : deniedCvesPresent db manifestId { policy with denyCves := [] } = [] := by
    by_contra hne
    obtain ⟨f, -, hf⟩ := deniedCvesPresent_ne_nil.mp hne
    cases hf
  rw [← deniedCvesPresent_ne_nil]
  unfold evaluateRules
  rw [hnone]
  dsimp only
  rw [if_neg (not_not.mpr rfl)]
  by_cases hdenied : deniedCvesPresent db manifestId policy = []
  · rw [if_neg (not_not.mpr hdenied)]
    simp only [hdenied, ne_eq, not_true_eq_false, or_false]
    rfl
  · rw [if_pos hdenied]
    exact iff_of_true rfl (.inr hdenied)

/-- A scanned image is refused by the deny list, or without it. -/
theorem refused_denying (hkind : m.kind = .image) (hscanned : m.scanStatus = .scanned) :
    Refused db repo policy m ↔ Refused db repo { policy with denyCves := [] } m ∨
      ∃ f ∈ findingsOf db m.id, f.vulnId ∈ policy.denyCves := by
  by_cases hitself : repo.quarantined = true ∨ blocked db repo m = true
  · exact iff_of_true (refused_of_itself hitself) (.inl (refused_of_itself hitself))
  · obtain ⟨hq, hb⟩ := not_or.mp hitself
    rw [refused_scanned (eq_false_of_ne_true hq) (eq_false_of_ne_true hb) hkind hscanned,
      refused_scanned (eq_false_of_ne_true hq) (eq_false_of_ne_true hb) hkind hscanned]
    exact evaluateRules_denying m.id policy.pull "pull"

/-- What a scan leaves: its image is scanned, with the ids of the entries that are recorded. -/
theorem ingest_findings {job : DockerScanJob} {report : List UInt8} {sbom : Option (List UInt8)}
    {now : Time} (hok : ingest env policy job report sbom now db = .ok db') {id : String} :
    (∃ f ∈ findingsOf db' job.manifestId, f.vulnId = id) ↔
      ∃ v ∈ reportEntries env report, recorded env policy v = true ∧ vulnIdOf env v = some id := by
  obtain ⟨m, found, db₁, db₂, d, -, hid, hfound, -, -, hcore⟩ := ingest_ok hok
  have hfindings : db'.findings = (recordScan m job d found now db₂).findings :=
    congrArg (fun c => c.2.1) hcore
  rw [← parseReport_ids hfound]
  unfold findingsOf
  rw [hfindings, ← hid]
  constructor
  · rintro ⟨f, hf, rfl⟩
    obtain ⟨hmem, hmid⟩ := List.mem_filter.mp hf
    rcases List.mem_append.mp hmem with hold | hnew
    · have := (List.mem_filter.mp hold).2
      simp only [decide_eq_true_eq] at this hmid
      exact absurd hmid this
    · obtain ⟨g, hg, rfl⟩ := List.mem_map.mp hnew
      exact ⟨g, hg, rfl⟩
  · rintro ⟨g, hg, rfl⟩
    refine ⟨_, List.mem_filter.mpr ⟨List.mem_append_right _ (List.mem_map_of_mem hg), ?_⟩, rfl⟩
    simp

theorem ingest_scanned {job : DockerScanJob} {report : List UInt8} {sbom : Option (List UInt8)}
    {now : Time} (hok : ingest env policy job report sbom now db = .ok db')
    (hm : m ∈ db'.manifests) (hid : m.id = job.manifestId) : m.scanStatus = .scanned := by
  obtain ⟨n, found, db₁, db₂, d, -, hnid, -, -, -, hcore⟩ := ingest_ok hok
  have hrows : db'.manifests = (recordScan n job d found now db₂).manifests :=
    congrArg Prod.fst hcore
  rw [hrows] at hm
  obtain ⟨n', -, rfl⟩ := Db.mem_updateManifest.mp hm
  split at hid
  · next hsame =>
    rw [if_pos hsame]
  · next hother => exact absurd (hid.trans hnid.symm) hother

/-- **When deny entries match what was reported.** After a scan is taken in, its image is refused
whenever the report lists a denied id up to letter case, exactly where such a report is refused
without the deny list, or has a recorded entry whose id is in the list as it is stored. -/
theorem denied_iff {typed : Json} {job : DockerScanJob} {report : List UInt8}
    {sbom : Option (List UInt8)} {now : Time} (repo : DockerRepository)
    (hok : ingest env (policy.denying env typed) job report sbom now db = .ok db')
    (hm : m ∈ db'.manifests) (hid : m.id = job.manifestId) (hkind : m.kind = .image) :
    (ReportsDenied env typed report → Refused db' repo (policy.denying env typed) m) ↔
      (ReportsDenied env typed report →
        RecordsDenied env policy typed report ∨ Refused db' repo { policy with denyCves := [] } m) := by
  have hrecords : (∃ f ∈ findingsOf db' m.id, f.vulnId ∈ (policy.denying env typed).denyCves) ↔
      RecordsDenied env policy typed report := by
    constructor
    · rintro ⟨f, hf, hdenied⟩
      obtain ⟨v, hv, hrec, hvid⟩ := (ingest_findings hok).mp ⟨f, hid ▸ hf, rfl⟩
      exact ⟨v, hv, hrec, f.vulnId, hvid, hdenied⟩
    · rintro ⟨v, hv, hrec, id, hvid, hdenied⟩
      obtain ⟨f, hf, rfl⟩ := (ingest_findings hok).mpr ⟨v, hv, hrec, hvid⟩
      exact ⟨f, hid.symm ▸ hf, hdenied⟩
  refine imp_congr_right fun _ => ?_
  rw [refused_denying hkind (ingest_scanned hok hm hid), hrecords, or_comm]
  rfl

end Verdict

/-! ## A GitHub advisory -/

/-- An entry of a report. -/
def advisory (id : String) : Json :=
  .obj [("VulnerabilityID", .str id), ("PkgName", .str "log4j-core"), ("Severity", .str "CRITICAL")]

/-- A scanner whose reports list one vulnerability. -/
def advisoryEnv (id : String) : ScanEnv where
  codec := constCodec []
  sha256 _ := "sha256:report"
  orjson _ := some (.obj [("Results", .arr [.obj [("Vulnerabilities", .arr [advisory id])]])])
  caseMap := .ascii

def advisoryImage : DockerManifest := { id := 1, digest := "sha256:image", scanStatus := .scanning }

def advisoryJob : DockerScanJob :=
  { id := 2, manifestId := 1, repository := "hub/app", status := .running, worker := some "w1" }

def advisoryDb : Db where
  manifests := { rows := [advisoryImage] }
  jobs := { rows := [advisoryJob] }
  nextId := 3

def advisoryRepo : DockerRepository := { id := 9, name := "hub/app", upstreamId := some 1 }

/-- The deny list has one entry. -/
def denying (id typed : String) : ImagePolicy :=
  ImagePolicy.denying (advisoryEnv id) {} (.arr [.str typed])

def advisoryScan (id typed : String) : Except ReportError Db :=
  ingest (advisoryEnv id) (denying id typed) advisoryJob [] none 0 advisoryDb

/-- Whether the images are allowed after the scan. -/
def afterScan (id typed : String) : Option (List (Nat × Kind × Bool)) :=
  (advisoryScan id typed).toOption.map fun db => db.manifests.rows.map fun m =>
    (m.id, m.kind, (evaluatePull db advisoryRepo m (denying id typed)).allowed)

theorem afterScan_eq {id typed : String} {allowed : Bool}
    (h : afterScan id typed = some [(1, .image, allowed)]) :
    ∃ db' m, advisoryScan id typed = .ok db' ∧ m ∈ db'.manifests ∧ m.id = 1 ∧ m.kind = .image ∧
      (evaluatePull db' advisoryRepo m (denying id typed)).allowed = allowed := by
  obtain ⟨db', hok, hrows⟩ := Option.map_eq_some_iff.mp h
  have hmem : (1, Kind.image, allowed) ∈ db'.manifests.rows.map fun m =>
      (m.id, m.kind, (evaluatePull db' advisoryRepo m (denying id typed)).allowed) :=
    hrows ▸ List.mem_cons_self
  obtain ⟨m, hm, hrow⟩ := List.mem_map.mp hmem
  obtain ⟨hid, hkind, hallowed⟩ : m.id = 1 ∧ m.kind = .image ∧
      (evaluatePull db' advisoryRepo m (denying id typed)).allowed = allowed := by
    simpa only [Prod.mk.injEq] using hrow
  rcases hscan : advisoryScan id typed with e | db₁
  · rw [hscan] at hok
    cases hok
  · rw [hscan] at hok
    obtain rfl := Option.some.inj hok
    exact ⟨db₁, m, rfl, hm, hid, hkind, hallowed⟩

/-- The id that is denied is reported, letter for letter, and the image is served. -/
theorem ghsa_not_denied :
    ReportsDenied (advisoryEnv "GHSA-jfh8-c2jp-5v3q") (.arr [.str "GHSA-jfh8-c2jp-5v3q"]) [] ∧
      ∃ db' m, advisoryScan "GHSA-jfh8-c2jp-5v3q" "GHSA-jfh8-c2jp-5v3q" = .ok db' ∧
        m ∈ db'.manifests ∧ m.id = 1 ∧ m.kind = .image ∧
        ¬ Refused db' advisoryRepo (denying "GHSA-jfh8-c2jp-5v3q" "GHSA-jfh8-c2jp-5v3q") m := by
  refine ⟨⟨advisory "GHSA-jfh8-c2jp-5v3q", by decide, "GHSA-jfh8-c2jp-5v3q", by decide,
    .str "GHSA-jfh8-c2jp-5v3q", by decide, by decide⟩, ?_⟩
  obtain ⟨db', m, hok, hm, hid, hkind, hallowed⟩ := afterScan_eq
    (by decide +kernel : afterScan "GHSA-jfh8-c2jp-5v3q" "GHSA-jfh8-c2jp-5v3q" =
      some [(1, .image, true)])
  refine ⟨db', m, hok, hm, hid, hkind, fun hrefused => ?_⟩
  unfold Refused at hrefused
  rw [hallowed] at hrefused
  cases hrefused

/-- A CVE id is matched as it is typed, in lower case. -/
theorem denied_iff_cve : ∃ db' m,
    advisoryScan "CVE-2021-44228" "cve-2021-44228" = .ok db' ∧
    Refused db' advisoryRepo (denying "CVE-2021-44228" "cve-2021-44228") m ∧
    ((ReportsDenied (advisoryEnv "CVE-2021-44228") (.arr [.str "cve-2021-44228"]) [] →
        Refused db' advisoryRepo (denying "CVE-2021-44228" "cve-2021-44228") m) ↔
      (ReportsDenied (advisoryEnv "CVE-2021-44228") (.arr [.str "cve-2021-44228"]) [] →
        RecordsDenied (advisoryEnv "CVE-2021-44228") {} (.arr [.str "cve-2021-44228"]) [] ∨
          Refused db' advisoryRepo { denyCves := [] } m)) := by
  obtain ⟨db', m, hok, hm, hid, hkind, hallowed⟩ := afterScan_eq
    (by decide +kernel : afterScan "CVE-2021-44228" "cve-2021-44228" = some [(1, .image, false)])
  exact ⟨db', m, hok, hallowed, denied_iff advisoryRepo hok hm hid hkind⟩

end Minireg.Docker
