import Minireg.Osv.Scanner

/-!
# Rescoring and hydrating

`rescoreStored` reads the stored records again, `hydrate` a record that was fetched. They
agree on a record unless it is malware without a severity, which only `hydrate` scores.
-/

namespace Minireg.Osv

open Py Lib

/-- A row that was written for its record. -/
structure Stored (v : Vulnerability) : Prop where
  named : Json.get v.raw "id" = .str v.id
  aliases : iterOr (Json.get v.raw "aliases") = .ok v.aliases

section

variable (codec : Codec)

/-- What the policy reads of a record. -/
def verdictOf (v : Vulnerability) : Option Rat × Option String × Bool :=
  (v.cvssScore, v.severityType, storedMalicious codec v)

/-- Two states hold the same verdict and the same links of a record. -/
def SameRecord (db db' : OsvDb) (osvId : String) : Prop :=
  (db.vulnerabilities.find? osvId).map (verdictOf codec) =
      (db'.vulnerabilities.find? osvId).map (verdictOf codec) ∧
    ∀ versionId, db.links.find? (versionId, osvId) = db'.links.find? (versionId, osvId)

/-- `hydrate`, on a stored record that is fetched again and written. -/
structure Rehydrates (db : OsvDb) (v : Vulnerability) (s : Hydration) : Prop where
  run : ∃ (scanner : Scanner) (reported : Option Time), scanner.codec = codec ∧
    scanner.fetchVuln v.id = some v.raw ∧ isStale scanner v reported = true ∧
    hydrate scanner [(v.id, reported)] db = .ok s
  written : s.refreshed ≠ []

/-- **Rescoring agrees with hydrating** the record, and changes nothing right after it. -/
structure RescoreAgrees (db : OsvDb) (v : Vulnerability) : Prop where
  agrees : ∃ db', rescoreStored codec db = .ok db' ∧
    ∀ s, Rehydrates codec db v s → SameRecord codec db' s.db v.id
  settled : ∀ s, Rehydrates codec db v s → ∃ db', rescoreStored codec s.db = .ok db' ∧
    db'.vulnerabilities.find? v.id = s.db.vulnerabilities.find? v.id ∧
    ∀ versionId, db'.links.find? (versionId, v.id) = s.db.links.find? (versionId, v.id)

/-- Every stored record can be read: its severity, and what fixes the packages linked to it. -/
structure Readable (db : OsvDb) : Prop where
  severity : ∀ v ∈ db.vulnerabilities, v.raw ≠ [] → ∃ s, bestSeverity codec v.raw = .ok s
  fixed : ∀ link ∈ db.links, ∀ v ∈ db.vulnerabilities, v.id = link.vulnerabilityId →
    ∀ version ∈ db.versions, version.id = link.versionId →
      ∃ value text, fixedVersionFor codec v.raw version.packageName = .ok value ∧
        bindText value = .ok text

/-- The record names malware and has no severity. -/
def UnscoredMalware (record : Record) : Prop :=
  isMalicious codec record = .ok true ∧
    ∃ s, bestSeverity codec record = .ok s ∧ s.score = none

end

/-! ## A stored record -/

section Stored

variable {codec : Codec} {db : OsvDb} {v : Vulnerability}

/-- The id or an alias names a malicious-package advisory. -/
def namesMalware (codec : Codec) (v : Vulnerability) : Bool :=
  isMal codec v.id || (v.aliases.filterMap Json.asStr?).any (isMal codec)

theorem Stored.raw_ne (h : Stored v) : v.raw ≠ [] := by
  intro hraw
  have hnamed := h.named
  rw [hraw] at hnamed
  cases hnamed

theorem Stored.isMalicious (h : Stored v) :
    isMalicious codec v.raw = .ok (namesMalware codec v) := by
  unfold Osv.isMalicious namesMalware
  rw [h.named, h.aliases]
  rcases hid : isMal codec v.id with _ | _
  · simp [textOr, hid, bind, Except.bind, pure, Except.pure]
  · simp [textOr, hid, bind, Except.bind, pure, Except.pure]

theorem Stored.extractCve (codec : Codec) (h : Stored v) : ∃ cve, extractCve codec v.raw = .ok cve := by
  unfold Osv.extractCve
  rw [h.named, h.aliases]
  rcases hid : isCve codec v.id with _ | _
  · simp [textOr, hid, bind, Except.bind, pure, Except.pure]
  · simp [textOr, hid, bind, Except.bind, pure, Except.pure]

/-- The severity a record is hydrated with. -/
def hydratedSeverity (malicious : Bool) (severity : Severity) : Severity :=
  if malicious && severity.score = none then
    { score := some maliciousScore, stype := some "MALICIOUS", vector := none }
  else severity

/-- The row a stored record is written with when it is fetched again. -/
def rehydratedRow (scanner : Scanner) (v : Vulnerability) (cve : Option String)
    (severity : Severity) : Vulnerability :=
  let severity := hydratedSeverity (namesMalware scanner.codec v) severity
  { id := v.id
    cveId := cve.getD v.id
    severityType := severity.stype
    cvssVector := severity.vector
    cvssScore := severity.score
    severityLabel := severityLabel severity.score
    aliases := v.aliases
    modified := parseDt scanner.codec (Json.get v.raw "modified")
    raw := v.raw
    fetchedAt := scanner.now }

theorem Stored.hydratedRow {scanner : Scanner} (h : Stored v) {row : Vulnerability}
    (hrow : hydratedRow scanner v.id v.raw = .ok (some row)) :
    ∃ cve severity, bestSeverity scanner.codec v.raw = .ok severity ∧
      row = rehydratedRow scanner v cve severity := by
  unfold Osv.hydratedRow at hrow
  obtain ⟨cve, hcve, hrow⟩ := bind_ok hrow
  obtain ⟨malicious, hmalicious, hrow⟩ := bind_ok hrow
  rw [h.isMalicious] at hmalicious
  obtain rfl := Except.ok.inj hmalicious
  split at hrow
  · cases hrow
  · obtain ⟨severity, hseverity, hrow⟩ := bind_ok hrow
    obtain ⟨aliases, haliases, hrow⟩ := bind_ok hrow
    rw [h.aliases] at haliases
    obtain rfl := Except.ok.inj haliases
    exact ⟨cve, severity, hseverity, (Option.some.inj (Except.ok.inj hrow)).symm⟩

end Stored

/-! ## Links that are read again -/

section Links

variable {codec : Codec} {db db' : OsvDb} {records records' : String → Option Record}

variable (records' db') in
theorem refixed_congr {link : PackageVulnerability}
    (hrecord : records link.vulnerabilityId = records' link.vulnerabilityId)
    (hname : (db.versions.find? link.versionId).map PackageVersion.packageName =
      (db'.versions.find? link.versionId).map PackageVersion.packageName) :
    refixed codec records db link = refixed codec records' db' link := by
  unfold refixed
  rw [hrecord]
  rcases h : db.versions.find? link.versionId with _ | v <;>
    rcases h' : db'.versions.find? link.versionId with _ | v'
  · rfl
  · simp [h, h'] at hname
  · simp [h, h'] at hname
  · rw [h, h', Option.map_some, Option.map_some, Option.some.injEq] at hname
    rcases records' link.vulnerabilityId with _ | raw
    · rfl
    · dsimp only
      rw [hname]

theorem refixed_returns_iff {link : PackageVulnerability} :
    (∃ link', refixed codec records db link = .ok link') ↔
      ∀ raw, records link.vulnerabilityId = some raw →
        ∀ version, db.versions.find? link.versionId = some version →
          ∃ value text, fixedVersionFor codec raw version.packageName = .ok value ∧
            bindText value = .ok text := by
  unfold refixed
  constructor
  · rintro ⟨link', h⟩ raw hraw version hversion
    rw [hraw, hversion] at h
    obtain ⟨value, hvalue, h⟩ := bind_ok h
    obtain ⟨text, htext, -⟩ := bind_ok h
    exact ⟨value, text, hvalue, htext⟩
  · intro hall
    split
    · next raw version hraw hversion =>
      obtain ⟨value, text, hvalue, htext⟩ := hall raw hraw version hversion
      exact ⟨{ link with fixedVersion := text },
        by simp [hvalue, htext, bind, Except.bind, pure, Except.pure]⟩
    · exact ⟨link, rfl⟩

theorem refixLinks_ok (h : refixLinks codec records db = .ok db') :
    ∃ links, db.links.modifyM (refixed codec records db) (refixed_key codec) = .ok links ∧
      db' = { db with links := links } := by
  obtain ⟨links, hlinks, h⟩ := bind_ok h
  exact ⟨links, hlinks, (Except.ok.inj h).symm⟩

/-- Each link is read again on its own. -/
theorem refixLinks_find? (h : refixLinks codec records db = .ok db') (key : Nat × String) :
    (db.links.find? key = none ∧ db'.links.find? key = none) ∨
    ∃ link link', db.links.find? key = some link ∧ refixed codec records db link = .ok link' ∧
      db'.links.find? key = some link' := by
  obtain ⟨links, hlinks, rfl⟩ := refixLinks_ok h
  rcases hfound : db.links.find? key with _ | link
  · exact .inl ⟨rfl, Table.find?_modifyM_none hlinks hfound⟩
  · obtain ⟨link', hlink', hfound'⟩ := Table.find?_modifyM hlinks hfound
    exact .inr ⟨link, link', rfl, hlink', hfound'⟩

/-- Two readings of the links of a record from the same raw record agree. -/
theorem refixLinks_agree {dba dba' dbb dbb' : OsvDb} {osvId : String} {versionId : Nat}
    (ha : refixLinks codec records dba = .ok dba') (hb : refixLinks codec records' dbb = .ok dbb')
    (hlinks : dba.links.find? (versionId, osvId) = dbb.links.find? (versionId, osvId))
    (hrecord : records osvId = records' osvId)
    (hname : (dba.versions.find? versionId).map PackageVersion.packageName =
      (dbb.versions.find? versionId).map PackageVersion.packageName) :
    dba'.links.find? (versionId, osvId) = dbb'.links.find? (versionId, osvId) := by
  obtain ⟨hnone, ha'⟩ | ⟨link, link', hlink, hfix, ha'⟩ := refixLinks_find? ha (versionId, osvId)
  · obtain ⟨-, hb'⟩ | ⟨link, link', hlink, -⟩ := refixLinks_find? hb (versionId, osvId)
    · rw [ha', hb']
    · rw [← hlinks, hnone] at hlink
      cases hlink
  · obtain ⟨hnone, -⟩ | ⟨link₂, link₂', hlink₂, hfix₂, hb'⟩ :=
      refixLinks_find? hb (versionId, osvId)
    · rw [← hlinks, hlink] at hnone
      cases hnone
    · rw [← hlinks, hlink] at hlink₂
      obtain rfl := Option.some.inj hlink₂
      have hkey := Table.find?_key hlink
      have hid : link.vulnerabilityId = osvId := congrArg Prod.snd hkey
      have hversion : link.versionId = versionId := congrArg Prod.fst hkey
      rw [refixed_congr dbb records' (hid ▸ hrecord) (hversion ▸ hname),
        hfix₂] at hfix
      obtain rfl := Except.ok.inj hfix
      rw [ha', hb']

end Links

/-! ## Rescoring -/

section Rescore

variable {codec : Codec} {db db' : OsvDb} {v : Vulnerability}

/-- The stored records, by id. -/
def rawOf (vulnerabilities : Table Vulnerability.id) (osvId : String) : Option Record :=
  (vulnerabilities.find? osvId).map Vulnerability.raw

theorem rescoreStored_ok (h : rescoreStored codec db = .ok db') :
    ∃ vulnerabilities, db.vulnerabilities.modifyM (rescored codec) (rescored_id codec) =
        .ok vulnerabilities ∧
      refixLinks codec (rawOf vulnerabilities) (rescoredDb db vulnerabilities) = .ok db' ∧
      db'.vulnerabilities = vulnerabilities := by
  obtain ⟨vulnerabilities, hvulnerabilities, h⟩ := bind_ok h
  have hlinks : refixLinks codec (rawOf vulnerabilities) (rescoredDb db vulnerabilities) =
      .ok db' := h
  obtain ⟨links, -, rfl⟩ := refixLinks_ok hlinks
  exact ⟨vulnerabilities, hvulnerabilities, hlinks, rfl⟩

theorem rescored_raw {v' : Vulnerability} (h : rescored codec v = .ok v') :
    v'.raw = v.raw ∧ v'.id = v.id ∧ v'.aliases = v.aliases := by
  unfold rescored at h
  split at h
  · obtain rfl := Except.ok.inj h
    exact ⟨rfl, rfl, rfl⟩
  · obtain ⟨severity, -, h⟩ := bind_ok h
    obtain rfl := Except.ok.inj h
    split <;> exact ⟨rfl, rfl, rfl⟩

/-- Rescoring writes the severity that is read from the record. -/
theorem rescored_severity {v' : Vulnerability} (hraw : v.raw ≠ []) (h : rescored codec v = .ok v') :
    ∃ severity, bestSeverity codec v.raw = .ok severity ∧ v'.cvssScore = severity.score ∧
      v'.severityType = severity.stype := by
  unfold rescored at h
  rw [if_neg hraw] at h
  obtain ⟨severity, hseverity, h⟩ := bind_ok h
  obtain rfl := Except.ok.inj h
  refine ⟨severity, hseverity, ?_⟩
  split
  · exact ⟨rfl, rfl⟩
  · next hsame =>
    simp only [ne_eq, decide_not, Bool.or_eq_true, Bool.not_eq_eq_eq_not,
      Bool.not_true, decide_eq_false_iff_not, not_or, Decidable.not_not] at hsame
    exact ⟨hsame.1.symm, hsame.2.symm⟩

theorem rescoredDb_name (vulnerabilities : Table Vulnerability.id) (versionId : Nat) :
    ((rescoredDb db vulnerabilities).versions.find? versionId).map PackageVersion.packageName =
      (db.versions.find? versionId).map PackageVersion.packageName := by
  unfold rescoredDb
  dsimp only
  rw [Table.find?_modify, Option.map_map]
  rfl

theorem rawOf_rescored {vulnerabilities : Table Vulnerability.id}
    (h : db.vulnerabilities.modifyM (rescored codec) (rescored_id codec) = .ok vulnerabilities)
    (osvId : String) : rawOf vulnerabilities osvId = rawOf db.vulnerabilities osvId := by
  unfold rawOf
  rcases hfound : db.vulnerabilities.find? osvId with _ | v
  · rw [Table.find?_modifyM_none h hfound]
  · obtain ⟨v', hv', hfound'⟩ := Table.find?_modifyM h hfound
    rw [hfound', Option.map_some, Option.map_some, (rescored_raw hv').1]

/-- The links can be read again as the stored records have them. -/
theorem refixed_rescored_returns_iff {vulnerabilities : Table Vulnerability.id}
    (h : db.vulnerabilities.modifyM (rescored codec) (rescored_id codec) = .ok vulnerabilities)
    {link : PackageVulnerability} :
    (∃ link', refixed codec (rawOf vulnerabilities) (rescoredDb db vulnerabilities) link =
      .ok link') ↔
      ∀ v ∈ db.vulnerabilities, v.id = link.vulnerabilityId →
        ∀ version ∈ db.versions, version.id = link.versionId →
          ∃ value text, fixedVersionFor codec v.raw version.packageName = .ok value ∧
            bindText value = .ok text := by
  rw [refixed_congr db (rawOf db.vulnerabilities) (rawOf_rescored h _)
    (rescoredDb_name vulnerabilities _), refixed_returns_iff]
  constructor
  · intro hall v hv hid version hversion hvid
    refine hall v.raw ?_ version (Table.find?_eq_some_iff.mpr ⟨hversion, hvid⟩)
    unfold rawOf
    rw [Table.find?_eq_some_iff.mpr ⟨hv, hid⟩]
    rfl
  · intro hall raw hraw version hversion
    obtain ⟨v, hv, rfl⟩ := Option.map_eq_some_iff.mp hraw
    exact hall v (Table.find?_mem hv) (Table.find?_key hv) version (Table.find?_mem hversion)
      (Table.find?_key hversion)

/-- Rescoring returns exactly if every stored record can be read. -/
theorem rescoreStored_returns_iff :
    (∃ db', rescoreStored codec db = .ok db') ↔ Readable codec db := by
  constructor
  · rintro ⟨db', h⟩
    obtain ⟨vulnerabilities, hvulnerabilities, hlinks, -⟩ := rescoreStored_ok h
    obtain ⟨links, hlinks, -⟩ := refixLinks_ok hlinks
    constructor
    · intro v hv hraw
      obtain ⟨v', -, hv'⟩ := Table.modifyM_mem hvulnerabilities hv
      obtain ⟨severity, hseverity, -⟩ := rescored_severity hraw hv'
      exact ⟨severity, hseverity⟩
    · intro link hlink
      obtain ⟨link', -, hlink'⟩ := Table.modifyM_mem hlinks hlink
      exact (refixed_rescored_returns_iff hvulnerabilities).mp ⟨link', hlink'⟩
  · intro hreadable
    have hread : ∀ v ∈ db.vulnerabilities, ∃ v', rescored codec v = .ok v' := by
      intro v hv
      unfold rescored
      split
      · exact ⟨v, rfl⟩
      · next hraw =>
        obtain ⟨severity, hseverity⟩ := hreadable.severity v hv hraw
        rw [hseverity]
        exact ⟨_, rfl⟩
    obtain ⟨vulnerabilities, hvulnerabilities⟩ :=
      Table.modifyM_returns (rescored_id codec) hread
    obtain ⟨links, hlinks⟩ := Table.modifyM_returns (t := db.links) (refixed_key codec)
      fun link hlink => (refixed_rescored_returns_iff hvulnerabilities).mpr
        (hreadable.fixed link hlink)
    refine ⟨{ rescoredDb db vulnerabilities with links := links }, ?_⟩
    unfold rescoreStored
    rw [hvulnerabilities]
    change refixLinks codec (rawOf vulnerabilities) (rescoredDb db vulnerabilities) = _
    unfold refixLinks
    rw [show (rescoredDb db vulnerabilities).links = db.links from rfl, hlinks]
    rfl

end Rescore

/-! ## Fetching one stored record again -/

section Rehydrate

variable {codec : Codec} {db : OsvDb} {v : Vulnerability} {s : Hydration} {scanner : Scanner}
  {reported : Option Time}

theorem hydrate_single (hv : v ∈ db.vulnerabilities) (hstale : isStale scanner v reported = true) :
    hydrate scanner [(v.id, reported)] db = do
      let s ← hydrateOne scanner [v.id]
        { cached := [(v.id, storedAdvisory scanner v)], db := db } v.id
      if s.refreshed = [] then return s
      return { s with db := ← reapplyRecords scanner.codec s.refreshed s.db } := by
  have hknown : db.vulnerabilities.rows.filter
      (fun w => (Dict.get? [(v.id, reported)] w.id).isSome) = [v] := by
    obtain ⟨l, l', hrows, hl, hl'⟩ := Table.exists_split hv
    have hother : ∀ w : Vulnerability, w.id ≠ v.id → (Dict.get? [(v.id, reported)] w.id).isSome = false := by
      intro w hw
      simp [Dict.get?_cons, hw]
    rw [hrows, List.filter_append, List.filter_cons, if_pos (by simp [Dict.get?_cons]),
      List.filter_eq_nil_iff.mpr fun w hw => by simp [hother w (hl w hw)],
      List.filter_eq_nil_iff.mpr fun w hw => by simp [hother w (hl' w hw)]]
    rfl
  have hreported : (Dict.get? [(v.id, reported)] v.id).getD none = reported := by
    simp [Dict.get?_cons]
  unfold hydrate
  dsimp only
  rw [hknown]
  simp [hreported, hstale, List.insertionSort]

/-- What fetching a stored record again writes. -/
theorem rehydrates_ok (hv : v ∈ db.vulnerabilities) (hstored : Stored v)
    (h : Rehydrates codec db v s) : ∃ (scanner : Scanner) (cve : Option String) (severity : Severity),
    scanner.codec = codec ∧ bestSeverity codec v.raw = .ok severity ∧
    reapplyRecords codec [(v.id, v.raw)]
      { db with vulnerabilities :=
          db.vulnerabilities.put (rehydratedRow scanner v cve severity) } = .ok s.db := by
  obtain ⟨scanner, reported, rfl, hfetch, hstale, hrun⟩ := h.run
  rw [hydrate_single hv hstale] at hrun
  obtain ⟨t, ht, hrun⟩ := bind_ok hrun
  unfold hydrateOne at ht
  rw [hfetch, Option.filter_some, if_pos (by simpa using hstored.named)] at ht
  obtain ⟨row, hrow, ht⟩ := bind_ok ht
  rcases row with _ | row
  · obtain rfl := Except.ok.inj ht
    obtain rfl := Except.ok.inj hrun
    exact absurd rfl h.written
  · obtain ⟨cve, severity, hseverity, rfl⟩ := hstored.hydratedRow hrow
    obtain ⟨malicious, -, ht⟩ := bind_ok ht
    obtain rfl := Except.ok.inj ht
    rw [if_pos (List.mem_singleton_self _)] at hrun
    obtain ⟨db', hdb', hrun⟩ := bind_ok hrun
    obtain rfl := Except.ok.inj hrun
    exact ⟨scanner, cve, severity, rfl, hseverity, hdb'⟩

end Rehydrate

/-! ## Carrying a record to its versions -/

section Reapply

variable {codec : Codec} {db db' : OsvDb} {records : Dict String Record}

theorem recomputed_packageName (v : PackageVersion) :
    (recomputed codec db v).packageName = v.packageName := by
  unfold recomputed
  dsimp only
  split <;> rfl

theorem recomputeVersions_name (ids : List Nat) (versionId : Nat) :
    ((recomputeVersions codec ids db).versions.find? versionId).map PackageVersion.packageName =
      (db.versions.find? versionId).map PackageVersion.packageName := by
  unfold recomputeVersions
  dsimp only
  rw [Table.find?_modify, Option.map_map]
  refine congrArg (Option.map · _) (funext fun v => ?_)
  dsimp only [Function.comp]
  split
  · exact recomputed_packageName v
  · rfl

/-- Reapplying reads the links again; records and package names stay. -/
theorem reapplyRecords_ok (h : reapplyRecords codec records db = .ok db') :
    ∃ links, refixLinks codec (Dict.get? records) db = .ok links ∧ db'.links = links.links ∧
      db'.vulnerabilities = db.vulnerabilities ∧
      ∀ versionId, (db'.versions.find? versionId).map PackageVersion.packageName =
        (db.versions.find? versionId).map PackageVersion.packageName := by
  obtain ⟨refixed, hrefixed, h⟩ := bind_ok h
  obtain rfl := Except.ok.inj h
  refine ⟨refixed, hrefixed, rfl, ?_, fun versionId => ?_⟩
  · obtain ⟨links, -, rfl⟩ := refixLinks_ok hrefixed
    rfl
  · rw [recomputeVersions_name]
    obtain ⟨links, -, rfl⟩ := refixLinks_ok hrefixed
    rfl

/-- A link that was read again is read the same. -/
theorem refixed_idem {records : String → Option Record} {link link' : PackageVulnerability}
    (h : refixed codec records db link = .ok link') :
    refixed codec records db link' = .ok link' := by
  obtain ⟨fixed, rfl⟩ := refixed_frame codec h
  unfold refixed at h ⊢
  dsimp only
  split at h
  · exact h
  · rfl

end Reapply

/-! ## The two agree -/

section Agree

variable {codec : Codec} {db db' : OsvDb} {v : Vulnerability} {s : Hydration}

theorem hydratedSeverity_of_scored {severity : Severity} (hstored : Stored v)
    (hseverity : bestSeverity codec v.raw = .ok severity)
    (hscored : ¬ UnscoredMalware codec v.raw) :
    hydratedSeverity (namesMalware codec v) severity = severity := by
  unfold hydratedSeverity
  rw [if_neg]
  intro h
  simp only [Bool.and_eq_true, decide_eq_true_eq] at h
  exact hscored ⟨by rw [hstored.isMalicious, h.1], severity, hseverity, h.2⟩

/-- The links of the record are read from the same raw record on both paths. -/
theorem links_agree (hv : v ∈ db.vulnerabilities) (hrescore : rescoreStored codec db = .ok db')
    {row : Vulnerability} {links : OsvDb} (hlinks : refixLinks codec (Dict.get? [(v.id, v.raw)])
      { db with vulnerabilities := db.vulnerabilities.put row } = .ok links) (versionId : Nat) :
    db'.links.find? (versionId, v.id) = links.links.find? (versionId, v.id) := by
  obtain ⟨vulnerabilities, hvulnerabilities, hrefix, -⟩ := rescoreStored_ok hrescore
  refine refixLinks_agree hrefix hlinks rfl ?_ (rescoredDb_name vulnerabilities versionId)
  rw [rawOf_rescored hvulnerabilities, rawOf, Table.find?_of_mem hv]
  simp [Dict.get?_cons]

theorem rescore_sameRecord (hv : v ∈ db.vulnerabilities) (hstored : Stored v)
    (hscored : ¬ UnscoredMalware codec v.raw) (hrescore : rescoreStored codec db = .ok db')
    (hs : Rehydrates codec db v s) : SameRecord codec db' s.db v.id := by
  obtain ⟨scanner, cve, severity, rfl, hseverity, hreapply⟩ := rehydrates_ok hv hstored hs
  obtain ⟨links, hrefix, hlinks, hvulnerabilities, -⟩ := reapplyRecords_ok hreapply
  constructor
  · obtain ⟨stored, hstoredrows, -, rfl⟩ := rescoreStored_ok hrescore
    obtain ⟨v', hv', hfound⟩ := Table.find?_modifyM hstoredrows (Table.find?_of_mem hv)
    obtain ⟨severity', hseverity', hscore, hstype⟩ := rescored_severity hstored.raw_ne hv'
    obtain ⟨-, hid, haliases⟩ := rescored_raw hv'
    rw [hseverity] at hseverity'
    obtain rfl := Except.ok.inj hseverity'
    rw [hfound, hvulnerabilities, show v.id = (rehydratedRow scanner v cve severity).id from rfl,
      Table.find?_put_self]
    have hsame := hydratedSeverity_of_scored hstored hseverity hscored
    simp only [Option.map_some, verdictOf, storedMalicious, rehydratedRow,
      hsame, hid, haliases, hscore, hstype]
  · intro versionId
    rw [hlinks]
    exact links_agree hv hrescore hrefix versionId

/-- What can be read can be read after the record was fetched again. -/
theorem readable_rehydrated (row : Vulnerability) (hv : v ∈ db.vulnerabilities)
    (hreadable : Readable codec db) (hid : row.id = v.id) (hraw : row.raw = v.raw)
    (hreapply : reapplyRecords codec [(v.id, v.raw)]
      { db with vulnerabilities := db.vulnerabilities.put row } = .ok db') : Readable codec db' := by
  obtain ⟨links, hrefix, hlinks, hvulnerabilities, hnames⟩ := reapplyRecords_ok hreapply
  -- every record of `db'` is one of `db`, up to what was derived from it
  have hrecords : ∀ w ∈ db'.vulnerabilities, ∃ w' ∈ db.vulnerabilities, w'.id = w.id ∧
      w'.raw = w.raw := by
    intro w hw
    rw [hvulnerabilities] at hw
    rcases Table.mem_put.mp hw with rfl | ⟨hw, -⟩
    · exact ⟨v, hv, hid.symm, hraw.symm⟩
    · exact ⟨w, hw, rfl, rfl⟩
  constructor
  · intro w hw hne
    obtain ⟨w', hw', -, hraw'⟩ := hrecords w hw
    rw [← hraw'] at hne ⊢
    exact hreadable.severity w' hw' hne
  · intro link hlink w hw hwid version hversion hvid
    obtain ⟨w', hw', hwid', hraw'⟩ := hrecords w hw
    rw [← hraw']
    have hname := hnames link.versionId
    rw [Table.find?_eq_some_iff.mpr ⟨hversion, hvid⟩] at hname
    obtain ⟨version', hversion', hname'⟩ := Option.map_eq_some_iff.mp hname.symm
    rw [← hname']
    rw [hlinks] at hlink
    obtain ⟨rows, hrows, rfl⟩ := refixLinks_ok hrefix
    obtain ⟨link', hlink', hfix⟩ := Table.mem_of_modifyM hrows hlink
    obtain ⟨fixed, rfl⟩ := refixed_frame codec hfix
    exact hreadable.fixed link' hlink' w' hw' (hwid'.trans hwid) version'
      (Table.find?_mem hversion') (Table.find?_key hversion')

/-- Rescoring right after a record was fetched again leaves its row and its links. -/
theorem rescore_settled (hv : v ∈ db.vulnerabilities) (hstored : Stored v)
    (hreadable : Readable codec db) (hscored : ¬ UnscoredMalware codec v.raw)
    (hs : Rehydrates codec db v s) : ∃ db', rescoreStored codec s.db = .ok db' ∧
      db'.vulnerabilities.find? v.id = s.db.vulnerabilities.find? v.id ∧
      ∀ versionId, db'.links.find? (versionId, v.id) = s.db.links.find? (versionId, v.id) := by
  obtain ⟨scanner, cve, severity, rfl, hseverity, hreapply⟩ := rehydrates_ok hv hstored hs
  obtain ⟨db', hdb'⟩ := rescoreStored_returns_iff.mpr
    (readable_rehydrated (rehydratedRow scanner v cve severity) hv hreadable rfl rfl hreapply)
  obtain ⟨links, hrefix, hlinks, hvulnerabilities, hnames⟩ := reapplyRecords_ok hreapply
  obtain ⟨rows, hrows, hrefix', hdbrows⟩ := rescoreStored_ok hdb'
  have hrow : s.db.vulnerabilities.find? v.id = some (rehydratedRow scanner v cve severity) := by
    rw [hvulnerabilities]
    exact Table.find?_put_self _ _
  refine ⟨db', hdb', ?_, fun versionId => ?_⟩
  · obtain ⟨row', hrow', hfound⟩ := Table.find?_modifyM hrows hrow
    have hsame : rescored scanner.codec (rehydratedRow scanner v cve severity) =
        .ok (rehydratedRow scanner v cve severity) := by
      unfold rescored
      rw [if_neg (show (rehydratedRow scanner v cve severity).raw ≠ [] from hstored.raw_ne),
        show (rehydratedRow scanner v cve severity).raw = v.raw from rfl, hseverity]
      have hfresh := hydratedSeverity_of_scored hstored hseverity hscored
      simp [rehydratedRow, hfresh, bind, Except.bind, pure, Except.pure]
    rw [hsame] at hrow'
    obtain rfl := Except.ok.inj hrow'
    rw [hdbrows, hfound, hrow]
  · obtain ⟨hnone, hnone'⟩ | ⟨link, link', hlink, hfix, hlink'⟩ :=
      refixLinks_find? hrefix' (versionId, v.id)
    · rw [hnone']
      exact hnone.symm
    · rw [hlink']
      refine Eq.trans ?_ hlink.symm
      obtain ⟨hnone, hnone'⟩ | ⟨link₀, link₁, hlink₀, hfix₀, hlink₁⟩ :=
        refixLinks_find? hrefix (versionId, v.id)
      · rw [show (rescoredDb s.db rows).links = links.links from hlinks, hnone'] at hlink
        cases hlink
      · rw [show (rescoredDb s.db rows).links = links.links from hlinks, hlink₁] at hlink
        obtain rfl := Option.some.inj hlink
        have hkey := Table.find?_key hlink₁
        have hid : link₁.vulnerabilityId = v.id := congrArg Prod.snd hkey
        have hread : refixed scanner.codec (rawOf rows) (rescoredDb s.db rows) link₁ =
            .ok link₁ := by
          rw [← refixed_idem hfix₀]
          refine refixed_congr _ _ ?_ ?_
          · rw [hid, rawOf_rescored hrows, rawOf, hrow]
            simp [Dict.get?_cons, rehydratedRow]
          · rw [rescoredDb_name, hnames]
        rw [hread] at hfix
        exact congrArg some (Except.ok.inj hfix).symm

/-- A scanner that finds the stored record changed and reads it as it is stored. -/
def rereader (codec : Codec) (record : Record) : Scanner where
  codec := codec
  settings := {}
  now := 0
  fetchVuln _ := some record

/-- A readable record can be fetched again. -/
theorem rehydrates_exists {severity : Severity} (hv : v ∈ db.vulnerabilities) (hstored : Stored v)
    (hreadable : Readable codec db) (hseverity : bestSeverity codec v.raw = .ok severity) :
    ∃ s, Rehydrates codec db v s := by
  obtain ⟨cve, hcve⟩ := hstored.extractCve codec
  let row := rehydratedRow (rereader codec v.raw) v cve severity
  let db₁ : OsvDb := { db with vulnerabilities := db.vulnerabilities.put row }
  have hstale : isStale (rereader codec v.raw) v (some (v.modified.getD 0 + 1)) = true := by
    unfold isStale
    rcases v.modified with _ | m
    · rfl
    · exact decide_eq_true (Int.lt_succ m)
  have hrow : hydratedRow (rereader codec v.raw) v.id v.raw = .ok (some row) := by
    unfold Osv.hydratedRow
    rw [show (rereader codec v.raw).codec = codec from rfl, hcve, hstored.isMalicious, hseverity,
      hstored.aliases]
    rfl
  have hlinks : ∃ links, db.links.modifyM (refixed codec (Dict.get? [(v.id, v.raw)]) db₁)
      (refixed_key codec) = .ok links := by
    refine Table.modifyM_returns (refixed_key codec) fun link hlink => refixed_returns_iff.mpr ?_
    intro raw hraw version hversion
    rw [Dict.get?_cons] at hraw
    split at hraw
    · next hid =>
      obtain rfl := Option.some.inj hraw
      exact hreadable.fixed link hlink v hv hid.symm version (Table.find?_mem hversion)
        (Table.find?_key hversion)
    · cases hraw
  obtain ⟨links, hlinks⟩ := hlinks
  have hreapply : ∃ db', reapplyRecords codec [(v.id, v.raw)] db₁ = .ok db' := by
    unfold reapplyRecords refixLinks
    rw [show db₁.links = db.links from rfl, hlinks]
    exact ⟨_, rfl⟩
  obtain ⟨db', hdb'⟩ := hreapply
  let advisory : Advisory :=
    { id := v.id
      cveId := row.cveId
      cvssScore := row.cvssScore
      raw := v.raw
      malicious := namesMalware codec v }
  let read : Hydration :=
    { cached := Dict.set [(v.id, storedAdvisory (rereader codec v.raw) v)] v.id advisory
      refreshed := [(v.id, v.raw)]
      db := db₁ }
  have hone : hydrateOne (rereader codec v.raw) [v.id]
      { cached := [(v.id, storedAdvisory (rereader codec v.raw) v)], db := db } v.id =
        .ok read := by
    unfold hydrateOne
    rw [show (rereader codec v.raw).fetchVuln v.id = some v.raw from rfl, Option.filter_some,
      if_pos (by simpa using hstored.named)]
    dsimp only
    rw [hrow, show (rereader codec v.raw).codec = codec from rfl, hstored.isMalicious]
    simp [read, advisory, row, db₁, bind, Except.bind, pure, Except.pure, Dict.set]
  refine ⟨{ read with db := db' }, ⟨⟨rereader codec v.raw, some (v.modified.getD 0 + 1), rfl, rfl,
    hstale, ?_⟩, List.cons_ne_nil _ _⟩⟩
  rw [hydrate_single hv hstale, hone]
  have hread : reapplyRecords (rereader codec v.raw).codec read.refreshed read.db = .ok db' := hdb'
  have hne : read.refreshed ≠ [] := List.cons_ne_nil _ _
  simp [hne, hread, bind, Except.bind, pure, Except.pure]

end Agree

/-! ## When they agree -/

/-- Rescoring leaves malware without a severity unscored, hydrating scores it. -/
theorem scored_of_agrees {codec : Codec} {db : OsvDb} {v : Vulnerability}
    (hv : v ∈ db.vulnerabilities) (hstored : Stored v) (h : RescoreAgrees codec db v) :
    ¬ UnscoredMalware codec v.raw := by
  rintro ⟨hmalware, severity, hseverity, hunscored⟩
  obtain ⟨db', hrescore, hagrees⟩ := h.agrees
  obtain ⟨s, hs⟩ := rehydrates_exists hv hstored (rescoreStored_returns_iff.mp ⟨db', hrescore⟩)
    hseverity
  have hsame := (hagrees s hs).1
  obtain ⟨rows, hrows, -, rfl⟩ := rescoreStored_ok hrescore
  obtain ⟨v', hv', hfound⟩ := Table.find?_modifyM hrows (Table.find?_of_mem hv)
  obtain ⟨severity', hseverity', hscore, -⟩ := rescored_severity hstored.raw_ne hv'
  obtain ⟨scanner, cve, fresh, rfl, hfresh, hreapply⟩ := rehydrates_ok hv hstored hs
  obtain ⟨links, -, -, hvulnerabilities, -⟩ := reapplyRecords_ok hreapply
  rw [hseverity] at hseverity' hfresh
  obtain rfl := Except.ok.inj hseverity'
  obtain rfl := Except.ok.inj hfresh
  rw [hfound, hvulnerabilities, show v.id = (rehydratedRow scanner v cve severity).id from rfl,
    Table.find?_put_self] at hsame
  have hten : v'.cvssScore = (rehydratedRow scanner v cve severity).cvssScore :=
    congrArg Prod.fst (Option.some.inj hsame)
  rw [hstored.isMalicious] at hmalware
  rw [hscore, hunscored] at hten
  simp [rehydratedRow, hydratedSeverity, Except.ok.inj hmalware, hunscored] at hten

/-- **Rescoring agrees with hydrating** a stored record exactly if every stored record can be
read, and this one is not malware without a severity. -/
theorem rescore_agrees_iff (codec : Codec) (db : OsvDb) (v : Vulnerability)
    (hv : v ∈ db.vulnerabilities) (hstored : Stored v) :
    RescoreAgrees codec db v ↔ Readable codec db ∧ ¬ UnscoredMalware codec v.raw := by
  constructor
  · intro h
    obtain ⟨db', hrescore, -⟩ := h.agrees
    exact ⟨rescoreStored_returns_iff.mp ⟨db', hrescore⟩, scored_of_agrees hv hstored h⟩
  · rintro ⟨hreadable, hscored⟩
    obtain ⟨db', hrescore⟩ := rescoreStored_returns_iff.mpr hreadable
    exact
      { agrees := ⟨db', hrescore, fun s hs => rescore_sameRecord hv hstored hscored hrescore hs⟩
        settled := fun s hs => rescore_settled hv hstored hreadable hscored hs }

/-! ## Malware without a severity -/

def demoCodec : Codec where
  caseMap := .ascii
  isDecimal := Char.isDigit
  cvss3Base _ := some (98 / 10)
  cvss4Base _ := none
  cvss2Base _ := none
  parseFloat _ := none
  parseIso _ := none

/-- A malicious-package record as it was hydrated. -/
def malwareRow : Vulnerability where
  id := "MAL-2026-1"
  cveId := "MAL-2026-1"
  severityType := some "MALICIOUS"
  cvssScore := some 10
  severityLabel := some "critical"
  raw := [("id", .str "MAL-2026-1")]
  fetchedAt := 0

def criticalRow : Vulnerability where
  id := "GHSA-1"
  cveId := "CVE-2026-0001"
  raw :=
    [("id", .str "GHSA-1"), ("aliases", .arr [.str "CVE-2026-0001"]),
     ("severity", .arr [.obj [("type", .str "CVSS_V3"), ("score", .str "CVSS:3.1/AV:N")]])]
  aliases := [.str "CVE-2026-0001"]
  fetchedAt := 0

def storedDb (v : Vulnerability) : OsvDb where
  vulnerabilities := ⟨[v], List.nodup_singleton _⟩

/-- A rescore takes the score of a stored malware record away. -/
theorem rescore_disagrees : ¬ RescoreAgrees demoCodec (storedDb malwareRow) malwareRow :=
  fun h => scored_of_agrees (List.mem_singleton_self _) ⟨rfl, rfl⟩ h ⟨rfl, {}, rfl, rfl⟩

theorem rescore_agrees_critical :
    RescoreAgrees demoCodec (storedDb criticalRow) criticalRow ↔
      Readable demoCodec (storedDb criticalRow) ∧ ¬ UnscoredMalware demoCodec criticalRow.raw :=
  rescore_agrees_iff demoCodec (storedDb criticalRow) criticalRow (List.mem_singleton_self _)
    ⟨rfl, rfl⟩

end Minireg.Osv
