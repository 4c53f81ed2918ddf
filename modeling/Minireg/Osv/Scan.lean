import Minireg.Osv.Scanner

/-!
# Scanning versions

`scanVersions` asks OSV about its items in batches, hydrates what the answers name and
judges each item by the answer at its position. `scan_complete` says what a version that
comes out as scanned rests on.
-/

namespace Minireg.Osv

open Py Lib

/-- `OSV_ECOSYSTEM`. -/
def osvEcosystem : Ecosystem → Option String
  | .npm => some "npm"
  | .pypi => some "PyPI"
  | .cargo => some "crates.io"
  | .docker => none

structure OsvQuery where
  name : String
  ecosystem : String
  version : String
  deriving DecidableEq

/-- How a POST of the queries ends: with a JSON body, with an error `scan_versions` catches, or
with one it does not. -/
inductive BatchAnswer where
  | body (value : Json)
  | failed
  | raised

/-- What happens while one batch is scanned. -/
structure BatchRun where
  answer : List OsvQuery → BatchAnswer
  fetchVuln : String → Option Record
  now : Time

structure ScanResult where
  packageName : String
  version : String
  cves : List Advisory := []
  maxScore : Option Rat := none
  hasFix : Bool := false
  scanned : Bool := true
  malicious : Bool := false
  deriving DecidableEq

abbrev ScanResults := Dict (String × String) ScanResult

/-- `(resp.json() or {}).get("results") or []`, as it is walked. -/
def resultsOf (body : Json) : Except String (List Json) := do
  iterOr (Json.get (← fieldsOr body) "results")

/-- The ids one result names, with the `modified` time it reports. An id that is not a text
fails the statement that looks it up. -/
def namedBy (codec : Codec) (entry : Json) : Except String (List (String × Option Time)) := do
  let vulns ← iterOr (Json.get (← fieldsOf entry) "vulns")
  let named ← (vulns.filterMap Json.asObj?).mapM fun v => do
    return (← textOr (Json.get v "id"), parseDt codec (Json.get v "modified"))
  return named.filter fun e => e.1 ≠ ""

/-- `needed`. -/
def neededOf (named : List (List (String × Option Time))) : Dict String (Option Time) :=
  named.flatten.foldl (fun needed e => Dict.set needed e.1 e.2) []

def unscanned (item : String × String) : ScanResult :=
  { packageName := item.1, version := item.2, scanned := false }

def ScanResults.record (results : ScanResults) (r : ScanResult) : ScanResults :=
  Dict.set results (r.packageName, r.version) r

/-- A record with the version that fixes the package. -/
def withFix (codec : Codec) (packageName : String) (record : Advisory) : Except String Advisory :=
  if record.raw = [] then .ok record
  else do return { record with fixedVersion := ← fixedVersionFor codec record.raw packageName }

/-- The result of one item, from the ids at its position. -/
def itemResult (codec : Codec) (h : Hydration) (item : String × String) (ids : List String) :
    Except String ScanResult :=
  if ids.any (· ∈ h.failed) then .ok (unscanned item)
  else do
    let cves ← (ids.filterMap (Dict.get? h.cached)).mapM (withFix codec item.1)
    return {
      packageName := item.1
      version := item.2
      cves := cves
      maxScore := if cves = [] then some 0
        else cves.foldl (fun worst a => worse worst a.cvssScore) none
      hasFix := cves.any fun a => a.fixedVersion.truthy
      malicious := cves.any Advisory.malicious }

section

variable (codec : Codec) (settings : OsvSettings) (ecosystem : String)

def BatchRun.scanner (run : BatchRun) : Scanner where
  codec := codec
  settings := settings
  now := run.now
  fetchVuln := run.fetchVuln

def queriesOf (batch : List (String × String)) : List OsvQuery :=
  batch.map fun item => { name := item.1, ecosystem := ecosystem, version := item.2 }

/-- One turn of the loop over the batches. -/
def scanBatch (run : BatchRun) (batch : List (String × String)) (s : ScanResults × OsvDb) :
    Except String (ScanResults × OsvDb) :=
  let unanswered := (batch.foldl (fun results item => results.record (unscanned item)) s.1, s.2)
  match run.answer (queriesOf ecosystem batch) with
  | .raised => .error "OSV answered with something that is not a document"
  | .failed => .ok unanswered
  | .body value => do
    let entries ← resultsOf value
    if entries.length ≠ batch.length then return unanswered
    let named ← entries.mapM (namedBy codec)
    let h ← hydrate (run.scanner codec settings) (neededOf named) s.2
    let results ← (batch.zip named).mapM fun e => itemResult codec h e.1 (e.2.map Prod.fst)
    return (results.foldl ScanResults.record s.1, h.db)

/-- `range(0, len(items), chunk)`. -/
def batchStarts (chunk : Nat) (items : List (String × String)) : List Nat :=
  (List.range ((items.length + chunk - 1) / chunk)).map (· * chunk)

/-- `items[start : start + chunk]`. -/
def batchAt (chunk : Nat) (items : List (String × String)) (start : Nat) :
    List (String × String) := (items.drop start).take chunk

/-- The batches, one after the other. -/
def scanBatches (run : Nat → BatchRun) (chunk : Nat) (items : List (String × String))
    (starts : List Nat) (s : ScanResults × OsvDb) : Except String (ScanResults × OsvDb) :=
  starts.foldlM (fun s start =>
    scanBatch codec settings ecosystem (run start) (batchAt chunk items start) s) s

end

/-- `scan_versions`; `run` says what happens while the batch at a start is scanned. -/
def scanVersions (codec : Codec) (settings : OsvSettings) (run : Nat → BatchRun)
    (ecosystem : Ecosystem) (items : List (String × String)) (db : OsvDb) :
    Except String (ScanResults × OsvDb) :=
  if !settings.enabled || items = [] then
    .ok (items.foldl (fun results item => results.record (unscanned item)) [], db)
  else match osvEcosystem ecosystem with
    | none => .error "KeyError"
    | some osvEco =>
      if settings.batchSize = 0 then .error "ValueError: range() arg 3 must not be zero"
      else
        let chunk := settings.batchSize.toNat
        scanBatches codec settings osvEco run chunk items (batchStarts chunk items) ([], db)

/-! ## What a hydration read -/

/-- How an id was read: it was fetched, the stored record has not changed, or it changed, could
not be fetched and the stored one is used. -/
inductive AdvisoryRead (scanner : Scanner) (db : OsvDb) (reported : Option Time) (osvId : String) :
    Prop where
  | fetched (record : Record) (h : Fetched scanner osvId record)
  | unchanged (v : Vulnerability) (hv : v ∈ db.vulnerabilities) (hid : v.id = osvId)
      (hfresh : isStale scanner v reported = false)
  | outdated (v : Vulnerability) (hv : v ∈ db.vulnerabilities) (hid : v.id = osvId)
      (hunread : Unread scanner osvId)

/-- `OSV_CVE_ONLY` drops the record that was fetched. -/
structure Dropped (scanner : Scanner) (osvId : String) : Prop where
  cveOnly : scanner.settings.cveOnly = true
  noCve : ∃ record, Fetched scanner osvId record ∧ extractCve scanner.codec record = .ok none ∧
    isMalicious scanner.codec record = .ok false

section Hydrate

variable {scanner : Scanner} {stale : List String} {s s' : Hydration} {osvId : String}

theorem dropped_of_hydratedRow {record : Record} (hrecord : Fetched scanner osvId record)
    (h : hydratedRow scanner osvId record = .ok none) : Dropped scanner osvId := by
  unfold hydratedRow at h
  obtain ⟨cve, hcve, h⟩ := bind_ok h
  obtain ⟨malicious, hmalicious, h⟩ := bind_ok h
  split at h
  · next hdrop =>
    simp only [Bool.and_eq_true, decide_eq_true_eq, Bool.not_eq_eq_eq_not, Bool.not_true] at hdrop
    obtain ⟨⟨hcveOnly, rfl⟩, rfl⟩ := hdrop
    exact ⟨hcveOnly, record, hrecord, hcve, hmalicious⟩
  · obtain ⟨severity, -, h⟩ := bind_ok h
    obtain ⟨aliases, -, h⟩ := bind_ok h
    cases h

/-- After the turn of an id it is missing only if it was dropped, or was not read. -/
theorem hydrateOne_missing {i : String} (h : hydrateOne scanner stale s i = .ok s')
    (hmissing : Dict.get? s'.cached osvId = none) :
    Dropped scanner osvId ∨
      (Dict.get? s.cached osvId = none ∧ (osvId = i → Unread scanner osvId)) := by
  obtain ⟨hunread, -, rfl⟩ | ⟨hunread, -, rfl⟩ | ⟨record, hrecord, ⟨hrow, rfl⟩ |
    ⟨row, malicious, hrow, -, rfl⟩⟩ := hydrateOne_cases h
  · exact .inr ⟨hmissing, fun hi => hi ▸ hunread⟩
  · exact .inr ⟨hmissing, fun hi => hi ▸ hunread⟩
  · by_cases hi : osvId = i
    · subst hi
      exact .inl (dropped_of_hydratedRow hrecord hrow)
    · rw [Dict.get?_filter fun k => k ≠ i, if_pos (decide_eq_true hi)] at hmissing
      exact .inr ⟨hmissing, fun h => absurd h hi⟩
  · rw [Dict.get?_set] at hmissing
    by_cases hi : osvId = i
    · rw [if_pos hi] at hmissing
      cases hmissing
    · rw [if_neg hi] at hmissing
      exact .inr ⟨hmissing, fun h => absurd h hi⟩

theorem hydrateOne_failed {i : String} (h : hydrateOne scanner stale s i = .ok s') :
    (∀ j ∈ s.failed, j ∈ s'.failed) ∧
      (Unread scanner i → i ∉ stale → i ∈ s'.failed) := by
  obtain ⟨hunread, hstale, rfl⟩ | ⟨hunread, -, rfl⟩ | ⟨record, hrecord, hread⟩ := hydrateOne_cases h
  · exact ⟨fun _ hj => hj, fun _ hi => absurd hstale hi⟩
  · exact ⟨fun _ hj => List.mem_append_left _ hj,
      fun _ _ => List.mem_append_right _ (List.mem_singleton_self _)⟩
  · refine ⟨?_, fun hunread => absurd hrecord (hunread record)⟩
    obtain ⟨-, rfl⟩ | ⟨row, malicious, -, -, rfl⟩ := hread <;> exact fun _ hj => hj

/-- Every entry is stored under its own id. -/
def NamesItself (cached : Dict String Advisory) : Prop :=
  ∀ i a, Dict.get? cached i = some a → a.id = i

theorem hydrateOne_namesItself {i : String} (hs : NamesItself s.cached)
    (h : hydrateOne scanner stale s i = .ok s') : NamesItself s'.cached := by
  obtain ⟨-, -, rfl⟩ | ⟨-, -, rfl⟩ | ⟨record, -, ⟨-, rfl⟩ | ⟨row, malicious, -, -, rfl⟩⟩ :=
    hydrateOne_cases h
  · exact hs
  · exact hs
  · intro j a hj
    rw [Dict.get?_filter fun k => k ≠ i] at hj
    split at hj
    · exact hs j a hj
    · cases hj
  · intro j a hj
    rw [Dict.get?_set] at hj
    split at hj
    · next hji =>
      obtain rfl := Option.some.inj hj
      exact hji.symm
    · exact hs j a hj

/-- The loop over the ids that are fetched. -/
theorem hydrateLoop {l : List String} (h : l.foldlM (hydrateOne scanner stale) s = .ok s') :
    (∀ i, Dict.get? s'.cached i = none →
      Dropped scanner i ∨ (Dict.get? s.cached i = none ∧ (i ∈ l → Unread scanner i))) ∧
    (∀ i ∈ s.failed, i ∈ s'.failed) ∧
    (∀ i ∈ l, Unread scanner i → i ∉ stale → i ∈ s'.failed) ∧
    (NamesItself s.cached → NamesItself s'.cached) := by
  induction l generalizing s with
  | nil =>
    obtain rfl := Except.ok.inj h
    exact ⟨fun i hi => .inr ⟨hi, by simp⟩, fun _ hi => hi, by simp, id⟩
  | cons i l ih =>
    rw [List.foldlM_cons] at h
    obtain ⟨t, ht, h⟩ := bind_ok h
    obtain ⟨hmissing, hmono, hfailed, hnames⟩ := ih h
    obtain ⟨hmono', hfailed'⟩ := hydrateOne_failed ht
    refine ⟨fun j hj => ?_, fun j hj => hmono j (hmono' j hj), fun j hj hunread hfresh => ?_,
      fun hs => hnames (hydrateOne_namesItself hs ht)⟩
    · obtain hdropped | ⟨hnone, hrest⟩ := hmissing j hj
      · exact .inl hdropped
      · refine (hydrateOne_missing ht hnone).imp_right fun ⟨hnone', hi⟩ => ⟨hnone', fun hmem => ?_⟩
        rcases List.mem_cons.mp hmem with hji | hmem
        · exact hi hji
        · exact hrest hmem
    · rcases List.mem_cons.mp hj with rfl | hj
      · exact hmono j (hfailed' hunread hfresh)
      · exact hfailed j hj hunread hfresh

theorem get?_known {known : List Vulnerability} {f : Vulnerability → Advisory} {i : String} :
    (∃ v ∈ known, v.id = i) ↔ (Dict.get? (known.map fun v => (v.id, f v)) i).isSome = true := by
  induction known with
  | nil => simp
  | cons v known ih =>
    rw [List.map_cons, Dict.get?_cons]
    by_cases hi : i = v.id
    · simp [hi]
    · rw [if_neg hi, ← ih]
      simp [Ne.symm hi]

theorem namesItself_known (known : List Vulnerability) :
    NamesItself (known.map fun v => (v.id, storedAdvisory scanner v)) := by
  induction known with
  | nil => exact fun _ _ h => by cases h
  | cons v known ih =>
    intro i a h
    rw [List.map_cons, Dict.get?_cons] at h
    split at h
    · next hi =>
      obtain rfl := Option.some.inj h
      exact hi.symm
    · exact ih i a h

/-- **What a hydration rests on**: an id it was asked for and does not report as failed was read,
and is missing from the records only if it was dropped. -/
theorem hydrate_reads {reported : Dict String (Option Time)} {db : OsvDb}
    (h : hydrate scanner reported db = .ok s) :
    NamesItself s.cached ∧ ∀ i modified, Dict.get? reported i = some modified → i ∉ s.failed →
      AdvisoryRead scanner db modified i ∧
      (Dict.get? s.cached i = none → Dropped scanner i) := by
  unfold hydrate at h
  extract_lets known stale missing start at h
  obtain ⟨t, hloop, h⟩ := bind_ok h
  have hsame : s.cached = t.cached ∧ s.failed = t.failed := by
    split at h
    · obtain rfl := Except.ok.inj h
      exact ⟨rfl, rfl⟩
    · obtain ⟨db', -, h⟩ := bind_ok h
      obtain rfl := Except.ok.inj h
      exact ⟨rfl, rfl⟩
  rw [hsame.1, hsame.2]
  obtain ⟨hmissing, -, hfailed, hnames⟩ := hydrateLoop hloop
  refine ⟨hnames (namesItself_known known), fun i modified hi hok => ?_⟩
  have hkey : i ∈ reported.map Prod.fst := by
    have hany : reported.any (fun e => e.1 = i) = true := by
      rw [← Bool.not_eq_false]
      intro hnone
      rw [Dict.get?_eq_none_iff.mpr hnone] at hi
      cases hi
    obtain ⟨e, he, hei⟩ := List.any_eq_true.mp hany
    exact List.mem_map.mpr ⟨e, he, by simpa using hei⟩
  have hknown : ∀ v, v ∈ known ↔ v ∈ db.vulnerabilities ∧ (Dict.get? reported v.id).isSome := by
    intro v
    exact List.mem_filter
  -- an id that is not fetched is stored, and has not changed
  by_cases hfetch : i ∈ missing
  · have hordered : i ∈ missing.insertionSort (· ≤ ·) :=
      (List.perm_insertionSort (· ≤ ·) missing).mem_iff.mpr hfetch
    by_cases hunread : Unread scanner i
    · have hstale : i ∈ stale := by
        by_contra hfresh
        exact hok (hfailed i hordered hunread hfresh)
      obtain ⟨v, hv, hvi⟩ := List.mem_map.mp hstale
      have hvknown := (List.mem_filter.mp hv).1
      refine ⟨.outdated v ((hknown v).mp hvknown).1 hvi hunread, fun hnone => ?_⟩
      refine (hmissing i hnone).resolve_right fun ⟨hstart, _⟩ => ?_
      have hsome := (get?_known (f := storedAdvisory scanner)).mp ⟨v, hvknown, hvi⟩
      rw [hstart] at hsome
      cases hsome
    · obtain ⟨record, hrecord⟩ : ∃ record, Fetched scanner i record := by
        by_contra hnone
        exact hunread fun record hrecord => hnone ⟨record, hrecord⟩
      refine ⟨.fetched record hrecord, fun hnone => ?_⟩
      exact (hmissing i hnone).resolve_right fun ⟨_, hread⟩ => hunread (hread hordered)
  · have hheld : i ∈ known.map Vulnerability.id ∧ i ∉ stale := by
      by_contra hnot
      refine hfetch (List.mem_filter.mpr ⟨hkey, ?_⟩)
      rw [Bool.or_eq_true, decide_eq_true_iff, decide_eq_true_iff]
      by_contra hneither
      exact hnot ⟨not_not.mp fun h => hneither (.inl h), fun h => hneither (.inr h)⟩
    obtain ⟨v, hv, hvi⟩ := List.mem_map.mp hheld.1
    refine ⟨.unchanged v ((hknown v).mp hv).1 hvi ?_, fun hnone => ?_⟩
    · rw [← Bool.not_eq_true]
      intro hstale
      refine hheld.2 (List.mem_map.mpr ⟨v, List.mem_filter.mpr ⟨hv, ?_⟩, hvi⟩)
      rw [hvi, hi]
      exact hstale
    · refine (hmissing i hnone).resolve_right fun ⟨hstart, _⟩ => ?_
      have hsome := (get?_known (f := storedAdvisory scanner)).mp ⟨v, hv, hvi⟩
      rw [hstart] at hsome
      cases hsome

end Hydrate

/-! ## What a result rests on -/

/-- What a result that came out of a batch as scanned rests on: OSV answered with one result
for each query, and the one at the position of the version names ids that were all read. The
result holds their records in order, without the ones that were dropped. -/
structure Complete (codec : Codec) (settings : OsvSettings) (ecosystem : String) (run : BatchRun)
    (db : OsvDb) (batch : List (String × String)) (r : ScanResult) : Prop where
  rests : ∃ body entries named, run.answer (queriesOf ecosystem batch) = .body body ∧
    resultsOf body = .ok entries ∧ entries.mapM (namedBy codec) = .ok named ∧
    named.length = batch.length ∧
    ∃ (i : Nat) (ids : List (String × Option Time)),
      batch[i]? = some (r.packageName, r.version) ∧ named[i]? = some ids ∧
      (∀ e ∈ ids, ∃ modified, Dict.get? (neededOf named) e.1 = some modified ∧
        AdvisoryRead (run.scanner codec settings) db modified e.1) ∧
      (r.cves.map Advisory.id).Sublist (ids.map Prod.fst) ∧
      ∀ e ∈ ids, e.1 ∈ r.cves.map Advisory.id ∨ Dropped (run.scanner codec settings) e.1

section Batch

variable {codec : Codec} {settings : OsvSettings} {ecosystem : String}

theorem withFix_id {name : String} (a b : Advisory) (h : withFix codec name a = .ok b) :
    b.id = a.id := by
  unfold withFix at h
  split at h
  · rw [← Except.ok.inj h]
  · obtain ⟨fixed, -, h⟩ := bind_ok h
    rw [← Except.ok.inj h]

theorem itemResult_item {h : Hydration} {item : String × String} {ids : List String}
    {r : ScanResult} (hr : itemResult codec h item ids = .ok r) :
    (r.packageName, r.version) = item := by
  unfold itemResult at hr
  split at hr
  · rw [← Except.ok.inj hr]
    rfl
  · obtain ⟨cves, -, hr⟩ := bind_ok hr
    rw [← Except.ok.inj hr]

theorem filterMap_ids {cached : Dict String Advisory} (hnames : NamesItself cached)
    (ids : List String) : (ids.filterMap (Dict.get? cached)).map Advisory.id =
      ids.filter fun i => (Dict.get? cached i).isSome := by
  induction ids with
  | nil => rfl
  | cons i ids ih =>
    rw [List.filterMap_cons, List.filter_cons]
    rcases h : Dict.get? cached i with _ | a
    · simpa using ih
    · simp [ih, hnames i a h]

/-- A scanned item names no id that failed, and has the records of the ids it names. -/
theorem itemResult_scanned {h : Hydration} {item : String × String} {ids : List String}
    {r : ScanResult} (hnames : NamesItself h.cached) (hr : itemResult codec h item ids = .ok r)
    (hscanned : r.scanned = true) : (∀ i ∈ ids, i ∉ h.failed) ∧
      r.cves.map Advisory.id = ids.filter fun i => (Dict.get? h.cached i).isSome := by
  unfold itemResult at hr
  split at hr
  · rw [← Except.ok.inj hr] at hscanned
    cases hscanned
  · next hok =>
    obtain ⟨cves, hcves, hr⟩ := bind_ok hr
    obtain rfl := Except.ok.inj hr
    refine ⟨fun i hi hfailed => hok (List.any_eq_true.mpr ⟨i, hi, by simpa using hfailed⟩), ?_⟩
    rw [← filterMap_ids hnames]
    exact mapM_map hcves fun a b => withFix_id a b

theorem get?_record {results : ScanResults} {r : ScanResult} {k : String × String} :
    Dict.get? (results.record r) k =
      if k = (r.packageName, r.version) then some r else Dict.get? results k :=
  Dict.get?_set _ _ _ _

theorem get?_foldl_record {l : List ScanResult} {results : ScanResults} {k : String × String}
    {r : ScanResult} (h : Dict.get? (l.foldl ScanResults.record results) k = some r) :
    Dict.get? results k = some r ∨ (r ∈ l ∧ k = (r.packageName, r.version)) := by
  induction l generalizing results with
  | nil => exact .inl h
  | cons x l ih =>
    obtain hx | ⟨hr, hk⟩ := ih h
    · rw [get?_record] at hx
      split at hx
      · next hk =>
        obtain rfl := Option.some.inj hx
        exact .inr ⟨List.mem_cons_self, hk⟩
      · exact .inl hx
    · exact .inr ⟨List.mem_cons_of_mem _ hr, hk⟩

theorem mem_neededOf {named : List (List (String × Option Time))} {e : String × Option Time}
    (he : e ∈ named.flatten) : ∃ modified, Dict.get? (neededOf named) e.1 = some modified := by
  unfold neededOf
  generalize named.flatten = l at he
  have hfold : ∀ (l : List (String × Option Time)) (d : Dict String (Option Time)),
      (e ∈ l ∨ ∃ modified, Dict.get? d e.1 = some modified) →
      ∃ modified, Dict.get? (l.foldl (fun d e => Dict.set d e.1 e.2) d) e.1 = some modified := by
    intro l
    induction l with
    | nil =>
      rintro d (h | h)
      · cases h
      · exact h
    | cons x l ih =>
      intro d h
      refine ih _ ?_
      rw [Dict.get?_set]
      by_cases hx : e.1 = x.1
      · exact .inr ⟨x.2, if_pos hx⟩
      · rw [if_neg hx]
        refine h.imp_left fun hmem => ?_
        exact (List.mem_cons.mp hmem).resolve_left fun heq => hx (congrArg Prod.fst heq)
  exact hfold l [] (.inl he)

/-- **One batch**: a scanned result is one of before, or it is complete. -/
theorem scanBatch_complete {run : BatchRun} {batch : List (String × String)}
    {s s' : ScanResults × OsvDb} (h : scanBatch codec settings ecosystem run batch s = .ok s')
    {k : String × String} {r : ScanResult} (hr : Dict.get? s'.1 k = some r)
    (hscanned : r.scanned = true) : Dict.get? s.1 k = some r ∨
      (k = (r.packageName, r.version) ∧ Complete codec settings ecosystem run s.2 batch r) := by
  have hunanswered : ∀ {results : ScanResults}, results =
      batch.foldl (fun results item => results.record (unscanned item)) s.1 →
      Dict.get? results k = some r → Dict.get? s.1 k = some r := by
    rintro results rfl hk
    rw [← List.foldl_map (f := unscanned) (g := ScanResults.record)] at hk
    refine (get?_foldl_record hk).resolve_right fun hrecord => ?_
    obtain ⟨item, -, rfl⟩ := List.mem_map.mp hrecord.1
    cases hscanned
  unfold scanBatch at h
  dsimp only at h
  split at h
  · cases h
  · obtain rfl := Except.ok.inj h
    exact .inl (hunanswered rfl hr)
  · next body hanswer =>
    obtain ⟨entries, hentries, h⟩ := bind_ok h
    split at h
    · obtain rfl := Except.ok.inj h
      exact .inl (hunanswered rfl hr)
    · next hlength =>
      obtain ⟨named, hnamed, h⟩ := bind_ok h
      obtain ⟨hydration, hhydrate, h⟩ := bind_ok h
      obtain ⟨results, hresults, h⟩ := bind_ok h
      obtain rfl := Except.ok.inj h
      refine (get?_foldl_record hr).imp_right fun hrecord => ⟨hrecord.2, ?_⟩
      have hmem := hrecord.1
      obtain ⟨hnames, hreads⟩ := hydrate_reads hhydrate
      obtain ⟨⟨item, ids⟩, hzip, hitem⟩ := mapM_mem hresults r hmem
      obtain ⟨hok, hcves⟩ := itemResult_scanned hnames hitem hscanned
      obtain ⟨i, hi⟩ := List.mem_iff_getElem?.mp hzip
      obtain ⟨hbatch, hids⟩ := List.getElem?_zip_eq_some.mp hi
      have hneeded : ∀ e ∈ ids, ∃ modified, Dict.get? (neededOf named) e.1 = some modified :=
        fun e he => mem_neededOf
          (List.mem_flatten.mpr ⟨ids, List.mem_iff_getElem?.mpr ⟨i, hids⟩, he⟩)
      refine ⟨body, entries, named, hanswer, hentries, hnamed, ?_, i, ids, ?_, hids, ?_, ?_, ?_⟩
      · rw [← (List.Forall₂.length_eq (mapM_ok hnamed))]
        exact not_not.mp hlength
      · rw [itemResult_item hitem]
        exact hbatch
      · intro e he
        obtain ⟨modified, hmodified⟩ := hneeded e he
        exact ⟨modified, hmodified, (hreads e.1 modified hmodified
          (hok e.1 (List.mem_map_of_mem he))).1⟩
      · rw [hcves]
        exact List.filter_sublist
      · intro e he
        obtain ⟨modified, hmodified⟩ := hneeded e he
        rw [hcves]
        rcases hcached : Dict.get? hydration.cached e.1 with _ | a
        · exact .inr ((hreads e.1 modified hmodified (hok e.1 (List.mem_map_of_mem he))).2 hcached)
        · exact .inl (List.mem_filter.mpr ⟨List.mem_map_of_mem he, by rw [hcached]; rfl⟩)

/-- The batches: a scanned result is one of before, or complete in a batch of the run. -/
theorem scanBatches_complete {run : Nat → BatchRun} {chunk : Nat} {items : List (String × String)}
    {starts : List Nat} {s s' : ScanResults × OsvDb}
    (h : scanBatches codec settings ecosystem run chunk items starts s = .ok s')
    {k : String × String} {r : ScanResult} (hr : Dict.get? s'.1 k = some r)
    (hscanned : r.scanned = true) : Dict.get? s.1 k = some r ∨
      (k = (r.packageName, r.version) ∧ ∃ before start after mid,
        starts = before ++ start :: after ∧
        scanBatches codec settings ecosystem run chunk items before s = .ok mid ∧
        Complete codec settings ecosystem (run start) mid.2 (batchAt chunk items start) r) := by
  induction starts generalizing s with
  | nil =>
    obtain rfl := Except.ok.inj h
    exact .inl hr
  | cons start starts ih =>
    unfold scanBatches at h
    rw [List.foldlM_cons] at h
    obtain ⟨t, ht, h⟩ := bind_ok h
    obtain hearlier | ⟨hk, before, start', after, mid, hstarts, hbefore, hcomplete⟩ := ih h
    · exact (scanBatch_complete ht hearlier hscanned).imp_right fun ⟨hk, hcomplete⟩ =>
        ⟨hk, [], start, starts, s, rfl, rfl, hcomplete⟩
    · refine .inr ⟨hk, start :: before, start', after, mid, by rw [hstarts]; rfl, ?_, hcomplete⟩
      unfold scanBatches
      rw [List.foldlM_cons, ht]
      exact hbefore

end Batch

/-- **A scan reports a version as scanned only on what it read**: the version is at a position
of a batch that OSV answered with one result for each query, and every id named at that
position was fetched, is stored unchanged, or is stored and could not be fetched again. -/
theorem scan_complete (codec : Codec) (settings : OsvSettings) (run : Nat → BatchRun)
    (ecosystem : Ecosystem) (items : List (String × String)) (db : OsvDb)
    {results : ScanResults} {db' : OsvDb}
    (h : scanVersions codec settings run ecosystem items db = .ok (results, db'))
    {k : String × String} {r : ScanResult} (hr : Dict.get? results k = some r)
    (hscanned : r.scanned = true) :
    k = (r.packageName, r.version) ∧ ∃ osvEco before start after mid,
      osvEcosystem ecosystem = some osvEco ∧
      batchStarts settings.batchSize.toNat items = before ++ start :: after ∧
      scanBatches codec settings osvEco run settings.batchSize.toNat items before ([], db) =
        .ok mid ∧
      Complete codec settings osvEco (run start) mid.2
        (batchAt settings.batchSize.toNat items start) r := by
  unfold scanVersions at h
  split at h
  · obtain ⟨rfl, -⟩ := Prod.mk.inj (Except.ok.inj h)
    rw [← List.foldl_map (f := unscanned) (g := ScanResults.record)] at hr
    obtain hr | ⟨hmem, -⟩ := get?_foldl_record hr
    · cases hr
    · obtain ⟨item, -, rfl⟩ := List.mem_map.mp hmem
      cases hscanned
  · split at h
    · cases h
    · next osvEco heco =>
      split at h
      · cases h
      · obtain hr | ⟨hk, before, start, after, mid, hstarts, hbefore, hcomplete⟩ :=
          scanBatches_complete h hr hscanned
        · cases hr
        · exact ⟨hk, osvEco, before, start, after, mid, heco, hstarts, hbefore, hcomplete⟩

/-! ## A stored record that could not be refreshed -/

def outdatedRow : Vulnerability where
  id := "GHSA-1"
  cveId := "GHSA-1"
  modified := some 1
  raw := [("id", .str "GHSA-1")]
  fetchedAt := 0

def outdatedDb : OsvDb where
  vulnerabilities := ⟨[outdatedRow], List.nodup_singleton _⟩

/-- Reads the dates the demonstration uses. -/
def datedCodec : Codec where
  caseMap := .ascii
  isDecimal := Char.isDigit
  cvss3Base _ := none
  cvss4Base _ := none
  cvss2Base _ := none
  parseFloat _ := none
  parseIso text := if text = "2026-03-01" then some 2 else none

/-- OSV reports a change and has a further page; the record cannot be fetched. -/
def outdatedRun : BatchRun where
  answer _ := .body (.obj [("results", .arr [.obj
    [("vulns", .arr [.obj [("id", .str "GHSA-1"), ("modified", .str "2026-03-01")]]),
     ("next_page_token", .str "more")]])])
  fetchVuln _ := none
  now := 3

/-- The version comes out as scanned, from a record that has changed and was not read. -/
theorem scan_outdated :
    ((scanVersions datedCodec {} (fun _ => outdatedRun) .npm [("lib", "1.0.0")] outdatedDb).toOption.map
      fun s => s.1.map fun e => (e.1, e.2.scanned)) = some [(("lib", "1.0.0"), true)] ∧
    Unread (outdatedRun.scanner datedCodec {}) "GHSA-1" ∧
    isStale (outdatedRun.scanner datedCodec {}) outdatedRow (some 2) = true := by
  refine ⟨by decide +kernel, ?_, by decide⟩
  rintro record ⟨hfetch, -⟩
  cases hfetch

/-- What the demonstration returns. -/
def outdatedResult : ScanResult where
  packageName := "lib"
  version := "1.0.0"
  cves := [{ id := "GHSA-1", cveId := "GHSA-1", cvssScore := none, raw := outdatedRow.raw
             malicious := false }]

theorem scan_complete_outdated : ("lib", "1.0.0") = (outdatedResult.packageName,
      outdatedResult.version) ∧ ∃ osvEco before start after mid,
    osvEcosystem .npm = some osvEco ∧
    batchStarts 200 [("lib", "1.0.0")] = before ++ start :: after ∧
    scanBatches datedCodec {} osvEco (fun _ => outdatedRun) 200 [("lib", "1.0.0")] before
      ([], outdatedDb) = .ok mid ∧
    Complete datedCodec {} osvEco outdatedRun mid.2 (batchAt 200 [("lib", "1.0.0")] start)
      outdatedResult := by
  have h : scanVersions datedCodec {} (fun _ => outdatedRun) .npm [("lib", "1.0.0")] outdatedDb =
      .ok ([(("lib", "1.0.0"), outdatedResult)], outdatedDb) := by rfl
  exact scan_complete datedCodec {} (fun _ => outdatedRun) .npm [("lib", "1.0.0")] outdatedDb h
    (by decide) (by decide)

end Minireg.Osv
