import Minireg.Services.Database
import Minireg.Services.Displaced

/-!
# Deleting an upstream

`retireUpstreamContent` removes what only a deleted upstream supplied, with statements
over all packages; `pruneUnsourced` removes from one package what no remaining upstream
may serve. The two leave the same versions and files where the deleted upstream was the
only dead source. They differ in the tags, which the next refresh writes again.
-/

namespace Minireg

open Py Lib

/-! ## The statements of `retire_upstream_content` -/

/-- `doomed`: the upstream is a source of the version, and no file of it has another one or none. -/
def retiredVersion (uid : Nat) (v : PackageVersion) : Bool :=
  !v.isLocal && (v.upstreamId = some uid || v.files.rows.any (·.upstreamId = some uid)) &&
    !v.files.rows.any (·.upstreamId ≠ some uid)

/-- A version that stays loses the files of the upstream, and is recorded under the lowest source
of the others if it was recorded under this one. -/
def detachVersion (uid : Nat) (v : PackageVersion) : PackageVersion :=
  if v.isLocal then v
  else
    let files := v.files.filter (·.upstreamId ≠ some uid)
    { v with
      files := files
      upstreamId := if v.upstreamId = some uid then
          (files.rows.filterMap PackageFile.upstreamId).min?
        else v.upstreamId }

theorem detachVersion_normalizedVersion (uid : Nat) (v : PackageVersion) :
    (detachVersion uid v).normalizedVersion = v.normalizedVersion := by
  unfold detachVersion
  split <;> rfl

/-- Whether a version of the package has this name. -/
def Package.names (p : Package) (version : String) : Bool :=
  p.versions.rows.any (·.version = version)

/-- `bound_prefix`. -/
def boundPrefix (uid : Nat) : String := toString uid ++ "|"

/-- `retire_upstream_content`, of one package. -/
def retirePackage (uid : Nat) (p : Package) : Package :=
  let doomed := p.versions.rows.filter (retiredVersion uid)
  let q := { p with
    versions := (p.versions.filter fun v => !retiredVersion uid v).modify (detachVersion uid)
      (detachVersion_normalizedVersion uid) }
  let q := if doomed = [] then q
    else { q with
      distTags := q.distTags.filter fun t => q.names t.version
      latestVersion := q.latestVersion.filter q.names }
  { q with
    cachedEtag := q.cachedEtag.filter fun e => !(boundPrefix uid).toList.isPrefixOf e.toList }

theorem retirePackage_key (uid : Nat) (p : Package) : (retirePackage uid p).key = p.key := by
  unfold retirePackage
  dsimp only
  split <;> rfl

/-- `retire_upstream_content`, with the number of versions it removes. -/
def Database.retireUpstreamContent (db : Database) (u : Upstream) : Database × Nat :=
  if u.ecosystem = .docker then (db, 0)
  else
    ({ db with packages := db.packages.modify (retirePackage u.id) (retirePackage_key u.id) },
      (db.packages.rows.map fun p => p.versions.rows.countP (retiredVersion u.id)).sum)

/-! ## Which sources are live -/

theorem get?_foldl_set {P : Nat → Prop} {us : List Upstream} {d : Dict Nat Int}
    (hd : ∀ s t, Dict.get? d s = some t → P s) (hus : ∀ u ∈ us, P u.id) (s : Nat) (t : Int)
    (h : Dict.get? (us.foldl (fun d u => Dict.set d u.id u.tier) d) s = some t) : P s := by
  induction us generalizing d with
  | nil => exact hd s t h
  | cons u us ih =>
    refine ih (fun s t hs => ?_) (fun w hw => hus w (List.mem_cons_of_mem _ hw)) h
    rw [Dict.get?_set] at hs
    split at hs
    · next heq => exact heq ▸ hus u List.mem_cons_self
    · exact hd s t hs

theorem get?_foldl_setdefault {P : Nat → Prop} {us : List Upstream} {d : Dict Nat Int}
    (hd : ∀ s t, Dict.get? d s = some t → P s) (hus : ∀ u ∈ us, P u.id) (s : Nat) (t : Int)
    (h : Dict.get? (us.foldl (fun d u => if u.enabled then d else Dict.setdefault d u.id u.tier) d)
      s = some t) : P s := by
  induction us generalizing d with
  | nil => exact hd s t h
  | cons u us ih =>
    refine ih (fun s t hs => ?_) (fun w hw => hus w (List.mem_cons_of_mem _ hw)) h
    dsimp only at hs
    split at hs
    · exact hd s t hs
    · unfold Dict.setdefault at hs
      split at hs
      · exact hd s t hs
      · rw [Dict.get?_append, Option.or_eq_some_iff] at hs
        rcases hs with hs | ⟨-, hs⟩
        · exact hd s t hs
        · rw [Dict.get?_cons] at hs
          split at hs
          · next heq => exact heq ▸ hus u List.mem_cons_self
          · cases hs

/-- A live source is one of the upstreams. -/
theorem mem_of_liveSources {cm : CaseMap} {table : UpstreamTable} {ecosystem : Ecosystem}
    {name : String} {s : Nat} {t : Int}
    (h : Dict.get? (liveSources cm table ecosystem name) s = some t) : ∃ u ∈ table, u.id = s := by
  have hclaims : ∀ enabledOnly, ∀ u ∈ claimantsFor cm (loadUpstreams table ecosystem enabledOnly)
      name ecosystem, ∃ w ∈ table, w.id = u.id := fun _ u hu =>
    ⟨u, Table.mem_rows.mp (mem_loadUpstreams.mp (mem_of_mem_claimantsFor hu)).1, rfl⟩
  unfold liveSources at h
  exact get?_foldl_setdefault (P := fun s => ∃ u ∈ table, u.id = s)
    (get?_foldl_set (fun s t hs => by cases hs) (hclaims true)) (hclaims false) s t h

/-! ## One version -/

/-- A version but for the source it is recorded under. -/
def PackageVersion.content (v : PackageVersion) : PackageVersion := { v with upstreamId := none }

@[simp] theorem content_normalizedVersion (v : PackageVersion) :
    v.content.normalizedVersion = v.normalizedVersion := rfl

@[simp] theorem content_files (v : PackageVersion) : v.content.files = v.files := rfl

section Version

variable {live : Dict Nat Int} {uid : Nat} {v : PackageVersion}

/-- Without an answer, what is displaced is what has a dead source. -/
theorem displaced_none {source : Option Nat} {isPresent : Present → Bool} :
    displaced live none source isPresent = true ↔
      ∃ s, source = some s ∧ Dict.get? live s = none := by
  unfold displaced
  rcases source with _ | s
  · simp
  · rcases h : Dict.get? live s with _ | tier <;> simp [h]

/-- Of the sources of the version, the upstream alone is dead. -/
structure SoleDead (live : Dict Nat Int) (uid : Nat) (v : PackageVersion) : Prop where
  dead : Dict.get? live uid = none
  others : ∀ s ∈ v.sources, s ≠ uid → (Dict.get? live s).isSome

theorem SoleDead.displacedFile (h : SoleDead live uid v) {f : PackageFile} (hf : f ∈ v.files) :
    displacedFile live none f = decide (f.upstreamId = some uid) := by
  rw [Bool.eq_iff_iff, decide_eq_true_iff]
  refine displaced_none.trans ⟨?_, fun hs => ⟨uid, hs, h.dead⟩⟩
  rintro ⟨s, hs, hdead⟩
  by_contra hne
  have hlive := h.others s (mem_sources_of_file hf hs) fun heq => hne (heq ▸ hs)
  simp [hdead] at hlive

/-- Both remove the same versions. -/
theorem SoleDead.retired_eq_doomed (h : SoleDead live uid v) :
    retiredVersion uid v = doomedVersion live none v := by
  unfold retiredVersion doomedVersion
  by_cases hl : v.isLocal = true
  · simp [hl]
  rw [if_neg hl]
  by_cases hfiles : v.files.rows = []
  · have hsources : v.sources = v.upstreamId.toList := by simp [PackageVersion.sources, hfiles]
    have hdisplaced : displaced live none v.upstreamId (fun a => v.normalizedVersion ∈ a.versions) =
        decide (v.upstreamId = some uid) := by
      rw [Bool.eq_iff_iff, decide_eq_true_iff]
      refine displaced_none.trans ⟨?_, fun hs => ⟨uid, hs, h.dead⟩⟩
      rintro ⟨s, hs, hdead⟩
      by_contra hne
      have hlive := h.others s (by simp [hsources, hs]) fun heq => hne (heq ▸ hs)
      simp [hdead] at hlive
    simp [hl, hfiles, hdisplaced]
  · rw [if_pos hfiles]
    have hall : v.files.rows.all (Minireg.displacedFile live none) =
        v.files.rows.all (·.upstreamId = some uid) := by
      rw [Bool.eq_iff_iff, List.all_eq_true, List.all_eq_true]
      exact forall₂_congr fun f hf => by rw [h.displacedFile (Table.mem_rows.mp hf)]
    rw [hall]
    obtain ⟨f, hf⟩ := List.exists_mem_of_ne_nil _ hfiles
    rw [Bool.eq_iff_iff]
    simp only [hl, Bool.not_false, Bool.true_and, Bool.and_eq_true, Bool.or_eq_true,
      decide_eq_true_eq, Bool.not_eq_true', List.any_eq_true, List.any_eq_false, List.all_eq_true,
      decide_not, Bool.not_eq_true', decide_eq_false_iff_not, not_not]
    exact ⟨fun hs => hs.2, fun hs => ⟨.inr ⟨f, hf, hs f hf⟩, hs⟩⟩

/-- Both leave the same of a version that stays. -/
theorem SoleDead.content_eq (h : SoleDead live uid v) (hd : doomedVersion live none v = false) :
    (detachVersion uid v).content = (dropFiles live none v).content := by
  by_cases hl : v.isLocal = true
  · rw [dropFiles_local hl, detachVersion, if_pos hl]
  have hfiles : (dropFiles live none v).files = v.files.filter (·.upstreamId ≠ some uid) := by
    refine Table.ext_rows ((dropFiles_files (by simpa using hl) hd).trans ?_)
    refine List.filter_congr fun f hf => ?_
    rw [h.displacedFile (Table.mem_rows.mp hf)]
    simp
  have hframe := @dropFile_frame live v (doomedFiles live none v)
  have hsame : (dropFiles live none v).content =
      { v.content with files := (dropFiles live none v).files } := by
    unfold dropFiles at hframe ⊢
    generalize (doomedFiles live none v).foldl (dropFile live) v = w at hframe ⊢
    rw [← hframe]
    rfl
  rw [hsame, hfiles, detachVersion, if_neg hl]
  rfl

end Version

/-! ## What every write keeps -/

/-- Versions are keyed by their normalized form, and stored validators are encoded ones. -/
structure Stored (nm : Naming) (p : Package) : Prop where
  named : ∀ v ∈ p.versions, v.normalizedVersion = normalizedVersion nm p.ecosystem v.version
  bound : p.cachedEtag = none ∨ ∃ v : Validators, p.cachedEtag = v.encode

/-- Persisting an answer keeps it. -/
theorem Stored.persist {nm : Naming} {ecosystem : Ecosystem} {stored : Option Package}
    {remote : RemotePackage} {upstream : Upstream} {requestedName : Option String}
    {validators : Option Validators} {now : Time} {p : Package}
    (hstored : ∀ q, stored = some q → Stored nm q ∧ q.ecosystem = ecosystem)
    (h : persistRemotePackage nm ecosystem stored remote (some upstream) requestedName validators
      now = .ok p) : Stored nm p := by
  have hversions := persist_versions h
  have hsources : ∀ rv ∈ remote.versions, Sources (fun _ => True) (some upstream.id) rv :=
    fun _ _ => ⟨⟨upstream.id, rfl, trivial⟩, fun _ _ _ _ => trivial⟩
  have hnamed : ∀ v ∈ storedVersions stored,
      v.normalizedVersion = normalizedVersion nm ecosystem v.version := by
    intro v hv
    rcases stored with _ | q
    · exact absurd hv Table.not_mem_empty
    · obtain ⟨hq, rfl⟩ := hstored q rfl
      exact hq.named v hv
  have hfields : p.ecosystem = ecosystem ∧ p.cachedEtag = validators.bind Validators.encode := by
    unfold persistRemotePackage at h
    extract_lets requested displayName normalized upstreamId row keywords versions latest at h
    split at h
    · cases h
    · cases h
      refine ⟨?_, rfl⟩
      rcases stored with _ | q
      · rfl
      · exact (hstored q rfl).2
  refine ⟨?_, ?_⟩
  · rw [hversions, hfields.1]
    exact persistVersions_named hsources hnamed
  · rw [hfields.2]
    rcases validators with _ | v
    · exact .inl rfl
    · exact .inr ⟨v, rfl⟩

/-- Pruning keeps it. -/
theorem Stored.prune {nm : Naming} {p : Package} (h : Stored nm p) (table : UpstreamTable)
    (ecosystem : Ecosystem) (answer : Option (RemotePackage × Int)) :
    Stored nm (pruneUnsourced nm table ecosystem p answer).1 := by
  have hfields : (pruneUnsourced nm table ecosystem p answer).1.ecosystem = p.ecosystem ∧
      ((pruneUnsourced nm table ecosystem p answer).1.cachedEtag = none ∨
        (pruneUnsourced nm table ecosystem p answer).1.cachedEtag = p.cachedEtag) := by
    unfold pruneUnsourced
    dsimp only
    split
    · exact ⟨rfl, .inr rfl⟩
    · refine ⟨rfl, ?_⟩
      dsimp only
      split
      · split
        · exact .inl rfl
        · exact .inr rfl
      · exact .inr rfl
  refine ⟨fun v' hv' => ?_, ?_⟩
  · obtain ⟨v, hv, -, rfl⟩ := (pruneUnsourced_versions nm table ecosystem p answer v').mp hv'
    rw [dropFiles_normalizedVersion, dropFiles_version, hfields.1]
    exact h.named v hv
  · rcases hfields.2 with hnone | hsame
    · exact .inl hnone
    · exact hsame ▸ h.bound

/-! ## One package -/

/-- Of the recorded sources of a package, the upstream alone is dead. -/
def OthersLive (live : Dict Nat Int) (uid : Nat) (p : Package) : Prop :=
  ∀ v ∈ p.versions, v.isLocal = false → ∀ s ∈ v.sources, s ≠ uid → (Dict.get? live s).isSome

section Package

variable {nm : Naming} {table : UpstreamTable} {ecosystem : Ecosystem} {uid : Nat} {p : Package}

/-- A package loses a version. -/
def Loses (uid : Nat) (p : Package) : Prop := p.versions.rows.filter (retiredVersion uid) ≠ []

theorem retirePackage_versions : (retirePackage uid p).versions.rows =
    (p.versions.rows.filter fun v => !retiredVersion uid v).map (detachVersion uid) := by
  unfold retirePackage
  dsimp only
  split <;> rfl

/-- Of each version, retiring and pruning remove and leave the same. -/
theorem OthersLive.version {live : Dict Nat Int} (hdead : Dict.get? live uid = none)
    (h : OthersLive live uid p) {v : PackageVersion} (hv : v ∈ p.versions) :
    retiredVersion uid v = doomedVersion live none v ∧
      (doomedVersion live none v = false →
        (detachVersion uid v).content = (dropFiles live none v).content) := by
  by_cases hl : v.isLocal = true
  · refine ⟨by simp [retiredVersion, doomedVersion, hl], fun _ => ?_⟩
    rw [dropFiles_local hl, detachVersion, if_pos hl]
  · have hsole : SoleDead live uid v := ⟨hdead, h v hv (by simpa using hl)⟩
    exact ⟨hsole.retired_eq_doomed, hsole.content_eq⟩

/-- Where another source is dead, pruning removes what retiring leaves. -/
theorem othersLive_of_content {live : Dict Nat Int} {rows : List PackageVersion}
    (hrows : rows = (p.versions.rows.filter fun v => !doomedVersion live none v).map
      (dropFiles live none))
    (h : (retirePackage uid p).versions.rows.map PackageVersion.content =
      rows.map PackageVersion.content) : OthersLive live uid p := by
  intro v hv hl s hs hne
  by_contra hdead
  have hdead : Dict.get? live s = none := by simpa using hdead
  -- the version stays with the upstream retired, so something of the same content does with it pruned
  have hpruned : retiredVersion uid v = false → doomedVersion live none v = false ∧
      (dropFiles live none v).content = (detachVersion uid v).content := by
    intro hkept
    have hmem : (detachVersion uid v).content ∈ rows.map PackageVersion.content := by
      rw [← h, retirePackage_versions]
      exact List.mem_map_of_mem (List.mem_map_of_mem
        (List.mem_filter.mpr ⟨Table.mem_rows.mpr hv, by simp [hkept]⟩))
    rw [hrows] at hmem
    obtain ⟨w', hw', hcontent⟩ := List.mem_map.mp hmem
    obtain ⟨w, hw, rfl⟩ := List.mem_map.mp hw'
    obtain ⟨hw, hdoomed⟩ := List.mem_filter.mp hw
    have hkey : w.normalizedVersion = v.normalizedVersion := by
      rw [← dropFiles_normalizedVersion live none w, ← detachVersion_normalizedVersion uid v]
      simpa using congrArg PackageVersion.normalizedVersion hcontent
    obtain rfl := Table.eq_of_key (Table.mem_rows.mp hw) hv hkey
    exact ⟨by simpa using hdoomed, hcontent⟩
  unfold PackageVersion.sources at hs
  split at hs
  · obtain ⟨f, hf, hfs⟩ := List.mem_filterMap.mp hs
    have hother : f.upstreamId ≠ some uid := by rw [hfs]; simpa using hne
    have hkept : retiredVersion uid v = false := by
      have hany : v.files.rows.any (·.upstreamId ≠ some uid) = true :=
        List.any_eq_true.mpr ⟨f, hf, decide_eq_true hother⟩
      simp only [retiredVersion, hany, Bool.not_true, Bool.and_false]
    obtain ⟨hstays, hcontent⟩ := hpruned hkept
    have hfile : f ∈ (dropFiles live none v).files := by
      have hfiles : (dropFiles live none v).files = (detachVersion uid v).files := by
        simpa using congrArg PackageVersion.files hcontent
      have hdetached : f ∈ (detachVersion uid v).files := by
        unfold detachVersion
        rw [if_neg (by simp [hl])]
        exact Table.mem_filter.mpr ⟨Table.mem_rows.mp hf, decide_eq_true hother⟩
      exact hfiles ▸ hdetached
    have hlive := ((mem_dropFiles hl hstays f).mp hfile).2
    exact absurd (displaced_none.mpr ⟨s, hfs, hdead⟩) (by simpa [displacedFile] using hlive)
  · next hfiles =>
    have hown : v.upstreamId = some s := by simpa using hs
    have hnil : v.files.rows = [] := by simpa using hfiles
    have hkept : retiredVersion uid v = false := by
      simp [retiredVersion, hnil, hown, hne]
    have hstays := (hpruned hkept).1
    unfold doomedVersion at hstays
    rw [if_neg (by simp [hl]), if_neg hfiles] at hstays
    rw [displaced_none.mpr ⟨s, hown, hdead⟩] at hstays
    cases hstays

/-- Nothing names the upstream any more. -/
theorem retirePackage_unnamed {v : PackageVersion} (hv : v ∈ (retirePackage uid p).versions)
    (hl : v.isLocal = false) :
    v.upstreamId ≠ some uid ∧ ∀ f ∈ v.files, f.upstreamId ≠ some uid := by
  rw [← Table.mem_rows, retirePackage_versions] at hv
  obtain ⟨w, hw, rfl⟩ := List.mem_map.mp hv
  have hwl : w.isLocal = false := by
    unfold detachVersion at hl
    split at hl
    · exact hl
    · exact hl
  unfold detachVersion
  rw [if_neg (by simp [hwl])]
  have hfiles : ∀ f ∈ w.files.filter (·.upstreamId ≠ some uid), f.upstreamId ≠ some uid :=
    fun f hf => of_decide_eq_true (Table.mem_filter.mp hf).2
  refine ⟨?_, hfiles⟩
  dsimp only
  split
  · intro hmin
    obtain ⟨f, hf, hfu⟩ := List.mem_filterMap.mp (List.min?_mem hmin)
    exact hfiles f (Table.mem_rows.mp hf) hfu
  · assumption

theorem retirePackage_cachedEtag : (retirePackage uid p).cachedEtag =
    p.cachedEtag.filter fun e => !(boundPrefix uid).toList.isPrefixOf e.toList := by
  unfold retirePackage
  dsimp only
  split <;> rfl

/-- No stored validator is bound to the upstream any more. -/
theorem retirePackage_unbound (h : Stored nm p) {b : Validators}
    (hb : Validators.decode (retirePackage uid p).cachedEtag = some b) : b.upstreamId ≠ uid := by
  rw [retirePackage_cachedEtag] at hb
  rcases hp : p.cachedEtag with _ | e
  · rw [hp] at hb
    cases hb
  obtain ⟨v, hv⟩ := h.bound.resolve_left (by simp [hp])
  obtain ⟨rest, hrest⟩ := Validators.encode_bound (hv.symm.trans hp)
  rw [hp, Option.filter_some] at hb
  split at hb
  · next hprefix =>
    have hid := Validators.decode_bound hrest hb
    rintro rfl
    have hstarts : (boundPrefix b.upstreamId).toList.isPrefixOf e.toList = true := by
      rw [hrest, ← hid, List.isPrefixOf_iff_prefix]
      exact ⟨rest, by simp [boundPrefix]⟩
    rw [hstarts] at hprefix
    cases hprefix
  · cases hb

theorem pruneTag_of_notMem {removed : List String} {latest : Option String} {empty : Bool}
    {t : DistTag} (h : t.version ∉ removed) : pruneTag removed latest empty t = some t := if_neg h

/-- What pruning makes of the tags. -/
theorem mem_pruneUnsourced_distTags (nm : Naming) (table : UpstreamTable) (ecosystem : Ecosystem)
    (p : Package) (t' : DistTag) :
    let pruned := (pruneUnsourced nm table ecosystem p).1
    let doomed := p.versions.rows.filter (doomedVersion
      (liveSources nm.caseMap table ecosystem p.normalizedName) none)
    t' ∈ pruned.distTags ↔ ∃ t ∈ p.distTags, pruneTag (doomed.map PackageVersion.version)
      (deriveLatest nm ecosystem pruned.versions) (pruned.versions.rows = []) t = some t' := by
  dsimp only
  unfold pruneUnsourced
  dsimp only [presentIn, Option.bind_none]
  generalize liveSources nm.caseMap table ecosystem p.normalizedName = live
  split
  · next h =>
    simp only [Bool.and_eq_true, decide_eq_true_eq] at h
    rw [h.1]
    constructor
    · exact fun ht => ⟨t', ht, pruneTag_of_notMem List.not_mem_nil⟩
    · rintro ⟨t, ht, hkept⟩
      exact Option.some.inj ((pruneTag_of_notMem List.not_mem_nil).symm.trans hkept) ▸ ht
  · exact mem_pruneTags

/-- A version that stays has no name of one that goes. -/
theorem Stored.names_not_removed (h : Stored nm p) {version : String}
    (hn : (retirePackage uid p).names version = true) :
    version ∉ (p.versions.rows.filter (retiredVersion uid)).map PackageVersion.version := by
  intro hmem
  obtain ⟨v, hv, rfl⟩ := List.mem_map.mp hmem
  obtain ⟨hv, hretired⟩ := List.mem_filter.mp hv
  unfold Package.names at hn
  obtain ⟨w', hw', hname⟩ := List.any_eq_true.mp hn
  rw [retirePackage_versions] at hw'
  obtain ⟨w, hw, rfl⟩ := List.mem_map.mp hw'
  obtain ⟨hw, hkept⟩ := List.mem_filter.mp hw
  have hversion : w.version = v.version := by
    refine Eq.trans ?_ (of_decide_eq_true hname)
    unfold detachVersion
    split <;> rfl
  have hkey : w.normalizedVersion = v.normalizedVersion := by
    rw [h.named w (Table.mem_rows.mp hw), h.named v (Table.mem_rows.mp hv), hversion]
  obtain rfl := Table.eq_of_key (Table.mem_rows.mp hw) (Table.mem_rows.mp hv) hkey
  simp [hretired] at hkept

theorem mem_retirePackage_distTags {t : DistTag} : t ∈ (retirePackage uid p).distTags ↔
    t ∈ p.distTags ∧ (Loses uid p → (retirePackage uid p).names t.version = true) := by
  have hnames : (retirePackage uid p).names t.version = ((p.versions.filter fun v =>
      !retiredVersion uid v).modify (detachVersion uid)
      (detachVersion_normalizedVersion uid)).rows.any (·.version = t.version) := by
    unfold Package.names
    rw [retirePackage_versions]
    rfl
  rw [hnames]
  unfold retirePackage Loses
  dsimp only
  split
  · next h => simp [h]
  · next h =>
    rw [Table.mem_filter]
    exact and_congr_right fun _ => ⟨fun hn _ => hn, fun hn => hn h⟩

/-- Retiring an upstream keeps what every write keeps. -/
theorem Stored.retire (h : Stored nm p) : Stored nm (retirePackage uid p) := by
  refine ⟨fun v' hv' => ?_, ?_⟩
  · rw [← Table.mem_rows, retirePackage_versions] at hv'
    obtain ⟨v, hv, rfl⟩ := List.mem_map.mp hv'
    have hnamed := h.named v (Table.mem_rows.mp (List.mem_filter.mp hv).1)
    have hecosystem : (retirePackage uid p).ecosystem = p.ecosystem :=
      congrArg Prod.fst (retirePackage_key uid p)
    rw [hecosystem]
    unfold detachVersion
    split
    · exact hnamed
    · exact hnamed
  · rw [retirePackage_cachedEtag]
    rcases hp : p.cachedEtag with _ | e
    · exact .inl rfl
    · rw [Option.filter_some]
      split
      · exact .inr (hp ▸ h.bound.resolve_left (by simp [hp]))
      · exact .inl rfl

/-- Retiring leaves the tags that pruning leaves as they are, less those of a package that lost
a version which name none. -/
theorem OthersLive.distTags (hstored : Stored nm p)
    (hdead : Dict.get? (liveSources nm.caseMap table ecosystem p.normalizedName) uid = none)
    (h : OthersLive (liveSources nm.caseMap table ecosystem p.normalizedName) uid p) (t : DistTag) :
    t ∈ (retirePackage uid p).distTags ↔
      t ∈ (pruneUnsourced nm table ecosystem p).1.distTags ∧ t ∈ p.distTags ∧
        (Loses uid p → (retirePackage uid p).names t.version = true) := by
  rw [mem_retirePackage_distTags]
  refine ⟨fun ⟨ht, hn⟩ => ⟨?_, ht, hn⟩, And.right⟩
  refine (mem_pruneUnsourced_distTags nm table ecosystem p t).mpr ⟨t, ht, pruneTag_of_notMem ?_⟩
  have hsame : p.versions.rows.filter (doomedVersion
      (liveSources nm.caseMap table ecosystem p.normalizedName) none) =
      p.versions.rows.filter (retiredVersion uid) :=
    List.filter_congr fun v hv => ((h.version hdead (Table.mem_rows.mp hv)).1).symm
  rw [hsame]
  by_cases hloses : Loses uid p
  · exact hstored.names_not_removed (hn hloses)
  · rw [not_not.mp hloses]
    exact List.not_mem_nil

/-- What retiring an upstream makes of a package, next to what pruning it makes with the
remaining upstreams of the table. -/
structure Retirement (nm : Naming) (table : UpstreamTable) (ecosystem : Ecosystem) (uid : Nat)
    (p p' : Package) : Prop where
  content : p'.versions.rows.map PackageVersion.content =
      (pruneUnsourced nm table ecosystem p).1.versions.rows.map PackageVersion.content ↔
    OthersLive (liveSources nm.caseMap table ecosystem p.normalizedName) uid p
  tags : OthersLive (liveSources nm.caseMap table ecosystem p.normalizedName) uid p → ∀ t,
    t ∈ p'.distTags ↔ t ∈ (pruneUnsourced nm table ecosystem p).1.distTags ∧ t ∈ p.distTags ∧
      (Loses uid p → p'.names t.version = true)
  unnamed : ∀ v ∈ p'.versions, v.isLocal = false →
    v.upstreamId ≠ some uid ∧ ∀ f ∈ v.files, f.upstreamId ≠ some uid
  unbound : ∀ b, Validators.decode p'.cachedEtag = some b → b.upstreamId ≠ uid

theorem retirePackage_retires (hstored : Stored nm p)
    (hdead : Dict.get? (liveSources nm.caseMap table ecosystem p.normalizedName) uid = none) :
    Retirement nm table ecosystem uid p (retirePackage uid p) where
  content := by
    have hrows := pruneUnsourced_rows nm table ecosystem p none
    refine ⟨othersLive_of_content hrows, fun h => ?_⟩
    rw [retirePackage_versions, hrows, List.map_map, List.map_map]
    have hsame : (p.versions.rows.filter fun v => !retiredVersion uid v) =
        p.versions.rows.filter fun v => !doomedVersion
          (liveSources nm.caseMap table ecosystem p.normalizedName) none v :=
      List.filter_congr fun v hv => by rw [(h.version hdead (Table.mem_rows.mp hv)).1]
    rw [hsame]
    refine List.map_congr_left fun v hv => ?_
    obtain ⟨hv, hd⟩ := List.mem_filter.mp hv
    exact (h.version hdead (Table.mem_rows.mp hv)).2 (by simpa using hd)
  tags h := h.distTags hstored hdead
  unnamed _ := retirePackage_unnamed
  unbound _ := retirePackage_unbound hstored

end Package

/-- **Deleting an upstream is pruning it**, of the rows as they are before their sources are nulled:
it leaves the versions and files that pruning leaves exactly where no other recorded source is
dead, and nothing that names the upstream. -/
theorem retire_prunes (nm : Naming) (table : UpstreamTable) (db : Database) (u : Upstream)
    (hu : u.ecosystem ≠ .docker) {ecosystem : Ecosystem} {name : String} {p : Package}
    (hp : db.package? ecosystem name = some p) (hstored : Stored nm p) :
    ∃ p', (db.retireUpstreamContent u).1.package? ecosystem name = some p' ∧
      Retirement nm (table.filter (·.id ≠ u.id)) ecosystem u.id p p' := by
  have hdead : Dict.get? (liveSources nm.caseMap (table.filter (·.id ≠ u.id)) ecosystem
      p.normalizedName) u.id = none := by
    rw [Option.eq_none_iff_forall_not_mem]
    intro t ht
    obtain ⟨w, hw, hid⟩ := mem_of_liveSources ht
    exact of_decide_eq_true (Table.mem_filter.mp hw).2 hid
  refine ⟨retirePackage u.id p, ?_, retirePackage_retires hstored hdead⟩
  unfold Database.package? at hp ⊢
  unfold Database.retireUpstreamContent
  rw [if_neg hu]
  dsimp only
  rw [Table.find?_modify, hp]
  rfl

/-! ## A package whose latest version goes -/

/-- The upstream that is deleted, and one that stays. -/
def twoUpstreams : UpstreamTable where
  rows :=
    [{ id := 1, name := "bad", ecosystem := .npm, kind := .npm, validKind := npm_validKind },
     { id := 2, name := "good", ecosystem := .npm, kind := .npm, validKind := npm_validKind }]

def taggedPackage : Package where
  ecosystem := .npm
  name := "tool"
  normalizedName := "tool"
  cachedEtag := some "1||abc"
  latestVersion := some "2.0.0"
  versions :=
    { rows :=
        [{ version := "1.0.0", normalizedVersion := "1.0.0", upstreamId := some 1,
           files := { rows := [{ filename := "tool-1.0.0.tgz", upstreamId := some 2 }] } },
         { version := "2.0.0", normalizedVersion := "2.0.0", upstreamId := some 1,
           files := { rows := [{ filename := "tool-2.0.0.tgz", upstreamId := some 1 }] } }] }
  distTags := { rows := [{ tag := "latest", version := "2.0.0" }, { tag := "stable", version := "1.0.0" }] }

def taggedDatabase : Database where
  packages := { rows := [taggedPackage] }

/-- Pruning moves `latest` to a version that is left, where retiring deletes it. -/
theorem retire_drops_latest :
    OthersLive (liveSources plainNaming.caseMap (twoUpstreams.filter (·.id ≠ 1)) .npm "tool") 1
      taggedPackage ∧
    (retirePackage 1 taggedPackage).distTags.rows = [{ tag := "stable", version := "1.0.0" }] ∧
    (pruneUnsourced plainNaming (twoUpstreams.filter (·.id ≠ 1)) .npm taggedPackage).1.distTags.rows =
      [{ tag := "latest", version := "1.0.0" }, { tag := "stable", version := "1.0.0" }] := by
  refine ⟨fun v hv => ?_, by decide +kernel, by decide +kernel⟩
  have hrows : ∀ v ∈ taggedPackage.versions.rows, v.isLocal = false → ∀ s ∈ v.sources, s ≠ 1 →
      (Dict.get? (liveSources plainNaming.caseMap (twoUpstreams.filter (·.id ≠ 1)) .npm "tool")
        s).isSome := by
    decide +kernel
  exact hrows v (Table.mem_rows.mpr hv)

theorem retire_prunes_tagged : ∃ p',
    (taggedDatabase.retireUpstreamContent twoUpstreams.rows[0]).1.package? .npm "tool" = some p' ∧
      Retirement plainNaming (twoUpstreams.filter (·.id ≠ twoUpstreams.rows[0].id)) .npm
        twoUpstreams.rows[0].id taggedPackage p' :=
  retire_prunes plainNaming twoUpstreams taggedDatabase twoUpstreams.rows[0] (by decide) rfl
    { named := fun v hv => by
        have hrows : ∀ v ∈ taggedPackage.versions.rows, v.normalizedVersion = v.version := by decide
        exact hrows v (Table.mem_rows.mpr hv)
      bound := .inr ⟨{ upstreamId := 1, etag := some "abc" }, by decide⟩ }

end Minireg
