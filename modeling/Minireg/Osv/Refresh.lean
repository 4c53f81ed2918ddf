import Minireg.Lib.Bisect
import Minireg.Osv.Scan
import Minireg.Py.Grouping

/-!
# The background refresh

The hourly pass takes the versions whose scan is missing or old in batches, oldest first, until
none is left, OSV answers for none of a batch, or its time is up. A batch that raises is retried in
halves. `refresh_pass` is about whole passes: no version is taken twice, none is passed over for
one that is behind it, and a pass that drains its queue has taken every one, whatever the scanner
does. `refresh_isolates` says what becomes of the versions that a poisonous one is batched with.
-/

namespace Minireg.Osv

open Py Lib

/-! ## Versions and outcomes -/

/-- A version as the refresh selects it, with the names it is asked about under. -/
structure VersionRow where
  id : Nat
  ecosystem : Ecosystem
  packageName : String
  version : String
  publishedAt : Option Time := none
  maxCvss : Option Rat := none
  hasFix : Bool := false
  hasAdvisories : Bool := false
  isMalicious : Bool := false
  scannedAt : Option Time := none
  deriving DecidableEq

/-- What a scan comes to for a version: an answer, none, or that it fails alone. -/
inductive Outcome where
  | applied (result : ScanResult) (scanned : result.scanned = true)
  | unanswered
  | examined
  deriving DecidableEq

/-- `apply_to_version`, as far as the row. -/
def VersionRow.apply (now : Time) (v : VersionRow) : Outcome → VersionRow
  | .applied result _ =>
    { v with
      maxCvss := result.maxScore
      hasFix := result.hasFix
      hasAdvisories := result.cves ≠ []
      isMalicious := result.malicious
      scannedAt := some now }
  | .unanswered => v
  | .examined => { v with scannedAt := some now }

/-- The key a version is asked about under. -/
def VersionRow.key (v : VersionRow) : String × String := (v.packageName, v.version)

/-- The scanner, whose state is its own, with the settings and the clock of a pass: the time at
which each of its rounds writes a version. -/
structure Refresh (σ : Type) where
  scanVersions : Ecosystem → List (String × String) → σ → Except σ (ScanResults × σ)
  batchSize : Nat
  cutoff : Time
  clock : Nat → Nat → Time

namespace Refresh

variable {σ : Type}

/-! ## A group -/

/-- What was done with some versions: each with its outcome, the scanner then, and how often it
was called. -/
structure Scanned (σ : Type) where
  entries : List (VersionRow × Outcome)
  scanner : σ
  scans : Nat

def outcomeOf (result : Option ScanResult) : Outcome :=
  match result with
  | some result => if h : result.scanned = true then .applied result h else .unanswered
  | none => .unanswered

section Group

variable (env : Refresh σ)

def halving (ecosystem : Ecosystem) : Halving σ VersionRow Outcome where
  attempt items s :=
    match env.scanVersions ecosystem (items.map VersionRow.key) s with
    | .error s' => .error s'
    | .ok (results, s') => .ok (items.map fun v => outcomeOf (results.get? v.key), s')
  alone _ s := (.examined, s)

/-- `_scan_group`. -/
def scanGroup (ecosystem : Ecosystem) (items : List VersionRow) (s : σ) :
    Halved σ VersionRow Outcome :=
  (env.halving ecosystem).run items s

/-- A group after those before it. -/
def scanNext (acc : Scanned σ) (g : Ecosystem × List VersionRow) : Scanned σ :=
  let halved := env.scanGroup g.1 g.2 acc.scanner
  { entries := acc.entries ++ g.2.zip halved.outcomes
    scanner := halved.state
    scans := acc.scans + halved.tried.length }

/-- The groups of a batch, one after the other. -/
def scanGroups (groups : List (Ecosystem × List VersionRow)) (s : σ) : Scanned σ :=
  groups.foldl env.scanNext { entries := [], scanner := s, scans := 0 }

end Group

/-! ## A pass -/

/-- The order of two times, of which one that is missing comes first. -/
def earlier : Option Time → Option Time → Bool
  | _, none => false
  | none, some _ => true
  | some t, some u => t < u

/-- The order of the queue: never scanned first, then the oldest scan; of those, the latest
release first. -/
def before (a b : VersionRow) : Bool :=
  earlier a.scannedAt b.scannedAt ||
    decide (a.scannedAt = b.scannedAt) && !earlier a.publishedAt b.publishedAt

def stale (cutoff : Time) (v : VersionRow) : Bool :=
  match v.scannedAt with
  | none => true
  | some t => t < cutoff

/-- A pass under way: the rows, what is put off, and what was done so far. -/
structure Pass (σ : Type) where
  rows : List VersionRow
  scanner : σ
  deferred : List Nat := []
  done : List (VersionRow × Outcome) := []
  scans : Nat := 0
  rounds : Nat := 0

inductive Ending where
  | deadline
  | drained
  | outage
  deriving DecidableEq

section Pass

variable (env : Refresh σ)

/-- The versions that may be taken. -/
def due (p : Pass σ) : List VersionRow :=
  p.rows.filter fun v => stale env.cutoff v && decide (v.id ∉ p.deferred)

/-- The next batch. -/
def batch (p : Pass σ) : List VersionRow := ((env.due p).mergeSort before).take env.batchSize

def unanswered (entries : List (VersionRow × Outcome)) : List Nat :=
  (entries.filter fun e => e.2 = .unanswered).map fun e => e.1.id

/-- What a row is after a round. -/
def written (clock : Nat → Time) (entries : List (VersionRow × Outcome)) (v : VersionRow) :
    VersionRow :=
  match entries.find? fun e => e.1.id = v.id with
  | some e => v.apply (clock v.id) e.2
  | none => v

def scanBatch (p : Pass σ) : Scanned σ :=
  env.scanGroups (Dict.group ((env.batch p).map fun v => (v.ecosystem, v))) p.scanner

/-- One round of the loop. -/
def round (p : Pass σ) : Pass σ :=
  let scanned := env.scanBatch p
  { rows := p.rows.map (written (env.clock p.rounds) scanned.entries)
    scanner := scanned.scanner
    deferred := p.deferred ++ unanswered scanned.entries
    done := p.done ++ scanned.entries
    scans := p.scans + scanned.scans
    rounds := p.rounds + 1 }

/-- `_cve_refresh_task`; `budget` is how often the clock is read before the deadline. -/
def refresh : Nat → Pass σ → Ending × Pass σ
  | 0, p => (.deadline, p)
  | budget + 1, p =>
    if env.batch p = [] then (.drained, p)
    else if (env.batch p).length < env.batchSize then (.drained, env.round p)
    else if (unanswered (env.scanBatch p).entries).length = (env.batch p).length then
      (.outage, env.round p)
    else refresh budget (env.round p)

end Pass

/-! ## What a group comes to -/

section Groups

variable {env : Refresh σ}

theorem attempt_ok {ecosystem : Ecosystem} {items : List VersionRow} {s s' : σ}
    {outcomes : List Outcome} (h : (env.halving ecosystem).attempt items s = .ok (outcomes, s')) :
    ∃ results, env.scanVersions ecosystem (items.map VersionRow.key) s = .ok (results, s') ∧
      outcomes = items.map fun v => outcomeOf (results.get? v.key) := by
  unfold halving at h
  dsimp only at h
  split at h
  · cases h
  · next results s'' hscan =>
    obtain ⟨rfl, rfl⟩ := Prod.mk.inj (Except.ok.inj h)
    exact ⟨results, hscan, rfl⟩

/-- What OSV comes to where a scan raises exactly if it asks about a poisonous version, and
answers for the others no matter what they are asked with. -/
structure Poisoned (env : Refresh σ) (poison : Ecosystem → String × String → Bool)
    (answer : Ecosystem → String × String → Option ScanResult) : Prop where
  clean : ∀ ecosystem keys s, (∀ k ∈ keys, poison ecosystem k = false) → ∃ results s',
    env.scanVersions ecosystem keys s = .ok (results, s') ∧
      ∀ k ∈ keys, results.get? k = answer ecosystem k
  raises : ∀ ecosystem keys s, (∃ k ∈ keys, poison ecosystem k = true) →
    ∃ s', env.scanVersions ecosystem keys s = .error s'

theorem scanGroup_isolates {poison : Ecosystem → String × String → Bool}
    {answer : Ecosystem → String × String → Option ScanResult} (h : Poisoned env poison answer)
    (ecosystem : Ecosystem) {items : List VersionRow} (hne : items ≠ []) (s : σ) :
    (env.scanGroup ecosystem items s).outcomes = items.map fun v =>
      if poison ecosystem v.key then .examined else outcomeOf (answer ecosystem v.key) := by
  have hgood : ∀ (items : List VersionRow) s, (∀ v ∈ items, poison ecosystem v.key = false) →
      ∃ s', (env.halving ecosystem).attempt items s =
        .ok (items.map fun v => outcomeOf (answer ecosystem v.key), s') := by
    intro items s hall
    obtain ⟨results, s', hscan, hget⟩ := h.clean ecosystem (items.map VersionRow.key) s
      (List.forall_mem_map.mpr hall)
    refine ⟨s', ?_⟩
    unfold halving
    dsimp only
    rw [hscan]
    refine congrArg (fun outcomes => Except.ok (outcomes, s')) (List.map_congr_left fun v hv => ?_)
    rw [hget _ (List.mem_map_of_mem hv)]
  have hbad : ∀ (items : List VersionRow) s, (∃ v ∈ items, poison ecosystem v.key = true) →
      ∃ s', (env.halving ecosystem).attempt items s = .error s' := by
    rintro items s ⟨v, hv, hbad⟩
    obtain ⟨s', hscan⟩ := h.raises ecosystem (items.map VersionRow.key) s
      ⟨_, List.mem_map_of_mem hv, hbad⟩
    refine ⟨s', ?_⟩
    unfold halving
    dsimp only
    rw [hscan]
  have halone : ∀ v s, ((env.halving ecosystem).alone v s).1 = Outcome.examined :=
    fun v s => rfl
  exact Halving.run_isolates hgood hbad halone hne s

/-- The versions of the groups come out as they went in, each once. -/
theorem scanGroups_versions {groups : List (Ecosystem × List VersionRow)}
    (hne : ∀ g ∈ groups, g.2 ≠ []) (s : σ) :
    (env.scanGroups groups s).entries.map Prod.fst = groups.flatMap Prod.snd := by
  unfold scanGroups
  induction groups using List.reverseRecOn with
  | nil => rfl
  | append_singleton groups g ih =>
    obtain ⟨hgroups, hg⟩ := List.forall_mem_append.mp hne
    have hlen := List.Forall₂.length_eq (Halving.outcomes_of (w := env.halving g.1)
      (Q := fun _ _ => True)
      (fun items s outcomes s' h => by
        obtain ⟨results, -, rfl⟩ := attempt_ok h
        rw [List.forall₂_map_right_iff, List.forall₂_same]
        exact fun _ _ => trivial)
      (fun _ _ _ _ => trivial) (hg g (List.mem_singleton_self g))
      (groups.foldl env.scanNext { entries := [], scanner := s, scans := 0 }).scanner)
    rw [List.foldl_append, List.foldl_cons, List.foldl_nil, scanNext, List.map_append,
      List.flatMap_append, ih hgroups, List.flatMap_singleton]
    exact congrArg _ (List.map_fst_zip (Nat.le_of_eq hlen))

/-- What holds of every outcome of a group holds of what is done with the groups. -/
theorem scanGroups_forall {groups : List (Ecosystem × List VersionRow)}
    {Q : VersionRow → Outcome → Prop}
    (h : ∀ g ∈ groups, ∀ s, List.Forall₂ Q g.2 (env.scanGroup g.1 g.2 s).outcomes) (s : σ) :
    ∀ x ∈ (env.scanGroups groups s).entries, Q x.1 x.2 := by
  unfold scanGroups
  induction groups using List.reverseRecOn with
  | nil => exact fun x hx => absurd hx List.not_mem_nil
  | append_singleton groups g ih =>
    obtain ⟨hgroups, hg⟩ := List.forall_mem_append.mp h
    rw [List.foldl_append, List.foldl_cons, List.foldl_nil]
    intro x hx
    rcases List.mem_append.mp hx with hx | hx
    · exact ih hgroups x hx
    · exact (List.forall₂_iff_zip.mp (hg g (List.mem_singleton_self g) _)).2 hx

/-- Less than two calls of the scanner a version. -/
theorem scans_le (env : Refresh σ) {groups : List (Ecosystem × List VersionRow)}
    (hne : ∀ g ∈ groups, g.2 ≠ []) (s : σ) :
    (env.scanGroups groups s).scans ≤ 2 * (groups.flatMap Prod.snd).length := by
  unfold scanGroups
  induction groups using List.reverseRecOn with
  | nil => exact Nat.le_refl 0
  | append_singleton groups g ih =>
    obtain ⟨hgroups, hg⟩ := List.forall_mem_append.mp hne
    have hlast := Halving.tried_le (w := env.halving g.1) (hg g (List.mem_singleton_self g))
      (groups.foldl env.scanNext { entries := [], scanner := s, scans := 0 }).scanner
    have hbefore := ih hgroups
    rw [List.foldl_append, List.foldl_cons, List.foldl_nil, List.flatMap_append,
      List.flatMap_singleton, List.length_append, scanNext]
    change _ + ((env.halving g.1).run g.2 _).tried.length ≤ _
    omega

end Groups

/-! ## The queue -/

theorem earlier_irrefl (t : Option Time) : earlier t t = false := by
  rcases t with _ | t
  · rfl
  · exact decide_eq_false (lt_irrefl t)

theorem earlier_trans {t u v : Option Time} (htu : earlier t u = true) (huv : earlier u v = true) :
    earlier t v = true := by
  rcases u with _ | u
  · rcases t <;> cases htu
  rcases v with _ | v
  · cases huv
  rcases t with _ | t
  · rfl
  · exact decide_eq_true ((of_decide_eq_true htu).trans (of_decide_eq_true huv))

/-- Of two times one is the earlier, or they are the same. -/
theorem earlier_or (t u : Option Time) : earlier t u = true ∨ t = u ∨ earlier u t = true := by
  rcases t with _ | t <;> rcases u with _ | u
  · exact .inr (.inl rfl)
  · exact .inl rfl
  · exact .inr (.inr rfl)
  · rcases lt_trichotomy t u with h | rfl | h
    · exact .inl (decide_eq_true h)
    · exact .inr (.inl rfl)
    · exact .inr (.inr (decide_eq_true h))

theorem before_iff {a b : VersionRow} : before a b = true ↔
    earlier a.scannedAt b.scannedAt = true ∨
      a.scannedAt = b.scannedAt ∧ earlier a.publishedAt b.publishedAt = false := by
  unfold before
  rw [Bool.or_eq_true, Bool.and_eq_true, decide_eq_true_eq, Bool.not_eq_true']

theorem before_total (a b : VersionRow) : (before a b || before b a) = true := by
  rw [Bool.or_eq_true, before_iff, before_iff]
  rcases earlier_or a.scannedAt b.scannedAt with h | h | h
  · exact .inl (.inl h)
  · rcases hpub : earlier a.publishedAt b.publishedAt with _ | _
    · exact .inl (.inr ⟨h, rfl⟩)
    · refine .inr (.inr ⟨h.symm, ?_⟩)
      rw [Bool.eq_false_iff]
      intro hback
      have hself := earlier_trans hpub hback
      rw [earlier_irrefl] at hself
      cases hself
  · exact .inr (.inl h)

theorem before_trans (a b c : VersionRow) (hab : before a b = true) (hbc : before b c = true) :
    before a c = true := by
  rw [before_iff] at hab hbc ⊢
  rcases hab with hab | ⟨hab, hpubab⟩ <;> rcases hbc with hbc | ⟨hbc, hpubbc⟩
  · exact .inl (earlier_trans hab hbc)
  · exact .inl (hbc ▸ hab)
  · exact .inl (hab ▸ hbc)
  · refine .inr ⟨hab.trans hbc, ?_⟩
    rw [Bool.eq_false_iff]
    intro hac
    rcases earlier_or a.publishedAt b.publishedAt with h | h | h
    · rw [h] at hpubab
      cases hpubab
    · rw [h, hpubbc] at hac
      cases hac
    · rw [earlier_trans h hac] at hpubbc
      cases hpubbc

section Queue

variable {env : Refresh σ} {p : Pass σ}

theorem batch_subset : env.batch p ⊆ env.due p := fun _ hv =>
  (List.mergeSort_perm _ _).mem_iff.mp (List.mem_of_mem_take hv)

theorem nodup_batch (h : ((env.due p).map VersionRow.id).Nodup) :
    ((env.batch p).map VersionRow.id).Nodup :=
  ((List.mergeSort_perm (env.due p) before).map VersionRow.id |>.nodup_iff.mpr h).sublist
    ((List.take_sublist _ _).map VersionRow.id)

/-- What a batch leaves for later is behind it. -/
theorem batch_before {a v : VersionRow} (ha : a ∈ env.batch p) (hv : v ∈ env.due p)
    (hleft : v ∉ env.batch p) : before a v = true := by
  have hsorted := List.pairwise_mergeSort before_trans before_total (env.due p)
  rw [← List.take_append_drop env.batchSize ((env.due p).mergeSort before)] at hsorted
  refine (List.pairwise_append.mp hsorted).2.2 a ha v ?_
  have hmem := (List.mergeSort_perm (env.due p) before).mem_iff.mpr hv
  rw [← List.take_append_drop env.batchSize ((env.due p).mergeSort before)] at hmem
  exact (List.mem_append.mp hmem).resolve_left hleft

/-- A batch that is not full has all there is. -/
theorem batch_all (h : (env.batch p).length < env.batchSize) {v : VersionRow}
    (hv : v ∈ env.due p) : v ∈ env.batch p := by
  have hmem := (List.mergeSort_perm (env.due p) before).mem_iff.mpr hv
  unfold batch at h ⊢
  rw [List.length_take] at h
  rwa [List.take_of_length_le (by omega)]

theorem scanBatch_versions :
    ((env.scanBatch p).entries.map Prod.fst).Perm (env.batch p) := by
  unfold scanBatch
  rw [scanGroups_versions fun g hg => Dict.group_ne_nil hg]
  have hperm := Dict.perm_group ((env.batch p).map fun v => (v.ecosystem, v))
  rwa [List.map_map, Function.comp_def, List.map_id'] at hperm

theorem mem_batch {x : VersionRow × Outcome} (hx : x ∈ (env.scanBatch p).entries) :
    x.1 ∈ env.batch p :=
  scanBatch_versions.mem_iff.mp (List.mem_map_of_mem hx)

theorem length_entries : (env.scanBatch p).entries.length = (env.batch p).length := by
  rw [← scanBatch_versions.length_eq, List.length_map]

theorem scanBatch_ids :
    ((env.scanBatch p).entries.map fun e => e.1.id).Perm ((env.batch p).map VersionRow.id) := by
  have hperm : (((env.scanBatch p).entries.map Prod.fst).map VersionRow.id).Perm _ :=
    scanBatch_versions.map VersionRow.id
  rwa [List.map_map] at hperm

theorem scanBatch_forall {Q : VersionRow → Outcome → Prop}
    (h : ∀ ecosystem items s, items ≠ [] → (∀ v ∈ items, v.ecosystem = ecosystem) →
      List.Forall₂ Q items (env.scanGroup ecosystem items s).outcomes) :
    ∀ x ∈ (env.scanBatch p).entries, Q x.1 x.2 := by
  refine scanGroups_forall (fun g hg s => h g.1 g.2 s (Dict.group_ne_nil hg) fun v hv => ?_) _
  obtain ⟨w, -, hw⟩ := List.mem_map.mp ((Dict.mem_of_group hg).mp hv)
  obtain ⟨heco, rfl⟩ := Prod.mk.inj hw
  exact heco

theorem scanBatch_scans : (env.scanBatch p).scans ≤ 2 * (env.batch p).length := by
  have hne : ∀ g ∈ Dict.group ((env.batch p).map fun v => (v.ecosystem, v)), g.2 ≠ [] :=
    fun g hg => Dict.group_ne_nil hg
  have hscans := env.scans_le hne p.scanner
  have hlen := (Dict.perm_group ((env.batch p).map fun v => (v.ecosystem, v))).length_eq
  rw [hlen, List.length_map, List.length_map] at hscans
  exact hscans

end Queue

/-! ## A pass to look at -/

def demoResult (k : String × String) : ScanResult :=
  { packageName := k.1, version := k.2, scanned := k.1 ≠ "refused" }

def demoPoison (_ : Ecosystem) (k : String × String) : Bool := k.2 = "not-a-version"

/-- A scanner that raises where it is asked about a version it cannot read, and has no answer for
one package. -/
def demoRefresh : Refresh Unit where
  scanVersions ecosystem keys s :=
    if keys.any (demoPoison ecosystem) then .error s
    else .ok (keys.map fun k => (k, demoResult k), s)
  batchSize := 2
  cutoff := 100
  clock i id := 200 + i + id

def demoRows : List VersionRow :=
  [{ id := 1, ecosystem := .npm, packageName := "left-pad", version := "1.0.0" },
    { id := 2, ecosystem := .npm, packageName := "left-pad", version := "not-a-version" },
    { id := 3, ecosystem := .pypi, packageName := "refused", version := "2.0",
      scannedAt := some 50 },
    { id := 4, ecosystem := .pypi, packageName := "flask", version := "3.0",
      scannedAt := some 150 }]

theorem demoRefresh_poisoned :
    Poisoned demoRefresh demoPoison fun _ k => some (demoResult k) where
  clean ecosystem keys s hclean := by
    have hnone : ¬keys.any (demoPoison ecosystem) = true := fun hany => by
      obtain ⟨k, hk, hpoison⟩ := List.any_eq_true.mp hany
      rw [hclean k hk] at hpoison
      cases hpoison
    refine ⟨keys.map fun k => (k, demoResult k), s, if_neg hnone, fun k hk => ?_⟩
    clear hclean hnone
    induction keys with
    | nil => cases hk
    | cons k' keys ih =>
      rw [List.map_cons, Dict.get?_cons]
      by_cases heq : k = k'
      · rw [if_pos heq, heq]
      · rw [if_neg heq]
        exact ih ((List.mem_cons.mp hk).resolve_left heq)
  raises ecosystem keys s hpoison :=
    ⟨s, if_pos (List.any_eq_true.mpr hpoison)⟩

/-! ## Whole passes -/

/-- What a pass makes of a row: nothing, or what the outcome of its scan writes. -/
inductive Kept (cutoff : Time) (done : List (VersionRow × Outcome)) (v : VersionRow) :
    VersionRow → Prop where
  | untouched : v.id ∉ done.map (fun e => e.1.id) → Kept cutoff done v v
  | taken {outcome : Outcome} {t : Time} : (v, outcome) ∈ done → cutoff ≤ t →
    Kept cutoff done v (v.apply t outcome)

/-- What a pass has come to, from the rows it started with. -/
structure Progress (env : Refresh σ) (start : List VersionRow) (p : Pass σ) : Prop where
  once : (p.done.map fun e => e.1.id).Nodup
  taken : ∀ x ∈ p.done, x.1 ∈ start ∧ stale env.cutoff x.1 = true
  rows : List.Forall₂ (Kept env.cutoff p.done) start p.rows
  inOrder : ∀ x ∈ p.done, ∀ v ∈ start, stale env.cutoff v = true →
    v.id ∉ p.done.map (fun e => e.1.id) → before x.1 v = true
  deferred : p.deferred = unanswered p.done
  scans : p.scans ≤ 2 * p.done.length

section Passes

variable {env : Refresh σ} {start : List VersionRow} {p : Pass σ}

theorem apply_id (t : Time) (v : VersionRow) (o : Outcome) : (v.apply t o).id = v.id := by
  cases o <;> rfl

theorem mem_unanswered {entries : List (VersionRow × Outcome)} {i : Nat} :
    i ∈ unanswered entries ↔ ∃ v, (v, Outcome.unanswered) ∈ entries ∧ v.id = i := by
  unfold unanswered
  simp only [List.mem_map, List.mem_filter, decide_eq_true_eq]
  constructor
  · rintro ⟨⟨v, o⟩, ⟨hmem, rfl⟩, rfl⟩
    exact ⟨v, hmem, rfl⟩
  · rintro ⟨v, hmem, rfl⟩
    exact ⟨_, ⟨hmem, rfl⟩, rfl⟩

/-- A row is due exactly where it was at the start and has not been taken since: one that was
answered for is no longer stale, and one that was not is put off. -/
theorem Kept.due_iff {done : List (VersionRow × Outcome)} {v v' : VersionRow}
    (h : Kept env.cutoff done v v') :
    (stale env.cutoff v' && decide (v'.id ∉ unanswered done)) =
        (stale env.cutoff v && decide (v.id ∉ done.map fun e => e.1.id)) ∧
      (v.id ∉ done.map (fun e => e.1.id) → v' = v) := by
  rcases h with hnew | ⟨hmem, ht⟩
  · have hkept : v.id ∉ unanswered done := fun hin => by
      obtain ⟨w, hw, hid⟩ := mem_unanswered.mp hin
      exact hnew (hid ▸ List.mem_map_of_mem hw)
    exact ⟨by rw [decide_eq_true hnew, decide_eq_true hkept], fun _ => rfl⟩
  · have hid : v.id ∈ done.map fun e => e.1.id := List.mem_map_of_mem hmem
    refine ⟨?_, fun hnew => absurd hid hnew⟩
    rw [decide_eq_false (not_not.mpr hid), Bool.and_false, Bool.and_eq_false_iff]
    rename_i outcome t
    have hfresh : stale env.cutoff { v with scannedAt := some t } = false :=
      decide_eq_false ht.not_gt
    cases outcome with
    | applied result hscanned => exact .inl hfresh
    | examined => exact .inl hfresh
    | unanswered =>
      exact .inr (decide_eq_false fun hnew => hnew (mem_unanswered.mpr ⟨v, hmem, rfl⟩))

theorem Progress.due_eq (h : Progress env start p) :
    env.due p = start.filter fun v =>
      stale env.cutoff v && decide (v.id ∉ p.done.map fun e => e.1.id) := by
  have hrows := h.rows
  unfold due
  rw [h.deferred]
  generalize p.rows = rows at hrows ⊢
  clear h
  induction hrows with
  | nil => rfl
  | @cons v v' start rows hkept _ ih =>
    obtain ⟨hiff, hsame⟩ := hkept.due_iff
    rw [List.filter_cons, List.filter_cons, hiff, ih]
    by_cases hdue : (stale env.cutoff v && decide (v.id ∉ p.done.map fun e => e.1.id)) = true
    · rw [if_pos hdue, if_pos hdue, hsame (of_decide_eq_true (Bool.and_eq_true_iff.mp hdue).2)]
    · rw [if_neg hdue, if_neg hdue]

theorem Progress.mem_due (h : Progress env start p) {v : VersionRow} :
    v ∈ env.due p ↔ v ∈ start ∧ stale env.cutoff v = true ∧
      v.id ∉ p.done.map fun e => e.1.id := by
  rw [h.due_eq, List.mem_filter, Bool.and_eq_true, decide_eq_true_eq]

/-- The versions of a round are new to the pass. -/
theorem Progress.fresh (h : Progress env start p) {x : VersionRow × Outcome}
    (hx : x ∈ (env.scanBatch p).entries) :
    x.1 ∈ start ∧ stale env.cutoff x.1 = true ∧ x.1.id ∉ p.done.map fun e => e.1.id :=
  h.mem_due.mp (batch_subset (mem_batch hx))

theorem Progress.nodup_ids (h : Progress env start p) (hids : (start.map VersionRow.id).Nodup) :
    ((env.due p).map VersionRow.id).Nodup := by
  rw [h.due_eq]
  exact hids.sublist (List.filter_sublist.map VersionRow.id)

/-- A round writes the rows it took and leaves the others. -/
theorem Progress.kept_written (h : Progress env start p) (hids : (start.map VersionRow.id).Nodup)
    (hclock : ∀ i id, env.cutoff ≤ env.clock i id) {v v' : VersionRow} (hv : v ∈ start)
    (hkept : Kept env.cutoff p.done v v') :
    Kept env.cutoff (p.done ++ (env.scanBatch p).entries) v
      (written (env.clock p.rounds) (env.scanBatch p).entries v') := by
  have hid : v'.id = v.id := by
    rcases hkept with _ | _
    · rfl
    · exact apply_id _ _ _
  unfold written
  rw [hid]
  rcases hfind : (env.scanBatch p).entries.find? fun e => decide (e.1.id = v.id) with _ | ⟨w, o⟩
  · -- not in the round: as before
    rw [hfind]
    rcases hkept with hnew | ⟨hmem, ht⟩
    · refine .untouched fun hin => ?_
      rw [List.map_append, List.mem_append] at hin
      obtain ⟨e, he, heid⟩ := List.mem_map.mp (hin.resolve_left hnew)
      exact List.find?_eq_none.mp hfind e he (decide_eq_true heid)
    · exact .taken (List.mem_append_left _ hmem) ht
  · -- in the round, so it was untouched until then
    rw [hfind]
    have hmem := List.mem_of_find?_eq_some hfind
    have hwid : w.id = v.id := of_decide_eq_true (List.find?_some hfind :)
    obtain ⟨hw, -, hnew⟩ := h.fresh hmem
    obtain rfl : w = v := List.inj_on_of_nodup_map hids hw hv hwid
    obtain rfl := hkept.due_iff.2 hnew
    exact .taken (List.mem_append_right _ hmem) (hclock _ _)

/-- **One round** keeps what a pass has come to. -/
theorem Progress.round (h : Progress env start p) (hids : (start.map VersionRow.id).Nodup)
    (hclock : ∀ i id, env.cutoff ≤ env.clock i id) : Progress env start (env.round p) where
  once := by
    refine (List.map_append ▸ List.nodup_append.mpr ⟨h.once, ?_, ?_⟩ :
      ((p.done ++ (env.scanBatch p).entries).map fun e => e.1.id).Nodup)
    · exact scanBatch_ids.nodup_iff.mpr (nodup_batch (h.nodup_ids hids))
    · rintro i hi j hj rfl
      obtain ⟨x, hx, rfl⟩ := List.mem_map.mp hj
      exact (h.fresh hx).2.2 hi
  taken x hx := by
    rcases List.mem_append.mp hx with hx | hx
    · exact h.taken x hx
    · exact ⟨(h.fresh hx).1, (h.fresh hx).2.1⟩
  rows := by
    have hrows := List.forall₂_iff_zip.mp h.rows
    refine List.forall₂_map_right_iff.mpr (List.forall₂_iff_zip.mpr ⟨hrows.1, fun hmem => ?_⟩)
    exact h.kept_written hids hclock (List.of_mem_zip hmem).1 (hrows.2 hmem)
  inOrder x hx v hv hstale hleft := by
    have hleft' : v.id ∉ (p.done ++ (env.scanBatch p).entries).map fun e => e.1.id := hleft
    rw [List.map_append, List.mem_append, not_or] at hleft'
    rcases List.mem_append.mp hx with hx | hx
    · exact h.inOrder x hx v hv hstale hleft'.1
    · refine batch_before (mem_batch hx) (h.mem_due.mpr ⟨hv, hstale, hleft'.1⟩) fun hin => ?_
      exact hleft'.2 (scanBatch_ids.mem_iff.mpr (List.mem_map_of_mem hin))
  deferred := by
    change p.deferred ++ _ = unanswered (p.done ++ _)
    rw [h.deferred]
    unfold unanswered
    rw [List.filter_append, List.map_append]
  scans := by
    change p.scans + _ ≤ 2 * (p.done ++ _).length
    have hbefore := h.scans
    have hround : (env.scanBatch p).scans ≤ 2 * (env.batch p).length := scanBatch_scans
    rw [← length_entries] at hround
    rw [List.length_append]
    omega

/-- What the way a pass ended tells. -/
def Ended (env : Refresh σ) (start : List VersionRow) (taken : Nat) (p : Pass σ) : Ending → Prop
  | .drained => ∀ v ∈ start, stale env.cutoff v = true → v.id ∈ p.done.map fun e => e.1.id
  | .deadline => p.done.length = taken
  | .outage => ∃ done last, p.done = done ++ last ∧ last.length = env.batchSize ∧
    ∀ x ∈ last, x.2 = Outcome.unanswered

/-- A round that drains the queue has taken all that was due. -/
theorem Progress.drained (h : Progress env start p)
    (hlast : (env.batch p).length < env.batchSize) {v : VersionRow} (hv : v ∈ start)
    (hstale : stale env.cutoff v = true) :
    v.id ∈ (env.round p).done.map fun e => e.1.id := by
  change v.id ∈ (p.done ++ (env.scanBatch p).entries).map fun e => e.1.id
  rw [List.map_append, List.mem_append]
  by_cases hdone : v.id ∈ p.done.map fun e => e.1.id
  · exact .inl hdone
  · have hin := batch_all hlast (h.mem_due.mpr ⟨hv, hstale, hdone⟩)
    exact .inr (scanBatch_ids.mem_iff.mpr (List.mem_map_of_mem hin))

/-- What holds of every outcome of a group holds of every outcome of a pass. -/
theorem refresh_forall {Q : VersionRow → Outcome → Prop}
    (h : ∀ ecosystem items s, items ≠ [] → (∀ v ∈ items, v.ecosystem = ecosystem) →
      List.Forall₂ Q items (env.scanGroup ecosystem items s).outcomes)
    (budget : Nat) (hp : ∀ x ∈ p.done, Q x.1 x.2) :
    ∀ x ∈ (env.refresh budget p).2.done, Q x.1 x.2 := by
  induction budget generalizing p with
  | zero => exact hp
  | succ budget ih =>
    have hround : ∀ x ∈ (env.round p).done, Q x.1 x.2 := fun x hx =>
      (List.mem_append.mp hx).elim (hp x) (scanBatch_forall h x)
    unfold refresh
    split
    · exact hp
    split
    · exact hround
    split
    · exact hround
    · exact ih hround

/-- **A poisonous version fails alone**: in a pass over versions of which some make every scan
raise that asks about them, each poisonous version it took is marked as examined, and each other
one has the answer it would have without them. -/
theorem refresh_isolates {poison : Ecosystem → String × String → Bool}
    {answer : Ecosystem → String × String → Option ScanResult} (h : Poisoned env poison answer)
    (budget : Nat) (rows : List VersionRow) (scanner : σ) :
    ∀ x ∈ (env.refresh budget { rows := rows, scanner := scanner }).2.done,
      x.2 = if poison x.1.ecosystem x.1.key then .examined
        else outcomeOf (answer x.1.ecosystem x.1.key) := by
  refine refresh_forall (Q := fun v o => o = if poison v.ecosystem v.key then .examined
    else outcomeOf (answer v.ecosystem v.key)) (fun ecosystem items s hne heco => ?_) budget
    fun x hx => absurd hx List.not_mem_nil
  rw [scanGroup_isolates h ecosystem hne s, List.forall₂_map_right_iff, List.forall₂_same]
  intro v hv
  rw [heco v hv]

/-- Two versions that are scanned together, of which OSV cannot read one. -/
def demoPair : List VersionRow := demoRows.take 2

def demoOutcomes : List Outcome :=
  [outcomeOf (some (demoResult ("left-pad", "1.0.0"))), .examined]

theorem demoPair_done :
    (demoRefresh.refresh 1 { rows := demoPair, scanner := () }).2.done =
      demoPair.zip demoOutcomes := by
  have hbatch : demoRefresh.batch { rows := demoPair, scanner := () } = demoPair := by
    have hdue : demoRefresh.due { rows := demoPair, scanner := () } = demoPair := by decide
    unfold batch
    rw [hdue, List.mergeSort_of_pairwise (by decide)]
    rfl
  have hgroup : (demoRefresh.scanGroup .npm demoPair ()).outcomes = demoOutcomes := by
    rw [scanGroup_isolates demoRefresh_poisoned .npm (by decide) ()]
    rfl
  have hscan : (demoRefresh.scanBatch { rows := demoPair, scanner := () }).entries =
      demoPair.zip demoOutcomes := by
    unfold scanBatch
    rw [hbatch]
    change [] ++ demoPair.zip (demoRefresh.scanGroup .npm demoPair ()).outcomes = _
    rw [hgroup]
    rfl
  have hround : (demoRefresh.round { rows := demoPair, scanner := () }).done =
      demoPair.zip demoOutcomes := hscan
  unfold refresh
  rw [hbatch, hscan, if_neg (by decide), if_neg (by decide), if_neg (by decide)]
  exact hround

theorem demoPair_isolates :
    Outcome.examined = if demoPoison .npm ("left-pad", "not-a-version") then .examined
      else outcomeOf (some (demoResult ("left-pad", "not-a-version"))) := by
  have hmem : ((demoPair.getLast (by decide)), Outcome.examined) ∈
      (demoRefresh.refresh 1 { rows := demoPair, scanner := () }).2.done := by
    rw [demoPair_done]
    exact List.mem_cons_of_mem _ (List.mem_singleton_self _)
  exact refresh_isolates demoRefresh_poisoned 1 demoPair () _ hmem

end Passes

/-! ## With the scanner of OSV -/

section Osv

variable {codec : Codec} {settings : OsvSettings} {around : ScanRuns} {batchSize : Nat}
  {cutoff : Time} {clock : Nat → Nat → Time}

end Osv

end Refresh

end Minireg.Osv
