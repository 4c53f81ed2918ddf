import Minireg.Docker.Registry
import Minireg.Lib.Window

/-!
# The verdict on a blob

A blob inherits the verdicts of the manifests of the repository that name it:
refused when the repository is quarantined or every one of them is refused
(`BlobVerdictCorrect`). `blobPullVerdict` looks at the most recently served ones
only; `blobVerdictCorrect_iff` says when these decide as all of them would.
-/

namespace Minireg.Docker

open Py Lib

/-- Linked to the repository, or named by an index that is. -/
def InRepository (db : Db) (repo : DockerRepository) (m : DockerManifest) : Prop :=
  m.id ∈ linkedIds db repo ∨ m.digest ∈ db.childDigests (linkedIds db repo)

/-- A manifest of the repository whose layers or config include the digest. -/
def NamesBlob (db : Db) (repo : DockerRepository) (digest : Digest) (m : DockerManifest) : Prop :=
  m ∈ db.manifests ∧
    (∃ r ∈ db.refs, r.manifestId = m.id ∧ r.digest = digest ∧ r.refType ≠ .manifest) ∧
    InRepository db repo m

instance (db : Db) (repo : DockerRepository) (m : DockerManifest) :
    Decidable (InRepository db repo m) :=
  inferInstanceAs (Decidable (_ ∨ _))

instance (db : Db) (repo : DockerRepository) (digest : Digest) (m : DockerManifest) :
    Decidable (NamesBlob db repo digest m) :=
  inferInstanceAs (Decidable (_ ∧ _ ∧ _))

/-- A blob is served unless the repository is quarantined or every manifest of
it that names the blob is refused. -/
def BlobVerdictCorrect (db : Db) (repo : DockerRepository) (digest : Digest)
    (policy : ImagePolicy) : Prop :=
  (blobPullVerdict db repo digest policy).allowed = true ↔
    repo.quarantined = false ∧
      ((∀ m, ¬ NamesBlob db repo digest m) ∨
        ∃ m, NamesBlob db repo digest m ∧ (evaluatePull db repo m policy).allowed = true)

/-- How many manifests naming the digest were served more recently than `m`. -/
def servedSooner (db : Db) (repo : DockerRepository) (digest : Digest) (m : DockerManifest) : Nat :=
  countBefore DockerManifest.servedAfter m
    (db.manifests.rows.filter fun m => NamesBlob db repo digest m)

/-! ## The order of the query -/

instance : Std.Total DockerManifest.servedAfter := ⟨fun a b => by
  unfold DockerManifest.servedAfter
  rcases a.lastAccessedAt with _ | s <;> rcases b.lastAccessedAt with _ | t <;> dsimp only
  · omega
  · exact .inr trivial
  · exact .inl trivial
  · rcases lt_trichotomy s t with h | h | h
    · exact .inr (.inl h)
    · rcases Nat.le_total b.id a.id with hle | hle
      · exact .inl (.inr ⟨h, hle⟩)
      · exact .inr (.inr ⟨h.symm, hle⟩)
    · exact .inl (.inl h)⟩

instance : IsTrans DockerManifest DockerManifest.servedAfter := ⟨fun a b c => by
  unfold DockerManifest.servedAfter
  rcases a.lastAccessedAt with _ | s <;> rcases b.lastAccessedAt with _ | t <;>
    rcases c.lastAccessedAt with _ | u <;> dsimp only
  · omega
  · exact fun _ h => h
  · exact fun h _ => h.elim
  · exact fun h _ => h.elim
  · exact fun _ _ => trivial
  · exact fun _ h => h.elim
  · exact fun _ _ => trivial
  · rintro (h1 | ⟨h1, h2⟩) (h3 | ⟨h3, h4⟩)
    · exact .inl (h3.trans h1)
    · exact .inl (h3 ▸ h1)
    · exact .inl (h1 ▸ h3)
    · exact .inr ⟨h1.trans h3, h4.trans h2⟩⟩

/-- Rows that tie have one id. -/
theorem servedAfter_antisymm {a b : DockerManifest} (hab : a.servedAfter b)
    (hba : b.servedAfter a) : a.id = b.id := by
  unfold DockerManifest.servedAfter at hab hba
  rcases ha : a.lastAccessedAt with _ | s <;> rcases hb : b.lastAccessedAt with _ | t <;>
    rw [ha, hb] at hab hba <;> dsimp only at hab hba
  · omega
  · rcases hab with h1 | ⟨h1, h2⟩ <;> rcases hba with h3 | ⟨h3, h4⟩
    · exact absurd h3 (lt_asymm h1)
    · exact absurd h1 (h3 ▸ lt_irrefl _)
    · exact absurd h3 (h1 ▸ lt_irrefl _)
    · omega

/-! ## What the query returns -/

section

variable {db : Db} {repo : DockerRepository} {digest : Digest} {policy : ImagePolicy}

theorem mem_childIds {m : DockerManifest} (hm : m ∈ db.manifests) :
    m.id ∈ childIds db repo ↔ m.digest ∈ db.childDigests (linkedIds db repo) := by
  unfold childIds
  rw [List.mem_map]
  constructor
  · rintro ⟨m', hm', hid⟩
    obtain ⟨hm', hd⟩ := List.mem_filter.mp hm'
    cases Table.eq_of_key hm' hm hid
    exact of_decide_eq_true hd
  · exact fun hd => ⟨m, List.mem_filter.mpr ⟨hm, decide_eq_true hd⟩, rfl⟩

/-- The rows the query of `manifests_naming_blob` selects. -/
theorem namingManifests_eq : namingManifests db repo digest =
    (db.manifests.rows.filter fun m => NamesBlob db repo digest m).insertionSort
      DockerManifest.servedAfter := by
  unfold namingManifests
  congr 1
  refine List.filter_congr fun m hm => ?_
  rw [Bool.eq_iff_iff, List.any_eq_true, decide_eq_true_eq]
  constructor
  · rintro ⟨r, hr, h⟩
    simp only [Bool.and_eq_true, Bool.or_eq_true, decide_eq_true_eq, ne_eq] at h
    obtain ⟨⟨⟨hid, hd⟩, ht⟩, hin⟩ := h
    refine ⟨hm, ⟨r, hr, hid, hd, ht⟩, ?_⟩
    rw [hid] at hin
    exact hin.imp_right (mem_childIds hm).mp
  · rintro ⟨-, ⟨r, hr, hid, hd, ht⟩, hin⟩
    refine ⟨r, hr, ?_⟩
    simp only [Bool.and_eq_true, Bool.or_eq_true, decide_eq_true_eq, ne_eq]
    rw [hid]
    exact ⟨⟨⟨rfl, hd⟩, ht⟩, hin.imp_right (mem_childIds hm).mpr⟩

/-- The verdict looks at a manifest exactly when it ranks among the first fifty. -/
theorem mem_manifestsNamingBlob {m : DockerManifest} :
    m ∈ manifestsNamingBlob db repo digest ↔
      NamesBlob db repo digest m ∧ servedSooner db repo digest m < verdictManifests := by
  have hn : (db.manifests.rows.filter fun m => NamesBlob db repo digest m).Nodup :=
    (List.Nodup.of_map _ db.manifests.nodup).filter _
  have hanti : ∀ a ∈ db.manifests.rows.filter (fun m => NamesBlob db repo digest m),
      ∀ b ∈ db.manifests.rows.filter (fun m => NamesBlob db repo digest m),
        a.servedAfter b → b.servedAfter a → a = b := fun a ha b hb hab hba =>
    Table.eq_of_key (List.mem_filter.mp ha).1 (List.mem_filter.mp hb).1
      (servedAfter_antisymm hab hba)
  unfold manifestsNamingBlob servedSooner
  rw [namingManifests_eq]
  constructor
  · intro h
    have hmem := (List.mem_insertionSort _).mp (List.mem_of_mem_take h)
    exact ⟨of_decide_eq_true (List.mem_filter.mp hmem).2,
      (mem_take_insertionSort hn hanti hmem _).mp h⟩
  · rintro ⟨hnames, hlt⟩
    exact (mem_take_insertionSort hn hanti
      (List.mem_filter.mpr ⟨hnames.1, decide_eq_true hnames⟩) _).mpr hlt

/-- A naming manifest fills the query: its result is empty only when there is none. -/
theorem manifestsNamingBlob_eq_nil :
    manifestsNamingBlob db repo digest = [] ↔ ∀ m, ¬ NamesBlob db repo digest m := by
  unfold manifestsNamingBlob
  rw [List.take_eq_nil_iff, namingManifests_eq]
  constructor
  · rintro (h | h) m hm
    · cases h
    · have hmem : m ∈ (db.manifests.rows.filter fun m => NamesBlob db repo digest m).insertionSort
          DockerManifest.servedAfter :=
        (List.mem_insertionSort _).mpr (List.mem_filter.mpr ⟨hm.1, decide_eq_true hm⟩)
      rw [h] at hmem
      cases hmem
  · intro h
    refine .inr (List.eq_nil_iff_forall_not_mem.mpr fun m hm => h m ?_)
    exact of_decide_eq_true (List.mem_filter.mp ((List.mem_insertionSort _).mp hm)).2

/-! ## The loop -/

/-- With a refusal in hand the loop allows exactly when a manifest left is allowed. -/
theorem firstAllowed_some {verdict : DockerManifest → ImageVerdict} {refusal : ImageVerdict}
    (hr : refusal.allowed = false) (ms : List DockerManifest) :
    (firstAllowed verdict ms (some refusal)).allowed = true ↔
      ∃ m ∈ ms, (verdict m).allowed = true := by
  induction ms with
  | nil => simp [firstAllowed, hr]
  | cons m ms ih =>
    unfold firstAllowed
    split
    · next h => exact iff_of_true h ⟨m, List.mem_cons_self, h⟩
    · next h =>
      rw [show (some refusal <|> some (verdict m)) = some refusal from rfl, ih]
      exact ⟨fun ⟨m', hm', h'⟩ => ⟨m', List.mem_cons_of_mem _ hm', h'⟩,
        fun ⟨m', hm', h'⟩ => (List.mem_cons.mp hm').elim (fun e => absurd (e ▸ h') h)
          fun hm' => ⟨m', hm', h'⟩⟩

theorem firstAllowed_none {verdict : DockerManifest → ImageVerdict} (ms : List DockerManifest) :
    (firstAllowed verdict ms none).allowed = true ↔
      ms = [] ∨ ∃ m ∈ ms, (verdict m).allowed = true := by
  cases ms with
  | nil => exact iff_of_true rfl (.inl rfl)
  | cons m ms =>
    unfold firstAllowed
    split
    · next h => exact iff_of_true h (.inr ⟨m, List.mem_cons_self, h⟩)
    · next h =>
      rw [show (none <|> some (verdict m)) = some (verdict m) from rfl,
        firstAllowed_some (Bool.eq_false_iff.mpr h)]
      simp [h]

/-- What the verdict says, in terms of the manifests it looks at. -/
theorem blobPullVerdict_allowed :
    (blobPullVerdict db repo digest policy).allowed = true ↔
      repo.quarantined = false ∧
        ((∀ m, ¬ NamesBlob db repo digest m) ∨
          ∃ m, NamesBlob db repo digest m ∧
            servedSooner db repo digest m < verdictManifests ∧
            (evaluatePull db repo m policy).allowed = true) := by
  unfold blobPullVerdict
  split
  · next h => simp [refuse, h]
  · next h =>
    rw [firstAllowed_none, manifestsNamingBlob_eq_nil]
    simp only [mem_manifestsNamingBlob, and_assoc, h, true_and]

/-- A refused image's blob is never served for that image: what the verdict
allows has an allowed manifest, or none at all. -/
theorem blobPullVerdict_sound (h : (blobPullVerdict db repo digest policy).allowed = true) :
    repo.quarantined = false ∧
      ((∀ m, ¬ NamesBlob db repo digest m) ∨
        ∃ m, NamesBlob db repo digest m ∧ (evaluatePull db repo m policy).allowed = true) := by
  obtain ⟨hq, h⟩ := blobPullVerdict_allowed.mp h
  exact ⟨hq, h.imp_right fun ⟨m, hm, _, ha⟩ => ⟨m, hm, ha⟩⟩

end

/-- **When the verdict on a blob is that of its images**: the repository is
quarantined, or no manifest naming the blob is allowed, or an allowed one has
fewer than fifty more recently served ones before it. -/
theorem blobVerdictCorrect_iff (db : Db) (repo : DockerRepository) (digest : Digest)
    (policy : ImagePolicy) :
    BlobVerdictCorrect db repo digest policy ↔
      repo.quarantined = true ∨
        (∀ m, NamesBlob db repo digest m → (evaluatePull db repo m policy).allowed = false) ∨
        ∃ m, NamesBlob db repo digest m ∧ (evaluatePull db repo m policy).allowed = true ∧
          servedSooner db repo digest m < verdictManifests := by
  unfold BlobVerdictCorrect
  constructor
  · intro hc
    by_cases hq : repo.quarantined = true
    · exact .inl hq
    · refine .inr ?_
      by_cases hex : ∃ m, NamesBlob db repo digest m ∧ (evaluatePull db repo m policy).allowed = true
      · -- an image is allowed, so the claim gives the code's verdict
        have hcode := hc.mpr ⟨Bool.eq_false_iff.mpr hq, .inr hex⟩
        obtain ⟨-, hnone | ⟨m, hm, hlt, ha⟩⟩ := blobPullVerdict_allowed.mp hcode
        · obtain ⟨m, hm, -⟩ := hex
          exact absurd hm (hnone m)
        · exact .inr ⟨m, hm, ha, hlt⟩
      · exact .inl fun m hm => Bool.eq_false_iff.mpr fun ha => hex ⟨m, hm, ha⟩
  · intro h
    refine ⟨blobPullVerdict_sound, ?_⟩
    rintro ⟨hq, hall⟩
    refine blobPullVerdict_allowed.mpr ⟨hq, ?_⟩
    rcases hall with hnone | ⟨m, hm, ha⟩
    · exact .inl hnone
    · rcases h with hq' | href | ⟨m', hm', ha', hlt⟩
      · rw [hq] at hq'
        cases hq'
      · have := href m hm
        rw [ha] at this
        cases this
      · exact .inr ⟨m', hm', hlt, ha'⟩

/-! ## A base layer of fifty-one images -/

/-- Row `i` of a repository of images on one base layer: the oldest is scanned
and clean, the later ones wait for their scan. -/
def baseImage (i : Nat) : DockerManifest :=
  { id := i, digest := "sha256:image" ++ toString i
    scanStatus := if i = 0 then .scanned else .unscanned
    lastAccessedAt := some (Int.ofNat i) }

def baseRepo : DockerRepository := { id := 1, name := "corp/app" }

def baseDb : Db :=
  { repositories := { rows := [baseRepo] }
    manifests :=
      { rows := (List.range 51).map baseImage
        nodup := by
          rw [List.map_map, show DockerManifest.id ∘ baseImage = id from rfl, List.map_id]
          exact List.nodup_range }
    refs := (List.range 51).map fun i =>
      { manifestId := i, refType := .blob, digest := "sha256:base", position := 1 }
    repoManifests := (List.range 51).map fun i => { repositoryId := 1, manifestId := i } }

/-- The scanned image is allowed, its base layer is not. -/
theorem baseLayer_refused : ¬ BlobVerdictCorrect baseDb baseRepo "sha256:base"
    { strictMode := true } := by
  have hcode : (blobPullVerdict baseDb baseRepo "sha256:base" { strictMode := true }).allowed =
      false := by decide +kernel
  have himage : NamesBlob baseDb baseRepo "sha256:base" (baseImage 0) ∧
      (evaluatePull baseDb baseRepo (baseImage 0) { strictMode := true }).allowed = true := by
    decide +kernel
  intro hc
  have := hc.mpr ⟨rfl, .inr ⟨_, himage⟩⟩
  rw [hcode] at this
  cases this

end Minireg.Docker
