import Minireg.Docker.Housekeeping
import Minireg.Docker.Isolation

/-!
# What collection may delete

Manifests, layers, SBOMs and scan reports share one store, where a file is known
by its digest. `Live` says that a row still names a digest, `Keeps` that a step
deletes no file of such a digest. `cleanup_keeps_iff`: for each operation that
deletes rows or files, the coincidences of digests under which it does, exactly.
-/

namespace Minireg.Docker

open Py Lib

/-! ## Live digests -/

section Live

variable (db : Db) (keep : DockerManifest → Prop)

/-- The digest of a linked manifest, or named as a child by a manifest that is reached so. -/
inductive Reaches : Digest → Prop where
  | linked {l : DockerRepoManifest} {m : DockerManifest} : l ∈ db.repoManifests →
      m ∈ db.manifests → keep m → m.id = l.manifestId → Reaches m.digest
  | child {m : DockerManifest} {r : DockerManifestRef} : m ∈ db.manifests → keep m →
      Reaches m.digest → r ∈ db.refs → r.manifestId = m.id → r.refType = .manifest →
      Reaches r.digest

def NamedAsBlob (d : Digest) : Prop :=
  ∃ m ∈ db.manifests, keep m ∧
    ∃ r ∈ db.refs, r.manifestId = m.id ∧ r.refType ≠ .manifest ∧ r.digest = d

def HeldAsBlob (d : Digest) : Prop := ∃ b ∈ db.repoBlobs, b.digest = d

/-- The digest is the SBOM or a scan report of a manifest. -/
def Describes (d : Digest) : Prop :=
  ∃ m ∈ db.manifests, keep m ∧ (m.sbomDigest = some d ∨
    ∃ s ∈ db.scans, s.manifestId = m.id ∧ s.reportDigest = some d)

/-- A row names the digest as content that is served. -/
def Served (d : Digest) : Prop :=
  Reaches db keep d ∨ NamedAsBlob db keep d ∨ HeldAsBlob db d

/-- A row names the digest; `keep` says which manifests count. -/
def Live (d : Digest) : Prop := Served db keep d ∨ Describes db keep d

end Live

/-- Every file that a row still names stays. -/
def Keeps (db db' : Db) : Prop :=
  ∀ d ∈ db.files, Live db' (fun _ => True) d → d ∈ db'.files

/-! ## Comparing two states -/

section Within

variable {db db' : Db} {keep keep' : DockerManifest → Prop} {d : Digest}

/-- The manifests that count here count there, with what they name, as do links and held blobs. -/
structure Within (db db' : Db) (keep keep' : DockerManifest → Prop) : Prop where
  rows : ∀ m ∈ db.manifests, keep m →
    ∃ m' ∈ db'.manifests, keep' m' ∧ m'.id = m.id ∧ m'.digest = m.digest
  refs : ∀ m ∈ db.manifests, keep m → ∀ r ∈ db.refs, r.manifestId = m.id → r ∈ db'.refs
  links : ∀ l ∈ db.repoManifests, l ∈ db'.repoManifests
  blobs : ∀ b ∈ db.repoBlobs, b ∈ db'.repoBlobs

theorem Within.of_tables (hm : db'.manifests = db.manifests) (hr : db'.refs = db.refs)
    (hl : db'.repoManifests = db.repoManifests) (hb : db'.repoBlobs = db.repoBlobs) :
    Within db db' (fun _ => True) fun _ => True where
  rows m hm' _ := ⟨m, hm ▸ hm', trivial, rfl, rfl⟩
  refs _ _ _ _ hr' _ := hr ▸ hr'
  links _ hl' := hl ▸ hl'
  blobs _ hb' := hb ▸ hb'

theorem Reaches.within (hw : Within db db' keep keep') (h : Reaches db keep d) :
    Reaches db' keep' d := by
  induction h with
  | linked hl hm hk hid =>
    obtain ⟨m', hm', hk', hid', hd'⟩ := hw.rows _ hm hk
    rw [← hd']
    exact .linked (hw.links _ hl) hm' hk' (hid'.trans hid)
  | child hm hk _ hr hrid hty ih =>
    obtain ⟨m', hm', hk', hid', hd'⟩ := hw.rows _ hm hk
    rw [← hd'] at ih
    exact .child hm' hk' ih (hw.refs _ hm hk _ hr hrid) (hrid.trans hid'.symm) hty

theorem Served.within (hw : Within db db' keep keep') (h : Served db keep d) :
    Served db' keep' d := by
  rcases h with h | ⟨m, hm, hk, r, hr, hid, hrest⟩ | ⟨b, hb, hd⟩
  · exact .inl (h.within hw)
  · obtain ⟨m', hm', hk', hid', -⟩ := hw.rows m hm hk
    exact .inr (.inl ⟨m', hm', hk', r, hw.refs m hm hk r hr hid, hid.trans hid'.symm, hrest⟩)
  · exact .inr (.inr ⟨b, hw.blobs b hb, hd⟩)

theorem served_congr (hw : Within db db' keep keep') (hw' : Within db' db keep' keep) :
    Served db' keep' d ↔ Served db keep d := ⟨.within hw', .within hw⟩

theorem served_of_tables (hm : db'.manifests = db.manifests) (hr : db'.refs = db.refs)
    (hl : db'.repoManifests = db.repoManifests) (hb : db'.repoBlobs = db.repoBlobs) :
    Served db' (fun _ => True) d ↔ Served db (fun _ => True) d :=
  served_congr (.of_tables hm hr hl hb) (.of_tables hm.symm hr.symm hl.symm hb.symm)

end Within

/-! ## The collector -/

section Gc

variable {now : Time} {db : Db} {d : Digest}

/-- The manifests that the collector leaves. -/
def Alive (now : Time) (db : Db) (m : DockerManifest) : Prop := isDead now db m = false

/-- Rows that belong to a manifest that stays are kept. -/
theorem kept_of_alive {m : DockerManifest} (hm : m ∈ db.manifests) (halive : Alive now db m) :
    (!(db.manifests.rows.filter (isDead now db)).any fun n => n.id = m.id) = true := by
  rw [Bool.not_eq_true', List.any_eq_false]
  intro n hn
  obtain ⟨hn, hdead⟩ := List.mem_filter.mp hn
  rw [decide_eq_true_eq]
  intro hid
  rw [Table.eq_of_key hn hm hid] at hdead
  exact Bool.false_ne_true (halive.symm.trans hdead)

theorem mem_gc_manifests {m : DockerManifest} :
    m ∈ (gc now db).1.manifests ↔ m ∈ db.manifests ∧ Alive now db m := by
  refine Table.mem_filter.trans (and_congr_right fun _ => ?_)
  exact Bool.not_eq_true' _ ▸ Iff.rfl

theorem gc_within :
    Within (gc now db).1 db (fun _ => True) (Alive now db) ∧
      Within db (gc now db).1 (Alive now db) (fun _ => True) := by
  constructor
  · exact
      { rows := fun m hm _ => ⟨m, (mem_gc_manifests.mp hm).1, (mem_gc_manifests.mp hm).2, rfl, rfl⟩
        refs := fun _ _ _ r hr _ => (List.mem_filter.mp hr).1
        links := fun _ hl => hl
        blobs := fun _ hb => hb }
  · exact
      { rows := fun m hm ha => ⟨m, mem_gc_manifests.mpr ⟨hm, ha⟩, trivial, rfl, rfl⟩
        refs := fun m hm ha r hr hid =>
          List.mem_filter.mpr ⟨hr, by rw [hid]; exact kept_of_alive hm ha⟩
        links := fun _ hl => hl
        blobs := fun _ hb => hb }

theorem gc_describes : Describes (gc now db).1 (fun _ => True) d ↔
    Describes db (Alive now db) d := by
  constructor
  · rintro ⟨m, hm, -, hrest⟩
    obtain ⟨hm, ha⟩ := mem_gc_manifests.mp hm
    exact ⟨m, hm, ha, hrest.imp_right fun ⟨s, hs, hrest⟩ => ⟨s, (Table.mem_filter.mp hs).1, hrest⟩⟩
  · rintro ⟨m, hm, ha, hrest⟩
    refine ⟨m, mem_gc_manifests.mpr ⟨hm, ha⟩, trivial, hrest.imp_right ?_⟩
    rintro ⟨s, hs, hid, hreport⟩
    exact ⟨s, Table.mem_filter.mpr ⟨hs, by rw [hid]; exact kept_of_alive hm ha⟩, hid, hreport⟩

/-- What is left of the live digests after a collection. -/
theorem gc_live : Live (gc now db).1 (fun _ => True) d ↔ Live db (Alive now db) d :=
  or_congr (served_congr gc_within.2 gc_within.1) gc_describes

/-- A blob over an hour old that no repository holds and only dead manifests name. -/
def Orphaned (now : Time) (db : Db) (b : DockerBlob) : Prop :=
  b.createdAt < now - hour ∧ ¬ HeldAsBlob db b.digest ∧
    ∀ r ∈ db.refs, r.digest = b.digest → r.refType ≠ .manifest →
      ∃ m ∈ db.manifests, m.id = r.manifestId ∧ isDead now db m = true

theorem isOrphan_iff {b : DockerBlob} :
    isOrphan now (collectManifests now db) b = true ↔ Orphaned now db b := by
  have hrefs : ((collectManifests now db).refs.any
      fun r => r.digest = b.digest && r.refType ≠ .manifest) = false ↔
      ∀ r ∈ db.refs, r.digest = b.digest → r.refType ≠ .manifest →
        ∃ m ∈ db.manifests, m.id = r.manifestId ∧ isDead now db m = true := by
    rw [List.any_eq_false]
    constructor
    · intro h r hr hd hty
      by_contra hno
      refine h r (List.mem_filter.mpr ⟨hr, ?_⟩) (by simp [hd, hty])
      rw [Bool.not_eq_true', List.any_eq_false]
      intro m hm hid
      obtain ⟨hm, hdead⟩ := List.mem_filter.mp hm
      exact hno ⟨m, hm, of_decide_eq_true hid, hdead⟩
    · intro h r hr hp
      obtain ⟨hr, hkept⟩ := List.mem_filter.mp hr
      simp only [Bool.and_eq_true, decide_eq_true_eq] at hp
      obtain ⟨m, hm, hid, hdead⟩ := h r hr hp.1 hp.2
      rw [Bool.not_eq_true', List.any_eq_false] at hkept
      exact hkept m (List.mem_filter.mpr ⟨hm, hdead⟩) (decide_eq_true hid)
  have hheld : ((collectManifests now db).repoBlobs.any fun r => r.digest = b.digest) = false ↔
      ¬ HeldAsBlob db b.digest := by
    rw [List.any_eq_false]
    constructor
    · rintro h ⟨row, hrow, hd⟩
      exact h row hrow (decide_eq_true hd)
    · intro h row hrow hd
      exact h ⟨row, hrow, of_decide_eq_true hd⟩
  unfold isOrphan Orphaned
  rw [Bool.and_eq_true, Bool.and_eq_true, Bool.not_eq_true', Bool.not_eq_true', decide_eq_true_eq,
    hrefs, hheld]
  tauto

theorem mem_gc_files : d ∈ (gc now db).1.files ↔ d ∈ db.files ∧
    (∀ m ∈ db.manifests, isDead now db m = true → d ∉ manifestFiles db m) ∧
    ∀ b ∈ db.blobs, b.digest = d → ¬ Orphaned now db b := by
  have hfirst : d ∈ (collectManifests now db).files ↔ d ∈ db.files ∧
      ∀ m ∈ db.manifests, isDead now db m = true → d ∉ manifestFiles db m := by
    refine List.mem_filter.trans (and_congr_right fun _ => ?_)
    rw [decide_eq_true_eq, List.mem_flatMap]
    constructor
    · exact fun h m hm hdead hd => h ⟨m, List.mem_filter.mpr ⟨hm, hdead⟩, hd⟩
    · rintro h ⟨m, hm, hd⟩
      exact h m (List.mem_filter.mp hm).1 (List.mem_filter.mp hm).2 hd
  have hsecond : d ∈ (gc now db).1.files ↔ d ∈ (collectManifests now db).files ∧
      ∀ b ∈ db.blobs, b.digest = d → ¬ Orphaned now db b := by
    refine List.mem_filter.trans (and_congr_right fun _ => ?_)
    rw [Bool.not_eq_true', List.any_eq_false]
    refine forall₂_congr fun b _ => ?_
    rw [Bool.and_eq_true, decide_eq_true_eq, isOrphan_iff, not_and]
  rw [hsecond, hfirst, and_assoc]

/-- No digest of a dead manifest, its SBOM or its reports is named by a row that
stays; no orphaned blob is a manifest, an SBOM or a report that stays. -/
structure GcClear (now : Time) (db : Db) : Prop where
  manifests : ∀ m ∈ db.manifests, isDead now db m = true → ∀ d ∈ manifestFiles db m,
    d ∈ db.files → ¬ Live db (Alive now db) d
  blobs : ∀ b ∈ db.blobs, Orphaned now db b → b.digest ∈ db.files →
    ¬ Reaches db (Alive now db) b.digest ∧ ¬ Describes db (Alive now db) b.digest

theorem gc_keeps_iff : Keeps db (gc now db).1 ↔ GcClear now db := by
  constructor
  · intro h
    constructor
    · intro m hm hdead d hd hfile hlive
      exact (mem_gc_files.mp (h d hfile (gc_live.mpr hlive))).2.1 m hm hdead hd
    · intro b hb horphan hfile
      have hnot : ¬ Live db (Alive now db) b.digest := fun hlive =>
        (mem_gc_files.mp (h b.digest hfile (gc_live.mpr hlive))).2.2 b hb rfl horphan
      exact ⟨fun hr => hnot (.inl (.inl hr)), fun hd => hnot (.inr hd)⟩
  · intro h d hfile hlive
    have hlive := gc_live.mp hlive
    refine mem_gc_files.mpr ⟨hfile, fun m hm hdead hd => h.manifests m hm hdead d hd hfile hlive, ?_⟩
    rintro b hb rfl horphan
    obtain ⟨hreach, hdescribes⟩ := h.blobs b hb horphan hfile
    rcases hlive with (hr | ⟨m, hm, ha, r, hr, hid, hty, hd⟩ | hheld) | hd
    · exact hreach hr
    · -- a manifest that stays does not name an orphaned blob
      obtain ⟨n, hn, hnid, hdead⟩ := horphan.2.2 r hr hd hty
      rw [Table.eq_of_key hn hm (hnid.trans hid)] at hdead
      exact Bool.false_ne_true (ha.symm.trans hdead)
    · exact horphan.2.1 hheld
    · exact hdescribes hd

end Gc

/-! ## The orphan sweep -/

section Sweep

variable {stat : Digest → FileStat} {now : Time} {db : Db} {d e : Digest}

/-- The tables know nothing of the file, and no manifest has it as a layer or config. -/
def Unknown (db : Db) (d : Digest) : Prop :=
  known db d = false ∧ named db d = none ∧ heldByPush db d = false

/-- The sweep deletes one file if it is unknown. -/
theorem sweepFile_files : e ∈ (sweepFile stat now db d).files ↔
    e ∈ db.files ∧ ¬ (e = d ∧ Unknown db d) := by
  unfold sweepFile
  rcases hk : known db d with _ | _
  · rw [if_neg (by simp)]
    by_cases hn : ((named db d).isSome || heldByPush db d) = true
    · rw [if_pos hn]
      refine ⟨fun he => ⟨he, ?_⟩, And.left⟩
      rintro ⟨-, -, hnone, hheld⟩
      rw [hnone, hheld] at hn
      cases hn
    · rw [if_neg hn]
      have hunknown : Unknown db d := by
        simp only [Bool.or_eq_true, Option.isSome_iff_ne_none, not_or, not_not,
          Bool.not_eq_true] at hn
        exact ⟨hk, hn⟩
      refine List.mem_filter.trans (and_congr_right fun _ => ?_)
      rw [decide_eq_true_eq]
      exact ⟨fun hne h => hne h.1, fun h heq => h ⟨heq, hunknown⟩⟩
  · rw [if_pos rfl]
    refine ⟨fun he => ⟨he, ?_⟩, And.left⟩
    rintro ⟨-, hunk, -⟩
    rw [hk] at hunk
    cases hunk

/-- The sweep of one file changes, apart from that file, at most its blob row. -/
theorem sweepFile_tables (stat : Digest → FileStat) (now : Time) (db : Db) (d : Digest) :
    (sweepFile stat now db d).manifests = db.manifests ∧
    (sweepFile stat now db d).refs = db.refs ∧
    (sweepFile stat now db d).repoManifests = db.repoManifests ∧
    (sweepFile stat now db d).repoBlobs = db.repoBlobs ∧
    (sweepFile stat now db d).scans = db.scans := by
  unfold sweepFile
  split
  · exact ⟨rfl, rfl, rfl, rfl, rfl⟩
  · split <;> exact ⟨rfl, rfl, rfl, rfl, rfl⟩

/-- Whether a file is unknown does not depend on the files swept before it. -/
theorem unknown_sweepFile : Unknown (sweepFile stat now db d) e ↔ Unknown db e := by
  obtain ⟨hm, hr, -, hb, hs⟩ := sweepFile_tables stat now db d
  have hnamed : named (sweepFile stat now db d) e = named db e := by
    unfold named
    rw [hm, hr]
  have hheld : heldByPush (sweepFile stat now db d) e = heldByPush db e := by
    unfold heldByPush
    rw [hb]
  unfold Unknown
  rw [hnamed, hheld]
  refine and_congr_left fun ⟨hnone, hnot⟩ => ?_
  have hblobs : (sweepFile stat now db d).blobs.rows.any (fun b => b.digest = e) =
      db.blobs.rows.any fun b => b.digest = e := by
    unfold sweepFile
    split
    · rfl
    · split
      · -- an adopted file is named or held, so it is not this one
        next hadopt =>
        have hne : e ≠ d := by
          rintro rfl
          rw [hnone, hnot] at hadopt
          cases hadopt
        rw [Bool.eq_iff_iff, List.any_eq_true, List.any_eq_true]
        constructor
        · rintro ⟨b, hb, hd⟩
          rcases Table.mem_put.mp hb with rfl | ⟨hb, -⟩
          · exact absurd (of_decide_eq_true hd).symm hne
          · exact ⟨b, hb, hd⟩
        · rintro ⟨b, hb, hd⟩
          refine ⟨b, Table.mem_put.mpr (.inr ⟨hb, fun hbd => hne ?_⟩), hd⟩
          exact (of_decide_eq_true hd).symm.trans hbd
      · rfl
  unfold known
  rw [hm, hs, hblobs]

theorem sweep_files (ds : List Digest) (db : Db) (e : Digest) :
    e ∈ (ds.foldl (sweepFile stat now) db).files ↔ e ∈ db.files ∧ ¬ (e ∈ ds ∧ Unknown db e) := by
  induction ds generalizing db with
  | nil => simp
  | cons d ds ih =>
    rw [List.foldl_cons, ih, sweepFile_files, unknown_sweepFile, List.mem_cons, and_assoc]
    refine and_congr_right fun _ => ?_
    constructor
    · rintro ⟨h₁, h₂⟩ ⟨rfl | hmem, hunk⟩
      · exact h₁ ⟨rfl, hunk⟩
      · exact h₂ ⟨hmem, hunk⟩
    · intro h
      refine ⟨?_, fun ⟨hmem, hunk⟩ => h ⟨.inr hmem, hunk⟩⟩
      rintro ⟨rfl, hunk⟩
      exact h ⟨.inl rfl, hunk⟩

theorem sweep_tables (stat : Digest → FileStat) (now : Time) (ds : List Digest) (db : Db) :
    (ds.foldl (sweepFile stat now) db).manifests = db.manifests ∧
      (ds.foldl (sweepFile stat now) db).refs = db.refs ∧
      (ds.foldl (sweepFile stat now) db).repoManifests = db.repoManifests ∧
      (ds.foldl (sweepFile stat now) db).repoBlobs = db.repoBlobs ∧
      (ds.foldl (sweepFile stat now) db).scans = db.scans := by
  induction ds generalizing db with
  | nil => exact ⟨rfl, rfl, rfl, rfl, rfl⟩
  | cons d ds ih =>
    obtain ⟨h₁, h₂, h₃, h₄, h₅⟩ := ih (sweepFile stat now db d)
    obtain ⟨g₁, g₂, g₃, g₄, g₅⟩ := sweepFile_tables stat now db d
    exact ⟨h₁.trans g₁, h₂.trans g₂, h₃.trans g₃, h₄.trans g₄, h₅.trans g₅⟩

/-- What names an unknown file can only be an index. -/
theorem unknown_live (hunk : Unknown db d) :
    Live db (fun _ => True) d ↔ Reaches db (fun _ => True) d := by
  obtain ⟨hknown, hnamed, hheld⟩ := hunk
  unfold known at hknown
  simp only [Bool.or_eq_false_iff, List.any_eq_false, decide_eq_true_eq, Bool.or_eq_true,
    not_or] at hknown
  obtain ⟨⟨-, hrows⟩, hscans⟩ := hknown
  constructor
  · rintro ((hr | ⟨m, hm, -, r, hr, hid, hty, hd⟩ | ⟨b, hb, hd⟩) | ⟨m, hm, -, hsbom | ⟨s, hs, -, hrep⟩⟩)
    · exact hr
    · have hin : (r.mediaType, m.upstreamId) ∈ db.refs.filterMap fun r =>
          if r.digest = d && r.refType ≠ .manifest then
            (db.manifests.find? r.manifestId).map fun m => (r.mediaType, m.upstreamId)
          else none := by
        refine List.mem_filterMap.mpr ⟨r, hr, ?_⟩
        rw [if_pos (by simp [hd, hty]), hid, Table.find?_of_mem hm]
        rfl
      unfold named at hnamed
      rw [List.getLast?_eq_none_iff] at hnamed
      rw [hnamed] at hin
      cases hin
    · unfold heldByPush at hheld
      exact absurd (decide_eq_true hd) (List.any_eq_false.mp hheld b hb)
    · exact absurd hsbom (hrows m hm).2
    · exact absurd hrep (hscans s hs)
  · exact fun h => .inl (.inl h)

/-- No old file that no table knows is named by an index that is reached. -/
def SweepClear (stat : Digest → FileStat) (now : Time) (db : Db) : Prop :=
  ∀ d ∈ storedFiles stat (now - 6 * hour) db, Unknown db d → ¬ Reaches db (fun _ => True) d

theorem orphanFiles_keeps_iff :
    Keeps db (orphanFiles stat now db) ↔ SweepClear stat now db := by
  obtain ⟨hm, hr, hl, hb, hs⟩ :=
    sweep_tables stat now (storedFiles stat (now - 6 * hour) db) db
  have hlive : ∀ d, Live (orphanFiles stat now db) (fun _ => True) d ↔
      Live db (fun _ => True) d := by
    intro d
    refine or_congr (served_of_tables hm hr hl hb) ?_
    unfold Describes orphanFiles
    rw [hm, hs]
  constructor
  · intro h d hd hunk hreach
    have hfile : d ∈ db.files := (List.mem_filter.mp hd).1
    have hkept := h d hfile ((hlive d).mpr ((unknown_live hunk).mpr hreach))
    exact ((sweep_files _ db d).mp hkept).2 ⟨hd, hunk⟩
  · intro h d hfile hd
    refine (sweep_files _ db d).mpr ⟨hfile, fun ⟨hin, hunk⟩ => h d hin hunk ?_⟩
    exact (unknown_live hunk).mp ((hlive d).mp hd)

end Sweep

/-! ## Replaced reports and SBOMs -/

section Release

variable {db : Db} {d e : Digest}

theorem mem_releaseFile (db : Db) (d e : Digest) : e ∈ (releaseFile d db).files ↔ e ∈ db.files ∧
    ¬ (e = d ∧ db.scans.rows.countP (fun s => s.reportDigest = some d) +
      db.manifests.rows.countP (fun m => m.sbomDigest = some d) ≤ 1) := by
  unfold releaseFile
  dsimp only
  split
  · next hle =>
    refine List.mem_filter.trans (and_congr_right fun _ => ?_)
    rw [decide_eq_true_eq]
    exact ⟨fun hne h => hne h.1, fun h heq => h ⟨heq, hle⟩⟩
  · next hle => exact ⟨fun h => ⟨h, fun h' => hle h'.2⟩, And.left⟩

theorem releaseFile_tables (db : Db) (d : Digest) :
    (releaseFile d db).manifests = db.manifests ∧
    (releaseFile d db).refs = db.refs ∧ (releaseFile d db).repoManifests = db.repoManifests ∧
    (releaseFile d db).repoBlobs = db.repoBlobs ∧ (releaseFile d db).scans = db.scans := by
  unfold releaseFile
  dsimp only
  split <;> exact ⟨rfl, rfl, rfl, rfl, rfl⟩

/-- One report let go of. -/
def letGo (db : Db) (old : DockerScan) : Db :=
  match old.reportDigest with
  | some digest => if digest ≠ "" then clearReport old.id (releaseFile digest db) else db
  | none => db

theorem letGo_tables (db : Db) (old : DockerScan) : (letGo db old).manifests = db.manifests ∧
    (letGo db old).refs = db.refs ∧ (letGo db old).repoManifests = db.repoManifests ∧
    (letGo db old).repoBlobs = db.repoBlobs := by
  unfold letGo
  split
  · split
    · obtain ⟨h₁, h₂, h₃, h₄, -⟩ := releaseFile_tables db _
      exact ⟨h₁, h₂, h₃, h₄⟩
    · exact ⟨rfl, rfl, rfl, rfl⟩
  · exact ⟨rfl, rfl, rfl, rfl⟩

theorem letGo_other {old s : DockerScan} (hs : s ∈ db.scans) (hid : s.id ≠ old.id) :
    s ∈ (letGo db old).scans := by
  unfold letGo
  split
  · split
    · unfold clearReport
      dsimp only
      rw [(releaseFile_tables db _).2.2.2.2]
      exact Table.mem_modify_of_fixed hs (if_neg hid)
    · exact hs
  · exact hs

/-- What a scan that is let go of leaves of the reports. -/
theorem letGo_scan {old s : DockerScan} (hin : old ∈ db.scans) (he : e ≠ "") :
    s ∈ (letGo db old).scans ∧ s.reportDigest = some e ↔
      s ∈ db.scans ∧ s.reportDigest = some e ∧ s ≠ old := by
  unfold letGo
  rcases hd : old.reportDigest with _ | d
  · refine and_congr_right fun _ => ⟨fun h => ⟨h, ?_⟩, And.left⟩
    rintro rfl
    rw [hd] at h
    cases h
  · dsimp only
    by_cases hne : d ≠ ""
    · rw [if_pos hne]
      unfold clearReport
      dsimp only
      rw [(releaseFile_tables db d).2.2.2.2]
      constructor
      · rintro ⟨hs, hrep⟩
        obtain ⟨b, hb, rfl⟩ := Table.mem_modify.mp hs
        by_cases hid : b.id = old.id
        · rw [if_pos hid] at hrep
          cases hrep
        · rw [if_neg hid] at hrep ⊢
          exact ⟨hb, hrep, fun h => hid (congrArg DockerScan.id h)⟩
      · rintro ⟨hs, hrep, hold⟩
        refine ⟨Table.mem_modify_of_fixed hs (if_neg fun hid => hold ?_), hrep⟩
        exact Table.eq_of_key hs hin hid
    · rw [if_neg hne]
      refine and_congr_right fun _ => ⟨fun h => ⟨h, ?_⟩, And.left⟩
      rintro rfl
      rw [hd] at h
      exact he ((Option.some.inj h).symm.trans (not_not.mp hne))

/-- The digest is a report of scans that are let go of, and of nothing else. -/
def LastReport (db : Db) (olds : List DockerScan) (e : Digest) : Prop :=
  e ≠ "" ∧ (∃ o ∈ olds, o.reportDigest = some e) ∧
    (∀ s ∈ db.scans, s.reportDigest = some e → s ∈ olds) ∧
    ∀ m ∈ db.manifests, m.sbomDigest ≠ some e

theorem letGo_files {old : DockerScan} (hin : old ∈ db.scans) :
    e ∈ (letGo db old).files ↔ e ∈ db.files ∧ ¬ LastReport db [old] e := by
  have hlast : old.reportDigest = some e → e ≠ "" →
      (db.scans.rows.countP (fun s => s.reportDigest = some e) +
        db.manifests.rows.countP (fun m => m.sbomDigest = some e) ≤ 1 ↔ LastReport db [old] e) := by
    intro hd he
    have hone := Table.countP_le_one_iff (p := fun s => s.reportDigest = some e) hin
      (decide_eq_true hd)
    have hpos : 0 < db.scans.rows.countP fun s => s.reportDigest = some e :=
      List.countP_pos_iff.mpr ⟨old, hin, decide_eq_true hd⟩
    have hsum : (db.scans.rows.countP (fun s => s.reportDigest = some e) +
        db.manifests.rows.countP (fun m => m.sbomDigest = some e) ≤ 1) ↔
        db.scans.rows.countP (fun s => s.reportDigest = some e) ≤ 1 ∧
          db.manifests.rows.countP (fun m => m.sbomDigest = some e) = 0 := by
      omega
    rw [hsum, hone, List.countP_eq_zero]
    constructor
    · rintro ⟨hs, hm⟩
      exact ⟨he, ⟨old, List.mem_singleton_self _, hd⟩,
        fun s hs' hrep => List.mem_singleton.mpr (hs s hs' (decide_eq_true hrep)),
        fun m hm' hsbom => hm m hm' (decide_eq_true hsbom)⟩
    · rintro ⟨-, -, hs, hm⟩
      exact ⟨fun s hs' hrep => List.mem_singleton.mp (hs s hs' (of_decide_eq_true hrep)),
        fun m hm' hsbom => hm m hm' (of_decide_eq_true hsbom)⟩
  unfold letGo
  rcases hd : old.reportDigest with _ | d
  · refine ⟨fun h => ⟨h, ?_⟩, And.left⟩
    rintro ⟨-, ⟨o, ho, hrep⟩, -⟩
    rw [List.mem_singleton.mp ho, hd] at hrep
    cases hrep
  · dsimp only
    by_cases hne : d ≠ ""
    · rw [if_pos hne]
      refine (mem_releaseFile _ _ e).trans (and_congr_right fun _ => not_congr ?_)
      constructor
      · rintro ⟨rfl, hle⟩
        exact (hlast hd hne).mp hle
      · intro h
        obtain ⟨he, ⟨o, ho, hrep⟩, -⟩ := id h
        rw [List.mem_singleton.mp ho, hd] at hrep
        obtain rfl := Option.some.inj hrep
        exact ⟨rfl, (hlast hd he).mpr h⟩
    · rw [if_neg hne]
      refine ⟨fun h => ⟨h, ?_⟩, And.left⟩
      rintro ⟨he, ⟨o, ho, hrep⟩, -⟩
      rw [List.mem_singleton.mp ho, hd] at hrep
      exact he ((Option.some.inj hrep).symm.trans (not_not.mp hne))

/-- Letting go of reports one by one deletes the files that are nothing else. -/
theorem letGo_all {olds : List DockerScan} (hin : ∀ o ∈ olds, o ∈ db.scans)
    (hnodup : (olds.map DockerScan.id).Nodup) :
    e ∈ (olds.foldl letGo db).files ↔ e ∈ db.files ∧ ¬ LastReport db olds e := by
  induction olds generalizing db with
  | nil =>
    refine ⟨fun h => ⟨h, ?_⟩, And.left⟩
    rintro ⟨-, ⟨o, ho, -⟩, -⟩
    cases ho
  | cons old olds ih =>
    obtain ⟨hfirst, hrest⟩ := List.nodup_cons.mp hnodup
    have hold : old ∈ db.scans := hin old List.mem_cons_self
    have hne : ∀ o ∈ olds, o.id ≠ old.id := fun o ho heq =>
      hfirst (heq ▸ List.mem_map_of_mem ho)
    have hin' : ∀ o ∈ olds, o ∈ (letGo db old).scans := fun o ho =>
      letGo_other (hin o (List.mem_cons_of_mem _ ho)) (hne o ho)
    rw [List.foldl_cons, ih hin' hrest, letGo_files hold, and_assoc]
    refine and_congr_right fun _ => ?_
    have hmanifests := (letGo_tables db old).1
    rw [← not_or, not_iff_not]
    constructor
    · rintro (⟨he, ⟨o, ho, hrep⟩, hs, hm⟩ | ⟨he, ⟨o, ho, hrep⟩, hs, hm⟩)
      · obtain rfl := List.mem_singleton.mp ho
        exact ⟨he, ⟨o, List.mem_cons_self, hrep⟩, fun s hs' hr =>
          List.mem_cons.mpr (.inl (List.mem_singleton.mp (hs s hs' hr))), hm⟩
      · rw [hmanifests] at hm
        refine ⟨he, ⟨o, List.mem_cons_of_mem _ ho, hrep⟩, fun s hs' hr => ?_, hm⟩
        by_cases hso : s = old
        · exact List.mem_cons.mpr (.inl hso)
        · obtain ⟨hs'', hr'⟩ := (letGo_scan hold he).mpr ⟨hs', hr, hso⟩
          exact List.mem_cons_of_mem _ (hs s hs'' hr')
    · rintro ⟨he, ⟨o, ho, hrep⟩, hs, hm⟩
      by_cases hlater : ∃ o ∈ olds, o.reportDigest = some e
      · refine .inr ⟨he, hlater, fun s hs' hr => ?_, by rwa [hmanifests]⟩
        obtain ⟨hs'', hr', hso⟩ := (letGo_scan hold he).mp ⟨hs', hr⟩
        exact (List.mem_cons.mp (hs s hs'' hr')).resolve_left hso
      · have honly : ∀ s ∈ db.scans, s.reportDigest = some e → s = old := fun s hs' hr =>
          (List.mem_cons.mp (hs s hs' hr)).resolve_right fun hin => hlater ⟨s, hin, hr⟩
        have hoe : o = old := (List.mem_cons.mp ho).resolve_right fun hin => hlater ⟨o, hin, hrep⟩
        exact .inl ⟨he, ⟨o, List.mem_singleton.mpr hoe, hrep⟩,
          fun s hs' hr => List.mem_singleton.mpr (honly s hs' hr), hm⟩

theorem letGo_all_tables (olds : List DockerScan) (db : Db) :
    (olds.foldl letGo db).manifests = db.manifests ∧ (olds.foldl letGo db).refs = db.refs ∧
      (olds.foldl letGo db).repoManifests = db.repoManifests ∧
      (olds.foldl letGo db).repoBlobs = db.repoBlobs := by
  induction olds generalizing db with
  | nil => exact ⟨rfl, rfl, rfl, rfl⟩
  | cons old olds ih =>
    obtain ⟨h₁, h₂, h₃, h₄⟩ := ih (letGo db old)
    obtain ⟨g₁, g₂, g₃, g₄⟩ := letGo_tables db old
    exact ⟨h₁.trans g₁, h₂.trans g₂, h₃.trans g₃, h₄.trans g₄⟩

/-- The scans of a manifest whose reports are not kept. -/
def droppedScans (manifestId keep : Nat) (db : Db) : List DockerScan :=
  ((db.scans.rows.filter fun s => s.manifestId = manifestId).insertionSort
    fun a b => b.id ≤ a.id).drop keep

theorem pruneReports_eq (manifestId keep : Nat) :
    pruneReports manifestId keep db = (droppedScans manifestId keep db).foldl letGo db := rfl

theorem droppedScans_mem (db : Db) (manifestId keep : Nat) :
    (∀ o ∈ droppedScans manifestId keep db, o ∈ db.scans) ∧
      ((droppedScans manifestId keep db).map DockerScan.id).Nodup := by
  have hperm := List.perm_insertionSort (fun a b : DockerScan => b.id ≤ a.id)
    (db.scans.rows.filter fun s => s.manifestId = manifestId)
  constructor
  · intro o ho
    exact (List.mem_filter.mp (hperm.mem_iff.mp (List.mem_of_mem_drop ho))).1
  · have hsorted : (((db.scans.rows.filter fun s => s.manifestId = manifestId).insertionSort
        fun a b => b.id ≤ a.id).map DockerScan.id).Nodup :=
      (hperm.map DockerScan.id).nodup_iff.mpr
        (db.scans.nodup.sublist ((List.filter_sublist).map DockerScan.id))
    exact hsorted.sublist ((List.drop_sublist _ _).map DockerScan.id)

/-- No report that is let go of, and that nothing else is, is served content. -/
def PruneClear (manifestId keep : Nat) (db : Db) : Prop :=
  ∀ d ∈ db.files, LastReport db (droppedScans manifestId keep db) d →
    ¬ Served db (fun _ => True) d

theorem pruneReports_keeps_iff {manifestId keep : Nat} :
    Keeps db (pruneReports manifestId keep db) ↔ PruneClear manifestId keep db := by
  rw [pruneReports_eq]
  unfold PruneClear
  obtain ⟨hin, hnodup⟩ := droppedScans_mem db manifestId keep
  generalize droppedScans manifestId keep db = olds at hin hnodup ⊢
  obtain ⟨hm, hr, hl, hb⟩ := letGo_all_tables olds db
  have hserved : ∀ d, Served (olds.foldl letGo db) (fun _ => True) d ↔
      Served db (fun _ => True) d := fun d => served_of_tables hm hr hl hb
  -- a report that is left is of a scan that keeps it
  have hscans : ∀ {d : Digest}, d ≠ "" → ∀ s ∈ (olds.foldl letGo db).scans,
      s.reportDigest = some d → s ∈ db.scans ∧ s ∉ olds := by
    intro d hd
    clear hserved hm hr hl hb
    induction olds generalizing db with
    | nil => exact fun s hs _ => ⟨hs, List.not_mem_nil⟩
    | cons old olds ih =>
      intro s hs hrep
      obtain ⟨hfirst, hrest⟩ := List.nodup_cons.mp hnodup
      have hin' : ∀ o ∈ olds, o ∈ (letGo db old).scans := fun o ho =>
        letGo_other (hin o (List.mem_cons_of_mem _ ho)) fun heq =>
          hfirst (heq ▸ List.mem_map_of_mem ho)
      obtain ⟨hs, hnot⟩ := ih hin' hrest s hs hrep
      obtain ⟨hs, -, hne⟩ := (letGo_scan (hin old List.mem_cons_self) hd).mp ⟨hs, hrep⟩
      exact ⟨hs, fun h => (List.mem_cons.mp h).elim hne hnot⟩
  constructor
  · intro h d hfile hlast hserve
    exact ((letGo_all hin hnodup).mp (h d hfile (.inl ((hserved d).mpr hserve)))).2 hlast
  · intro h d hfile hlive
    refine (letGo_all hin hnodup).mpr ⟨hfile, fun hlast => ?_⟩
    rcases hlive with hserve | ⟨m, hm', -, hsbom | ⟨s, hs, -, hrep⟩⟩
    · exact h d hfile hlast ((hserved d).mp hserve)
    · rw [hm] at hm'
      exact hlast.2.2.2 m hm' hsbom
    · obtain ⟨hs, hnot⟩ := hscans hlast.1 s hs hrep
      exact hnot (hlast.2.2.1 s hs hrep)

/-- The digest is the SBOM of this manifest and of nothing else. -/
def LastSbom (db : Db) (manifest : DockerManifest) (e : Digest) : Prop :=
  e ≠ "" ∧ manifest.sbomDigest = some e ∧ (∀ s ∈ db.scans, s.reportDigest ≠ some e) ∧
    ∀ m ∈ db.manifests, m.sbomDigest = some e → m = manifest

/-- The SBOM that a new one replaces, where nothing else is that, is no served content. -/
def SbomClear (env : ScanEnv) (manifestId : Nat) (sbom : List UInt8) (db : Db) : Prop :=
  ∀ m ∈ db.manifests.find? manifestId, ∀ d ∈ db.files, LastSbom db m d → d ≠ env.sha256 sbom →
    ¬ Served db (fun _ => True) d

/-- `record_result` stores a new SBOM over the old one. -/
def replaceSbom (env : ScanEnv) (manifestId : Nat) (sbom : List UInt8) (db : Db) : Db :=
  match db.manifests.find? manifestId with
  | some manifest => storeSbom env manifest sbom db
  | none => db

theorem mem_storeSbom_files {env : ScanEnv} {manifest : DockerManifest} {sbom : List UInt8}
    (hin : manifest ∈ db.manifests) (hfile : e ∈ db.files) :
    e ∈ (storeSbom env manifest sbom db).files ↔
      ¬ (LastSbom db manifest e ∧ e ≠ env.sha256 sbom) := by
  have hput : (db.putFile (env.sha256 sbom)).manifests = db.manifests ∧
      (db.putFile (env.sha256 sbom)).scans = db.scans ∧
      e ∈ (db.putFile (env.sha256 sbom)).files := by
    unfold Db.putFile
    split
    · exact ⟨rfl, rfl, hfile⟩
    · exact ⟨rfl, rfl, List.mem_append_left _ hfile⟩
  have hlast : manifest.sbomDigest = some e → e ≠ "" →
      (db.scans.rows.countP (fun s => s.reportDigest = some e) +
        db.manifests.rows.countP (fun m => m.sbomDigest = some e) ≤ 1 ↔
          LastSbom db manifest e) := by
    intro hd he
    have hone := Table.countP_le_one_iff (p := fun m => m.sbomDigest = some e) hin
      (decide_eq_true hd)
    have hpos : 0 < db.manifests.rows.countP fun m => m.sbomDigest = some e :=
      List.countP_pos_iff.mpr ⟨manifest, hin, decide_eq_true hd⟩
    have hsum : (db.scans.rows.countP (fun s => s.reportDigest = some e) +
        db.manifests.rows.countP (fun m => m.sbomDigest = some e) ≤ 1) ↔
        db.scans.rows.countP (fun s => s.reportDigest = some e) = 0 ∧
          db.manifests.rows.countP (fun m => m.sbomDigest = some e) ≤ 1 := by
      omega
    rw [hsum, hone, List.countP_eq_zero]
    constructor
    · rintro ⟨hs, hm⟩
      exact ⟨he, hd, fun s hs' hrep => hs s hs' (decide_eq_true hrep),
        fun m hm' hsbom => hm m hm' (decide_eq_true hsbom)⟩
    · rintro ⟨-, -, hs, hm⟩
      exact ⟨fun s hs' hrep => hs s hs' (of_decide_eq_true hrep),
        fun m hm' hsbom => hm m hm' (of_decide_eq_true hsbom)⟩
  unfold storeSbom
  dsimp only
  rcases hd : manifest.sbomDigest with _ | old
  · refine ⟨fun _ => ?_, fun _ => hput.2.2⟩
    rintro ⟨⟨-, hsbom, -⟩, -⟩
    rw [hd] at hsbom
    cases hsbom
  · dsimp only
    by_cases hc : (old ≠ "" && old ≠ env.sha256 sbom) = true
    · rw [if_pos hc]
      simp only [ne_eq, decide_not, Bool.and_eq_true, Bool.not_eq_true', decide_eq_false_iff_not]
        at hc
      have hrel := mem_releaseFile (db.putFile (env.sha256 sbom)) old e
      rw [hput.1, hput.2.1] at hrel
      refine hrel.trans ⟨?_, fun h => ⟨hput.2.2, ?_⟩⟩
      · rintro ⟨-, hnot⟩ ⟨hl, -⟩
        obtain ⟨he, hsbom, -⟩ := id hl
        rw [hd] at hsbom
        obtain rfl := Option.some.inj hsbom
        exact hnot ⟨rfl, (hlast hd he).mpr hl⟩
      · rintro ⟨rfl, hle⟩
        exact h ⟨(hlast hd hc.1).mp hle, hc.2⟩
    · rw [if_neg hc]
      refine ⟨fun _ => ?_, fun _ => hput.2.2⟩
      rintro ⟨⟨he, hsbom, -⟩, hne⟩
      rw [hd] at hsbom
      obtain rfl := Option.some.inj hsbom
      exact hc (by simp [he, hne])

/-- Apart from files, a new SBOM changes only the manifest's own. -/
theorem storeSbom_tables (db : Db) (env : ScanEnv) (manifest : DockerManifest)
    (sbom : List UInt8) :
    (storeSbom env manifest sbom db).manifests =
        db.manifests.modify (fun m => if m.id = manifest.id then
          { m with sbomDigest := some (env.sha256 sbom) } else m) (by intro m; split <;> rfl) ∧
      (storeSbom env manifest sbom db).refs = db.refs ∧
      (storeSbom env manifest sbom db).repoManifests = db.repoManifests ∧
      (storeSbom env manifest sbom db).repoBlobs = db.repoBlobs ∧
      (storeSbom env manifest sbom db).scans = db.scans := by
  have hput : ∀ d, (db.putFile d).manifests = db.manifests ∧ (db.putFile d).refs = db.refs ∧
      (db.putFile d).repoManifests = db.repoManifests ∧
      (db.putFile d).repoBlobs = db.repoBlobs ∧ (db.putFile d).scans = db.scans := by
    intro d
    unfold Db.putFile
    split <;> exact ⟨rfl, rfl, rfl, rfl, rfl⟩
  obtain ⟨h₁, h₂, h₃, h₄, h₅⟩ := hput (env.sha256 sbom)
  have hupdate : ∀ db₁ : Db, db₁.manifests = db.manifests →
      (db₁.updateManifest manifest.id fun m =>
        { m with sbomDigest := some (env.sha256 sbom) }).manifests =
      db.manifests.modify (fun m => if m.id = manifest.id then
        { m with sbomDigest := some (env.sha256 sbom) } else m) (by intro m; split <;> rfl) := by
    intro db₁ h
    unfold Db.updateManifest
    dsimp only
    rw [h]
  unfold storeSbom
  dsimp only
  split
  · split
    · obtain ⟨g₁, g₂, g₃, g₄, g₅⟩ := releaseFile_tables (db.putFile (env.sha256 sbom)) _
      exact ⟨hupdate _ (g₁.trans h₁), g₂.trans h₂, g₃.trans h₃, g₄.trans h₄, g₅.trans h₅⟩
    · exact ⟨hupdate _ h₁, h₂, h₃, h₄, h₅⟩
  · exact ⟨hupdate _ h₁, h₂, h₃, h₄, h₅⟩

theorem replaceSbom_keeps_iff {env : ScanEnv} {manifestId : Nat} {sbom : List UInt8} :
    Keeps db (replaceSbom env manifestId sbom db) ↔ SbomClear env manifestId sbom db := by
  unfold replaceSbom SbomClear
  rcases hfind : db.manifests.find? manifestId with _ | manifest
  · exact ⟨fun _ _ hm => (nomatch hm), fun _ d hd _ => hd⟩
  · dsimp only
    have hin := Table.find?_mem hfind
    obtain ⟨hm, hr, hl, hb, hs⟩ := storeSbom_tables db env manifest sbom
    have hrow : ∀ m ∈ (storeSbom env manifest sbom db).manifests, ∃ n ∈ db.manifests,
        m.id = n.id ∧ m.digest = n.digest ∧ (n ≠ manifest → m = n) ∧
          (n = manifest → m.sbomDigest = some (env.sha256 sbom)) := by
      intro m hm'
      rw [hm] at hm'
      obtain ⟨n, hn, rfl⟩ := Table.mem_modify.mp hm'
      refine ⟨n, hn, ?_⟩
      by_cases hid : n.id = manifest.id
      · obtain rfl := Table.eq_of_key hn hin hid
        rw [if_pos rfl]
        exact ⟨rfl, rfl, fun h => absurd rfl h, fun _ => rfl⟩
      · rw [if_neg hid]
        exact ⟨rfl, rfl, fun _ => rfl, fun h => absurd (congrArg DockerManifest.id h) hid⟩
    have hrow' : ∀ n ∈ db.manifests, ∃ m ∈ (storeSbom env manifest sbom db).manifests,
        m.id = n.id ∧ m.digest = n.digest := by
      intro n hn
      rw [hm]
      refine ⟨_, Table.mem_modify.mpr ⟨n, hn, rfl⟩, ?_⟩
      split <;> exact ⟨rfl, rfl⟩
    have hserved : ∀ d, Served (storeSbom env manifest sbom db) (fun _ => True) d ↔
        Served db (fun _ => True) d := by
      intro d
      refine served_congr ?_ ?_
      · exact ⟨fun n hn _ => have ⟨m, hm', hid, hd⟩ := hrow' n hn; ⟨m, hm', trivial, hid, hd⟩,
          fun _ _ _ r hr' _ => hr ▸ hr', fun l hl' => hl ▸ hl', fun b hb' => hb ▸ hb'⟩
      · exact ⟨fun m hm' _ => have ⟨n, hn, hid, hd, _⟩ := hrow m hm'
            ⟨n, hn, trivial, hid.symm, hd.symm⟩,
          fun _ _ _ r hr' _ => hr ▸ hr', fun l hl' => hl ▸ hl', fun b hb' => hb ▸ hb'⟩
    constructor
    · intro h m hm' d hfile hlast hne hserve
      obtain rfl := Option.some.inj hm'
      exact (mem_storeSbom_files hin hfile).mp
        (h d hfile (.inl ((hserved d).mpr hserve))) ⟨hlast, hne⟩
    · intro h d hfile hlive
      refine (mem_storeSbom_files hin hfile).mpr fun ⟨hlast, hne⟩ => ?_
      rcases hlive with hserve | ⟨m, hm', -, hsbom | ⟨s, hs', -, hrep⟩⟩
      · exact h manifest rfl d hfile hlast hne ((hserved d).mp hserve)
      · obtain ⟨n, hn, -, -, hother, hown⟩ := hrow m hm'
        by_cases hnm : n = manifest
        · rw [hown hnm] at hsbom
          exact hne (Option.some.inj hsbom).symm
        · rw [hother hnm] at hsbom
          exact hnm (hlast.2.2.2 n hn hsbom)
      · rw [hs] at hs'
        exact hlast.2.2.1 s hs' hrep

end Release

/-! ## Every operation that deletes -/

inductive Cleanup where
  | gc (now : Time)
  | orphanFiles (stat : Digest → FileStat) (now : Time)
  | deleteBlob (repo : DockerRepository) (digest : Digest)
  | pruneReports (manifestId keep : Nat)
  | replaceSbom (manifestId : Nat) (sbom : List UInt8)

def Cleanup.apply (env : ScanEnv) (db : Db) : Cleanup → Db
  | .gc now => (Docker.gc now db).1
  | .orphanFiles stat now => Docker.orphanFiles stat now db
  | .deleteBlob repo digest =>
    match Docker.deleteBlob repo db digest with
    | .ok db => db
    | .error _ => db
  | .pruneReports manifestId keep => Docker.pruneReports manifestId keep db
  | .replaceSbom manifestId sbom => Docker.replaceSbom env manifestId sbom db

/-- When an operation deletes no file that a row still names. -/
def Cleanup.Clear (env : ScanEnv) (db : Db) : Cleanup → Prop
  | .gc now => GcClear now db
  | .orphanFiles stat now => SweepClear stat now db
  | .deleteBlob _ _ => True
  | .pruneReports manifestId keep => PruneClear manifestId keep db
  | .replaceSbom manifestId sbom => SbomClear env manifestId sbom db

theorem deleteBlob_keeps {repo : DockerRepository} {digest : Digest} {db db' : Db}
    (h : deleteBlob repo db digest = .ok db') : Keeps db db' := by
  unfold deleteBlob at h
  dsimp only at h
  split at h
  · obtain rfl := Except.ok.inj h
    exact fun d hd _ => hd
  · cases h

/-- **Live files.** An operation keeps every file that a row still names exactly
when the digests it deletes are nothing else. -/
theorem cleanup_keeps_iff (env : ScanEnv) (db : Db) (c : Cleanup) :
    Keeps db (c.apply env db) ↔ c.Clear env db := by
  cases c with
  | gc now => exact gc_keeps_iff
  | orphanFiles stat now => exact orphanFiles_keeps_iff
  | deleteBlob repo digest =>
    refine iff_of_true ?_ trivial
    dsimp only [Cleanup.apply]
    split
    · next h => exact deleteBlob_keeps h
    · exact fun d hd _ => hd
  | pruneReports manifestId keep => exact pruneReports_keeps_iff
  | replaceSbom manifestId sbom => exact replaceSbom_keeps_iff

/-! ## A manifest that is also a blob -/

/-- The bytes of the pushed image's manifest, uploaded as a blob too. -/
def uploadManifest : RepoAction := .upload "local/private" pusher [] otherDigest 1

def unlinkImage : RepoAction := .deleteManifest "local/private" pusher otherDigest

def bundledWorld : World := uploadManifest.apply leakEnv leakRoutes privateWorld
def unlinkedWorld : World := unlinkImage.apply leakEnv leakRoutes bundledWorld

/-- The repository holds the blob, and the collector deletes its file. -/
theorem gc_deletes_held :
    (registryPulls leakEnv leakRoutes).Reach (fun _ _ => True) unlinkedWorld ∧
      ¬ Keeps unlinkedWorld.db (gc (2 * hour) unlinkedWorld.db).1 := by
  refine ⟨.step (a := unlinkImage) (.step (a := uploadManifest) (.step (a := pushImage)
    (.step (a := uploadConfig) (.init emptyWorld_blank) trivial rfl) trivial rfl) trivial rfl)
    trivial rfl, fun h => ?_⟩
  have hheld : HeldAsBlob (gc (2 * hour) unlinkedWorld.db).1 otherDigest :=
    ⟨{ repositoryId := 1, digest := otherDigest }, by decide +kernel, rfl⟩
  have hgone : otherDigest ∉ (gc (2 * hour) unlinkedWorld.db).1.files := by decide +kernel
  exact hgone (h otherDigest (by decide +kernel) (.inl (.inr (.inr hheld))))

end Minireg.Docker
