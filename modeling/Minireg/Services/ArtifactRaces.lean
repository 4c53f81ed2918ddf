import Minireg.Lib.Run
import Minireg.Services.Artifacts

/-!
# Publishes beside deletions

`artifactStore` is the package blob store under any number of threads in any
order. A thread `Marks` the files it is about to delete, and a publish `relies` on
those it has stored. `artifactStore_keeps`: as long as no file is both at once, no
count is written that was read too early, and a purge only takes what its row
still has, every file of an answered publish stays until its row is removed.
-/

namespace Minireg.Artifacts

open Lib

/-! ## The system -/

structure Floor where
  store : Store := {}
  threads : List Thread := []
  clock : Time := 0
  /-- The ids of the file rows that were removed. -/
  removed : List Nat := []

inductive Job where
  | npm (shas : List Sha)
  | pypi (sha : Sha)
  | download (fileId : Nat) (sha : Sha)
  | purge (fileId : Nat) (keepRow : Bool)
  | evict (cutoff : Time) (candidates : List Sha)
  | collect (candidates : List Sha)
  | sweep (candidates : List Sha)

def Job.start (clock : Time) : Job → Thread
  | npm shas => .publish (npmPublish shas)
  | pypi sha => .publish (pypiUpload sha)
  | download fileId sha => .record { fileId := fileId, sha := sha }
  | purge fileId keepRow => .purge { fileId := fileId, keepRow := keepRow }
  | evict cutoff candidates => .evict { cutoff := cutoff, candidates := candidates }
  | collect candidates => .collect { candidates := candidates }
  | sweep candidates => .sweep { cutoff := clock - orphanFileGrace, candidates := candidates }

inductive Act where
  | start (job : Job)
  | turn (i : Nat)
  | abort (i : Nat)
  | tick (elapsed : Nat)
  /-- A refresh lists a file of an upstream. -/
  | list (upstreamUrl : String) (upstreamId : Option Nat)

/-- The rows of `before` that are gone. -/
def goneRows (before after : Store) : List Nat :=
  (before.rows.rows.filter fun r => (after.rows.find? r.id).isNone).map FileRow.id

namespace Floor

variable (f : Floor)

/-- The thread `i` is `t` from now on, and the store `store`. -/
def set (i : Nat) (t : Thread) (store : Store) : Floor :=
  { f with
    store := store
    threads := f.threads.set i t
    removed := f.removed ++ goneRows f.store store }

def step : Act → Option Floor
  | .start job => some { f with threads := f.threads ++ [job.start f.clock] }
  | .turn i =>
    f.threads[i]?.bind fun t =>
      (t.turn f.clock (f.threads.eraseIdx i) f.store).map fun s => f.set i s.2 s.1
  | .abort i => f.threads[i]?.bind fun t => t.abort.map fun t' => f.set i t' f.store
  | .tick elapsed => some { f with clock := f.clock + elapsed }
  | .list upstreamUrl upstreamId =>
    let row : FileRow :=
      { id := f.store.nextId, upstreamUrl := some upstreamUrl, upstreamId := upstreamId }
    some { f with store := { f.store with
      rows := f.store.rows.put row, nextId := f.store.nextId + 1 } }

/-- Every file row of an answered publish has its blob in storage, until the row is
removed. -/
def Kept : Prop :=
  ∀ p, .publish p ∈ f.threads → ∀ rows, p.phase = .answered rows → ∀ x ∈ rows,
    x.1 ∈ f.removed ∨ ∃ r ∈ f.store.rows, r.id = x.1 ∧ r.blobSha256 = some x.2 ∧
      f.store.exists? x.2 = true

end Floor

namespace Store

variable (store : Store)

/-- The count of a blob, none without a row. -/
def count (sha : Sha) : Int := (store.blobs.find? sha).elim 0 Blob.refcount

/-- No blob has fewer references than rows that point at it. -/
def Counted : Prop := ∀ sha, (store.refs sha : Int) ≤ store.count sha

/-- No file that was published here has the blob. -/
def NoLocal (sha : Sha) : Prop :=
  ∀ r ∈ store.rows, r.blobSha256 = some sha → r.upstreamUrl.isSome = true

/-- Rows have ids that were given out, and files published here are present. -/
structure Ok : Prop where
  counted : store.Counted
  fresh : ∀ r ∈ store.rows, r.id < store.nextId
  present : ∀ r ∈ store.rows, r.upstreamUrl = none → ∀ sha, r.blobSha256 = some sha →
    store.exists? sha = true

end Store

/-- The package blob store under publishes, downloads, purges, evictions and
collections in any order. -/
def artifactStore : System Floor Act where
  init f := f.threads = [] ∧ f.removed = [] ∧ f.store.Ok
  Step f a f' := f.step a = some f'

/-! ## When the steps stay apart -/

/-- The file is on disk and older than a sweep takes. -/
def Store.Old (store : Store) (cutoff : Time) (sha : Sha) : Prop :=
  ∃ file, store.disk.find? sha = some file ∧ file.modified < cutoff

/-- A thread is about to delete the file. -/
def Thread.Marks (store : Store) (sha : Sha) : Thread → Prop
  | publish p => p.phase = .discarding sha
  | record _ => False
  | purge p => p.phase = .doomed sha
  | evict e => sha ∈ e.victims
  | collect c => c.committed = false ∧ c.doomed = some sha
  | sweep w => ∃ unknown ∈ w.unknown, sha ∈ unknown ∧ store.Old w.cutoff sha

/-- The files a publish in progress has stored. -/
def Thread.relies : Thread → List Sha
  | publish p => if p.phase = .running then p.stored else []
  | _ => []

/-- No claim of a publish is committed over a count that has grown since it was read. -/
def Current (clock : Time) : Store → List (Sha × Option Int) → Prop
  | _, [] => True
  | store, claim :: claims =>
    (∀ n ∈ claim.2, store.count claim.1 ≤ n) ∧
      ∀ s ∈ applyClaim clock (store, []) claim, Current clock s.1 claims

/-- The row still points at the blob; one that was published here is removed, and
others share its blob. -/
def Purge.Takes (p : Purge) (store : Store) (sha : Sha) : Prop :=
  ∃ row ∈ store.rows, row.id = p.fileId ∧ row.blobSha256 = some sha ∧
    (row.upstreamUrl = none → p.keepRow = false ∧ 1 < store.count sha)

/-- No publish stores a file that a thread is about to delete, no thread settles on
a file that a publish relies on, counts are current and purges take what is theirs. -/
def Thread.Apart (clock : Time) (threads : List Thread) (store : Store) : Thread → Prop
  | publish p =>
    match p.phase, p.steps with
    | .running, .store sha :: _ => ∀ t ∈ threads, ¬ t.Marks (store.putFile sha clock) sha
    | .running, .claim _ :: _ => True
    | .running, [] => Current clock store p.claims
    | .discard sha, _ => ∀ t ∈ threads, sha ∉ t.relies
    | _, _ => True
  | record _ => True
  | purge p =>
    match p.phase with
    | .read sha => p.Takes store sha ∧ (store.count sha ≤ 1 → ∀ t ∈ threads, sha ∉ t.relies)
    | _ => True
  | evict e =>
    match e.committed, e.candidates with
    | false, sha :: _ => e.takes store sha = true → ∀ t ∈ threads, sha ∉ t.relies
    | _, _ => True
  | collect c =>
    match c.committed, c.doomed, c.candidates with
    | false, none, sha :: _ => c.takes store sha = true → ∀ t ∈ threads, sha ∉ t.relies
    | _, _, _ => True
  | sweep w =>
    w.unknown = none → ∀ sha ∈ w.candidates, store.Old w.cutoff sha → ∀ t ∈ threads, sha ∉ t.relies

def Apart (f : Floor) : Act → Prop
  | .turn i => ∀ t ∈ f.threads[i]?, t.Apart f.clock f.threads f.store
  | _ => True

section Decisions

variable (clock : Time) (threads : List Thread) (store : Store)

instance (cutoff : Time) (sha : Sha) : Decidable (store.Old cutoff sha) :=
  inferInstanceAs (Decidable (∃ file, store.disk.find? sha = some file ∧ _))

instance (sha : Sha) (t : Thread) : Decidable (t.Marks store sha) :=
  match t with
  | .publish p => inferInstanceAs (Decidable (p.phase = _))
  | .record _ => inferInstanceAs (Decidable False)
  | .purge p => inferInstanceAs (Decidable (p.phase = _))
  | .evict e => inferInstanceAs (Decidable (sha ∈ e.victims))
  | .collect _ => inferInstanceAs (Decidable (_ ∧ _))
  | .sweep w => inferInstanceAs (Decidable (∃ unknown ∈ w.unknown, _ ∧ _))

instance Current.decide : ∀ store claims, Decidable (Current clock store claims)
  | _, [] => inferInstanceAs (Decidable True)
  | store, claim :: claims =>
    have := fun s => Current.decide s claims
    inferInstanceAs (Decidable ((∀ n ∈ claim.2, store.count claim.1 ≤ n) ∧
      ∀ s ∈ applyClaim clock (store, []) claim, Current clock s.1 claims))

instance (p : Purge) (sha : Sha) : Decidable (p.Takes store sha) :=
  inferInstanceAs (Decidable (∃ row ∈ store.rows.rows, _ ∧ _ ∧ _))

instance (t : Thread) : Decidable (t.Apart clock threads store) :=
  match t with
  | .publish ⟨_, steps, _, _, _, phase⟩ =>
    match phase, steps with
    | .running, .store _ :: _ => inferInstanceAs (Decidable (∀ t ∈ threads, _))
    | .running, .claim _ :: _ => inferInstanceAs (Decidable True)
    | .running, [] => inferInstanceAs (Decidable (Current ..))
    | .discard _, _ => inferInstanceAs (Decidable (∀ t ∈ threads, _))
    | .discarding _, _ | .answered _, _ | .refused, _ => inferInstanceAs (Decidable True)
  | .record _ => inferInstanceAs (Decidable True)
  | .purge ⟨_, _, phase⟩ =>
    match phase with
    | .read _ => inferInstanceAs (Decidable (_ ∧ (_ → ∀ t ∈ threads, _)))
    | .begun | .counted _ _ | .doomed _ | .deleted _ | .unpointing | .over =>
      inferInstanceAs (Decidable True)
  | .evict ⟨_, candidates, _, committed⟩ =>
    match committed, candidates with
    | false, _ :: _ => inferInstanceAs (Decidable (_ → ∀ t ∈ threads, _))
    | false, [] | true, _ => inferInstanceAs (Decidable True)
  | .collect ⟨candidates, _, doomed, committed⟩ =>
    match committed, doomed, candidates with
    | false, none, _ :: _ => inferInstanceAs (Decidable (_ → ∀ t ∈ threads, _))
    | false, none, [] | false, some _, _ | true, _, _ => inferInstanceAs (Decidable True)
  | .sweep w => inferInstanceAs (Decidable (_ → ∀ sha ∈ w.candidates, _ → ∀ t ∈ threads, _))

instance (f : Floor) (a : Act) : Decidable (Apart f a) :=
  match a with
  | .turn i => inferInstanceAs (Decidable (∀ t ∈ f.threads[i]?, _))
  | .start _ | .abort _ | .tick _ | .list _ _ => inferInstanceAs (Decidable True)

end Decisions

/-! ## What a commit may do -/

/-- A commit touches the counts of some blobs and moves some rows; only a publish
adds rows of its own. -/
structure Commit (touched published : Sha → Prop) (moved : Nat → Prop) (s s' : Store) : Prop where
  disk : s'.disk = s.disk
  nextId : s.nextId ≤ s'.nextId
  blobs : ∀ sha, ¬ touched sha → s'.blobs.find? sha = s.blobs.find? sha
  rows : ∀ r ∈ s'.rows, ∀ sha, r.blobSha256 = some sha → ¬ touched sha → r ∈ s.rows
  kept : ∀ r ∈ s.rows, ¬ moved r.id → r ∈ s'.rows
  born : ∀ r ∈ s'.rows, s.nextId ≤ r.id ∨ ∃ q ∈ s.rows, q.id = r.id ∧ q.upstreamUrl = r.upstreamUrl
  locals : ∀ r ∈ s.rows, r.upstreamUrl = none → r ∈ s'.rows ∨ ∀ q ∈ s'.rows, q.id ≠ r.id
  newLocal : ∀ r ∈ s'.rows, r.upstreamUrl = none → ∀ sha, r.blobSha256 = some sha →
    r ∈ s.rows ∨ published sha
  counted : s'.Counted
  fresh : ∀ r ∈ s'.rows, r.id < s'.nextId

namespace Commit

variable {touched published : Sha → Prop} {moved : Nat → Prop} {s s' s'' : Store}

theorem refl (hcounted : s.Counted) (hfresh : ∀ r ∈ s.rows, r.id < s.nextId) :
    Commit touched published moved s s where
  disk := rfl
  nextId := Nat.le_refl _
  blobs _ _ := rfl
  rows _ hr _ _ _ := hr
  kept _ hr _ := hr
  born r hr := .inr ⟨r, hr, rfl, rfl⟩
  locals _ hr _ := .inl hr
  newLocal _ hr _ _ _ := .inl hr
  counted := hcounted
  fresh := hfresh

theorem trans (hfresh : ∀ r ∈ s.rows, r.id < s.nextId) (h : Commit touched published moved s s')
    (h' : Commit touched published moved s' s'') : Commit touched published moved s s'' where
  disk := h'.disk.trans h.disk
  nextId := h.nextId.trans h'.nextId
  blobs sha hsha := (h'.blobs sha hsha).trans (h.blobs sha hsha)
  rows r hr sha heq hsha := h.rows r (h'.rows r hr sha heq hsha) sha heq hsha
  kept r hr hmoved := h'.kept r (h.kept r hr hmoved) hmoved
  born r hr := by
    rcases h'.born r hr with hle | ⟨q, hq, hid, hurl⟩
    · exact .inl (h.nextId.trans hle)
    · rw [← hid, ← hurl]
      exact h.born q hq
  locals r hr hlocal := by
    rcases h.locals r hr hlocal with hr' | hgone
    · exact h'.locals r hr' hlocal
    · refine .inr fun q hq hid => ?_
      rcases h'.born q hq with hle | ⟨q', hq', hid', -⟩
      · have := hfresh r hr
        have := h.nextId
        omega
      · exact hgone q' hq' (hid'.trans hid)
  newLocal r hr hlocal sha heq := by
    rcases h'.newLocal r hr hlocal sha heq with hr' | hp
    · exact h.newLocal r hr' hlocal sha heq
    · exact .inr hp
  counted := h'.counted
  fresh := h'.fresh

theorem mono {touched' published' : Sha → Prop} (h : Commit touched published moved s s')
    (ht : ∀ sha, touched sha → touched' sha) (hp : ∀ sha, published sha → published' sha) :
    Commit touched' published' moved s s' :=
  { h with
    blobs := fun sha hsha => h.blobs sha fun hs => hsha (ht sha hs)
    rows := fun r hr sha heq hsha => h.rows r hr sha heq fun hs => hsha (ht sha hs)
    newLocal := fun r hr hlocal sha heq => (h.newLocal r hr hlocal sha heq).imp_right (hp sha) }

end Commit

/-! ### Counts and pointers -/

namespace Store

variable {store : Store} {sha : Sha}

theorem count_put (store : Store) (blob : Blob) (sha : Sha) :
    { store with blobs := store.blobs.put blob }.count sha =
      if sha = blob.sha256 then blob.refcount else store.count sha := by
  unfold count
  split
  · next h =>
    rw [h, Table.find?_put_self]
    rfl
  · next h => rw [Table.find?_put_of_ne h]

theorem find?_dropBlobs (shas : List Sha) :
    (store.dropBlobs shas).blobs.find? sha =
      if sha ∈ shas then none else store.blobs.find? sha := by
  split
  · next h =>
    refine Table.find?_eq_none_iff.mpr fun b hb heq => ?_
    have hkept := of_decide_eq_true (Table.mem_filter.mp hb).2
    exact hkept (heq ▸ h)
  · next h =>
    rcases hf : store.blobs.find? sha with _ | b
    · exact Table.find?_eq_none_iff.mpr fun b hb =>
        Table.find?_eq_none_iff.mp hf b (Table.mem_filter.mp hb).1
    · obtain ⟨hb, rfl⟩ := Table.find?_eq_some_iff.mp hf
      exact Table.find?_of_mem (Table.mem_filter.mpr ⟨hb, decide_eq_true h⟩)

theorem count_dropBlobs (shas : List Sha) :
    (store.dropBlobs shas).count sha = if sha ∈ shas then 0 else store.count sha := by
  unfold count
  rw [find?_dropBlobs]
  split <;> rfl

theorem count_release (store : Store) (old sha : Sha) :
    store.count sha - (if sha = old then 1 else 0) ≤ (store.release old).count sha := by
  unfold release
  rcases hfind : store.blobs.find? old with _ | blob
  · dsimp only
    split <;> omega
  · have hcount : store.count old = blob.refcount := by
      unfold count
      rw [hfind]
      rfl
    obtain rfl : blob.sha256 = old := Table.find?_key hfind
    dsimp only
    by_cases hle : blob.refcount - 1 ≤ 0
    · rw [if_pos hle, count_dropBlobs]
      by_cases h : sha = blob.sha256
      · simp only [h, List.mem_singleton, if_true, hcount]
        omega
      · simp [h]
    · rw [if_neg hle, count_put]
      by_cases h : sha = blob.sha256
      · simp [h, hcount]
      · simp [h]

theorem count_retain (new : Sha) (clock : Time) :
    (store.retain new clock).count sha = store.count sha + if sha = new then 1 else 0 := by
  unfold retain
  split
  · next hfind =>
    rw [count_put]
    by_cases h : sha = new
    · simp [h, count, hfind]
    · simp [h]
  · next blob hfind =>
    obtain rfl : blob.sha256 = new := Table.find?_key hfind
    dsimp only
    rw [count_put]
    by_cases h : sha = blob.sha256
    · simp [h, count, hfind]
    · simp [h]

theorem refs_pos {r : FileRow} (hr : r ∈ store.rows) (heq : r.blobSha256 = some sha) :
    0 < store.refs sha :=
  List.countP_pos_iff.mpr ⟨r, hr, decide_eq_true heq⟩

theorem refs_eq_zero_iff : store.refs sha = 0 ↔ ∀ r ∈ store.rows, r.blobSha256 ≠ some sha := by
  unfold refs
  rw [List.countP_eq_zero]
  exact forall₂_congr fun r _ => by simp

theorem refs_put (row : FileRow) (sha : Sha) (hnew : ∀ r ∈ store.rows, r.id ≠ row.id) :
    { store with rows := store.rows.put row }.refs sha =
      store.refs sha + if row.blobSha256 = some sha then 1 else 0 := by
  unfold refs
  dsimp only
  rw [Table.put_rows_of_fresh hnew, List.countP_append]
  simp

theorem refs_setPointer {row : FileRow} (hrow : row ∈ store.rows) (pointer : Option Sha) (sha : Sha) :
    (store.setPointer row.id pointer).refs sha +
        (if row.blobSha256 = some sha then 1 else 0) =
      store.refs sha + if pointer = some sha then 1 else 0 := by
  have hcount := Table.countP_modify (FileRow.withPointer_id row.id pointer) hrow
    (fun b _ hne => if_neg hne) fun r => decide (r.blobSha256 = some sha)
  rw [show row.withPointer row.id pointer = { row with blobSha256 := pointer } from if_pos rfl]
    at hcount
  simp only [decide_eq_true_eq] at hcount
  exact hcount

theorem mem_setPointer {fileId : Nat} {pointer : Option Sha} {r : FileRow} :
    r ∈ (store.setPointer fileId pointer).rows ↔
      ∃ q ∈ store.rows, q.withPointer fileId pointer = r :=
  List.mem_map

theorem refs_clearRow {row : FileRow} (hrow : row ∈ store.rows) (keepRow : Bool) (sha : Sha) :
    (store.clearRow row.id keepRow).refs sha +
      (if row.blobSha256 = some sha then 1 else 0) = store.refs sha := by
  unfold clearRow
  split
  · simpa using refs_setPointer hrow none sha
  · have hcount := Table.countP_filter_ne hrow fun r => decide (r.blobSha256 = some sha)
    simp only [decide_eq_true_eq] at hcount
    exact hcount

end Store

/-! ### Each commit -/

section Commits

variable {s : Store} {sha : Sha} {clock : Time}

theorem count_of_find? {blob : Blob} (h : s.blobs.find? sha = some blob) :
    s.count sha = blob.refcount := by
  unfold Store.count
  rw [h]
  rfl

theorem count_of_none (h : s.blobs.find? sha = none) : s.count sha = 0 := by
  unfold Store.count
  rw [h]
  rfl

/-- A new row of a blob, with the count that goes with it. -/
theorem insertRow_commit (hok : s.Ok) (blob : Blob)
    (hcount : s.count blob.sha256 + 1 ≤ blob.refcount) :
    Commit (· = blob.sha256) (· = blob.sha256) (fun _ => False) s
      { s with
        blobs := s.blobs.put blob
        rows := s.rows.put { id := s.nextId, blobSha256 := some blob.sha256 }
        nextId := s.nextId + 1 } where
  disk := rfl
  nextId := Nat.le_succ _
  blobs _ hne := Table.find?_put_of_ne hne
  rows r hr x heq hne := by
    rcases Table.mem_put.mp hr with rfl | ⟨hr, -⟩
    · exact absurd (Option.some.inj heq).symm hne
    · exact hr
  kept r hr _ := Table.mem_put.mpr (.inr ⟨hr, Nat.ne_of_lt (hok.fresh r hr)⟩)
  born r hr := by
    rcases Table.mem_put.mp hr with rfl | ⟨hr, -⟩
    · exact .inl (Nat.le_refl _)
    · exact .inr ⟨r, hr, rfl, rfl⟩
  locals r hr _ := .inl (Table.mem_put.mpr (.inr ⟨hr, Nat.ne_of_lt (hok.fresh r hr)⟩))
  newLocal r hr _ x heq := by
    rcases Table.mem_put.mp hr with rfl | ⟨hr, -⟩
    · exact .inr (Option.some.inj heq).symm
    · exact .inl hr
  counted x := by
    have hrefs := Store.refs_put { id := s.nextId, blobSha256 := some blob.sha256 } x
      fun r hr => Nat.ne_of_lt (hok.fresh r hr)
    have hcounted := hok.counted x
    have hput := Store.count_put s blob x
    change (({ s with rows := s.rows.put _ } : Store).refs x : Int) ≤
      ({ s with blobs := s.blobs.put blob } : Store).count x
    rw [hrefs, hput]
    by_cases hx : x = blob.sha256
    · subst hx
      simp only [if_true]
      omega
    · simp only [hx, if_false, Option.some.injEq, Ne.symm hx, Nat.add_zero]
      exact hcounted
  fresh r hr := by
    rcases Table.mem_put.mp hr with rfl | ⟨hr, -⟩
    · exact Nat.lt_succ_self _
    · exact Nat.lt_succ_of_lt (hok.fresh r hr)

/-- What one claim commits. -/
theorem applyClaim_commit (hok : s.Ok) {ids : List (Nat × Sha)} {claim : Sha × Option Int}
    {s' : Store × List (Nat × Sha)} (hcurrent : ∀ n ∈ claim.2, s.count claim.1 ≤ n)
    (h : applyClaim clock (s, ids) claim = some s') :
    Commit (· = claim.1) (· = claim.1) (fun _ => False) s s'.1 ∧
      s'.2 = ids ++ [(s.nextId, claim.1)] ∧
      { id := s.nextId, blobSha256 := some claim.1 } ∈ s'.1.rows := by
  obtain ⟨x, seen⟩ := claim
  unfold applyClaim at h
  dsimp only at h
  rcases hfind : s.blobs.find? x with _ | blob <;> rcases seen with _ | n
  · rw [hfind] at h
    obtain rfl := Option.some.inj h
    exact ⟨insertRow_commit hok { sha256 := x, lastAccessedAt := clock }
      (by simp [count_of_none hfind]), rfl, Table.mem_put.mpr (.inl rfl)⟩
  · rw [hfind] at h
    cases h
  · rw [hfind] at h
    cases h
  · rw [hfind] at h
    obtain rfl := Option.some.inj h
    obtain rfl : blob.sha256 = x := Table.find?_key hfind
    exact ⟨insertRow_commit hok { blob with refcount := n + 1 }
      (Int.add_le_add_right (hcurrent n rfl) 1), rfl, Table.mem_put.mpr (.inl rfl)⟩

theorem Commit.ok {touched published : Sha → Prop} {moved : Nat → Prop} {s' : Store} (hok : s.Ok)
    (h : Commit touched published moved s s')
    (hpublished : ∀ sha, published sha → s.exists? sha = true) : s'.Ok where
  counted := h.counted
  fresh := h.fresh
  present r hr hlocal x heq := by
    unfold Store.exists?
    rw [h.disk]
    rcases h.newLocal r hr hlocal x heq with hr | hp
    · exact hok.present r hr hlocal x heq
    · exact hpublished x hp

/-- The ids that are noted have no influence on what is committed. -/
theorem applyClaim_ids {ids : List (Nat × Sha)} {claim : Sha × Option Int}
    {s' : Store × List (Nat × Sha)} (h : applyClaim clock (s, ids) claim = some s') :
    ∃ ids', applyClaim clock (s, []) claim = some (s'.1, ids') := by
  obtain ⟨x, seen⟩ := claim
  unfold applyClaim at h ⊢
  dsimp only at h ⊢
  rcases hfind : s.blobs.find? x with _ | blob <;> rcases seen with _ | n <;> rw [hfind] at h
  · obtain rfl := Option.some.inj h
    exact ⟨_, rfl⟩
  · cases h
  · cases h
  · obtain rfl := Option.some.inj h
    exact ⟨_, rfl⟩

/-- **What a publish commits**: its claims, and a row for each. -/
theorem applyClaims_commit {claims : List (Sha × Option Int)} {ids : List (Nat × Sha)}
    {s' : Store × List (Nat × Sha)} (hok : s.Ok) (hcurrent : Current clock s claims)
    (hstored : ∀ c ∈ claims, s.exists? c.1 = true)
    (h : claims.foldlM (applyClaim clock) (s, ids) = some s') :
    Commit (∃ c ∈ claims, c.1 = ·) (∃ c ∈ claims, c.1 = ·) (fun _ => False) s s'.1 ∧
      ∀ x ∈ s'.2, x ∈ ids ∨ { id := x.1, blobSha256 := some x.2 } ∈ s'.1.rows := by
  induction claims generalizing s ids with
  | nil =>
    obtain rfl := Option.some.inj h
    exact ⟨.refl hok.counted hok.fresh, fun x hx => .inl hx⟩
  | cons c cs ih =>
    rw [List.foldlM_cons] at h
    obtain ⟨s₁, hclaim, hrest⟩ := Option.bind_eq_some_iff.mp h
    obtain ⟨hfirst, hids, hrow⟩ := applyClaim_commit hok hcurrent.1 hclaim
    obtain ⟨ids', hnil⟩ := applyClaim_ids hclaim
    have hstored₁ : ∀ c' ∈ cs, s₁.1.exists? c'.1 = true := fun c' hc' => by
      unfold Store.exists?
      rw [hfirst.disk]
      exact hstored c' (List.mem_cons_of_mem _ hc')
    have hok₁ : s₁.1.Ok := hfirst.ok hok fun x hx => hx ▸ hstored c List.mem_cons_self
    obtain ⟨hcommit, hrows⟩ := ih hok₁ (hcurrent.2 (s₁.1, ids') hnil) hstored₁ hrest
    have hlift : ∀ x, (∃ c' ∈ cs, c'.1 = x) → ∃ c' ∈ c :: cs, c'.1 = x :=
      fun x ⟨c', hc', heq⟩ => ⟨c', List.mem_cons_of_mem _ hc', heq⟩
    have hhead : ∀ x, x = c.1 → ∃ c' ∈ c :: cs, c'.1 = x :=
      fun x heq => ⟨c, List.mem_cons_self, heq.symm⟩
    refine ⟨(hfirst.mono hhead hhead).trans hok.fresh (hcommit.mono hlift hlift), fun x hx => ?_⟩
    rcases hrows x hx with hx | hx
    · rw [hids] at hx
      rcases List.mem_append.mp hx with hx | hx
      · exact .inl hx
      · rw [List.mem_singleton.mp hx]
        exact .inr (hcommit.kept _ hrow id)
    · exact .inr hx

/-- A row that is cleared lets go of one reference. -/
theorem clearRow_commit {s₁ : Store} {touched : Sha → Prop} (hok : s.Ok) (hrows : s₁.rows = s.rows)
    (hdisk : s₁.disk = s.disk) (hnext : s₁.nextId = s.nextId)
    (hblobs : ∀ x, ¬ touched x → s₁.blobs.find? x = s.blobs.find? x) {row : FileRow}
    (hrow : row ∈ s.rows) {keepRow : Bool} (hlocal : row.upstreamUrl = none → keepRow = false)
    (hcount : ∀ x, (s.refs x : Int) ≤
      s₁.count x + if row.blobSha256 = some x then 1 else 0) :
    Commit touched (fun _ => False) (· = row.id) s (s₁.clearRow row.id keepRow) := by
  have hrow₁ : row ∈ s₁.rows := hrows ▸ hrow
  have hmem : ∀ r ∈ (s₁.clearRow row.id keepRow).rows,
      (r ∈ s.rows ∧ r.id ≠ row.id) ∨
        keepRow = true ∧ r = { row with blobSha256 := none } := by
    intro r hr
    unfold Store.clearRow at hr
    split at hr
    · next hkeep =>
      obtain ⟨q, hq, rfl⟩ := Store.mem_setPointer.mp hr
      by_cases hid : q.id = row.id
      · obtain rfl := Table.eq_of_key hq hrow₁ hid
        exact .inr ⟨hkeep, if_pos rfl⟩
      · rw [show q.withPointer row.id none = q from if_neg hid]
        exact .inl ⟨hrows ▸ hq, hid⟩
    · obtain ⟨hr, hne⟩ := Table.mem_filter.mp hr
      exact .inl ⟨hrows ▸ hr, of_decide_eq_true hne⟩
  have hkept : ∀ r ∈ s.rows, r.id ≠ row.id → r ∈ (s₁.clearRow row.id keepRow).rows := by
    intro r hr hne
    unfold Store.clearRow
    split
    · exact Store.mem_setPointer.mpr ⟨r, hrows ▸ hr, if_neg hne⟩
    · exact Table.mem_filter.mpr ⟨hrows ▸ hr, decide_eq_true hne⟩
  have hfields : (s₁.clearRow row.id keepRow).disk = s₁.disk ∧
      (s₁.clearRow row.id keepRow).nextId = s₁.nextId ∧
      (s₁.clearRow row.id keepRow).blobs = s₁.blobs := by
    unfold Store.clearRow
    split <;> exact ⟨rfl, rfl, rfl⟩
  obtain ⟨hdisk', hnext', hblobs'⟩ := hfields
  refine
    { disk := hdisk'.trans hdisk
      nextId := by rw [hnext', hnext]
      blobs := fun x hx => by rw [hblobs']; exact hblobs x hx
      rows := fun r hr x heq _ => ?_
      kept := hkept
      born := fun r hr => ?_
      locals := fun r hr hl => ?_
      newLocal := fun r hr hl x heq => ?_
      counted := fun x => ?_
      fresh := fun r hr => ?_ }
  · rcases hmem r hr with ⟨hr, -⟩ | ⟨-, rfl⟩
    · exact hr
    · cases heq
  · rcases hmem r hr with ⟨hr, -⟩ | ⟨-, rfl⟩
    · exact .inr ⟨r, hr, rfl, rfl⟩
    · exact .inr ⟨row, hrow, rfl, rfl⟩
  · by_cases hid : r.id = row.id
    · obtain rfl := Table.eq_of_key hr hrow hid
      refine .inr fun q hq heq => ?_
      rcases hmem q hq with ⟨-, hne⟩ | ⟨hkeep, -⟩
      · exact hne heq
      · exact Bool.false_ne_true ((hlocal hl).symm.trans hkeep)
    · exact .inl (hkept r hr hid)
  · rcases hmem r hr with ⟨hr, -⟩ | ⟨-, rfl⟩
    · exact .inl hr
    · cases heq
  · have hrefs := Store.refs_clearRow hrow₁ keepRow x
    have hsame : s₁.refs x = s.refs x := by
      unfold Store.refs
      rw [hrows]
    have hc := hcount x
    have hcount' : (s₁.clearRow row.id keepRow).count x = s₁.count x := by
      unfold Store.count
      rw [hblobs']
    rw [hcount']
    split at hc <;> split at hrefs <;> first | contradiction | omega
  · rw [hnext', hnext]
    rcases hmem r hr with ⟨hr, -⟩ | ⟨-, rfl⟩
    · exact hok.fresh r hr
    · exact hok.fresh row hrow

/-- Blob rows deleted, and no file row points at them any more. -/
theorem dropBlobs_counted {shas : List Sha} (hok : s.Ok) {rows : Table FileRow.id}
    (hzero : ∀ x ∈ shas, { s with rows := rows }.refs x = 0)
    (hle : ∀ x ∉ shas, { s with rows := rows }.refs x ≤ s.refs x) :
    { s.dropBlobs shas with rows := rows }.Counted := by
  intro x
  have hcount : { s.dropBlobs shas with rows := rows }.count x =
      if x ∈ shas then 0 else s.count x := Store.count_dropBlobs shas
  have hrefs : { s.dropBlobs shas with rows := rows }.refs x = { s with rows := rows }.refs x := rfl
  rw [hcount, hrefs]
  split
  · next hx => simp [hzero _ hx]
  · next hx => exact Int.le_trans (Int.ofNat_le.mpr (hle _ hx)) (hok.counted _)

/-- **A collection commits** blob rows that nothing points at. -/
theorem dropBlobs_commit {shas : List Sha} (hok : s.Ok) (hzero : ∀ x ∈ shas, s.refs x = 0) :
    Commit (· ∈ shas) (fun _ => False) (fun _ => False) s (s.dropBlobs shas) where
  disk := rfl
  nextId := Nat.le_refl _
  blobs _ hx := (Store.find?_dropBlobs shas).trans (if_neg hx)
  rows _ hr _ _ _ := hr
  kept _ hr _ := hr
  born r hr := .inr ⟨r, hr, rfl, rfl⟩
  locals _ hr _ := .inl hr
  newLocal _ hr _ _ _ := .inl hr
  counted := dropBlobs_counted hok hzero fun _ _ => Nat.le_refl _
  fresh := hok.fresh

/-- **An eviction commits**: the rows of its victims are those of upstreams. -/
theorem evictRows_commit {victims : List Sha} (hok : s.Ok) (hlocal : ∀ x ∈ victims, s.NoLocal x) :
    Commit (· ∈ victims) (fun _ => False)
      (fun id => ∃ r ∈ s.rows, r.id = id ∧ ∃ x ∈ victims, r.blobSha256 = some x) s
      (s.evictRows victims) := by
  have hevicted : ∀ r : FileRow, (∃ x ∈ victims, r.blobSha256 = some x) ∧
      r.evicted victims = { r with blobSha256 := none } ∨
      (∀ x ∈ victims, r.blobSha256 ≠ some x) ∧ r.evicted victims = r := by
    intro r
    unfold FileRow.evicted
    rcases hblob : r.blobSha256 with _ | x
    · exact .inr ⟨fun _ _ => nofun, if_neg Bool.false_ne_true⟩
    · by_cases hx : x ∈ victims
      · exact .inl ⟨⟨x, hx, rfl⟩, if_pos (decide_eq_true hx)⟩
      · refine .inr ⟨fun y hy heq => hx (Option.some.inj heq ▸ hy), if_neg ?_⟩
        simpa using hx
  have hmem : ∀ {r}, r ∈ (s.evictRows victims).rows ↔ ∃ q ∈ s.rows, q.evicted victims = r :=
    List.mem_map
  refine
    { disk := rfl
      nextId := Nat.le_refl _
      blobs := fun x hx => (Store.find?_dropBlobs victims).trans (if_neg hx)
      rows := fun r hr x heq _ => ?_
      kept := fun r hr hmoved => ?_
      born := fun r hr => ?_
      locals := fun r hr hl => .inl ?_
      newLocal := fun r hr _ x heq => .inl ?_
      counted := dropBlobs_counted hok (fun x hx => ?_) fun x _ => ?_
      fresh := fun r hr => ?_ }
  · obtain ⟨q, hq, rfl⟩ := hmem.mp hr
    rcases hevicted q with ⟨-, he⟩ | ⟨-, he⟩ <;> rw [he] at heq ⊢
    · cases heq
    · exact hq
  · rcases hevicted r with ⟨hx, -⟩ | ⟨-, he⟩
    · exact absurd ⟨r, hr, rfl, hx⟩ hmoved
    · exact hmem.mpr ⟨r, hr, he⟩
  · obtain ⟨q, hq, rfl⟩ := hmem.mp hr
    refine .inr ⟨q, hq, (FileRow.evicted_id victims q).symm, ?_⟩
    rcases hevicted q with ⟨-, he⟩ | ⟨-, he⟩ <;> rw [he]
  · rcases hevicted r with ⟨⟨x, hx, heq⟩, -⟩ | ⟨-, he⟩
    · have := hlocal x hx r hr heq
      rw [hl] at this
      cases this
    · exact hmem.mpr ⟨r, hr, he⟩
  · obtain ⟨q, hq, rfl⟩ := hmem.mp hr
    rcases hevicted q with ⟨-, he⟩ | ⟨-, he⟩ <;> rw [he] at heq ⊢
    · cases heq
    · exact hq
  · refine Store.refs_eq_zero_iff.mpr fun r hr heq => ?_
    obtain ⟨q, hq, rfl⟩ := hmem.mp hr
    rcases hevicted q with ⟨-, he⟩ | ⟨hne, he⟩ <;> rw [he] at heq
    · cases heq
    · exact hne x hx heq
  · -- a row that still points at `x` pointed at it before
    have hcongr : (s.evictRows victims).refs x ≤ s.refs x := by
      refine (List.countP_map ..).trans_le (List.countP_mono_left fun q _ hq => ?_)
      rcases hevicted q with ⟨-, he⟩ | ⟨-, he⟩
      · simp [he] at hq
      · simpa [he] using hq
    exact hcongr
  · obtain ⟨q, hq, rfl⟩ := hmem.mp hr
    rw [FileRow.evicted_id]
    exact hok.fresh q hq

/-- A count let go of or added leaves the rest alone. -/
theorem release_frame (s : Store) (old : Sha) : (s.release old).rows = s.rows ∧ (s.release old).disk = s.disk ∧
    (s.release old).nextId = s.nextId ∧
      ∀ x ≠ old, (s.release old).blobs.find? x = s.blobs.find? x := by
  unfold Store.release
  rcases hfind : s.blobs.find? old with _ | blob
  · exact ⟨rfl, rfl, rfl, fun _ _ => rfl⟩
  · obtain rfl : blob.sha256 = old := Table.find?_key hfind
    dsimp only
    split
    · refine ⟨rfl, rfl, rfl, fun x hx => (Store.find?_dropBlobs _).trans (if_neg ?_)⟩
      exact fun hmem => hx (List.mem_singleton.mp hmem)
    · exact ⟨rfl, rfl, rfl, fun x hx => Table.find?_put_of_ne hx⟩

theorem retain_frame (s : Store) (new : Sha) (clock : Time) : (s.retain new clock).rows = s.rows ∧
    (s.retain new clock).disk = s.disk ∧ (s.retain new clock).nextId = s.nextId ∧
      ∀ x ≠ new, (s.retain new clock).blobs.find? x = s.blobs.find? x := by
  unfold Store.retain
  rcases hfind : s.blobs.find? new with _ | blob
  · exact ⟨rfl, rfl, rfl, fun x hx => Table.find?_put_of_ne hx⟩
  · obtain rfl : blob.sha256 = new := Table.find?_key hfind
    exact ⟨rfl, rfl, rfl, fun x hx => Table.find?_put_of_ne hx⟩

/-- **A refresh commits** a row without bytes. -/
theorem list_commit (hok : s.Ok) {row : FileRow} (hid : row.id = s.nextId)
    (hurl : row.upstreamUrl.isSome = true) (hblob : row.blobSha256 = none) :
    Commit (fun _ => False) (fun _ => False) (fun _ => False) s
      { s with rows := s.rows.put row, nextId := s.nextId + 1 } := by
  have hnew : ∀ r ∈ s.rows, r.id ≠ row.id := fun r hr =>
    hid ▸ Nat.ne_of_lt (hok.fresh r hr)
  have hkept : ∀ r ∈ s.rows, r ∈ s.rows.put row := fun r hr =>
    Table.mem_put.mpr (.inr ⟨hr, hnew r hr⟩)
  refine
    { disk := rfl
      nextId := Nat.le_succ _
      blobs := fun _ _ => rfl
      rows := fun r hr x heq _ => ?_
      kept := fun r hr _ => hkept r hr
      born := fun r hr => ?_
      locals := fun r hr _ => .inl (hkept r hr)
      newLocal := fun r hr hl _ _ => ?_
      counted := fun x => ?_
      fresh := fun r hr => ?_ }
  · rcases Table.mem_put.mp hr with rfl | ⟨hr, -⟩
    · rw [hblob] at heq
      cases heq
    · exact hr
  · rcases Table.mem_put.mp hr with rfl | ⟨hr, -⟩
    · exact .inl (Nat.le_of_eq hid.symm)
    · exact .inr ⟨r, hr, rfl, rfl⟩
  · rcases Table.mem_put.mp hr with rfl | ⟨hr, -⟩
    · rw [hl] at hurl
      cases hurl
    · exact .inl hr
  · have hrefs := Store.refs_put row x hnew
    rw [hblob, if_neg nofun, Nat.add_zero] at hrefs
    exact Int.le_trans (Int.ofNat_le.mpr (Nat.le_of_eq hrefs)) (hok.counted x)
  · rcases Table.mem_put.mp hr with rfl | ⟨hr, -⟩
    · exact Nat.lt_succ_of_le (Nat.le_of_eq hid)
    · exact Nat.lt_succ_of_lt (hok.fresh r hr)

/-- A reference of one row moved to another blob, with the counts. -/
theorem setPointer_commit {s₁ : Store} {touched : Sha → Prop} (hok : s.Ok)
    (hrows : s₁.rows = s.rows) (hdisk : s₁.disk = s.disk) (hnext : s₁.nextId = s.nextId)
    (hblobs : ∀ x, ¬ touched x → s₁.blobs.find? x = s.blobs.find? x) (htouched : touched sha)
    {row : FileRow} (hrow : row ∈ s.rows) (hup : row.upstreamUrl.isSome = true)
    (hcount : ∀ x, s.count x + (if sha = x then 1 else 0) ≤
      s₁.count x + if row.blobSha256 = some x then 1 else 0) :
    Commit touched (fun _ => False) (· = row.id) s (s₁.setPointer row.id (some sha)) := by
  have hrow₁ : row ∈ s₁.rows := hrows ▸ hrow
  have hmem : ∀ r ∈ (s₁.setPointer row.id (some sha)).rows,
      r ∈ s.rows ∧ r.id ≠ row.id ∨ r = { row with blobSha256 := some sha } := by
    intro r hr
    obtain ⟨q, hq, rfl⟩ := Store.mem_setPointer.mp hr
    by_cases hid : q.id = row.id
    · obtain rfl := Table.eq_of_key hq hrow₁ hid
      exact .inr (if_pos rfl)
    · rw [show q.withPointer row.id (some sha) = q from if_neg hid]
      exact .inl ⟨hrows ▸ hq, hid⟩
  have hkept : ∀ r ∈ s.rows, r.id ≠ row.id → r ∈ (s₁.setPointer row.id (some sha)).rows :=
    fun r hr hne => Store.mem_setPointer.mpr ⟨r, hrows ▸ hr, if_neg hne⟩
  have hnotLocal : row.upstreamUrl ≠ none := fun h => by simp [h] at hup
  refine
    { disk := hdisk
      nextId := Nat.le_of_eq hnext.symm
      blobs := hblobs
      rows := fun r hr x heq hx => ?_
      kept := hkept
      born := fun r hr => ?_
      locals := fun r hr hl => .inl (hkept r hr fun hid => ?_)
      newLocal := fun r hr hl x heq => ?_
      counted := fun x => ?_
      fresh := fun r hr => ?_ }
  · rcases hmem r hr with ⟨hr, -⟩ | rfl
    · exact hr
    · exact absurd (Option.some.inj heq ▸ htouched) hx
  · rcases hmem r hr with ⟨hr, -⟩ | rfl
    · exact .inr ⟨r, hr, rfl, rfl⟩
    · exact .inr ⟨row, hrow, rfl, rfl⟩
  · rw [Table.eq_of_key hr hrow hid] at hl
    exact hnotLocal hl
  · rcases hmem r hr with ⟨hr, -⟩ | rfl
    · exact .inl hr
    · exact absurd hl hnotLocal
  · have hrefs := Store.refs_setPointer hrow₁ (some sha) x
    have hsame : s₁.refs x = s.refs x := by
      unfold Store.refs
      rw [hrows]
    have hc := hcount x
    have hcounted := hok.counted x
    have hcount' : (s₁.setPointer row.id (some sha)).count x = s₁.count x := rfl
    rw [hcount']
    simp only [Option.some.injEq] at hrefs
    by_cases hx : sha = x <;> by_cases hy : row.blobSha256 = some x <;>
      simp only [hx, hy, if_true, if_false] at hc hrefs ⊢ <;> omega
  · refine Nat.lt_of_lt_of_eq ?_ hnext.symm
    rcases hmem r hr with ⟨hr, -⟩ | rfl
    · exact hok.fresh r hr
    · exact hok.fresh row hrow

/-- **A download commits**: one row of an upstream moves its reference. -/
theorem point_commit (hok : s.Ok) {row : FileRow} (hrow : row ∈ s.rows)
    (hup : row.upstreamUrl.isSome = true) :
    Commit (fun x => x = sha ∨ row.blobSha256 = some x) (fun _ => False) (· = row.id) s
      (s.point sha clock row) := by
  unfold Store.point
  by_cases hsame : row.blobSha256 = some sha
  · rw [if_pos hsame]
    rcases hfind : s.blobs.find? sha with _ | blob
    · dsimp only
      have hpos := Store.refs_pos hrow hsame
      have hcounted := hok.counted sha
      rw [count_of_none hfind] at hcounted
      omega
    · exact .refl hok.counted hok.fresh
  · rw [if_neg hsame]
    rcases hblob : row.blobSha256 with _ | old
    · obtain ⟨hrows, hdisk, hnext, hblobs⟩ := retain_frame s sha clock
      refine setPointer_commit hok hrows hdisk hnext (fun x hx => hblobs x fun heq => hx (.inl heq))
        (.inl rfl) hrow hup fun x => ?_
      rw [Store.count_retain, hblob]
      simp [eq_comm]
    · obtain ⟨hrows', hdisk', hnext', hblobs'⟩ := release_frame s old
      obtain ⟨hrows, hdisk, hnext, hblobs⟩ := retain_frame (s.release old) sha clock
      refine setPointer_commit hok (hrows.trans hrows') (hdisk.trans hdisk') (hnext.trans hnext')
        (fun x hx => ?_) (.inl rfl) hrow hup fun x => ?_
      · refine (hblobs x fun heq => hx (.inl heq)).trans (hblobs' x fun heq => hx (.inr ?_))
        rw [heq]
      · have hrelease := Store.count_release s old x
        rw [Store.count_retain, hblob]
        simp only [Option.some.injEq, eq_comm (a := x)] at hrelease ⊢
        by_cases hx : sha = x <;> by_cases hy : old = x <;>
          simp only [hx, hy, if_true, if_false] at hrelease ⊢ <;> omega

end Commits

/-! ## The invariant -/

/-- What holds of a thread between its steps. -/
def Thread.Ok (store : Store) (clock : Time) (removed : List Nat) : Thread → Prop
  | publish p =>
    match p.phase with
    | .running => (∀ x ∈ p.stored, store.exists? x = true) ∧
      (∀ c ∈ p.claims, c.1 ∈ p.stored ∨ .store c.1 ∈ p.steps) ∧
      ∀ x, .claim x ∈ p.steps → x ∈ p.stored ∨ .store x ∈ p.steps
    | .answered rows => ∀ x ∈ rows, x.1 ∈ removed ∨
      ∃ r ∈ store.rows, r.id = x.1 ∧ r.blobSha256 = some x.2 ∧ r.upstreamUrl = none
    | _ => True
  | record r => r.phase = .adopted → r.fileId < store.nextId ∧
    ∀ row ∈ store.rows, row.id = r.fileId → row.upstreamUrl.isSome = true
  | purge p =>
    match p.phase with
    | .counted sha refcount => p.Takes store sha ∧ store.count sha = refcount + 1
    | .doomed sha | .deleted sha => p.Takes store sha ∧ store.count sha ≤ 1
    | .unpointing => ∃ row ∈ store.rows, row.id = p.fileId ∧ row.blobSha256 = none ∧
      (row.upstreamUrl = none → p.keepRow = false)
    | _ => True
  | evict _ => True
  | collect c => c.committed = false →
    (∀ x ∈ c.dropped, store.refs x = 0) ∧ ∀ x ∈ c.doomed, x ∈ c.dropped
  | sweep w => w.cutoff ≤ clock

/-- **The invariant.** What is marked is spare: no publish relies on it and no file
published here has it. -/
structure Floor.Sound (f : Floor) : Prop where
  store : f.store.Ok
  ok : ∀ (j : Nat) (u : Thread), f.threads[j]? = some u → u.Ok f.store f.clock f.removed
  spare : ∀ (j : Nat) (u : Thread), f.threads[j]? = some u → ∀ x, u.Marks f.store x →
    f.store.NoLocal x ∧ ∀ (k : Nat) (v : Thread), f.threads[k]? = some v → x ∉ v.relies
  locks : ∀ (j k : Nat) (u v : Thread), j ≠ k → f.threads[j]? = some u → f.threads[k]? = some v →
    (∀ x ∈ u.locks, x ∉ v.locks) ∧ ∀ id ∈ u.lockedRow, id ∉ v.lockedRow

section Others

variable {s s' : Store} {clock : Time} {removed : List Nat} {u : Thread} {sha : Sha}

theorem mem_goneRows {r : FileRow} (hr : r ∈ s.rows) (hgone : ∀ q ∈ s'.rows, q.id ≠ r.id) :
    r.id ∈ goneRows s s' :=
  List.mem_map.mpr ⟨r, List.mem_filter.mpr
    ⟨hr, Option.isNone_iff_eq_none.mpr (Table.find?_eq_none_iff.mpr hgone)⟩, rfl⟩

theorem goneRows_of_kept (h : ∀ r ∈ s.rows, r ∈ s'.rows) : goneRows s s' = [] := by
  refine List.map_eq_nil_iff.mpr (List.filter_eq_nil_iff.mpr fun r hr => ?_)
  rw [Table.find?_of_mem (h r hr)]
  exact Bool.false_ne_true

/-- A commit leaves alone what another thread has locked. -/
theorem Thread.Ok.commit {touched published : Sha → Prop} {moved : Nat → Prop}
    (h : u.Ok s clock removed) (hc : Commit touched published moved s s')
    (hlocks : ∀ x ∈ u.locks, ¬ touched x) (hrow : ∀ id ∈ u.lockedRow, ¬ moved id) :
    u.Ok s' clock (removed ++ goneRows s s') := by
  cases u with
  | publish p =>
    obtain ⟨pypi, steps, stored, wrote, claims, phase⟩ := p
    cases phase with
    | running =>
      refine ⟨fun x hx => ?_, h.2⟩
      unfold Store.exists?
      rw [hc.disk]
      exact h.1 x hx
    | answered rows =>
      intro x hx
      rcases h x hx with hgone | ⟨r, hr, hid, hblob, hl⟩
      · exact .inl (List.mem_append_left _ hgone)
      · rcases hc.locals r hr hl with hr' | hgone
        · exact .inr ⟨r, hr', hid, hblob, hl⟩
        · exact .inl (List.mem_append_right _ (hid ▸ mem_goneRows hr hgone))
    | discard | discarding | refused => trivial
  | record r =>
    intro hphase
    obtain ⟨hlt, hup⟩ := h hphase
    refine ⟨Nat.lt_of_lt_of_le hlt hc.nextId, fun row hrow hid => ?_⟩
    rcases hc.born row hrow with hle | ⟨q, hq, hqid, hurl⟩
    · omega
    · rw [← hurl]
      exact hup q hq (hqid.trans hid)
  | purge p =>
    obtain ⟨fileId, keepRow, phase⟩ := p
    have htakes : ∀ x, x ∈ Thread.locks (.purge ⟨fileId, keepRow, phase⟩) →
        some fileId = Thread.lockedRow (.purge ⟨fileId, keepRow, phase⟩) →
        Purge.Takes ⟨fileId, keepRow, phase⟩ s x →
        Purge.Takes ⟨fileId, keepRow, phase⟩ s' x ∧ s'.count x = s.count x := by
      rintro x hx hid ⟨row, hmem, hrid, hblob, hl⟩
      have hcount : s'.count x = s.count x := by
        unfold Store.count
        rw [hc.blobs x (hlocks x hx)]
      refine ⟨⟨row, hc.kept row hmem ?_, hrid, hblob, ?_⟩, hcount⟩
      · rw [show row.id = fileId from hrid]
        exact hrow fileId hid.symm
      · rw [hcount]
        exact hl
    cases phase with
    | begun | read | «over» => trivial
    | counted x n =>
      obtain ⟨ht, hcount⟩ := htakes x List.mem_cons_self rfl h.1
      exact ⟨ht, hcount.trans h.2⟩
    | doomed x | deleted x =>
      obtain ⟨ht, hcount⟩ := htakes x List.mem_cons_self rfl h.1
      exact ⟨ht, hcount ▸ h.2⟩
    | unpointing =>
      obtain ⟨row, hmem, hrid, hblob, hl⟩ := h
      refine ⟨row, hc.kept row hmem ?_, hrid, hblob, hl⟩
      rw [show row.id = fileId from hrid]
      exact hrow fileId rfl
  | evict e => trivial
  | collect c =>
    intro hcommitted
    obtain ⟨hzero, hdoomed⟩ := h hcommitted
    have hlocks : ∀ x ∈ c.dropped, ¬ touched x := by
      intro x hx
      refine hlocks x ?_
      rw [show Thread.locks (.collect c) = c.dropped from if_neg (by simp [hcommitted])]
      exact hx
    refine ⟨fun x hx => Store.refs_eq_zero_iff.mpr fun r hr heq => ?_, hdoomed⟩
    exact Store.refs_eq_zero_iff.mp (hzero x hx) r (hc.rows r hr x heq (hlocks x hx)) heq
  | sweep w => exact h

theorem exists?_putFile (x : Sha) : (s.putFile x clock).exists? x = true := by
  unfold Store.exists? Store.putFile
  rw [show x = StoredFile.sha256 { sha256 := x, modified := clock } from rfl, Table.find?_put_self]
  rfl

/-- A file is put in place. -/
theorem Thread.Ok.putFile (h : u.Ok s clock removed) (ids : List Nat) :
    u.Ok (s.putFile sha clock) clock (removed ++ ids) := by
  have hexists : ∀ x, s.exists? x = true → (s.putFile sha clock).exists? x = true := by
    intro x hx
    by_cases heq : x = sha
    · rw [heq]
      exact exists?_putFile sha
    · exact (congrArg Option.isSome (Table.find?_put_of_ne heq)).trans hx
  cases u with
  | publish p =>
    obtain ⟨pypi, steps, stored, wrote, claims, phase⟩ := p
    cases phase with
    | running => exact ⟨fun x hx => hexists x (h.1 x hx), h.2⟩
    | answered rows => exact fun x hx => (h x hx).imp_left (List.mem_append_left _)
    | discard | discarding | refused => trivial
  | record | purge | evict | collect | sweep => exact h

/-- A spare file is deleted. -/
theorem Thread.Ok.deleteFile (h : u.Ok s clock removed) (hspare : sha ∉ u.relies) (ids : List Nat) :
    u.Ok (s.deleteFile sha) clock (removed ++ ids) := by
  cases u with
  | publish p =>
    obtain ⟨pypi, steps, stored, wrote, claims, phase⟩ := p
    cases phase with
    | running =>
      refine ⟨fun x hx => ?_, h.2⟩
      have hne : x ≠ sha := fun heq => hspare (heq ▸ hx)
      obtain ⟨file, hfile⟩ := Option.isSome_iff_exists.mp (h.1 x hx)
      obtain ⟨hmem, rfl⟩ := Table.find?_eq_some_iff.mp hfile
      exact Option.isSome_iff_exists.mpr
        ⟨file, Table.find?_of_mem (Table.mem_filter.mpr ⟨hmem, decide_eq_true hne⟩)⟩
    | answered rows => exact fun x hx => (h x hx).imp_left (List.mem_append_left _)
    | discard | discarding | refused => trivial
  | record | purge | evict | collect | sweep => exact h

theorem Thread.Marks.congr {x : Sha} (hdisk : s'.disk = s.disk) (h : u.Marks s' x) :
    u.Marks s x := by
  cases u with
  | sweep w =>
    obtain ⟨unknown, hu, hx, hold⟩ := h
    unfold Store.Old at hold
    rw [hdisk] at hold
    exact ⟨unknown, hu, hx, hold⟩
  | publish | record | purge | evict | collect => exact h

/-- A file that was just put in place is marked by no sweep. -/
theorem Thread.Marks.putFile {x : Sha} (hok : u.Ok s clock removed)
    (h : u.Marks (s.putFile sha clock) x) : u.Marks s x := by
  cases u with
  | sweep w =>
    obtain ⟨unknown, hu, hx, file, hfile, hlt⟩ := h
    refine ⟨unknown, hu, hx, file, ?_, hlt⟩
    by_cases heq : x = sha
    · unfold Store.putFile at hfile
      rw [heq, show sha = StoredFile.sha256 { sha256 := sha, modified := clock } from rfl,
        Table.find?_put_self] at hfile
      obtain rfl := Option.some.inj hfile
      have hle : w.cutoff ≤ clock := hok
      exact absurd hlt (Int.not_lt.mpr hle)
    · exact (Table.find?_put_of_ne heq).symm.trans hfile
  | publish | record | purge | evict | collect => exact h

theorem Thread.Marks.deleteFile {x : Sha} (h : u.Marks (s.deleteFile sha) x) : u.Marks s x := by
  cases u with
  | sweep w =>
    obtain ⟨unknown, hu, hx, file, hfile, hlt⟩ := h
    obtain ⟨hmem, rfl⟩ := Table.find?_eq_some_iff.mp hfile
    exact ⟨unknown, hu, hx, file, Table.find?_of_mem (Table.mem_filter.mp hmem).1, hlt⟩
  | publish | record | purge | evict | collect => exact h

end Others

section Steps

variable {f : Floor} {i : Nat} {t t' : Thread} {store : Store}

theorem getElem?_setThread {j : Nat} {u : Thread} (h : (f.set i t' store).threads[j]? = some u) :
    j = i ∧ u = t' ∨ j ≠ i ∧ f.threads[j]? = some u := by
  have hset : (f.set i t' store).threads[j]? = (f.threads.set i t')[j]? := rfl
  rw [hset, List.getElem?_set] at h
  split at h
  · next heq =>
    split at h
    · exact .inl ⟨heq.symm, (Option.some.inj h).symm⟩
    · cases h
  · next hne => exact .inr ⟨Ne.symm hne, h⟩

/-- The thread `i` goes on as `t'` over `store`. -/
theorem Floor.Sound.set (h : f.Sound) (hstore : store.Ok)
    (hself : t'.Ok store f.clock (f.removed ++ goneRows f.store store))
    (hothers : ∀ (j : Nat) (u : Thread), j ≠ i → f.threads[j]? = some u →
      u.Ok store f.clock (f.removed ++ goneRows f.store store) ∧
        ∀ x, u.Marks store x → u.Marks f.store x ∧ store.NoLocal x)
    (hmarks : ∀ x, t'.Marks store x → store.NoLocal x ∧ x ∉ t'.relies ∧
      ∀ (j : Nat) (u : Thread), f.threads[j]? = some u → j ≠ i → x ∉ u.relies)
    (hrelies : ∀ (j : Nat) (u : Thread), j ≠ i → f.threads[j]? = some u → ∀ x,
      u.Marks store x → x ∉ t'.relies)
    (hlocks : ∀ (j : Nat) (u : Thread), j ≠ i → f.threads[j]? = some u →
      (∀ x ∈ t'.locks, x ∉ u.locks) ∧ ∀ id ∈ t'.lockedRow, id ∉ u.lockedRow) :
    (f.set i t' store).Sound where
  store := hstore
  ok j u hu := by
    rcases getElem?_setThread hu with ⟨-, rfl⟩ | ⟨hj, hu'⟩
    · exact hself
    · exact (hothers j u hj hu').1
  spare j u hu x hx := by
    rcases getElem?_setThread hu with ⟨-, rfl⟩ | ⟨hj, hu'⟩
    · obtain ⟨hlocal, hown, hothers⟩ := hmarks x hx
      refine ⟨hlocal, fun k v hv => ?_⟩
      rcases getElem?_setThread hv with ⟨-, rfl⟩ | ⟨hk, hv'⟩
      · exact hown
      · exact hothers k v hv' hk
    · obtain ⟨hold, hlocal⟩ := (hothers j u hj hu').2 x hx
      refine ⟨hlocal, fun k v hv => ?_⟩
      rcases getElem?_setThread hv with ⟨-, rfl⟩ | ⟨-, hv'⟩
      · exact hrelies j u hj hu' x hx
      · exact (h.spare j u hu' x hold).2 k v hv'
  locks j k u v hne hu hv := by
    rcases getElem?_setThread hu with ⟨hj, rfl⟩ | ⟨hj, hu'⟩ <;>
      rcases getElem?_setThread hv with ⟨hk, rfl⟩ | ⟨hk, hv'⟩
    · exact absurd (hj.trans hk.symm) hne
    · exact hlocks k v hk hv'
    · obtain ⟨hx, hid⟩ := hlocks j u hj hu'
      exact ⟨fun x hxu hxv => hx x hxv hxu, fun id hidu hidv => hid id hidv hidu⟩
    · exact h.locks j k u v hne hu' hv'

/-- What a thread that shares nothing new has to show: its own invariant. -/
theorem Floor.Sound.commit (h : f.Sound) (ht : f.threads[i]? = some t)
    {touched published : Sha → Prop} {moved : Nat → Prop}
    (hc : Commit touched published moved f.store store)
    (hpublished : ∀ x, published x → x ∈ t.relies ∧ f.store.exists? x = true)
    (hfree : ∀ (j : Nat) (u : Thread), j ≠ i → f.threads[j]? = some u →
      (∀ x ∈ u.locks, ¬ touched x) ∧ ∀ id ∈ u.lockedRow, ¬ moved id)
    (hself : t'.Ok store f.clock (f.removed ++ goneRows f.store store))
    (hmarks : ∀ x, t'.Marks store x → store.NoLocal x ∧ x ∉ t'.relies ∧
      ∀ (j : Nat) (u : Thread), f.threads[j]? = some u → j ≠ i → x ∉ u.relies)
    (hrelies : t'.relies ⊆ t.relies)
    (hlocks : ∀ (j : Nat) (u : Thread), j ≠ i → f.threads[j]? = some u →
      (∀ x ∈ t'.locks, x ∉ u.locks) ∧ ∀ id ∈ t'.lockedRow, id ∉ u.lockedRow) :
    (f.set i t' store).Sound := by
  refine h.set (hc.ok h.store fun x hx => (hpublished x hx).2) hself (fun j u hj hu => ?_) hmarks
    (fun j u hj hu x hx hrely => ?_) hlocks
  · obtain ⟨hx, hid⟩ := hfree j u hj hu
    refine ⟨(h.ok j u hu).commit hc hx hid, fun x hx => ⟨hx.congr hc.disk, fun r hr heq => ?_⟩⟩
    obtain ⟨hlocal, hspare⟩ := h.spare j u hu x (hx.congr hc.disk)
    by_contra hurl
    have hl : r.upstreamUrl = none := by simpa using hurl
    rcases hc.newLocal r hr hl x heq with hr | hp
    · exact hurl (hlocal r hr heq)
    · exact hspare i t ht (hpublished x hp).1
  · exact (h.spare j u hu x (hx.congr hc.disk)).2 i t ht (hrelies hrely)

/-- A thread goes on over the same store. -/
theorem Floor.Sound.still (h : f.Sound) (ht : f.threads[i]? = some t)
    (hself : t'.Ok f.store f.clock f.removed)
    (hmarks : ∀ x, t'.Marks f.store x → f.store.NoLocal x ∧ x ∉ t'.relies ∧
      ∀ (j : Nat) (u : Thread), f.threads[j]? = some u → j ≠ i → x ∉ u.relies)
    (hrelies : t'.relies ⊆ t.relies)
    (hlocks : ∀ (j : Nat) (u : Thread), j ≠ i → f.threads[j]? = some u →
      (∀ x ∈ t'.locks, x ∉ u.locks) ∧ ∀ id ∈ t'.lockedRow, id ∉ u.lockedRow) :
    (f.set i t' f.store).Sound := by
  have hrefl : Commit (fun _ => False) (fun _ => False) (fun _ => False) f.store f.store :=
    .refl h.store.counted h.store.fresh
  refine h.commit ht hrefl (fun _ hx => hx.elim) (fun _ _ _ _ => ⟨fun _ _ => id, fun _ _ => id⟩)
    ?_ hmarks hrelies hlocks
  rw [goneRows_of_kept fun _ hr => hr, List.append_nil]
  exact hself

/-- A thread deletes a file that it has marked. -/
theorem Floor.Sound.delete (h : f.Sound) (ht : f.threads[i]? = some t) {x : Sha}
    (hx : t.Marks f.store x)
    (hself : ∀ ids, t'.Ok (f.store.deleteFile x) f.clock (f.removed ++ ids))
    (hmarks : ∀ y, t'.Marks (f.store.deleteFile x) y → t.Marks f.store y)
    (hrelies : t'.relies = [])
    (hlocks : ∀ y ∈ t'.locks, y ∈ t.locks) (hrow : ∀ id ∈ t'.lockedRow, id ∈ t.lockedRow) :
    (f.set i t' (f.store.deleteFile x)).Sound := by
  obtain ⟨hlocal, hspare⟩ := h.spare i t ht x hx
  refine h.set ⟨h.store.counted, h.store.fresh, fun r hr hl y heq => ?_⟩ (hself _)
    (fun j u _ hu => ⟨(h.ok j u hu).deleteFile (hspare j u hu) _, fun y hy =>
      ⟨hy.deleteFile, (h.spare j u hu y hy.deleteFile).1⟩⟩) (fun y hy => ?_)
    (fun j u _ hu y hy hrely => ?_) fun j u hj hu => ?_
  · have hne : y ≠ x := by
      rintro rfl
      have := hlocal r hr heq
      rw [hl] at this
      cases this
    obtain ⟨file, hfile⟩ := Option.isSome_iff_exists.mp (h.store.present r hr hl y heq)
    obtain ⟨hmem, rfl⟩ := Table.find?_eq_some_iff.mp hfile
    exact Option.isSome_iff_exists.mpr
      ⟨file, Table.find?_of_mem (Table.mem_filter.mpr ⟨hmem, decide_eq_true hne⟩)⟩
  · obtain ⟨hlocal, hspare⟩ := h.spare i t ht y (hmarks y hy)
    exact ⟨hlocal, hrelies ▸ List.not_mem_nil, fun j u hu _ => hspare j u hu⟩
  · rw [hrelies] at hrely
    cases hrely
  · obtain ⟨hx, hid⟩ := h.locks i j t u hj.symm ht hu
    exact ⟨fun y hy => hx y (hlocks y hy), fun id hid' => hid id (hrow id hid')⟩

/-! ### Each thread -/

theorem not_held {x : Sha} (h : ((f.threads.eraseIdx i).any fun u => x ∈ u.locks) = false) :
    ∀ (j : Nat) (u : Thread), j ≠ i → f.threads[j]? = some u → x ∉ u.locks := by
  intro j u hj hu hx
  have hmem : u ∈ f.threads.eraseIdx i := List.mem_eraseIdx_iff_getElem?.mpr ⟨j, hj, hu⟩
  exact List.any_eq_false.mp h u hmem (decide_eq_true hx)

theorem not_heldRow {id : Nat}
    (h : ((f.threads.eraseIdx i).any fun u => u.lockedRow = some id) = false) :
    ∀ (j : Nat) (u : Thread), j ≠ i → f.threads[j]? = some u → id ∉ u.lockedRow := by
  intro j u hj hu hid
  have hmem : u ∈ f.threads.eraseIdx i := List.mem_eraseIdx_iff_getElem?.mpr ⟨j, hj, hu⟩
  exact List.any_eq_false.mp h u hmem (decide_eq_true hid)

/-- A thread that has no locks, relies on nothing and marks nothing. -/
def Thread.Idle (t : Thread) : Prop :=
  t.locks = [] ∧ t.lockedRow = none ∧ t.relies = [] ∧ ∀ store x, ¬ t.Marks store x

theorem Floor.Sound.idle (h : f.Sound) (ht : f.threads[i]? = some t)
    (hself : t'.Ok f.store f.clock f.removed) (hidle : t'.Idle) :
    (f.set i t' f.store).Sound := by
  obtain ⟨hlocks, hrow, hrelies, hmarks⟩ := hidle
  refine h.still ht hself (fun x hx => (hmarks _ x hx).elim) (by rw [hrelies]; exact nofun)
    fun j u _ _ => ⟨?_, ?_⟩
  · rw [hlocks]
    exact nofun
  · rw [hrow]
    exact nofun

theorem count_zero_noLocal {x : Sha} (h : f.Sound) (hx : f.store.blobs.find? x = none) :
    f.store.NoLocal x := by
  have hcounted := h.store.counted x
  rw [count_of_none hx] at hcounted
  have hzero : f.store.refs x = 0 := by omega
  exact fun r hr heq => absurd heq (Store.refs_eq_zero_iff.mp hzero r hr)

/-- A thread puts a file in place. -/
theorem Floor.Sound.put (h : f.Sound) (ht : f.threads[i]? = some t) {x : Sha}
    (hself : ∀ ids, t'.Ok (f.store.putFile x f.clock) f.clock (f.removed ++ ids))
    (hmarks : ∀ store y, ¬ t'.Marks store y)
    (hrelies : ∀ y ∈ t'.relies, y ∈ t.relies ∨
      ∀ u ∈ f.threads, ¬ u.Marks (f.store.putFile x f.clock) y)
    (hlocks : t'.locks = [] ∧ t'.lockedRow = none) :
    (f.set i t' (f.store.putFile x f.clock)).Sound := by
  have hold : ∀ (j : Nat) (u : Thread), f.threads[j]? = some u → ∀ y,
      u.Marks (f.store.putFile x f.clock) y → u.Marks f.store y := fun j u hu y hy =>
    hy.putFile (h.ok j u hu)
  refine h.set ⟨h.store.counted, h.store.fresh, fun r hr hl y heq => ?_⟩ (hself _)
    (fun j u _ hu => ⟨(h.ok j u hu).putFile _, fun y hy =>
      ⟨hold j u hu y hy, (h.spare j u hu y (hold j u hu y hy)).1⟩⟩)
    (fun y hy => (hmarks _ y hy).elim) (fun j u _ hu y hy hrely => ?_) fun j u _ _ => ?_
  · have hy := h.store.present r hr hl y heq
    by_cases hyx : y = x
    · rw [hyx]
      exact exists?_putFile x
    · exact (congrArg Option.isSome (Table.find?_put_of_ne hyx)).trans hy
  · rcases hrelies y hrely with hrely | hnone
    · exact (h.spare j u hu y (hold j u hu y hy)).2 i t ht hrely
    · exact hnone u (List.mem_of_getElem? hu) hy
  · rw [hlocks.1, hlocks.2]
    exact ⟨nofun, nofun⟩

/-- **A publish takes a step.** -/
theorem Floor.Sound.publish (h : f.Sound) {p p' : Publish}
    (ht : f.threads[i]? = some (.publish p))
    (hapart : Thread.Apart f.clock f.threads f.store (.publish p))
    (hturn : p.turn f.clock (fun x => (f.threads.eraseIdx i).any fun u => x ∈ u.locks) f.store =
      some (store, p')) : (f.set i (.publish p') store).Sound := by
  have hok := h.ok i _ ht
  obtain ⟨pypi, steps, stored, wrote, claims, phase⟩ := p
  cases phase with
  | running =>
    obtain ⟨hstored, hclaims, hsteps⟩ := hok
    match steps with
    | .store x :: steps =>
      obtain ⟨rfl, rfl⟩ := Prod.mk.inj (Option.some.inj hturn)
      refine h.put ht (fun ids => ?_) (fun _ _ => nofun) (fun y hrely => ?_) ⟨rfl, rfl⟩
      · refine ⟨fun y hy => ?_, fun c hc => ?_, fun y hy => ?_⟩
        · rcases List.mem_cons.mp hy with rfl | hy
          · exact exists?_putFile y
          · exact ((h.ok i _ ht).putFile ids).1 y hy
        · rcases hclaims c hc with hmem | hmem
          · exact .inl (List.mem_cons_of_mem _ hmem)
          · rcases List.mem_cons.mp hmem with heq | hmem
            · exact .inl (PublishStep.store.inj heq ▸ List.mem_cons_self)
            · exact .inr hmem
        · rcases hsteps y (List.mem_cons_of_mem _ hy) with hmem | hmem
          · exact .inl (List.mem_cons_of_mem _ hmem)
          · rcases List.mem_cons.mp hmem with heq | hmem
            · exact .inl (PublishStep.store.inj heq ▸ List.mem_cons_self)
            · exact .inr hmem
      · rcases List.mem_cons.mp hrely with rfl | hrely
        · exact .inr hapart
        · exact .inl hrely
    | .claim x :: steps =>
      obtain ⟨rfl, rfl⟩ := Prod.mk.inj (Option.some.inj hturn)
      have hdrop : ∀ y, y ∈ stored ∨ .store y ∈ PublishStep.claim x :: steps →
          y ∈ stored ∨ .store y ∈ steps := fun y => by simp
      refine h.still ht ⟨hstored, fun c hc => ?_, fun y hy => ?_⟩ (fun y hy => nomatch hy)
        (fun y hy => hy) fun j u _ _ => ⟨nofun, nofun⟩
      · rcases List.mem_append.mp hc with hc | hc
        · exact hdrop _ (hclaims c hc)
        · rw [List.mem_singleton.mp hc]
          exact hdrop _ (hsteps x List.mem_cons_self)
      · exact hdrop _ (hsteps y (List.mem_cons_of_mem _ hy))
    | [] =>
      dsimp only [Publish.turn] at hturn
      split at hturn
      · cases hturn
      · next hheld =>
        have hall : ∀ c ∈ claims, c.1 ∈ stored := fun c hc => (hclaims c hc).resolve_right nofun
        rcases hcommit : claims.foldlM (applyClaim f.clock) (f.store, []) with _ | ⟨s', rows⟩
        · rw [hcommit] at hturn
          obtain ⟨rfl, rfl⟩ := Prod.mk.inj (Option.some.inj hturn)
          refine h.idle ht ?_ ?_
          · unfold Publish.fail
            split <;> trivial
          · unfold Publish.fail
            split <;> exact ⟨rfl, rfl, rfl, fun _ _ => nofun⟩
        · rw [hcommit] at hturn
          obtain ⟨rfl, rfl⟩ := Prod.mk.inj (Option.some.inj hturn)
          obtain ⟨hc, hrows⟩ := applyClaims_commit h.store hapart
            (fun c hc => hstored _ (hall c hc)) hcommit
          refine h.commit ht hc ?_ (fun j u hj hu => ⟨?_, fun _ _ => id⟩) ?_
            (fun y hy => nomatch hy) (nofun) fun j u _ _ => ⟨nofun, nofun⟩
          · rintro x ⟨c, hc, rfl⟩
            exact ⟨hall c hc, hstored _ (hall c hc)⟩
          · rintro x hx ⟨c, hc, rfl⟩
            refine not_held ?_ j u hj hu hx
            rw [Bool.not_eq_true, List.any_eq_false] at hheld
            exact Bool.eq_false_iff.mpr (hheld c hc)
          · intro x hx
            exact .inr ⟨_, (hrows x hx).resolve_left List.not_mem_nil, rfl, rfl, rfl⟩
  | discard x =>
    obtain ⟨rfl, rfl⟩ := Prod.mk.inj (Option.some.inj hturn)
    by_cases hnone : (f.store.blobs.find? x).isNone = true
    · rw [if_pos hnone]
      refine h.still ht trivial (fun y hy => ?_) nofun fun j u _ _ => ⟨nofun, nofun⟩
      obtain rfl := PublishPhase.discarding.inj hy
      exact ⟨count_zero_noLocal h (Option.isNone_iff_eq_none.mp hnone), nofun,
        fun j u hu _ => hapart u (List.mem_of_getElem? hu)⟩
    · rw [if_neg hnone]
      exact h.idle ht trivial ⟨rfl, rfl, rfl, fun _ _ => nofun⟩
  | discarding x =>
    obtain ⟨rfl, rfl⟩ := Prod.mk.inj (Option.some.inj hturn)
    exact h.delete ht rfl (fun _ => trivial) (fun _ => nofun) rfl (fun _ => nofun) fun _ => nofun
  | answered rows => cases hturn
  | refused => cases hturn

/-- **A download takes a step.** -/
theorem Floor.Sound.record (h : f.Sound) {r r' : Recording}
    (ht : f.threads[i]? = some (.record r))
    (hturn : r.turn f.clock (fun x => (f.threads.eraseIdx i).any fun u => x ∈ u.locks)
      (fun id => (f.threads.eraseIdx i).any fun u => u.lockedRow = some id) f.store =
      some (store, r')) : (f.set i (.record r') store).Sound := by
  have hok := h.ok i _ ht
  obtain ⟨fileId, sha, phase⟩ := r
  cases phase with
  | begun =>
    dsimp only [Recording.turn] at hturn
    split at hturn
    · next hrow =>
      obtain ⟨rfl, rfl⟩ := Prod.mk.inj (Option.some.inj hturn)
      refine h.put ht (fun ids _ => ?_) (fun _ _ => id) nofun ⟨rfl, rfl⟩
      rcases hfind : f.store.rows.find? fileId with _ | row
      · rw [hfind] at hrow
        cases hrow
      · rw [hfind] at hrow
        obtain ⟨hmem, rfl⟩ := Table.find?_eq_some_iff.mp hfind
        refine ⟨h.store.fresh row hmem, fun q hq hid => ?_⟩
        rw [Table.eq_of_key hq hmem hid]
        exact hrow
    · obtain ⟨rfl, rfl⟩ := Prod.mk.inj (Option.some.inj hturn)
      exact h.idle ht nofun ⟨rfl, rfl, rfl, fun _ _ => id⟩
  | adopted =>
    dsimp only [Recording.turn] at hturn
    rcases hfind : f.store.rows.find? fileId with _ | row
    · rw [hfind] at hturn
      obtain ⟨rfl, rfl⟩ := Prod.mk.inj (Option.some.inj hturn)
      exact h.idle ht nofun ⟨rfl, rfl, rfl, fun _ _ => id⟩
    · rw [hfind] at hturn
      dsimp only at hturn
      obtain ⟨hmem, rfl⟩ := Table.find?_eq_some_iff.mp hfind
      split at hturn
      · cases hturn
      · next hheld =>
        simp only [Bool.or_eq_true, not_or, Bool.not_eq_true] at hheld
        obtain ⟨⟨hsha, hid⟩, hold⟩ := hheld
        split at hturn
        · obtain ⟨rfl, rfl⟩ := Prod.mk.inj (Option.some.inj hturn)
          exact h.idle ht nofun ⟨rfl, rfl, rfl, fun _ _ => id⟩
        · obtain ⟨rfl, rfl⟩ := Prod.mk.inj (Option.some.inj hturn)
          refine h.commit ht (point_commit h.store hmem ((hok rfl).2 row hmem rfl))
            (fun _ hx => hx.elim) (fun j u hj hu => ⟨?_, ?_⟩) nofun (fun _ hx => hx.elim) nofun
            fun j u _ _ => ⟨nofun, nofun⟩
          · rintro x hx (rfl | hblob)
            · exact not_held hsha j u hj hu hx
            · rw [hblob] at hold
              exact not_held hold j u hj hu hx
          · rintro id hrow rfl
            exact not_heldRow hid j u hj hu hrow
  | «over» => cases hturn

/-- A purge of the last reference leaves no file published here with the blob. -/
theorem Purge.Takes.noLocal (h : f.Sound) {p : Purge} {x : Sha} (ht : p.Takes f.store x)
    (hcount : f.store.count x ≤ 1) : f.store.NoLocal x := by
  obtain ⟨row, hrow, -, hblob, hl⟩ := ht
  have hcounted := h.store.counted x
  have hle : f.store.refs x ≤ 1 := by omega
  intro r hr heq
  have huniq := (Table.countP_le_one_iff (p := fun r : FileRow => decide (r.blobSha256 = some x)) hrow
    (decide_eq_true hblob)).mp hle r hr (decide_eq_true heq)
  rw [huniq]
  by_contra hurl
  have := (hl (by simpa using hurl)).2
  omega

theorem Purge.Takes.find? (h : f.Sound) {p : Purge} {x : Sha} (ht : p.Takes f.store x) :
    ∃ blob, f.store.blobs.find? x = some blob := by
  obtain ⟨row, hrow, -, hblob, -⟩ := ht
  have hpos := Store.refs_pos hrow hblob
  have hcounted := h.store.counted x
  rcases hfind : f.store.blobs.find? x with _ | blob
  · rw [count_of_none hfind] at hcounted
    omega
  · exact ⟨blob, rfl⟩

theorem clearRow_idle {fileId : Nat} {keepRow : Bool} :
    (Thread.purge ⟨fileId, keepRow, .over⟩).Idle := ⟨rfl, rfl, rfl, fun _ _ => nofun⟩

/-- A purge commits: its row lets go of the blob it has locked. -/
theorem Floor.Sound.clear (h : f.Sound) {p : Purge} (ht : f.threads[i]? = some (.purge p))
    (touched : Sha → Prop) {row : FileRow} {s₁ : Store} (hrow : row ∈ f.store.rows)
    (hid : row.id = p.fileId) (hlockedRow : Thread.lockedRow (.purge p) = some p.fileId)
    (hlocks : ∀ x, touched x → x ∈ Thread.locks (.purge p))
    (hlocal : row.upstreamUrl = none → p.keepRow = false) (hrows : s₁.rows = f.store.rows)
    (hdisk : s₁.disk = f.store.disk) (hnext : s₁.nextId = f.store.nextId)
    (hblobs : ∀ x, ¬ touched x → s₁.blobs.find? x = f.store.blobs.find? x)
    (hcount : ∀ x, (f.store.refs x : Int) ≤
      s₁.count x + if row.blobSha256 = some x then 1 else 0) :
    (f.set i (.purge { p with phase := .over }) (s₁.clearRow p.fileId p.keepRow)).Sound := by
  rw [← hid]
  refine h.commit ht (clearRow_commit h.store hrows hdisk hnext hblobs hrow hlocal hcount)
    (fun _ hx => hx.elim) (fun j u hj hu => ?_) trivial nofun nofun fun j u _ _ => ⟨nofun, nofun⟩
  obtain ⟨hx, hrow'⟩ := h.locks i j _ u hj.symm ht hu
  refine ⟨fun x hxu hxt => hx x (hlocks x hxt) hxu, ?_⟩
  rintro id hidu rfl
  exact hrow' row.id (hlockedRow.trans (congrArg some hid.symm)) hidu

/-- **A purge takes a step.** -/
theorem Floor.Sound.purge (h : f.Sound) {p p' : Purge} (ht : f.threads[i]? = some (.purge p))
    (hapart : Thread.Apart f.clock f.threads f.store (.purge p))
    (hturn : p.turn (fun x => (f.threads.eraseIdx i).any fun u => x ∈ u.locks)
      (fun id => (f.threads.eraseIdx i).any fun u => u.lockedRow = some id) f.store =
      some (store, p')) : (f.set i (.purge p') store).Sound := by
  have hok := h.ok i _ ht
  obtain ⟨fileId, keepRow, phase⟩ := p
  cases phase with
  | begun =>
    dsimp only [Purge.turn] at hturn
    rcases hfind : f.store.rows.find? fileId with _ | row
    · rw [hfind] at hturn
      obtain ⟨rfl, rfl⟩ := Prod.mk.inj (Option.some.inj hturn)
      exact h.idle ht trivial clearRow_idle
    · rw [hfind] at hturn
      obtain ⟨hmem, rfl⟩ := Table.find?_eq_some_iff.mp hfind
      dsimp only at hturn
      rcases hblob : row.blobSha256 with _ | x
      · rw [hblob] at hturn
        dsimp only at hturn
        split at hturn
        · cases hturn
        · next hheld =>
          obtain ⟨rfl, rfl⟩ := Prod.mk.inj (Option.some.inj hturn)
          cases keepRow with
          | true => exact h.idle ht trivial clearRow_idle
          | false =>
            refine h.still ht ⟨row, hmem, rfl, hblob, fun _ => rfl⟩ (fun _ => nofun) nofun
              fun j u hj hu => ⟨nofun, ?_⟩
            rintro id hid hidu
            obtain rfl := Option.some.inj hid
            exact not_heldRow (Bool.not_eq_true _ ▸ hheld) j u hj hu hidu
      · rw [hblob] at hturn
        obtain ⟨rfl, rfl⟩ := Prod.mk.inj (Option.some.inj hturn)
        exact h.idle ht trivial ⟨rfl, rfl, rfl, fun _ _ => nofun⟩
  | read x =>
    obtain ⟨htakes, hfree⟩ := hapart
    obtain ⟨blob, hfind⟩ := htakes.find? h
    have hcount := count_of_find? hfind
    dsimp only [Purge.turn] at hturn
    split at hturn
    · cases hturn
    · next hheld =>
      rw [hfind] at hturn
      obtain ⟨rfl, rfl⟩ := Prod.mk.inj (Option.some.inj hturn)
      simp only [Bool.or_eq_true, not_or, Bool.not_eq_true] at hheld
      have hlocks : ∀ (j : Nat) (u : Thread), j ≠ i → f.threads[j]? = some u →
          (∀ y ∈ [x], y ∉ u.locks) ∧ ∀ id ∈ some fileId, id ∉ u.lockedRow := by
        intro j u hj hu
        refine ⟨fun y hy => ?_, fun id hid => ?_⟩
        · rw [List.mem_singleton.mp hy]
          exact not_held hheld.1 j u hj hu
        · rw [← Option.some.inj hid]
          exact not_heldRow hheld.2 j u hj hu
      by_cases hle : blob.refcount - 1 ≤ 0
      · rw [if_pos hle]
        have hone : f.store.count x ≤ 1 := by omega
        refine h.still ht ⟨htakes, hone⟩ (fun y hy => ?_) nofun hlocks
        obtain rfl := PurgePhase.doomed.inj hy
        exact ⟨htakes.noLocal h hone, nofun, fun j u hu _ =>
          hfree hone u (List.mem_of_getElem? hu)⟩
      · rw [if_neg hle]
        exact h.still ht ⟨htakes, by omega⟩ (fun _ => nofun) nofun hlocks
  | counted x n =>
    obtain ⟨htakes, hcount⟩ := hok
    obtain ⟨blob, hfind⟩ := htakes.find? h
    obtain ⟨row, hrow, hid, hblob, hl⟩ := htakes
    obtain ⟨rfl, rfl⟩ := Prod.mk.inj (Option.some.inj hturn)
    obtain rfl : blob.sha256 = x := Table.find?_key hfind
    rw [hfind]
    refine h.clear ht (· = blob.sha256) hrow hid rfl
      (fun y hy => List.mem_singleton.mpr hy) (fun hn => (hl hn).1) rfl rfl rfl
      (fun y hy => Table.find?_put_of_ne hy) fun y => ?_
    have hcounted := h.store.counted y
    have hput := Store.count_put f.store { blob with refcount := n } y
    refine Int.le_trans ?_ (Int.add_le_add_right (Int.le_of_eq hput.symm) _)
    rw [hblob]
    by_cases hy : y = blob.sha256
    · subst hy
      simp only [if_true]
      omega
    · simp only [hy, if_false, Option.some.injEq, Ne.symm hy]
      omega
  | doomed x =>
    obtain ⟨rfl, rfl⟩ := Prod.mk.inj (Option.some.inj hturn)
    exact h.delete ht rfl (fun _ => hok) (fun _ => nofun) rfl (fun _ hy => hy) fun _ hid => hid
  | deleted x =>
    obtain ⟨⟨row, hrow, hid, hblob, hl⟩, hcount⟩ := hok
    obtain ⟨rfl, rfl⟩ := Prod.mk.inj (Option.some.inj hturn)
    refine h.clear ht (· ∈ [x]) hrow hid rfl (fun y hy => hy) (fun hn => (hl hn).1)
      rfl rfl rfl (fun y hy => (Store.find?_dropBlobs _).trans (if_neg hy)) fun y => ?_
    have hcounted := h.store.counted y
    rw [Store.count_dropBlobs, hblob]
    by_cases hy : y = x
    · subst hy
      simp only [List.mem_singleton, if_true]
      omega
    · simp only [List.mem_singleton, hy, if_false, Option.some.injEq, Ne.symm hy]
      omega
  | unpointing =>
    obtain ⟨row, hrow, hid, hblob, hl⟩ := hok
    obtain ⟨rfl, rfl⟩ := Prod.mk.inj (Option.some.inj hturn)
    refine h.clear ht (fun _ => False) hrow hid rfl (fun _ hy => hy.elim) hl rfl rfl rfl
      (fun _ _ => rfl) fun y => ?_
    rw [hblob]
    simpa using h.store.counted y
  | «over» => cases hturn

/-- A row that a thread has locked points at what the thread has locked, or at nothing. -/
theorem Thread.Ok.pointer {u : Thread} {clock : Time} {removed : List Nat}
    (h : u.Ok store clock removed) {r : FileRow} (hr : r ∈ store.rows) (hid : r.id ∈ u.lockedRow)
    {x : Sha} (heq : r.blobSha256 = some x) : x ∈ u.locks := by
  cases u with
  | purge p =>
    obtain ⟨fileId, keepRow, phase⟩ := p
    have hsame : ∀ y, Purge.Takes ⟨fileId, keepRow, phase⟩ store y →
        some fileId = some r.id → x = y := by
      rintro y ⟨row, hrow, hrid, hblob, -⟩ hrow'
      rw [Table.eq_of_key hr hrow ((Option.some.inj hrow').symm.trans hrid.symm)] at heq
      exact Option.some.inj (heq.symm.trans hblob)
    cases phase with
    | begun | read | «over» => cases hid
    | counted y n => exact List.mem_singleton.mpr (hsame y h.1 hid)
    | doomed y | deleted y => exact List.mem_singleton.mpr (hsame y h.1 hid)
    | unpointing =>
      obtain ⟨row, hrow, hrid, hblob, -⟩ := h
      rw [Table.eq_of_key hr hrow ((Option.some.inj hid).symm.trans hrid.symm), hblob] at heq
      cases heq
  | publish | record | evict | collect | sweep => cases hid

theorem hasLocalReference_false {x : Sha} (h : store.hasLocalReference x = false) :
    store.NoLocal x := by
  intro r hr heq
  by_contra hurl
  have hnone : r.upstreamUrl.isNone = true := by simpa using hurl
  have hhas : store.hasLocalReference x = true :=
    List.any_eq_true.mpr ⟨r, hr, by rw [heq, hnone]; simp⟩
  exact Bool.false_ne_true (h.symm.trans hhas)

/-- **An eviction takes a step.** -/
theorem Floor.Sound.evict (h : f.Sound) {e e' : Eviction} (ht : f.threads[i]? = some (.evict e))
    (hapart : Thread.Apart f.clock f.threads f.store (.evict e))
    (hturn : e.turn (fun x => (f.threads.eraseIdx i).any fun u => x ∈ u.locks) f.store =
      some (store, e')) : (f.set i (.evict e') store).Sound := by
  have hspare := h.spare i _ ht
  have hown := fun (j : Nat) (u : Thread) (hj : j ≠ i) (hu : f.threads[j]? = some u) =>
    (h.locks i j _ u hj.symm ht hu).1
  obtain ⟨cutoff, candidates, victims, committed⟩ := e
  match committed, candidates, victims with
  | false, x :: candidates, victims =>
    dsimp only [Eviction.turn] at hturn
    split at hturn
    · cases hturn
    · next hheld =>
      obtain ⟨rfl, rfl⟩ := Prod.mk.inj (Option.some.inj hturn)
      have hnot := not_held (Bool.not_eq_true _ ▸ hheld)
      by_cases htakes : Eviction.takes ⟨cutoff, x :: candidates, victims, false⟩ f.store x = true
      · rw [if_pos htakes]
        have hlocal : f.store.NoLocal x := by
          unfold Eviction.takes at htakes
          simp only [Bool.and_eq_true, Bool.not_eq_true'] at htakes
          exact hasLocalReference_false htakes.1.2
        refine h.still ht trivial (fun y hy => ?_) nofun fun j u hj hu => ⟨fun y hy => ?_, nofun⟩
        · rcases List.mem_append.mp hy with hy | hy
          · exact ⟨(hspare y hy).1, nofun, fun j u hu _ => (hspare y hy).2 j u hu⟩
          · rw [List.mem_singleton.mp hy]
            exact ⟨hlocal, nofun, fun j u hu _ => hapart htakes u (List.mem_of_getElem? hu)⟩
        · rcases List.mem_append.mp hy with hy | hy
          · exact hown j u hj hu y hy
          · rw [List.mem_singleton.mp hy]
            exact hnot j u hj hu
      · rw [if_neg htakes]
        exact h.still ht trivial (fun y hy => ⟨(hspare y hy).1, nofun, fun j u hu _ =>
          (hspare y hy).2 j u hu⟩) nofun fun j u hj hu => ⟨hown j u hj hu, nofun⟩
  | false, [], victims =>
    obtain ⟨rfl, rfl⟩ := Prod.mk.inj (Option.some.inj hturn)
    have hc := evictRows_commit h.store fun x hx => (hspare x hx).1
    refine h.commit ht hc (fun _ hx => hx.elim) (fun j u hj hu => ⟨?_, ?_⟩) trivial
      (fun y hy => ⟨fun r hr heq => ?_, nofun, fun j u hu _ => (hspare y hy).2 j u hu⟩) nofun
      fun j u _ _ => ⟨nofun, nofun⟩
    · exact fun x hxu hx => hown j u hj hu x hx hxu
    · rintro id hid ⟨r, hr, rfl, x, hx, heq⟩
      exact hown j u hj hu x hx ((h.ok j u hu).pointer hr hid heq)
    · by_contra hurl
      have hl : r.upstreamUrl = none := by simpa using hurl
      rcases hc.newLocal r hr hl y heq with hr | hfalse
      · exact hurl ((hspare y hy).1 r hr heq)
      · exact hfalse
  | true, candidates, x :: victims =>
    obtain ⟨rfl, rfl⟩ := Prod.mk.inj (Option.some.inj hturn)
    exact h.delete ht (List.mem_cons_self) (fun _ => trivial)
      (fun y hy => List.mem_cons_of_mem _ hy) rfl (fun _ => nofun) fun _ => nofun
  | true, candidates, [] => cases hturn

/-- **A collection takes a step.** -/
theorem Floor.Sound.collect (h : f.Sound) {c c' : Collection}
    (ht : f.threads[i]? = some (.collect c))
    (hapart : Thread.Apart f.clock f.threads f.store (.collect c))
    (hturn : c.turn (fun x => (f.threads.eraseIdx i).any fun u => x ∈ u.locks) f.store =
      some (store, c')) : (f.set i (.collect c') store).Sound := by
  have hok := h.ok i _ ht
  have hown := fun (j : Nat) (u : Thread) (hj : j ≠ i) (hu : f.threads[j]? = some u) =>
    (h.locks i j _ u hj.symm ht hu).1
  obtain ⟨candidates, dropped, doomed, committed⟩ := c
  match committed, doomed, candidates with
  | false, some x, candidates =>
    obtain ⟨rfl, rfl⟩ := Prod.mk.inj (Option.some.inj hturn)
    exact h.delete ht ⟨rfl, rfl⟩ (fun _ _ => ⟨(hok rfl).1, nofun⟩) (fun _ hy => nomatch hy.2) rfl
      (fun _ hy => hy) fun _ => nofun
  | false, none, x :: candidates =>
    dsimp only [Collection.turn] at hturn
    split at hturn
    · cases hturn
    · next hheld =>
      have hnot := not_held (Bool.not_eq_true _ ▸ hheld)
      split at hturn
      · next htakes =>
        obtain ⟨rfl, rfl⟩ := Prod.mk.inj (Option.some.inj hturn)
        have hzero : f.store.refs x = 0 := by
          unfold Collection.takes at htakes
          simp only [Bool.and_eq_true, decide_eq_true_eq] at htakes
          exact htakes.1.2
        refine h.still ht (fun _ => ⟨fun y hy => ?_, fun y hy => ?_⟩) (fun y hy => ?_) nofun
          fun j u hj hu => ⟨fun y hy => ?_, nofun⟩
        · rcases List.mem_append.mp hy with hy | hy
          · exact (hok rfl).1 y hy
          · rw [List.mem_singleton.mp hy]
            exact hzero
        · obtain rfl := Option.some.inj hy
          exact List.mem_append_right _ List.mem_cons_self
        · obtain rfl := Option.some.inj hy.2
          exact ⟨fun r hr heq => absurd heq (Store.refs_eq_zero_iff.mp hzero r hr), nofun,
            fun j u hu _ => hapart htakes u (List.mem_of_getElem? hu)⟩
        · rcases List.mem_append.mp hy with hy | hy
          · exact hown j u hj hu y hy
          · rw [List.mem_singleton.mp hy]
            exact hnot j u hj hu
      · obtain ⟨rfl, rfl⟩ := Prod.mk.inj (Option.some.inj hturn)
        exact h.still ht (fun _ => ⟨(hok rfl).1, nofun⟩) (fun _ hy => nomatch hy.2) nofun
          fun j u hj hu => ⟨hown j u hj hu, nofun⟩
  | false, none, [] =>
    obtain ⟨rfl, rfl⟩ := Prod.mk.inj (Option.some.inj hturn)
    refine h.commit ht (dropBlobs_commit h.store (hok rfl).1) (fun _ hx => hx.elim)
      (fun j u hj hu => ⟨fun x hxu hx => hown j u hj hu x hx hxu, fun _ _ => id⟩) nofun
      (fun _ hy => nomatch hy.1) nofun fun j u _ _ => ⟨nofun, nofun⟩
  | true, doomed, candidates => cases hturn

/-- **A sweep takes a step.** -/
theorem Floor.Sound.sweep (h : f.Sound) {w w' : Sweep} (ht : f.threads[i]? = some (.sweep w))
    (hapart : Thread.Apart f.clock f.threads f.store (.sweep w))
    (hturn : w.turn f.store = some (store, w')) : (f.set i (.sweep w') store).Sound := by
  have hok := h.ok i _ ht
  have hspare := h.spare i _ ht
  obtain ⟨cutoff, candidates, unknown⟩ := w
  match unknown with
  | none =>
    obtain ⟨rfl, rfl⟩ := Prod.mk.inj (Option.some.inj hturn)
    refine h.still ht hok ?_ nofun fun j u _ _ => ⟨nofun, nofun⟩
    rintro y ⟨us, hus, hy, hold⟩
    obtain rfl := Option.some.inj hus
    obtain ⟨hy, hnone⟩ := List.mem_filter.mp hy
    exact ⟨count_zero_noLocal h (Option.isNone_iff_eq_none.mp hnone), nofun,
      fun j u hu _ => hapart rfl y hy hold u (List.mem_of_getElem? hu)⟩
  | some (x :: unknown) =>
    obtain ⟨rfl, rfl⟩ := Prod.mk.inj (Option.some.inj hturn)
    have hless : ∀ y, Thread.Marks f.store y (.sweep ⟨cutoff, candidates, some unknown⟩) →
        Thread.Marks f.store y (.sweep ⟨cutoff, candidates, some (x :: unknown)⟩) := by
      rintro y ⟨us, hus, hy, hold⟩
      obtain rfl := Option.some.inj hus
      exact ⟨_, rfl, List.mem_cons_of_mem _ hy, hold⟩
    unfold Store.deleteIfOlder
    split
    · next hold =>
      obtain ⟨file, hfile, hlt⟩ := (Option.any_eq_true ..).mp hold
      have hmark : Thread.Marks f.store x (.sweep ⟨cutoff, candidates, some (x :: unknown)⟩) :=
        ⟨_, rfl, List.mem_cons_self, file, hfile, of_decide_eq_true hlt⟩
      exact h.delete ht hmark (fun _ => hok) (fun y hy => hless y hy.deleteFile) rfl
        (fun _ => nofun) fun _ => nofun
    · refine h.still ht hok (fun y hy => ?_) nofun fun j u _ _ => ⟨nofun, nofun⟩
      obtain ⟨hlocal, hfree⟩ := hspare y (hless y hy)
      exact ⟨hlocal, nofun, fun j u hu _ => hfree j u hu⟩
  | some [] => cases hturn

/-! ### Every step -/

theorem Job.start_idle (job : Job) (clock : Time) : (job.start clock).Idle := by
  cases job with
  | npm shas => exact ⟨rfl, rfl, rfl, fun _ _ => nofun⟩
  | pypi x => exact ⟨rfl, rfl, rfl, fun _ _ => nofun⟩
  | download fileId x => exact ⟨rfl, rfl, rfl, fun _ _ => id⟩
  | purge fileId keepRow => exact ⟨rfl, rfl, rfl, fun _ _ => nofun⟩
  | evict cutoff candidates => exact ⟨rfl, rfl, rfl, fun _ _ => nofun⟩
  | collect candidates => exact ⟨rfl, rfl, rfl, fun _ _ hx => nomatch hx.2⟩
  | sweep candidates => exact ⟨rfl, rfl, rfl, fun _ _ ⟨_, hu, _⟩ => nomatch hu⟩

theorem Job.start_ok (job : Job) (clock : Time) (store : Store) (removed : List Nat) :
    (job.start clock).Ok store clock removed := by
  cases job with
  | npm shas =>
    refine ⟨nofun, nofun, fun x hx => .inr ?_⟩
    obtain ⟨y, hy, hmem⟩ := List.mem_flatMap.mp hx
    refine List.mem_flatMap.mpr ⟨y, hy, ?_⟩
    rcases List.mem_cons.mp hmem with heq | hmem
    · cases heq
    · rw [PublishStep.claim.inj (List.mem_singleton.mp hmem)]
      exact List.mem_cons_self
  | pypi x =>
    refine ⟨nofun, nofun, fun y hy => .inr ?_⟩
    rcases List.mem_cons.mp hy with heq | hmem
    · rw [PublishStep.claim.inj heq]
      exact List.mem_cons_of_mem _ List.mem_cons_self
    · cases List.mem_singleton.mp hmem
  | download fileId x => exact nofun
  | purge fileId keepRow => trivial
  | evict cutoff candidates => trivial
  | collect candidates => exact fun _ => ⟨nofun, nofun⟩
  | sweep candidates =>
    have hgrace : 0 ≤ orphanFileGrace := by decide
    exact Int.sub_le_self clock hgrace

/-- A thread joins. -/
theorem Floor.Sound.join (h : f.Sound) (hself : t.Ok f.store f.clock f.removed) (hidle : t.Idle) :
    { f with threads := f.threads ++ [t] }.Sound := by
  obtain ⟨hlocks, hrow, hrelies, hmarks⟩ := hidle
  have hget : ∀ (j : Nat) (u : Thread), (f.threads ++ [t])[j]? = some u →
      f.threads[j]? = some u ∨ u = t := by
    intro j u hu
    rw [List.getElem?_append] at hu
    split at hu
    · exact .inl hu
    · exact .inr (List.mem_singleton.mp (List.mem_of_getElem? hu))
  have hlen : ∀ (j : Nat) (u : Thread), (f.threads ++ [t])[j]? = some u →
      f.threads[j]? = some u ∨ u.locks = [] ∧ u.lockedRow = none := by
    intro j u hu
    rcases hget j u hu with hu | rfl
    · exact .inl hu
    · exact .inr ⟨hlocks, hrow⟩
  refine ⟨h.store, fun j u hu => ?_, fun j u hu x hx => ?_, fun j k u v hne hu hv => ?_⟩
  · rcases hget j u hu with hu | rfl
    · exact h.ok j u hu
    · exact hself
  · rcases hget j u hu with hu | rfl
    · refine ⟨(h.spare j u hu x hx).1, fun k v hv => ?_⟩
      rcases hget k v hv with hv | rfl
      · exact (h.spare j u hu x hx).2 k v hv
      · rw [hrelies]
        exact List.not_mem_nil
    · exact (hmarks _ x hx).elim
  · rcases hlen j u hu with hu | ⟨hx, hid⟩
    · rcases hlen k v hv with hv | ⟨hx, hid⟩
      · exact h.locks j k u v hne hu hv
      · rw [hx, hid]
        exact ⟨fun _ _ => List.not_mem_nil, fun _ _ => nofun⟩
    · rw [hx, hid]
      exact ⟨nofun, nofun⟩

/-- A thread that was rolled back is over, or looks at its file again. -/
theorem Thread.abort_idle (habort : t.abort = some t') {clock : Time} {removed : List Nat} :
    t'.Idle ∧ (t.Ok store clock removed → t'.Ok store clock removed) := by
  cases t with
  | publish p =>
    obtain ⟨pypi, steps, stored, wrote, claims, phase⟩ := p
    cases phase with
    | running =>
      obtain rfl := Option.some.inj habort
      unfold Publish.fail
      split <;> exact ⟨⟨rfl, rfl, rfl, fun _ _ => nofun⟩, fun _ => trivial⟩
    | discard | discarding =>
      obtain rfl := Option.some.inj habort
      exact ⟨⟨rfl, rfl, rfl, fun _ _ => nofun⟩, fun _ => trivial⟩
    | answered | refused => cases habort
  | record r =>
    obtain rfl := Option.some.inj habort
    exact ⟨⟨rfl, rfl, rfl, fun _ _ => id⟩, fun _ => nofun⟩
  | purge p =>
    obtain rfl := Option.some.inj habort
    exact ⟨clearRow_idle, fun _ => trivial⟩
  | evict e =>
    obtain rfl := Option.some.inj habort
    exact ⟨⟨rfl, rfl, rfl, fun _ _ => nofun⟩, fun _ => trivial⟩
  | collect c =>
    obtain rfl := Option.some.inj habort
    exact ⟨⟨rfl, rfl, rfl, fun _ _ hx => nomatch hx.1⟩, fun _ => nofun⟩
  | sweep w =>
    obtain rfl := Option.some.inj habort
    refine ⟨⟨rfl, rfl, rfl, ?_⟩, id⟩
    rintro _ x ⟨us, hus, hx, -⟩
    obtain rfl := Option.some.inj hus
    cases hx

/-- Time goes on. -/
theorem Floor.Sound.tick (h : f.Sound) (elapsed : Nat) :
    { f with clock := f.clock + elapsed }.Sound := by
  refine ⟨h.store, fun j u hu => ?_, h.spare, h.locks⟩
  have hok := h.ok j u hu
  cases u with
  | sweep w =>
    have hle : w.cutoff ≤ f.clock := hok
    exact Int.le_trans hle (Int.le_add_of_nonneg_right (Int.natCast_nonneg elapsed))
  | publish | record | purge | evict | collect => exact hok

/-- A commit that leaves every row and every count alone. -/
theorem Floor.Sound.listed (h : f.Sound)
    (hc : Commit (fun _ => False) (fun _ => False) (fun _ => False) f.store store) :
    { f with store := store }.Sound := by
  have hgone : goneRows f.store store = [] := goneRows_of_kept fun r hr => hc.kept r hr id
  refine ⟨hc.ok h.store fun _ hx => hx.elim, fun j u hu => ?_, fun j u hu x hx => ?_, h.locks⟩
  · have hok := (h.ok j u hu).commit hc (fun _ _ => id) fun _ _ => id
    rw [hgone, List.append_nil] at hok
    exact hok
  · obtain ⟨hlocal, hspare⟩ := h.spare j u hu x (hx.congr hc.disk)
    refine ⟨fun r hr heq => ?_, hspare⟩
    by_contra hurl
    have hl : r.upstreamUrl = none := by simpa using hurl
    exact (hc.newLocal r hr hl x heq).elim (fun hr => hurl (hlocal r hr heq)) id

/-- **Every step keeps the invariant.** -/
theorem Floor.Sound.step {f' : Floor} {a : Act} (h : f.Sound) (hapart : Apart f a)
    (hstep : f.step a = some f') : f'.Sound := by
  cases a with
  | start job =>
    obtain rfl := Option.some.inj hstep
    exact h.join (job.start_ok ..) (job.start_idle _)
  | turn i =>
    obtain ⟨t, ht, hrest⟩ := Option.bind_eq_some_iff.mp hstep
    obtain ⟨s, hturn, rfl⟩ := Option.map_eq_some_iff.mp hrest
    have hapart' : t.Apart f.clock f.threads f.store := hapart t ht
    cases t with
    | publish p =>
      obtain ⟨s', hs', rfl⟩ := Option.map_eq_some_iff.mp hturn
      exact h.publish ht hapart' hs'
    | record r =>
      obtain ⟨s', hs', rfl⟩ := Option.map_eq_some_iff.mp hturn
      exact h.record ht hs'
    | purge p =>
      obtain ⟨s', hs', rfl⟩ := Option.map_eq_some_iff.mp hturn
      exact h.purge ht hapart' hs'
    | evict e =>
      obtain ⟨s', hs', rfl⟩ := Option.map_eq_some_iff.mp hturn
      exact h.evict ht hapart' hs'
    | collect c =>
      obtain ⟨s', hs', rfl⟩ := Option.map_eq_some_iff.mp hturn
      exact h.collect ht hapart' hs'
    | sweep w =>
      obtain ⟨s', hs', rfl⟩ := Option.map_eq_some_iff.mp hturn
      exact h.sweep ht hapart' hs'
  | abort i =>
    obtain ⟨t, ht, hrest⟩ := Option.bind_eq_some_iff.mp hstep
    obtain ⟨t', habort, rfl⟩ := Option.map_eq_some_iff.mp hrest
    obtain ⟨hidle, hok⟩ := Thread.abort_idle habort
    exact h.idle ht (hok (h.ok i t ht)) hidle
  | tick elapsed =>
    obtain rfl := Option.some.inj hstep
    exact h.tick elapsed
  | list upstreamUrl upstreamId =>
    obtain rfl := Option.some.inj hstep
    exact h.listed (list_commit h.store rfl rfl rfl)

/-- What is answered is there, and so are its bytes. -/
theorem Floor.Sound.kept (h : f.Sound) : f.Kept := by
  intro p hp rows hphase x hx
  obtain ⟨j, hj⟩ := List.mem_iff_getElem?.mp hp
  have hok := h.ok j _ hj
  obtain ⟨pypi, steps, stored, wrote, claims, phase⟩ := p
  dsimp only at hphase
  subst hphase
  rcases hok x hx with hgone | ⟨r, hr, hid, hblob, hl⟩
  · exact .inl hgone
  · exact .inr ⟨r, hr, hid, hblob, h.store.present r hr hl x.2 hblob⟩

end Steps

/-! ## The store keeps published bytes -/

/-- **The store keeps published bytes.** In every run whose steps stay apart, each file of an
answered publish is in storage until its row is removed. -/
theorem artifactStore_keeps {f : Floor} (h : artifactStore.Reach Apart f) : f.Kept := by
  refine Floor.Sound.kept (h.invariant (I := Floor.Sound) (fun f hinit => ?_)
    fun f a f' hsound hapart hstep => hsound.step hapart hstep)
  obtain ⟨hthreads, -, hstore⟩ := hinit
  exact ⟨hstore, by simp [hthreads], by simp [hthreads], by simp [hthreads]⟩

/-! ## A publish of evicted bytes -/

/-- A file of an upstream that nobody has read for long. -/
def coldStore : Store where
  blobs := ⟨[{ sha256 := "cold" }], by decide⟩
  rows := ⟨[{ id := 1, blobSha256 := some "cold", upstreamUrl := some "cold.tgz" }], by decide⟩
  disk := ⟨[{ sha256 := "cold", modified := 0 }], by decide⟩
  nextId := 2

def idleFloor : Floor := { store := coldStore, clock := 10 }

theorem idleFloor_init : artifactStore.init idleFloor := by
  refine ⟨rfl, rfl, fun x => ?_, by decide, by decide⟩
  by_cases hx : x = "cold"
  · rw [hx]
    decide
  · have hne : ∀ r ∈ coldStore.rows, r.blobSha256 ≠ some x := fun r hr heq => by
      rw [List.mem_singleton.mp hr] at heq
      exact hx (Option.some.inj heq).symm
    have hrefs : coldStore.refs x = 0 := Store.refs_eq_zero_iff.mpr hne
    have hcount : coldStore.count x = 0 := by
      refine count_of_none (Table.find?_eq_none_iff.mpr fun b hb heq => hx ?_)
      rw [← heq, List.mem_singleton.mp hb]
    exact Int.le_of_eq (by rw [show idleFloor.store = coldStore from rfl, hrefs, hcount]; rfl)

/-- Its bytes are published while it is evicted: the publish finds the file in place, and
the eviction deletes it after its commit. -/
def publishEvicted : List Act :=
  [.start (.evict 5 ["cold"]), .start (.npm ["cold"]), .turn 0, .turn 1, .turn 0, .turn 1,
   .turn 1, .turn 0]

/-- A row of an answered publish that was not removed, and whose file is there or is not. -/
def Floor.answeredWith (there : Bool) (f : Floor) : Bool :=
  f.threads.any fun
    | .publish { phase := .answered rows, .. } =>
      rows.any fun x => x.1 ∉ f.removed && f.store.exists? x.2 == there
    | _ => false

theorem answeredWith_iff {there : Bool} {f : Floor} :
    f.answeredWith there = true ↔ ∃ p, .publish p ∈ f.threads ∧ ∃ rows, p.phase = .answered rows ∧
      ∃ x ∈ rows, x.1 ∉ f.removed ∧ f.store.exists? x.2 = there := by
  unfold Floor.answeredWith
  rw [List.any_eq_true]
  constructor
  · rintro ⟨t, ht, hany⟩
    split at hany
    · next rows =>
      obtain ⟨x, hx, hboth⟩ := List.any_eq_true.mp hany
      rw [Bool.and_eq_true, decide_eq_true_eq, beq_iff_eq] at hboth
      exact ⟨_, ht, rows, rfl, x, hx, hboth⟩
    · cases hany
  · rintro ⟨p, hp, rows, hphase, x, hx, hboth⟩
    obtain ⟨pypi, steps, stored, wrote, claims, phase⟩ := p
    dsimp only at hphase
    subst hphase
    refine ⟨_, hp, List.any_eq_true.mpr ⟨x, hx, ?_⟩⟩
    rw [Bool.and_eq_true, decide_eq_true_eq, beq_iff_eq]
    exact hboth

/-- The publish was answered, its row is there, and its file is gone. -/
theorem artifactStore_loses : ∃ f, artifactStore.Reach (fun _ _ => True) f ∧ ¬ f.Kept := by
  have hrun : (publishEvicted.foldlM Floor.step idleFloor).any (Floor.answeredWith false) = true := by
    decide +kernel
  obtain ⟨f, hf, hlost⟩ := (Option.any_eq_true ..).mp hrun
  refine ⟨f, .exec (fun _ _ _ h => ⟨trivial, h⟩) (.init idleFloor_init) hf, fun hkept => ?_⟩
  obtain ⟨p, hp, rows, hanswered, x, hx, hstays, hgone⟩ := answeredWith_iff.mp hlost
  rcases hkept p hp rows hanswered x hx with hremoved | ⟨-, -, -, -, hthere⟩
  · exact hstays hremoved
  · exact Bool.false_ne_true (hgone.symm.trans hthere)

/-- Other bytes are published beside the eviction, and the same ones after it. -/
def publishBeside : List Act :=
  [.start (.evict 5 ["cold"]), .start (.npm ["warm"]), .turn 0, .turn 1, .turn 0, .turn 1,
   .turn 0, .start (.pypi "cold"), .turn 1, .turn 2, .turn 2, .turn 2]

def Floor.apartStep (f : Floor) (a : Act) : Option Floor :=
  if Apart f a then f.step a else none

theorem artifactStore_keeps_publishBeside : ∃ f, artifactStore.Reach Apart f ∧
    f.answeredWith true = true ∧ f.Kept := by
  have hrun : (publishBeside.foldlM Floor.apartStep idleFloor).any (Floor.answeredWith true) =
      true := by
    decide +kernel
  obtain ⟨f, hf, hanswered⟩ := (Option.any_eq_true ..).mp hrun
  have hreach : artifactStore.Reach Apart f := by
    refine .exec (fun s a s' h => ?_) (.init idleFloor_init) hf
    unfold Floor.apartStep at h
    split at h
    · next hapart => exact ⟨hapart, h⟩
    · cases h
  exact ⟨f, hreach, hanswered, artifactStore_keeps hreach⟩

end Minireg.Artifacts
