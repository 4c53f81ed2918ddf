import Mathlib.Data.List.Sort
import Mathlib.Data.Prod.Lex
import Mathlib.Order.Lex
import Mathlib.Data.String.Basic
import Minireg.Services.Artifacts

/-!
# Evicting to a size

`evictTo` walks the blobs batch by batch, least recently read first, behind a cursor, and
takes each one only after it was checked again. Other requests may act before every statement
(`others`). `eviction_order` is what holds whatever they do, and `evict_to` adds what holds
when the eviction is alone: where it ends, and that it leaves nothing older than what it took.
-/

namespace Minireg.Artifacts

open Lib

/-- The order of eviction: `last_accessed_at`, then `sha256`. -/
def Blob.place (b : Blob) : Time ×ₗ Sha := toLex (b.lastAccessedAt, b.sha256)

namespace Store

variable (store : Store) (cutoff : Time)

/-- The blob can be fetched again, and was not read since the cutoff. -/
def evictable (b : Blob) : Bool :=
  b.lastAccessedAt < cutoff && !store.hasLocalReference b.sha256

/-- The check under the row lock. -/
def stillEvictable (sha : Sha) : Bool := (store.blobs.find? sha).any (store.evictable cutoff)

/-- The files of committed victims. -/
def deleteFiles (shas : List Sha) : Store :=
  { store with disk := store.disk.filter (·.sha256 ∉ shas) }

/-- `_stored_bytes`. The size of a blob goes with its content. -/
def storedBytes (size : Sha → Nat) : Nat := store.blobs.sum fun b => size b.sha256

end Store

/-- A blob that was taken, as the batch read it, and the store it was taken from. -/
structure Removal where
  blob : Blob
  found : Store

structure EvictRun where
  store : Store
  used : Nat
  freed : Nat := 0
  last : Option (Time ×ₗ Sha) := none
  removed : List Removal := []
  /-- Statements so far. -/
  turn : Nat := 0

namespace EvictRun

/-- Others act before the next statement. -/
def wait (others : Nat → Store → Store) (r : EvictRun) : EvictRun :=
  { r with store := others r.turn r.store, turn := r.turn + 1 }

/-- `used - freed <= target`. -/
def done (target : Int) (r : EvictRun) : Bool := (r.used : Int) - r.freed ≤ target

/-- The blobs behind the cursor. -/
def behind (r : EvictRun) (b : Blob) : Bool := r.last.all (· < b.place)

/-- The row and its pointers go. -/
def remove (size : Sha → Nat) (r : EvictRun) (b : Blob) : EvictRun :=
  { r with
    store := r.store.evictRows [b.sha256]
    freed := r.freed + size b.sha256
    removed := r.removed ++ [{ blob := b, found := r.store }] }

end EvictRun

section

variable (others : Nat → Store → Store) (size : Sha → Nat) (limit : Nat) (cutoff : Time)
  (target : Int)

/-- The next `limit` rows of the query. -/
def selectBatch (r : EvictRun) : List Blob :=
  ((r.store.blobs.rows.filter fun b => r.store.evictable cutoff b && r.behind b).insertionSort
    fun a b => a.place ≤ b.place).take limit

def evictBlob (r : EvictRun) (b : Blob) : EvictRun :=
  let r := r.wait others
  if r.store.stillEvictable cutoff b.sha256 then r.remove size b else r

/-- The rows of a batch, until there is room. -/
def evictBatch : List Blob → EvictRun → EvictRun
  | [], r => r
  | b :: rows, r =>
    let r := { r with last := some b.place }
    if r.done target then r else evictBatch rows (evictBlob others size cutoff r b)

/-- The files of a batch go after its commit. -/
def commit (before after : EvictRun) : EvictRun :=
  let victims := after.removed.drop before.removed.length
  { after with store := after.store.deleteFiles (victims.map (·.blob.sha256)) }

def evictLoop : Nat → EvictRun → Option EvictRun
  | 0, _ => none
  | fuel + 1, r =>
    if r.done target then some r
    else
      let r := r.wait others
      let rows := selectBatch limit cutoff r
      if rows = [] then some r
      else evictLoop fuel (commit r (evictBatch others size cutoff target rows r))

/-- `evict_to`. -/
def evictTo (fuel : Nat) (store : Store) : Option EvictRun :=
  evictLoop others size 200 cutoff target fuel
    { store := store, used := store.storedBytes size }

end

/-! ## Batches -/

section

variable {others : Nat → Store → Store} {size : Sha → Nat} {limit : Nat} {cutoff : Time}
  {target : Int} {r r' : EvictRun}

theorem mem_selectBatch {b : Blob} (h : b ∈ selectBatch limit cutoff r) :
    b ∈ r.store.blobs ∧ r.store.evictable cutoff b = true ∧ r.behind b = true := by
  have hmem := (List.mem_insertionSort _).mp (List.mem_of_mem_take h)
  obtain ⟨hb, hpass⟩ := List.mem_filter.mp hmem
  exact ⟨hb, Bool.and_eq_true_iff.mp hpass⟩

theorem place_lt_of_le {t : Table Blob.sha256} {a b : Blob} (ha : a ∈ t) (hb : b ∈ t)
    (hne : a ≠ b) (h : a.place ≤ b.place) : a.place < b.place := by
  refine lt_of_le_of_ne h fun heq => hne (Table.eq_of_key ha hb ?_)
  exact congrArg (fun p : Time ×ₗ Sha => (ofLex p).2) heq

/-- The candidates in order, of which a batch is the first ones. -/
theorem selectBatch_split (limit : Nat) (cutoff : Time) (r : EvictRun) : ∃ rest,
    (selectBatch limit cutoff r ++ rest).Pairwise (fun a b => a.place < b.place) ∧
      ∀ b, b ∈ selectBatch limit cutoff r ++ rest ↔
        b ∈ r.store.blobs ∧ r.store.evictable cutoff b = true ∧ r.behind b = true := by
  set candidates := r.store.blobs.rows.filter fun b => r.store.evictable cutoff b && r.behind b
    with hcandidates
  set sorted := candidates.insertionSort fun a b => a.place ≤ b.place with hsorted
  have hmem : ∀ b, b ∈ sorted ↔
      b ∈ r.store.blobs ∧ r.store.evictable cutoff b = true ∧ r.behind b = true := fun b => by
    rw [hsorted, List.mem_insertionSort, hcandidates, List.mem_filter, Bool.and_eq_true]
    rfl
  have hnodup : sorted.Nodup := by
    have hrows : r.store.blobs.rows.Nodup := List.Nodup.of_map _ r.store.blobs.nodup
    exact (List.perm_insertionSort _ candidates).nodup_iff.mpr (hrows.filter _)
  have hle : sorted.Pairwise fun a b => a.place ≤ b.place :=
    List.pairwise_insertionSort _ candidates
  refine ⟨sorted.drop limit, ?_, fun b => ?_⟩
  · change (sorted.take limit ++ sorted.drop limit).Pairwise _
    rw [List.take_append_drop]
    refine (hle.and hnodup).imp_of_mem fun {a b} ha hb h => ?_
    exact place_lt_of_le ((hmem a).mp ha).1 ((hmem b).mp hb).1 h.2 h.1
  · change b ∈ sorted.take limit ++ sorted.drop limit ↔ _
    rw [List.take_append_drop]
    exact hmem b

/-! ## The order, whatever others do -/

/-- What was taken was evictable where it was found, and came in order up to the cursor. -/
structure Orderly (cutoff : Time) (r : EvictRun) : Prop where
  sorted : (r.removed.map (·.blob.place)).Pairwise (· < ·)
  passed : ∀ x ∈ r.removed, ∃ p ∈ r.last, x.blob.place ≤ p
  taken : ∀ x ∈ r.removed, x.found.stillEvictable cutoff x.blob.sha256 = true

theorem Orderly.wait (h : Orderly cutoff r) : Orderly cutoff (r.wait others) :=
  ⟨h.sorted, h.passed, h.taken⟩

theorem Orderly.commit {before : EvictRun} (h : Orderly cutoff r) :
    Orderly cutoff (commit before r) := ⟨h.sorted, h.passed, h.taken⟩

theorem behind_iff {b : Blob} : r.behind b = true ↔ ∀ p ∈ r.last, p < b.place := by
  simp [EvictRun.behind, Option.all_eq_true]

/-- What lies behind the cursor comes after all that was taken. -/
theorem Orderly.lt_of_behind (h : Orderly cutoff r) {b : Blob} (hb : r.behind b = true)
    {x : Removal} (hx : x ∈ r.removed) : x.blob.place < b.place := by
  obtain ⟨p, hp, hle⟩ := h.passed x hx
  exact lt_of_le_of_lt hle (behind_iff.mp hb p hp)

theorem Orderly.advance (h : Orderly cutoff r) {b : Blob} (hb : r.behind b = true) :
    Orderly cutoff { r with last := some b.place } where
  sorted := h.sorted
  passed _ hx := ⟨b.place, rfl, (h.lt_of_behind hb hx).le⟩
  taken := h.taken

theorem Orderly.remove (h : Orderly cutoff r) {b : Blob} (hlast : r.last = some b.place)
    (hlt : ∀ x ∈ r.removed, x.blob.place < b.place)
    (htaken : r.store.stillEvictable cutoff b.sha256 = true) :
    Orderly cutoff (r.remove size b) where
  sorted := by
    rw [EvictRun.remove, List.map_append, List.pairwise_append]
    refine ⟨h.sorted, List.pairwise_singleton _ _, fun p hp q hq => ?_⟩
    obtain ⟨x, hx, rfl⟩ := List.mem_map.mp hp
    obtain rfl := List.mem_singleton.mp hq
    exact hlt x hx
  passed x hx := by
    refine ⟨b.place, hlast, ?_⟩
    rcases List.mem_append.mp hx with hx | hx
    · exact (hlt x hx).le
    · rw [List.mem_singleton.mp hx]
  taken x hx := by
    rcases List.mem_append.mp hx with hx | hx
    · exact h.taken x hx
    · rw [List.mem_singleton.mp hx]
      exact htaken

theorem evictBlob_last (r : EvictRun) (b : Blob) :
    (evictBlob others size cutoff r b).last = r.last := by
  unfold evictBlob
  dsimp only
  split <;> rfl

/-- Once a row was looked at, what comes after it is behind the cursor. -/
theorem behind_evictBlob {b c : Blob} (hlast : r.last = some b.place) (hlt : b.place < c.place) :
    (evictBlob others size cutoff r b).behind c = true := by
  refine behind_iff.mpr fun p hp => ?_
  rw [evictBlob_last, hlast] at hp
  obtain rfl := Option.some.inj hp
  exact hlt

theorem Orderly.evictBlob (h : Orderly cutoff r) {b : Blob} (hlast : r.last = some b.place)
    (hlt : ∀ x ∈ r.removed, x.blob.place < b.place) :
    Orderly cutoff (evictBlob others size cutoff r b) := by
  unfold Artifacts.evictBlob
  dsimp only
  split
  · next htaken => exact (Orderly.wait h).remove hlast hlt htaken
  · exact Orderly.wait h

theorem Orderly.evictBatch {rows : List Blob} (h : Orderly cutoff r)
    (hrows : rows.Pairwise fun a b => a.place < b.place)
    (hbehind : ∀ b ∈ rows, r.behind b = true) :
    Orderly cutoff (evictBatch others size cutoff target rows r) := by
  induction rows generalizing r with
  | nil => exact h
  | cons b rows ih =>
    have hb := hbehind b List.mem_cons_self
    obtain ⟨hfirst, hrows⟩ := List.pairwise_cons.mp hrows
    unfold Artifacts.evictBatch
    dsimp only
    split
    · exact h.advance hb
    · refine ih ((h.advance hb).evictBlob rfl fun x hx => h.lt_of_behind hb hx) hrows fun c hc => ?_
      exact behind_evictBlob rfl (hfirst c hc)

theorem selectBatch_sorted (limit : Nat) (cutoff : Time) (r : EvictRun) :
    (selectBatch limit cutoff r).Pairwise fun a b => a.place < b.place := by
  obtain ⟨rest, hsorted, -⟩ := selectBatch_split limit cutoff r
  exact (List.pairwise_append.mp hsorted).1

theorem Orderly.evictLoop {fuel : Nat} (h : Orderly cutoff r)
    (hrun : evictLoop others size limit cutoff target fuel r = some r') : Orderly cutoff r' := by
  induction fuel generalizing r with
  | zero => cases hrun
  | succ fuel ih =>
    unfold Artifacts.evictLoop at hrun
    split at hrun
    · exact Option.some.inj hrun ▸ h
    · dsimp only at hrun
      split at hrun
      · exact Option.some.inj hrun ▸ h.wait
      · refine ih (Orderly.commit (h.wait.evictBatch (selectBatch_sorted _ _ _) fun b hb => ?_)) hrun
        exact (mem_selectBatch hb).2.2

/-! ## Progress -/

/-- Others put no blob in place that was last read before the cutoff: what is new, or read, is
read now. -/
def Calm (cutoff : Time) (others : Nat → Store → Store) : Prop :=
  ∀ n store, ∀ b ∈ (others n store).blobs, b.lastAccessedAt < cutoff → b ∈ store.blobs

/-- No old blob came, and the cursor did not go back. -/
structure Onward (cutoff : Time) (r r' : EvictRun) : Prop where
  blobs : ∀ b ∈ r'.store.blobs, b.lastAccessedAt < cutoff → b ∈ r.store.blobs
  cursor : ∀ b, r'.behind b = true → r.behind b = true

theorem Onward.refl (r : EvictRun) : Onward cutoff r r := ⟨fun _ h _ => h, fun _ h => h⟩

theorem Onward.trans {r'' : EvictRun} (h : Onward cutoff r r') (h' : Onward cutoff r' r'') :
    Onward cutoff r r'' :=
  ⟨fun b hb hold => h.blobs b (h'.blobs b hb hold) hold, fun b hb => h.cursor b (h'.cursor b hb)⟩

theorem Onward.wait (hcalm : Calm cutoff others) (r : EvictRun) :
    Onward cutoff r (r.wait others) := ⟨fun b => hcalm r.turn r.store b, fun _ h => h⟩

theorem Onward.remove (r : EvictRun) (b : Blob) : Onward cutoff r (r.remove size b) :=
  ⟨fun _ hc _ => (Table.mem_filter.mp hc).1, fun _ h => h⟩

theorem Onward.advance {b : Blob} (hb : r.behind b = true) :
    Onward cutoff r { r with last := some b.place } where
  blobs _ hc _ := hc
  cursor _ hc := behind_iff.mpr fun p hp =>
    lt_trans (behind_iff.mp hb p hp) (behind_iff.mp hc b.place rfl)

theorem Onward.evictBlob (hcalm : Calm cutoff others) (r : EvictRun) (b : Blob) :
    Onward cutoff r (evictBlob others size cutoff r b) := by
  unfold Artifacts.evictBlob
  dsimp only
  split
  · exact (Onward.wait hcalm r).trans (.remove _ _)
  · exact Onward.wait hcalm r

theorem Onward.evictBatch (hcalm : Calm cutoff others) {rows : List Blob}
    (hrows : rows.Pairwise fun a b => a.place < b.place)
    (hbehind : ∀ b ∈ rows, r.behind b = true) :
    Onward cutoff r (evictBatch others size cutoff target rows r) := by
  induction rows generalizing r with
  | nil => exact .refl r
  | cons b rows ih =>
    obtain ⟨hfirst, hrows⟩ := List.pairwise_cons.mp hrows
    refine (Onward.advance (hbehind b List.mem_cons_self)).trans ?_
    unfold Artifacts.evictBatch
    dsimp only
    split
    · exact .refl _
    · refine (Onward.evictBlob hcalm _ b).trans (ih hrows fun c hc => ?_)
      exact behind_evictBlob rfl (hfirst c hc)

/-- A batch leaves its first row at the cursor, or before it. -/
theorem not_behind_evictBatch (hcalm : Calm cutoff others) {b : Blob} {rows : List Blob}
    (hrows : (b :: rows).Pairwise fun a b => a.place < b.place) :
    (evictBatch others size cutoff target (b :: rows) r).behind b = false := by
  obtain ⟨hfirst, hrows⟩ := List.pairwise_cons.mp hrows
  have honward : Onward cutoff { r with last := some b.place }
      (evictBatch others size cutoff target (b :: rows) r) := by
    unfold evictBatch
    dsimp only
    split
    · exact .refl _
    · refine (Onward.evictBlob hcalm _ b).trans (.evictBatch hcalm hrows fun c hc => ?_)
      exact behind_evictBlob rfl (hfirst c hc)
  refine Bool.eq_false_iff.mpr fun hbehind => ?_
  exact lt_irrefl _ (behind_iff.mp (honward.cursor b hbehind) b.place rfl)

/-- The old blobs behind the cursor. -/
def ahead (cutoff : Time) (r : EvictRun) : List Blob :=
  r.store.blobs.rows.filter fun b => b.lastAccessedAt < cutoff && r.behind b

theorem mem_ahead {b : Blob} : b ∈ ahead cutoff r ↔
    b ∈ r.store.blobs ∧ b.lastAccessedAt < cutoff ∧ r.behind b = true := by
  rw [ahead, List.mem_filter, Bool.and_eq_true, decide_eq_true_eq]
  rfl

theorem nodup_ahead (r : EvictRun) : (ahead cutoff r).Nodup :=
  (List.Nodup.of_map _ r.store.blobs.nodup).filter _

theorem Onward.ahead_subset (h : Onward cutoff r r') : ahead cutoff r' ⊆ ahead cutoff r :=
  fun b hb => by
    obtain ⟨hb, hold, hbehind⟩ := mem_ahead.mp hb
    exact mem_ahead.mpr ⟨h.blobs b hb hold, hold, h.cursor b hbehind⟩

theorem Onward.ahead_length (h : Onward cutoff r r') :
    (ahead cutoff r').length ≤ (ahead cutoff r).length :=
  ((nodup_ahead r').subperm h.ahead_subset).length_le

/-- Behind a blob that was passed there is less left. -/
theorem Onward.ahead_lt (h : Onward cutoff r r') {b : Blob} (hb : b ∈ ahead cutoff r)
    (hpassed : r'.behind b = false) :
    (ahead cutoff r').length < (ahead cutoff r).length := by
  have hnot : b ∉ ahead cutoff r' := fun hmem => by
    rw [(mem_ahead.mp hmem).2.2] at hpassed
    cases hpassed
  have hnodup : (b :: ahead cutoff r').Nodup := List.nodup_cons.mpr ⟨hnot, nodup_ahead r'⟩
  have hsub : b :: ahead cutoff r' ⊆ ahead cutoff r :=
    List.cons_subset.mpr ⟨hb, h.ahead_subset⟩
  exact (hnodup.subperm hsub).length_le

/-- **It ends**: every batch passes one of the old blobs at least. -/
theorem evictLoop_returns (hcalm : Calm cutoff others) {fuel : Nat}
    (hfuel : (ahead cutoff r).length < fuel) :
    ∃ r', evictLoop others size limit cutoff target fuel r = some r' := by
  induction fuel generalizing r with
  | zero => exact absurd hfuel (Nat.not_lt_zero _)
  | succ fuel ih =>
    unfold evictLoop
    split
    · exact ⟨r, rfl⟩
    dsimp only
    split
    · exact ⟨_, rfl⟩
    next hrows =>
    have hsorted := selectBatch_sorted limit cutoff (r.wait others)
    have hmem := fun b => @mem_selectBatch limit cutoff (r.wait others) b
    revert hrows hsorted hmem
    generalize selectBatch limit cutoff (r.wait others) = rows
    intro hrows hsorted hmem
    obtain ⟨b, rows, rfl⟩ := List.exists_cons_of_ne_nil hrows
    obtain ⟨hb, hevictable, hbehind⟩ := hmem b List.mem_cons_self
    have honward : Onward cutoff (r.wait others)
        (evictBatch others size cutoff target (b :: rows) (r.wait others)) :=
      .evictBatch hcalm hsorted fun c hc => (hmem c hc).2.2
    have hold : b.lastAccessedAt < cutoff :=
      of_decide_eq_true (Bool.and_eq_true_iff.mp hevictable).1
    have hlt := honward.ahead_lt (mem_ahead.mpr ⟨hb, hold, hbehind⟩)
      (not_behind_evictBatch hcalm hsorted)
    have hle := (Onward.wait hcalm r).ahead_length
    refine ih (Nat.lt_of_lt_of_le ?_ (Nat.le_of_lt_succ hfuel))
    exact Nat.lt_of_lt_of_le hlt hle

/-! ## An eviction that is alone -/

/-- Nobody else acts. -/
def alone (_ : Nat) (store : Store) : Store := store

def EvictRun.shas (r : EvictRun) : List Sha := r.removed.map (·.blob.sha256)

/-- Where an eviction that is alone stands, from the store it started with. -/
structure Quiet (size : Sha → Nat) (cutoff : Time) (target : Int) (store : Store) (r : EvictRun) :
    Prop where
  blobs : ∀ b, b ∈ r.store.blobs ↔ b ∈ store.blobs ∧ b.sha256 ∉ r.shas
  rows : r.store.rows.rows = store.rows.rows.map (FileRow.evicted r.shas)
  disabled : r.store.disabled = store.disabled
  total : r.store.storedBytes size + r.freed = r.used
  source : ∀ x ∈ r.removed, x.blob ∈ store.blobs ∧ store.evictable cutoff x.blob = true
  /-- What the cursor passed is gone, unless there was room. -/
  passed : ∀ b ∈ store.blobs, store.evictable cutoff b = true → r.behind b = false →
    b.sha256 ∈ r.shas ∨ (r.done target = true ∧ ∀ x ∈ r.removed, x.blob.place < b.place)

variable {store : Store}

theorem evicted_append (shas : List Sha) (sha : Sha) (row : FileRow) :
    (row.evicted shas).evicted [sha] = row.evicted (shas ++ [sha]) := by
  unfold FileRow.evicted
  rcases row with ⟨id, _ | blob, url, upstream⟩
  · simp
  · by_cases hin : blob ∈ shas <;> simp [hin]

/-- The rows of the blobs that went point nowhere. -/
theorem Quiet.hasLocalReference (h : Quiet size cutoff target store r) {sha : Sha}
    (hsha : sha ∉ r.shas) : r.store.hasLocalReference sha = store.hasLocalReference sha := by
  unfold Store.hasLocalReference
  rw [h.rows, h.disabled, List.any_map]
  refine congrArg (List.any store.rows.rows) (funext fun row => ?_)
  rw [Function.comp_apply]
  unfold FileRow.evicted
  by_cases hrow : row.blobSha256.any (· ∈ r.shas) = true
  · rw [if_pos hrow]
    obtain ⟨blob, hblob, hin⟩ := (Option.any_eq_true ..).mp hrow
    have hne : row.blobSha256 ≠ some sha := fun heq => by
      rw [hblob] at heq
      obtain rfl := Option.some.inj heq
      exact hsha (of_decide_eq_true hin)
    simp [hne]
  · rw [if_neg hrow]

theorem Quiet.evictable (h : Quiet size cutoff target store r) {b : Blob}
    (hb : b.sha256 ∉ r.shas) : r.store.evictable cutoff b = store.evictable cutoff b := by
  unfold Store.evictable
  rw [h.hasLocalReference hb]

theorem Quiet.stillEvictable (h : Quiet size cutoff target store r) {b : Blob}
    (hb : b ∈ store.blobs) (hevictable : store.evictable cutoff b = true)
    (hleft : b.sha256 ∉ r.shas) : r.store.stillEvictable cutoff b.sha256 = true := by
  have hfind := Table.find?_of_mem ((h.blobs b).mpr ⟨hb, hleft⟩)
  rw [Store.stillEvictable, hfind, Option.any_some, h.evictable hleft, hevictable]

/-- What is at the cursor or before it. -/
theorem le_of_not_behind {b c : Blob} {r : EvictRun}
    (h : ({ r with last := some b.place } : EvictRun).behind c = false) : c.place ≤ b.place := by
  simpa [EvictRun.behind] using h

/-- A batch is what is left, in order: nothing that is left comes before a row of it but the
rows before that. -/
structure Next (cutoff : Time) (store : Store) (r : EvictRun) (rows : List Blob) : Prop where
  sorted : rows.Pairwise fun a b => a.place < b.place
  behind : ∀ b ∈ rows, r.behind b = true
  candidate : ∀ b ∈ rows, b ∈ store.blobs ∧ store.evictable cutoff b = true ∧ b.sha256 ∉ r.shas
  full : ∀ c ∈ store.blobs, store.evictable cutoff c = true → r.behind c = true →
    c.sha256 ∉ r.shas → c ∈ rows ∨ ∀ b ∈ rows, b.place < c.place

/-- The first row of a batch is the first that is left. -/
theorem Next.eq_of_le {b c : Blob} {rows : List Blob} (h : Next cutoff store r (b :: rows))
    (hc : c ∈ store.blobs) (hevictable : store.evictable cutoff c = true)
    (hbehind : r.behind c = true) (hleft : c.sha256 ∉ r.shas) (hle : c.place ≤ b.place) :
    c = b := by
  rcases h.full c hc hevictable hbehind hleft with hin | hlt
  · rcases List.mem_cons.mp hin with rfl | hin
    · rfl
    · exact absurd (List.rel_of_pairwise_cons h.sorted hin) (not_lt.mpr hle)
  · exact absurd (hlt b List.mem_cons_self) (not_lt.mpr hle)

/-- The cursor stops at a row where there is room. -/
theorem Quiet.stop (h : Quiet size cutoff target store r) (hordered : Orderly cutoff r)
    {b : Blob} {rows : List Blob} (hnext : Next cutoff store r (b :: rows))
    (hdone : r.done target = true) :
    Quiet size cutoff target store { r with last := some b.place } where
  blobs := h.blobs
  rows := h.rows
  disabled := h.disabled
  total := h.total
  source := h.source
  passed c hc hevictable hcursor := by
    rcases hbehind : r.behind c with _ | _
    · exact h.passed c hc hevictable hbehind
    · by_cases hleft : c.sha256 ∈ r.shas
      · exact .inl hleft
      · obtain rfl := hnext.eq_of_le hc hevictable hbehind hleft (le_of_not_behind hcursor)
        exact .inr ⟨hdone, fun x hx => hordered.lt_of_behind hbehind hx⟩

/-- Where there is no room the row goes. -/
theorem Quiet.take (h : Quiet size cutoff target store r) {b : Blob} {rows : List Blob}
    (hnext : Next cutoff store r (b :: rows)) (hdone : r.done target = false) :
    Quiet size cutoff target store
      (({ r with last := some b.place } : EvictRun).remove size b) := by
  obtain ⟨hb, hevictable, hleft⟩ := hnext.candidate b List.mem_cons_self
  have hshas : (({ r with last := some b.place } : EvictRun).remove size b).shas =
      r.shas ++ [b.sha256] := by
    rw [EvictRun.shas, EvictRun.remove, List.map_append]
    rfl
  refine ⟨fun c => ?_, ?_, h.disabled, ?_, fun x hx => ?_, fun c hc hcevictable hcursor => ?_⟩
  · rw [hshas]
    change c ∈ r.store.blobs.filter _ ↔ _
    rw [Table.mem_filter, h.blobs]
    simp only [List.mem_singleton, decide_not, Bool.not_eq_true', decide_eq_false_iff_not,
      List.mem_append, not_or]
    exact and_assoc
  · rw [hshas]
    change r.store.rows.rows.map _ = _
    rw [h.rows, List.map_map]
    exact List.map_congr_left fun row _ => evicted_append r.shas b.sha256 row
  · have hsum := Table.sum_filter_ne (fun b => size b.sha256) ((h.blobs b).mpr ⟨hb, hleft⟩)
    have htotal := h.total
    have hbytes : (({ r with last := some b.place } : EvictRun).remove size b).store.storedBytes
        size + size b.sha256 = r.store.storedBytes size := by
      simpa [EvictRun.remove, Store.evictRows, Store.dropBlobs, Store.storedBytes] using hsum
    change _ + (r.freed + size b.sha256) = r.used
    omega
  · rcases List.mem_append.mp hx with hx | hx
    · exact h.source x hx
    · rw [List.mem_singleton.mp hx]
      exact ⟨hb, hevictable⟩
  · rw [hshas]
    refine .inl (List.mem_append.mpr ?_)
    rcases hbehind : r.behind c with _ | _
    · rcases h.passed c hc hcevictable hbehind with hin | ⟨hroom, -⟩
      · exact .inl hin
      · rw [hdone] at hroom
        cases hroom
    · by_cases hgone : c.sha256 ∈ r.shas
      · exact .inl hgone
      · obtain rfl := hnext.eq_of_le hc hcevictable hbehind hgone
          (le_of_not_behind (r := r) hcursor)
        exact .inr List.mem_cons_self

/-- The rest of a batch, once its first row went. -/
theorem Next.tail {b : Blob} {rows : List Blob} (h : Next cutoff store r (b :: rows)) :
    Next cutoff store (({ r with last := some b.place } : EvictRun).remove size b) rows := by
  obtain ⟨hfirst, hsorted⟩ := List.pairwise_cons.mp h.sorted
  have hb := h.candidate b List.mem_cons_self
  have hshas : ∀ sha, sha ∈ (({ r with last := some b.place } : EvictRun).remove size b).shas ↔
      sha ∈ r.shas ∨ sha = b.sha256 := fun sha => by
    rw [EvictRun.shas, EvictRun.remove, List.map_append, List.mem_append]
    simp [EvictRun.shas]
  refine ⟨hsorted, fun c hc => ?_, fun c hc => ?_, fun c hc hevictable hcursor hleft => ?_⟩
  · exact behind_iff.mpr fun p hp => Option.some.inj hp ▸ hfirst c hc
  · obtain ⟨hin, hevictable, hleft⟩ := h.candidate c (List.mem_cons_of_mem _ hc)
    refine ⟨hin, hevictable, fun hgone => ?_⟩
    rcases (hshas _).mp hgone with hgone | heq
    · exact hleft hgone
    · have hsame := Table.eq_of_key hin hb.1 heq
      exact lt_irrefl _ (hsame ▸ hfirst c hc)
  · have hleft' : c.sha256 ∉ r.shas ∧ c.sha256 ≠ b.sha256 := by
      rwa [hshas, not_or] at hleft
    have honward : Onward cutoff r { r with last := some b.place } :=
      .advance (h.behind b List.mem_cons_self)
    have hbehind : r.behind c = true := honward.cursor c hcursor
    rcases h.full c hc hevictable hbehind hleft'.1 with hin | hlt
    · rcases List.mem_cons.mp hin with rfl | hin
      · exact absurd rfl hleft'.2
      · exact .inl hin
    · exact .inr fun d hd => hlt d (List.mem_cons_of_mem _ hd)

theorem Quiet.evictBatch (h : Quiet size cutoff target store r) (hordered : Orderly cutoff r)
    {rows : List Blob} (hnext : Next cutoff store r rows) :
    Quiet size cutoff target store (evictBatch alone size cutoff target rows r) := by
  induction rows generalizing r with
  | nil => exact h
  | cons b rows ih =>
    unfold Artifacts.evictBatch
    dsimp only
    have hb := hnext.behind b List.mem_cons_self
    obtain ⟨hin, hevictable, hleft⟩ := hnext.candidate b List.mem_cons_self
    rcases hdone : r.done target with _ | _
    · rw [if_neg (by simpa [EvictRun.done] using hdone)]
      have hstill := h.stillEvictable hin hevictable hleft
      have hblob : evictBlob alone size cutoff ({ r with last := some b.place } : EvictRun) b =
          (({ r with last := some b.place, turn := r.turn + 1 } : EvictRun).remove size b) := by
        unfold evictBlob
        dsimp only
        rw [if_pos (by exact hstill)]
        rfl
      rw [hblob]
      have hordered' : Orderly cutoff (({ r with last := some b.place } : EvictRun).remove size b) :=
        .remove (hordered.advance hb) rfl (fun x hx => hordered.lt_of_behind hb hx) hstill
      have htake := h.take hnext hdone
      have htail : Next cutoff store (({ r with last := some b.place } : EvictRun).remove size b)
          rows := hnext.tail
      -- the count of statements plays no part
      exact ih ⟨htake.blobs, htake.rows, htake.disabled, htake.total, htake.source, htake.passed⟩
        ⟨hordered'.sorted, hordered'.passed, hordered'.taken⟩
        ⟨htail.sorted, htail.behind, htail.candidate, htail.full⟩
    · rw [if_pos (by exact hdone)]
      exact h.stop hordered hnext hdone

theorem Quiet.commit {before : EvictRun} (h : Quiet size cutoff target store r) :
    Quiet size cutoff target store (commit before r) :=
  ⟨h.blobs, h.rows, h.disabled, h.total, h.source, h.passed⟩

theorem Quiet.next (h : Quiet size cutoff target store r) :
    Next cutoff store r (selectBatch limit cutoff r) := by
  obtain ⟨rest, hsorted, hmem⟩ := selectBatch_split limit cutoff r
  obtain ⟨hbatch, -, hrest⟩ := List.pairwise_append.mp hsorted
  refine ⟨hbatch, fun b hb => (mem_selectBatch hb).2.2, fun b hb => ?_,
    fun c hc hevictable hbehind hleft => ?_⟩
  · obtain ⟨hin, hevictable, -⟩ := mem_selectBatch hb
    obtain ⟨hin, hleft⟩ := (h.blobs b).mp hin
    exact ⟨hin, h.evictable hleft ▸ hevictable, hleft⟩
  · have hcandidate := (hmem c).mpr
      ⟨(h.blobs c).mpr ⟨hc, hleft⟩, (h.evictable hleft).trans hevictable, hbehind⟩
    rcases List.mem_append.mp hcandidate with hin | hin
    · exact .inl hin
    · exact .inr fun b hb => hrest b hb c hin

/-- Where the loop ends: there is room, or nothing is left to take. -/
theorem Quiet.evictLoop {fuel : Nat} (hlimit : 0 < limit)
    (h : Quiet size cutoff target store r) (hordered : Orderly cutoff r)
    (hrun : evictLoop alone size limit cutoff target fuel r = some r') :
    Quiet size cutoff target store r' ∧
      (r'.done target = true ∨ ∀ b ∈ r'.store.blobs, r'.store.evictable cutoff b = false) := by
  induction fuel generalizing r with
  | zero => cases hrun
  | succ fuel ih =>
    unfold Artifacts.evictLoop at hrun
    split at hrun
    · next hdone => exact Option.some.inj hrun ▸ ⟨h, .inl hdone⟩
    next hdone =>
    dsimp only at hrun
    have hwait : Quiet size cutoff target store (r.wait alone) :=
      ⟨h.blobs, h.rows, h.disabled, h.total, h.source, h.passed⟩
    split at hrun
    · next hnone =>
      obtain rfl := Option.some.inj hrun
      refine ⟨hwait, .inr fun b hb => Bool.eq_false_iff.mpr fun hevictable => ?_⟩
      obtain ⟨hin, hleft⟩ := (hwait.blobs b).mp hb
      rcases hbehind : (r.wait alone).behind b with _ | _
      · rcases hwait.passed b hin ((hwait.evictable hleft).symm.trans hevictable) hbehind with
          hgone | ⟨hroom, -⟩
        · exact hleft hgone
        · exact hdone hroom
      · have hcandidates : b ∈ (r.wait alone).store.blobs.rows.filter fun b =>
            (r.wait alone).store.evictable cutoff b && (r.wait alone).behind b :=
          List.mem_filter.mpr ⟨hb, by rw [hevictable, hbehind]; rfl⟩
        rcases List.take_eq_nil_iff.mp hnone with hzero | hempty
        · exact absurd hzero hlimit.ne'
        · have hsorted := (List.mem_insertionSort (fun a b : Blob => a.place ≤ b.place)).mpr
            hcandidates
          rw [hempty] at hsorted
          cases hsorted
    · have hnext : Next cutoff store (r.wait alone) (selectBatch limit cutoff (r.wait alone)) :=
        hwait.next
      have hbatch := hwait.evictBatch hordered.wait hnext
      have hordered' : Orderly cutoff (Artifacts.evictBatch alone size cutoff target
          (selectBatch limit cutoff (r.wait alone)) (r.wait alone)) :=
        hordered.wait.evictBatch hnext.sorted hnext.behind
      exact ih hbatch.commit hordered'.commit hrun

theorem Quiet.start (size : Sha → Nat) (cutoff : Time) (target : Int) (store : Store) :
    Quiet size cutoff target store { store := store, used := store.storedBytes size } where
  blobs b := ⟨fun h => ⟨h, List.not_mem_nil⟩, And.left⟩
  rows := by
    refine (List.map_id'' (fun row => ?_) _).symm
    unfold FileRow.evicted
    rw [if_neg (by simp [EvictRun.shas])]
  disabled := rfl
  total := rfl
  source _ hx := absurd hx List.not_mem_nil
  passed _ _ _ hcursor := by cases hcursor

theorem Orderly.start (size : Sha → Nat) (cutoff : Time) (store : Store) :
    Orderly cutoff { store := store, used := store.storedBytes size } where
  sorted := List.Pairwise.nil
  passed _ hx := absurd hx List.not_mem_nil
  taken _ hx := absurd hx List.not_mem_nil

/-! ## The eviction -/

/-- The blob was last read before the cutoff, and every file that needs it can be fetched again:
it was not published here, and its upstream is enabled. -/
def Store.Spare (store : Store) (cutoff : Time) (sha : Sha) : Prop :=
  (∃ b ∈ store.blobs, b.sha256 = sha ∧ b.lastAccessedAt < cutoff) ∧
    ∀ row ∈ store.rows, row.blobSha256 = some sha →
      row.upstreamUrl ≠ none ∧ ∀ u ∈ row.upstreamId, u ∉ store.disabled

theorem hasLocalReference_false_iff {sha : Sha} : store.hasLocalReference sha = false ↔
    ∀ row ∈ store.rows, row.blobSha256 = some sha →
      row.upstreamUrl ≠ none ∧ ∀ u ∈ row.upstreamId, u ∉ store.disabled := by
  unfold Store.hasLocalReference
  rw [List.any_eq_false]
  refine forall_congr' fun row => forall_congr' fun _ => ?_
  simp only [Bool.and_eq_true, decide_eq_true_eq, Bool.or_eq_true, not_and, not_or,
    Bool.not_eq_true, Option.isNone_eq_false_iff, Option.isSome_iff_ne_none, Option.any_eq_false,
    decide_eq_false_iff_not, Option.mem_def]

theorem spare_of_stillEvictable {sha : Sha} (h : store.stillEvictable cutoff sha = true) :
    store.Spare cutoff sha := by
  obtain ⟨b, hb, hevictable⟩ := (Option.any_eq_true ..).mp h
  obtain ⟨hold, hlocal⟩ := Bool.and_eq_true_iff.mp hevictable
  rw [Table.find?_key hb] at hlocal
  exact ⟨⟨b, Table.find?_mem hb, Table.find?_key hb, of_decide_eq_true hold⟩,
    hasLocalReference_false_iff.mp (by simpa using hlocal)⟩

theorem evictable_of_spare {b : Blob} (hb : b ∈ store.blobs)
    (h : store.Spare cutoff b.sha256) : store.evictable cutoff b = true := by
  obtain ⟨⟨b', hb', hsha, hold⟩, hlocal⟩ := h
  obtain rfl := Table.eq_of_key hb' hb hsha
  rw [Store.evictable, hasLocalReference_false_iff.mpr hlocal, decide_eq_true hold]
  rfl

end

/-- **Evicting to a size**. Whatever others do meanwhile, as long as what they add or read is
read now, the eviction ends, takes blobs least recently read first, and takes none that is not
spare where it is taken. An eviction that is alone ends at the target or with no spare blob
left, leaves no spare blob read before one that it took, and changes nothing else. -/
theorem evict_to (size : Sha → Nat) (cutoff : Time) (target : Int) (store : Store) {fuel : Nat}
    (hfuel : store.blobs.rows.length < fuel) :
    (∀ others, Calm cutoff others →
      ∃ r, evictTo others size cutoff target fuel store = some r ∧
        (r.removed.map (·.blob.place)).Pairwise (· < ·) ∧
        ∀ x ∈ r.removed, x.found.Spare cutoff x.blob.sha256) ∧
    ∃ r, evictTo alone size cutoff target fuel store = some r ∧
      ((r.store.storedBytes size : Int) ≤ target ∨
        ∀ b ∈ r.store.blobs, ¬ r.store.Spare cutoff b.sha256) ∧
      (∀ x ∈ r.removed, store.Spare cutoff x.blob.sha256 ∧
        ∀ b ∈ r.store.blobs, store.Spare cutoff b.sha256 → x.blob.place < b.place) ∧
      (∀ b, b ∈ r.store.blobs ↔ b ∈ store.blobs ∧ b.sha256 ∉ r.shas) ∧
      r.store.rows.rows = store.rows.rows.map (FileRow.evicted r.shas) := by
  have hstart : (ahead cutoff { store := store, used := store.storedBytes size }).length < fuel :=
    Nat.lt_of_le_of_lt (List.length_filter_le _ _) hfuel
  refine ⟨fun others hcalm => ?_, ?_⟩
  · obtain ⟨r, hrun⟩ : ∃ r, evictTo others size cutoff target fuel store = some r :=
      evictLoop_returns hcalm hstart
    have hordered := (Orderly.start size cutoff store).evictLoop hrun
    exact ⟨r, hrun, hordered.sorted, fun x hx => spare_of_stillEvictable (hordered.taken x hx)⟩
  · have hcalm : Calm cutoff alone := fun _ _ _ hb _ => hb
    obtain ⟨r, hrun⟩ : ∃ r, evictTo alone size cutoff target fuel store = some r :=
      evictLoop_returns hcalm hstart
    have hordered := (Orderly.start size cutoff store).evictLoop hrun
    obtain ⟨hquiet, hend⟩ := (Quiet.start size cutoff target store).evictLoop (by decide)
      (Orderly.start size cutoff store) hrun
    refine ⟨r, hrun, ?_, fun x hx => ⟨?_, fun b hb hspare => ?_⟩, hquiet.blobs, hquiet.rows⟩
    · rcases hend with hdone | hnone
      · refine .inl ?_
        have htotal := hquiet.total
        have hroom : (r.used : Int) - r.freed ≤ target := of_decide_eq_true hdone
        omega
      · refine .inr fun b hb hspare => ?_
        have hleft := hnone b hb
        rw [evictable_of_spare hb hspare] at hleft
        cases hleft
    · obtain ⟨hin, hevictable⟩ := hquiet.source x hx
      have hstill : store.stillEvictable cutoff x.blob.sha256 = true := by
        rw [Store.stillEvictable, Table.find?_of_mem hin]
        exact hevictable
      exact spare_of_stillEvictable hstill
    · obtain ⟨hin, hleft⟩ := (hquiet.blobs b).mp hb
      have hevictable := evictable_of_spare hin hspare
      rcases hbehind : r.behind b with _ | _
      · rcases hquiet.passed b hin hevictable hbehind with hgone | ⟨-, hlt⟩
        · exact absurd hgone hleft
        · exact hlt x hx
      · exact hordered.lt_of_behind hbehind hx

/-- A cached file that was not read lately, and one that was published here. -/
def quietStore : Store where
  blobs := ⟨[{ sha256 := "cold", lastAccessedAt := 1 }, { sha256 := "ours", lastAccessedAt := 2 }],
    by decide⟩
  rows := ⟨[{ id := 1, blobSha256 := some "cold", upstreamUrl := some "/cold.tgz" },
    { id := 2, blobSha256 := some "ours" }], by decide⟩

theorem evict_to_cold :
    ∃ r, evictTo alone (fun _ => 1) 5 0 3 quietStore = some r ∧
      ((r.store.storedBytes (fun _ => 1) : Int) ≤ 0 ∨
        ∀ b ∈ r.store.blobs, ¬ r.store.Spare 5 b.sha256) := by
  obtain ⟨r, hrun, hend, -⟩ := (@evict_to (fun _ => 1) 5 0 quietStore 3 (by decide)).2
  exact ⟨r, hrun, hend⟩

end Minireg.Artifacts
