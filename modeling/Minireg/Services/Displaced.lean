import Minireg.Services.Packages
import Minireg.Services.Tiers

/-!
# A higher tier displaces a lower one

After a refresh answered by tier `t`, what remains of the tiers after `t` is what
the answer itself lists. `Refreshed` is what persisting an answer can do to one
version row, `pruneUnsourced_versions` what pruning keeps of it, `Displacement`
the two together. `resolve_answerFrom` ties the answer to the resolver.
-/

namespace Minireg

open Py Lib

/-! ## What the answer's sources are -/

/-- `s` is a source for the name, in tier `t` or earlier. -/
def LiveBy (live : Dict Nat Int) (t : Int) (s : Nat) : Prop :=
  ∃ tier, Dict.get? live s = some tier ∧ tier ≤ t

/-- `s` is no source for the name any more, or ranked in a tier after `t`. -/
def Displaceable (live : Dict Nat Int) (t : Int) (s : Nat) : Prop := ¬ LiveBy live t s

/-- The answer of a resolution that ended in tier `t`: the answering upstream and
the sources its files are stamped with are sources of that tier. -/
structure AnswerFrom (live : Dict Nat Int) (t : Int) (upstream : Upstream)
    (answer : RemotePackage) : Prop where
  upstream_tier : Dict.get? live upstream.id = some t
  file_tier : ∀ rv ∈ answer.versions, ∀ f ∈ rv.files, ∀ s, f.upstreamId = some s →
    Dict.get? live s = some t

/-- The recorded sources of a version: those of its files, its own when it has none. -/
def PackageVersion.sources (v : PackageVersion) : List Nat :=
  if v.files.rows ≠ [] then v.files.rows.filterMap PackageFile.upstreamId else v.upstreamId.toList

theorem mem_sources_of_file {v : PackageVersion} {f : PackageFile} {s : Nat} (hf : f ∈ v.files)
    (hs : f.upstreamId = some s) : s ∈ v.sources := by
  unfold PackageVersion.sources
  rw [if_pos (List.ne_nil_of_mem hf)]
  exact List.mem_filterMap.mpr ⟨f, hf, hs⟩

/-! ## Persisting one version -/

theorem assign_fst {α ν : Type} [DecidableEq ν] {attr : α → ν} {put : α → ν → α}
    (h : ∀ a, put a (attr a) = a) (value : ν) (s : α × Bool) :
    (assign attr put value s).1 = put s.1 value := by
  unfold assign
  split
  · next he => rw [← he, h]
  · rfl

theorem assignHash_frame (s : PackageFile × Bool) (hash : String × String) :
    (assignHash s hash).1.filename = s.1.filename ∧
      (assignHash s hash).1.upstreamId = s.1.upstreamId := by
  unfold assignHash
  split <;> simp [assign_fst]

theorem foldl_assignHash_frame (hashes : List (String × String)) (s : PackageFile × Bool) :
    (hashes.foldl assignHash s).1.filename = s.1.filename ∧
      (hashes.foldl assignHash s).1.upstreamId = s.1.upstreamId := by
  induction hashes generalizing s with
  | nil => exact ⟨rfl, rfl⟩
  | cons h hs ih =>
    obtain ⟨h1, h2⟩ := assignHash_frame s h
    rw [List.foldl_cons, (ih _).1, (ih _).2]
    exact ⟨h1, h2⟩

/-- A file row keeps its name and moves to the file's source. -/
theorem applyFile_source {row : PackageFile} {remote : RemoteFile} {upstreamId : Option Nat}
    (h : idOr remote.upstreamId upstreamId ≠ none) :
    (applyFile row remote upstreamId).1.filename = row.filename ∧
      (applyFile row remote upstreamId).1.upstreamId = idOr remote.upstreamId upstreamId := by
  unfold applyFile
  dsimp only
  split
  · simp [assign_fst]
  · rw [(foldl_assignHash_frame _ _).1, (foldl_assignHash_frame _ _).2]
    rcases remote.yanked with b | reason <;> rcases remote.coreMetadata with _ | ⟨_ | _⟩ | fields <;>
      simp [assign_fst]

/-- The columns that no refresh of a row writes. -/
structure SameRow (v v' : PackageVersion) : Prop where
  version : v'.version = v.version
  normalizedVersion : v'.normalizedVersion = v.normalizedVersion
  isLocal : v'.isLocal = v.isLocal

theorem SameRow.trans {v v' v'' : PackageVersion} (h : SameRow v v') (h' : SameRow v' v'') :
    SameRow v v'' where
  version := h'.version.trans h.version
  normalizedVersion := h'.normalizedVersion.trans h.normalizedVersion
  isLocal := h'.isLocal.trans h.isLocal

theorem persistFile_sameRow {defaultSource : Option Nat} (s : PackageVersion × Bool)
    (remote : RemoteFile) : SameRow s.1 (persistFile defaultSource s remote).1 := by
  unfold persistFile
  split <;> exact ⟨rfl, rfl, rfl⟩

theorem persistFiles_sameRow {defaultSource : Option Nat} (files : List RemoteFile)
    (s : PackageVersion × Bool) : SameRow s.1 (files.foldl (persistFile defaultSource) s).1 := by
  induction files generalizing s with
  | nil => exact ⟨rfl, rfl, rfl⟩
  | cons f files ih => exact (persistFile_sameRow s f).trans (ih _)

theorem persistFields_sameRow {defaultSource : Option Nat} (remote : RemoteVersion) (isNew : Bool)
    (v : PackageVersion) : SameRow v (persistFields defaultSource remote isNew v).1 := by
  unfold persistFields
  dsimp only
  refine SameRow.trans ?_ (persistFiles_sameRow _ _)
  constructor <;>
    (rcases remote.yanked with b | reason <;> simp only [assign_fst, implies_true] <;>
      split <;> simp only [assign_fst, implies_true])

/-- What an answer whose sources meet `src` can make of a version row. -/
structure Refreshed (src : Nat → Prop) (v v' : PackageVersion) : Prop where
  version : v'.version = v.version
  normalizedVersion : v'.normalizedVersion = v.normalizedVersion
  isLocal : v'.isLocal = v.isLocal
  kept : ∀ f ∈ v.files, ∃ f' ∈ v'.files, f'.filename = f.filename ∧
    (f'.upstreamId = f.upstreamId ∨ ∃ s, f'.upstreamId = some s ∧ src s)
  fresh : ∀ f' ∈ v'.files, f' ∈ v.files ∨ ∃ s, f'.upstreamId = some s ∧ src s
  source : v'.upstreamId = v.upstreamId ∨ ∃ s, v'.upstreamId = some s ∧ src s

namespace Refreshed

variable {src : Nat → Prop} {v v' v'' : PackageVersion}

theorem refl (v : PackageVersion) : Refreshed src v v :=
  ⟨rfl, rfl, rfl, fun f hf => ⟨f, hf, rfl, .inl rfl⟩, fun _ hf => .inl hf, .inl rfl⟩

theorem trans (h : Refreshed src v v') (h' : Refreshed src v' v'') : Refreshed src v v'' where
  version := h'.version.trans h.version
  normalizedVersion := h'.normalizedVersion.trans h.normalizedVersion
  isLocal := h'.isLocal.trans h.isLocal
  kept f hf := by
    obtain ⟨f', hf', hn, hs⟩ := h.kept f hf
    obtain ⟨f'', hf'', hn', hs'⟩ := h'.kept f' hf'
    refine ⟨f'', hf'', hn'.trans hn, ?_⟩
    rcases hs' with hs' | hs'
    · rcases hs with hs | hs
      · exact .inl (hs'.trans hs)
      · exact .inr (hs' ▸ hs)
    · exact .inr hs'
  fresh f hf := by
    rcases h'.fresh f hf with hf | hs
    · exact h.fresh f hf
    · exact .inr hs
  source := by
    rcases h'.source with hs' | hs'
    · rw [hs']
      exact h.source
    · exact .inr hs'

/-- A row that differs in neither its files nor its source. -/
theorem of_frame (hv : v'.version = v.version) (hn : v'.normalizedVersion = v.normalizedVersion)
    (hl : v'.isLocal = v.isLocal) (hf : v'.files = v.files)
    (hs : v'.upstreamId = v.upstreamId ∨ ∃ s, v'.upstreamId = some s ∧ src s) :
    Refreshed src v v' where
  version := hv
  normalizedVersion := hn
  isLocal := hl
  kept f hf' := ⟨f, hf ▸ hf', rfl, .inl rfl⟩
  fresh _ hf' := .inl (hf ▸ hf')
  source := hs

/-- Putting in one file whose source meets `src`. -/
theorem put_file {f : PackageFile} {s : Nat} (hs : f.upstreamId = some s) (hsrc : src s) :
    Refreshed src v { v with files := v.files.put f } where
  version := rfl
  normalizedVersion := rfl
  isLocal := rfl
  kept g hg := by
    by_cases hk : g.filename = f.filename
    · exact ⟨f, Table.mem_put.mpr (.inl rfl), hk.symm, .inr ⟨s, hs, hsrc⟩⟩
    · exact ⟨g, Table.mem_put.mpr (.inr ⟨hg, hk⟩), rfl, .inl rfl⟩
  fresh g hg := by
    rcases Table.mem_put.mp hg with rfl | ⟨hg, -⟩
    · exact .inr ⟨s, hs, hsrc⟩
    · exact .inl hg
  source := .inl rfl

end Refreshed

section Persist

variable {src : Nat → Prop} {defaultSource : Option Nat}

/-- Every source the answer gives a file or a version meets `src`. -/
structure Sources (src : Nat → Prop) (defaultSource : Option Nat) (remote : RemoteVersion) :
    Prop where
  default_src : ∃ s, defaultSource = some s ∧ src s
  file_src : ∀ f ∈ remote.files, ∀ s, f.upstreamId = some s → src s

theorem idOr_src (hd : ∃ s, defaultSource = some s ∧ src s) {a : Option Nat}
    (ha : ∀ s, a = some s → src s) : ∃ s, idOr a defaultSource = some s ∧ src s := by
  unfold idOr
  split
  · exact hd
  · next h =>
    rcases a with _ | s
    · simp at h
    · exact ⟨s, rfl, ha s rfl⟩

theorem versionSource_src {remote : RemoteVersion} (h : Sources src defaultSource remote) :
    ∃ s, versionSource defaultSource remote = some s ∧ src s := by
  unfold versionSource
  rcases hf : remote.files.findSome? (fun f => if f.upstreamId.getD 0 ≠ 0 then f.upstreamId
    else none) with _ | s
  · rw [hf, Option.none_or]
    exact h.default_src
  · obtain ⟨f, hfm, he⟩ := List.exists_of_findSome?_eq_some hf
    rw [hf, Option.some_or]
    split at he
    · exact ⟨s, rfl, h.file_src f hfm s he⟩
    · cases he

theorem persistFile_refreshed {remote : RemoteFile} (hd : ∃ s, defaultSource = some s ∧ src s)
    (hr : ∀ s, remote.upstreamId = some s → src s) (s : PackageVersion × Bool) :
    Refreshed src s.1 (persistFile defaultSource s remote).1 := by
  obtain ⟨u, hu, hsrc⟩ := idOr_src hd hr
  have hne : idOr remote.upstreamId defaultSource ≠ none := by simp [hu]
  unfold persistFile
  split
  · next row _ =>
    exact Refreshed.put_file ((applyFile_source hne).2.trans hu) hsrc
  · exact Refreshed.put_file ((applyFile_source hne).2.trans hu) hsrc

theorem persistFiles_refreshed {files : List RemoteFile}
    (hd : ∃ s, defaultSource = some s ∧ src s)
    (hf : ∀ f ∈ files, ∀ s, f.upstreamId = some s → src s) (s : PackageVersion × Bool) :
    Refreshed src s.1 (files.foldl (persistFile defaultSource) s).1 := by
  induction files generalizing s with
  | nil => exact .refl _
  | cons f fs ih =>
    exact (persistFile_refreshed hd (hf f List.mem_cons_self) s).trans
      (ih (fun g hg => hf g (List.mem_cons_of_mem _ hg)) _)

theorem persistFields_refreshed {remote : RemoteVersion} (h : Sources src defaultSource remote)
    (isNew : Bool) (row : PackageVersion) :
    Refreshed src row (persistFields defaultSource remote isNew row).1 := by
  obtain ⟨u, hu, hsrc⟩ := versionSource_src h
  unfold persistFields
  dsimp only
  refine .trans ?_ (persistFiles_refreshed h.default_src h.file_src _)
  refine .of_frame ?_ ?_ ?_ ?_ ?_
  all_goals
    rcases remote.yanked with b | reason <;> rcases isNew with _ | _ <;>
      simp [assign_fst, hu, hsrc]

/-- What persisting one version of the answer does to the rows. -/
theorem persistVersion_cases (nm : Naming) (ecosystem : Ecosystem)
    (versions : Table PackageVersion.normalizedVersion) {remote : RemoteVersion}
    (h : Sources src defaultSource remote) :
    (persistVersion nm ecosystem defaultSource versions remote = versions ∧
      ∃ v ∈ versions, v.isLocal = true ∧
        v.normalizedVersion = normalizedVersion nm ecosystem remote.version) ∨
    ∃ v', persistVersion nm ecosystem defaultSource versions remote = versions.put v' ∧
      v'.normalizedVersion = normalizedVersion nm ecosystem remote.version ∧
      ((∀ v ∈ versions, v.normalizedVersion ≠ v'.normalizedVersion) ∧ v'.isLocal = false ∧
          v'.version = remote.version ∨
        ∃ v ∈ versions, v.isLocal = false ∧ Refreshed src v v') := by
  unfold persistVersion
  dsimp only
  rcases hf : versions.find? (normalizedVersion nm ecosystem remote.version) with _ | row
  · have hr := persistFields_refreshed h true
      { version := remote.version
        normalizedVersion := normalizedVersion nm ecosystem remote.version
        upstreamId := versionSource defaultSource remote
        metadataJson := remote.metadata }
    refine .inr ⟨_, rfl, hr.normalizedVersion, .inl ⟨fun v hv => ?_, hr.isLocal, hr.version⟩⟩
    rw [hr.normalizedVersion]
    exact Table.find?_eq_none_iff.mp hf v hv
  · obtain ⟨hrow, hkey⟩ := Table.find?_eq_some_iff.mp hf
    by_cases hl : row.isLocal = true
    · exact .inl ⟨if_pos hl, row, hrow, hl, hkey⟩
    · have hr := persistFields_refreshed h false row
      have hr' : Refreshed src row
          (if (persistFields defaultSource remote false row).2 && remote.metadata ≠ [] then
            { (persistFields defaultSource remote false row).1 with metadataJson := remote.metadata }
          else (persistFields defaultSource remote false row).1) := by
        split
        · exact hr.trans (.of_frame rfl rfl rfl rfl (.inl rfl))
        · exact hr
      exact .inr ⟨_, if_neg hl, hr'.normalizedVersion.trans hkey, .inr ⟨row, hrow, by simpa using hl, hr'⟩⟩

/-- Persisting leaves alone what is local and what the answer does not list. -/
theorem persistVersions_keeps (nm : Naming) (ecosystem : Ecosystem) (remotes : List RemoteVersion)
    (h : ∀ rv ∈ remotes, Sources src defaultSource rv)
    (versions : Table PackageVersion.normalizedVersion) {v : PackageVersion} (hv : v ∈ versions)
    (hkeep : v.isLocal = true ∨
      ∀ rv ∈ remotes, normalizedVersion nm ecosystem rv.version ≠ v.normalizedVersion) :
    v ∈ remotes.foldl (persistVersion nm ecosystem defaultSource) versions := by
  induction remotes generalizing versions with
  | nil => exact hv
  | cons rv rest ih =>
    rw [List.foldl_cons]
    refine ih (fun r hr => h r (List.mem_cons_of_mem _ hr)) _ ?_
      (hkeep.imp_right fun hk r hr => hk r (List.mem_cons_of_mem _ hr))
    rcases persistVersion_cases nm ecosystem versions (h rv List.mem_cons_self) with
      ⟨he, -⟩ | ⟨v', he, hn, hcase⟩
    · rw [he]
      exact hv
    · rw [he]
      refine Table.mem_put.mpr (.inr ⟨hv, fun hk => ?_⟩)
      rcases hkeep with hl | hk'
      · rcases hcase with ⟨hno, -⟩ | ⟨w, hw, hwl, hr⟩
        · exact hno v hv hk
        · rw [Table.eq_of_key hv hw (hk.trans hr.normalizedVersion), hwl] at hl
          cases hl
      · exact hk' rv List.mem_cons_self (hn.symm.trans hk.symm)

/-- A local row was there before. -/
theorem mem_of_persistVersions_local {nm : Naming} {ecosystem : Ecosystem}
    {remotes : List RemoteVersion} (h : ∀ rv ∈ remotes, Sources src defaultSource rv)
    {versions : Table PackageVersion.normalizedVersion} {v : PackageVersion}
    (hv : v ∈ remotes.foldl (persistVersion nm ecosystem defaultSource) versions)
    (hl : v.isLocal = true) : v ∈ versions := by
  induction remotes generalizing versions with
  | nil => exact hv
  | cons rv rest ih =>
    have hmem := ih (fun r hr => h r (List.mem_cons_of_mem _ hr)) hv
    rcases persistVersion_cases nm ecosystem versions (h rv List.mem_cons_self) with
      ⟨he, -⟩ | ⟨v', he, -, hcase⟩
    · exact he ▸ hmem
    · rw [he] at hmem
      rcases Table.mem_put.mp hmem with rfl | ⟨hmem, -⟩
      · rcases hcase with ⟨-, hl', -⟩ | ⟨w, -, hwl, hr⟩
        · rw [hl'] at hl
          cases hl
        · rw [hr.isLocal, hwl] at hl
          cases hl
      · exact hmem

/-- The keys after persisting: those that were there, and those of the answer. -/
theorem persistVersions_keys (nm : Naming) (ecosystem : Ecosystem) {remotes : List RemoteVersion}
    (h : ∀ rv ∈ remotes, Sources src defaultSource rv)
    (versions : Table PackageVersion.normalizedVersion) (key : String) :
    (∃ v ∈ remotes.foldl (persistVersion nm ecosystem defaultSource) versions,
      v.normalizedVersion = key) ↔ (∃ v ∈ versions, v.normalizedVersion = key) ∨
        ∃ rv ∈ remotes, normalizedVersion nm ecosystem rv.version = key := by
  induction remotes generalizing versions with
  | nil =>
    refine ⟨.inl, fun hkey => hkey.resolve_right ?_⟩
    rintro ⟨rv, hrv, -⟩
    exact List.not_mem_nil hrv
  | cons rv rest ih =>
    rw [List.foldl_cons, ih fun r hr => h r (List.mem_cons_of_mem _ hr)]
    have hstep : (∃ v ∈ persistVersion nm ecosystem defaultSource versions rv,
        v.normalizedVersion = key) ↔ (∃ v ∈ versions, v.normalizedVersion = key) ∨
          normalizedVersion nm ecosystem rv.version = key := by
      rcases persistVersion_cases nm ecosystem versions (h rv List.mem_cons_self) with
        ⟨he, v, hv, -, hn⟩ | ⟨v', he, hn, -⟩
      · rw [he]
        exact ⟨.inl, fun hkey => hkey.elim id fun hr => ⟨v, hv, hn.trans hr⟩⟩
      · rw [he]
        constructor
        · rintro ⟨w, hw, hk⟩
          rcases Table.mem_put.mp hw with rfl | ⟨hw, -⟩
          · exact .inr (hn.symm.trans hk)
          · exact .inl ⟨w, hw, hk⟩
        · rintro (⟨w, hw, hk⟩ | hk)
          · by_cases hsame : w.normalizedVersion = v'.normalizedVersion
            · exact ⟨v', Table.mem_put.mpr (.inl rfl), hsame.symm.trans hk⟩
            · exact ⟨w, Table.mem_put.mpr (.inr ⟨hw, hsame⟩), hk⟩
          · exact ⟨v', Table.mem_put.mpr (.inl rfl), hn.trans hk⟩
    rw [hstep]
    simp only [List.mem_cons, exists_eq_or_imp, or_assoc]

/-- Versions stay stored under their normalized text. -/
theorem persistVersions_named {nm : Naming} {ecosystem : Ecosystem}
    {remotes : List RemoteVersion} (h : ∀ rv ∈ remotes, Sources src defaultSource rv)
    {versions : Table PackageVersion.normalizedVersion}
    (hnamed : ∀ v ∈ versions, v.normalizedVersion = normalizedVersion nm ecosystem v.version) :
    ∀ v ∈ remotes.foldl (persistVersion nm ecosystem defaultSource) versions,
      v.normalizedVersion = normalizedVersion nm ecosystem v.version := by
  induction remotes generalizing versions with
  | nil => exact hnamed
  | cons rv rest ih =>
    refine ih (fun r hr => h r (List.mem_cons_of_mem _ hr)) ?_
    rcases persistVersion_cases nm ecosystem versions (h rv List.mem_cons_self) with
      ⟨he, -⟩ | ⟨v', he, hn, hcase⟩
    · rw [he]
      exact hnamed
    · rw [he]
      intro v hv
      rcases Table.mem_put.mp hv with rfl | ⟨hv, -⟩
      · rcases hcase with ⟨-, -, hversion⟩ | ⟨w, hw, -, hr⟩
        · rw [hn, hversion]
        · rw [hr.normalizedVersion, hnamed w hw, hr.version]
      · exact hnamed v hv

/-- Persisting refreshes the rows that are not local. -/
theorem persistVersions_refreshed (nm : Naming) (ecosystem : Ecosystem)
    (remotes : List RemoteVersion) (h : ∀ rv ∈ remotes, Sources src defaultSource rv)
    (versions : Table PackageVersion.normalizedVersion) {v : PackageVersion} (hv : v ∈ versions)
    (hl : v.isLocal = false) :
    ∃ v' ∈ remotes.foldl (persistVersion nm ecosystem defaultSource) versions,
      Refreshed src v v' := by
  induction remotes generalizing versions v with
  | nil => exact ⟨v, hv, .refl v⟩
  | cons rv rest ih =>
    rw [List.foldl_cons]
    have hrest : ∀ r ∈ rest, Sources src defaultSource r :=
      fun r hr => h r (List.mem_cons_of_mem _ hr)
    rcases persistVersion_cases nm ecosystem versions (h rv List.mem_cons_self) with
      ⟨he, -⟩ | ⟨v', he, hn, hcase⟩
    · rw [he]
      exact ih hrest _ hv hl
    · rw [he]
      by_cases hk : v.normalizedVersion = v'.normalizedVersion
      · rcases hcase with ⟨hno, -⟩ | ⟨w, hw, hwl, hr⟩
        · exact absurd hk (hno v hv)
        · obtain rfl := Table.eq_of_key hv hw (hk.trans hr.normalizedVersion)
          obtain ⟨v'', hv'', hr'⟩ := ih hrest (versions.put v') (v := v')
            (Table.mem_put.mpr (.inl rfl)) (hr.isLocal.trans hl)
          exact ⟨v'', hv'', hr.trans hr'⟩
      · exact ih hrest _ (Table.mem_put.mpr (.inr ⟨hv, hk⟩)) hl

end Persist

/-! ## Pruning one version -/

section Prune

variable {live : Dict Nat Int} {answer : Present} {t : Int}

theorem displaced_of_liveBy {s : Nat} (h : LiveBy live answer.answeredTier s)
    (isPresent : Present → Bool) : displaced live (some answer) (some s) isPresent = false := by
  obtain ⟨tier, hg, hle⟩ := h
  unfold displaced
  simp only [hg, Bool.and_eq_false_iff, decide_eq_false_iff_not]
  exact .inr (by omega)

/-- What is not displaced although its source is, the answer lists. -/
theorem present_of_displaceable {s : Nat} {isPresent : Present → Bool}
    (h : displaced live (some answer) (some s) isPresent = false)
    (hs : Displaceable live answer.answeredTier s) : isPresent answer = true := by
  unfold displaced at h
  dsimp only at h
  rcases hg : Dict.get? live s with _ | tier
  · rw [hg] at h
    cases h
  · rw [hg] at h
    have hgt : tier > answer.answeredTier := by
      by_contra hle
      exact hs ⟨tier, hg, by omega⟩
    simpa [hgt] using h

theorem dropFile_frame (v : PackageVersion) (fs : List PackageFile) :
    { fs.foldl (dropFile live) v with files := v.files, upstreamId := v.upstreamId } = v := by
  induction fs generalizing v with
  | nil => rfl
  | cons f fs ih =>
    rw [List.foldl_cons]
    have := ih (dropFile live v f)
    rcases h : fs.foldl (dropFile live) (dropFile live v f)
    rw [h] at this
    rw [PackageVersion.mk.injEq] at this
    rcases v
    simp_all [dropFile]

theorem dropFile_files (v : PackageVersion) (fs : List PackageFile) :
    (fs.foldl (dropFile live) v).files.rows =
      v.files.rows.filter fun g => fs.all fun f => g.filename ≠ f.filename := by
  induction fs generalizing v with
  | nil => simp
  | cons f fs ih =>
    rw [List.foldl_cons, ih]
    simp only [dropFile, Table.filter, List.filter_filter, List.all_cons]
    exact List.filter_congr fun g _ => Bool.and_comm _ _

/-- A surviving version keeps the files that are not displaced. -/
theorem dropFiles_files {p : Option Present} {v : PackageVersion} (hl : v.isLocal = false)
    (hd : doomedVersion live p v = false) :
    (dropFiles live p v).files.rows = v.files.rows.filter fun g => !displacedFile live p g := by
  have hdf : doomedFiles live p v = v.files.rows.filter (displacedFile live p) := by
    unfold doomedFiles
    rw [if_neg (by simp [hl, hd])]
  unfold dropFiles
  rw [dropFile_files, hdf]
  refine List.filter_congr fun g hg => ?_
  rw [Bool.eq_iff_iff, List.all_eq_true, Bool.not_eq_true']
  constructor
  · intro hno
    by_contra hdis
    have hne := hno g (List.mem_filter.mpr ⟨hg, by simpa using hdis⟩)
    simp at hne
  · intro hdis f hf
    obtain ⟨hf, hfd⟩ := List.mem_filter.mp hf
    refine decide_eq_true fun heq => ?_
    rw [Table.eq_of_key (Table.mem_rows.mp hg) (Table.mem_rows.mp hf) heq, hfd] at hdis
    cases hdis

theorem mem_dropFiles {p : Option Present} {v : PackageVersion} (hl : v.isLocal = false)
    (hd : doomedVersion live p v = false) (g : PackageFile) :
    g ∈ (dropFiles live p v).files ↔ g ∈ v.files ∧ displacedFile live p g = false := by
  rw [← Table.mem_rows, dropFiles_files hl hd, List.mem_filter, Table.mem_rows, Bool.not_eq_true']

/-- A version without doomed files is left alone. -/
theorem dropFiles_eq_self {v : PackageVersion}
    (h : ∀ f ∈ v.files, displacedFile live (some answer) f = false) :
    dropFiles live (some answer) v = v := by
  have hnil : doomedFiles live (some answer) v = [] := by
    unfold doomedFiles
    split
    · rfl
    · exact List.filter_eq_nil_iff.mpr fun f hf => by simp [h f hf]
  unfold dropFiles
  rw [hnil]
  rfl

theorem dropFiles_isLocal (live : Dict Nat Int) (p : Option Present) (v : PackageVersion) :
    (dropFiles live p v).isLocal = v.isLocal := by
  have hframe := congrArg PackageVersion.isLocal (@dropFile_frame live v (doomedFiles live p v))
  exact hframe

theorem dropFiles_version (live : Dict Nat Int) (p : Option Present) (v : PackageVersion) :
    (dropFiles live p v).version = v.version := by
  have hframe := congrArg PackageVersion.version (@dropFile_frame live v (doomedFiles live p v))
  exact hframe

theorem dropFiles_local {v : PackageVersion} (h : v.isLocal = true) (p : Option Present) :
    dropFiles live p v = v := by
  unfold dropFiles doomedFiles
  rw [if_pos (by simp [h])]
  rfl

end Prune

/-- What pruning leaves, in order. -/
theorem pruneUnsourced_rows (nm : Naming) (table : UpstreamTable) (ecosystem : Ecosystem)
    (package : Package) (answer : Option (RemotePackage × Int)) :
    (pruneUnsourced nm table ecosystem package answer).1.versions.rows =
      (package.versions.rows.filter fun v => !doomedVersion
        (liveSources nm.caseMap table ecosystem package.normalizedName)
        (presentIn nm ecosystem answer) v).map
        (dropFiles (liveSources nm.caseMap table ecosystem package.normalizedName)
          (presentIn nm ecosystem answer)) := by
  unfold pruneUnsourced
  dsimp only
  generalize liveSources nm.caseMap table ecosystem package.normalizedName = live
  generalize presentIn nm ecosystem answer = present
  split
  · next h =>
    simp only [Bool.and_eq_true, decide_eq_true_eq, List.filter_eq_nil_iff,
      List.flatMap_eq_nil_iff] at h
    rw [List.filter_eq_self.mpr fun v hv => by simpa using h.1 v hv]
    refine ((List.map_congr_left fun v hv => ?_).trans (List.map_id _)).symm
    unfold dropFiles
    rw [h.2 v hv]
    rfl
  · rfl

/-- What pruning keeps. -/
theorem pruneUnsourced_versions (nm : Naming) (table : UpstreamTable) (ecosystem : Ecosystem)
    (package : Package) (answer : Option (RemotePackage × Int)) (v' : PackageVersion) :
    v' ∈ (pruneUnsourced nm table ecosystem package answer).1.versions ↔
      ∃ v ∈ package.versions,
        doomedVersion (liveSources nm.caseMap table ecosystem package.normalizedName)
          (presentIn nm ecosystem answer) v = false ∧
        dropFiles (liveSources nm.caseMap table ecosystem package.normalizedName)
          (presentIn nm ecosystem answer) v = v' := by
  rw [← Table.mem_rows, pruneUnsourced_rows, List.mem_map]
  simp only [List.mem_filter, Table.mem_rows, Bool.not_eq_true', and_assoc]

/-! ## Displacement -/

section Main

variable (nm : Naming) (ecosystem : Ecosystem) (live : Dict Nat Int) (t : Int)
  (answer : RemotePackage)

/-- The answer lists the version. -/
def Lists (v : PackageVersion) : Prop :=
  ∃ rv ∈ answer.versions, normalizedVersion nm ecosystem rv.version = v.normalizedVersion

/-- The answer lists the file under the version. -/
def ListsFile (v : PackageVersion) (f : PackageFile) : Prop :=
  ∃ rv ∈ answer.versions, normalizedVersion nm ecosystem rv.version = v.normalizedVersion ∧
    ∃ rf ∈ rv.files, rf.filename = f.filename

/-- The answer does not list the file's name under another version. -/
def NoClash (v : PackageVersion) (f : PackageFile) : Prop :=
  ∀ rv ∈ answer.versions, ∀ rf ∈ rv.files, rf.filename = f.filename →
    normalizedVersion nm ecosystem rv.version = v.normalizedVersion

/-- What a refresh answered by tier `t` leaves of the `stored` versions in `final`. -/
structure Displacement (stored final : Table PackageVersion.normalizedVersion) : Prop where
  remaining_version : ∀ v ∈ final, v.isLocal = false → v.sources ≠ [] →
    (∀ s ∈ v.sources, Displaceable live t s) → (∀ f ∈ v.files, NoClash nm ecosystem answer v f) →
    Lists nm ecosystem answer v
  remaining_file : ∀ v ∈ final, v.isLocal = false → ∀ f ∈ v.files, ∀ s, f.upstreamId = some s →
    Displaceable live t s → NoClash nm ecosystem answer v f → ListsFile nm ecosystem answer v f
  local_unchanged : ∀ v ∈ stored, v.isLocal = true → v ∈ final
  live_unchanged : ∀ v ∈ stored, v.isLocal = false → ¬ Lists nm ecosystem answer v →
    (∀ s ∈ v.sources, LiveBy live t s) → v ∈ final
  live_kept : ∀ v ∈ stored, v.isLocal = false → ¬ Lists nm ecosystem answer v →
    (∃ s ∈ v.sources, LiveBy live t s) →
    ∃ v' ∈ final, { v' with files := v.files, upstreamId := v.upstreamId } = v ∧
      (∀ f ∈ v'.files, f ∈ v.files) ∧
      ∀ f ∈ v.files, (∀ s, f.upstreamId = some s → LiveBy live t s) → f ∈ v'.files
  listed_kept : ∀ v ∈ stored, v.isLocal = false → Lists nm ecosystem answer v →
    (v.sources = [] ∨ ∃ s ∈ v.sources, LiveBy live t s) →
    ∃ v' ∈ final, v'.version = v.version ∧ v'.normalizedVersion = v.normalizedVersion ∧
      v'.isLocal = false ∧ ∀ f ∈ v.files, (∀ s, f.upstreamId = some s → LiveBy live t s) →
        ∃ f' ∈ v'.files, f'.filename = f.filename

end Main

/-- The versions stored before the refresh. -/
def storedVersions (stored : Option Package) : Table PackageVersion.normalizedVersion :=
  (stored.map Package.versions).getD (.empty _)

theorem persist_versions {nm : Naming} {ecosystem : Ecosystem} {stored : Option Package}
    {remote : RemotePackage} {upstream : Option Upstream} {requestedName : Option String}
    {validators : Option Validators} {now : Time} {package : Package}
    (h : persistRemotePackage nm ecosystem stored remote upstream requestedName validators now =
      .ok package) :
    package.versions = remote.versions.foldl
      (persistVersion nm ecosystem (upstream.map Upstream.id)) (storedVersions stored) := by
  unfold persistRemotePackage at h
  extract_lets requested displayName normalized upstreamId row keywords versions latest at h
  split at h
  · cases h
  · cases h
    cases stored <;> rfl

section

variable {nm : Naming} {ecosystem : Ecosystem} {live : Dict Nat Int} {t : Int}
  {answer : RemotePackage}

theorem presentIn_eq (nm : Naming) (ecosystem : Ecosystem) (t : Int)
    (hne : answer.versions ≠ []) : ∃ present,
    presentIn nm ecosystem (some (answer, t)) = some present ∧ present.answeredTier = t ∧
      (∀ v : PackageVersion, v.normalizedVersion ∈ present.versions → Lists nm ecosystem answer v) ∧
      ∀ f : PackageFile, f.filename ∈ present.files →
        ∃ rv ∈ answer.versions, ∃ rf ∈ rv.files, rf.filename = f.filename := by
  refine ⟨_, by unfold presentIn; rw [Option.bind_some]; exact if_neg hne, rfl, ?_, ?_⟩
  · intro v hv
    exact List.mem_map.mp hv
  · intro f hf
    obtain ⟨rv, hrv, hf⟩ := List.mem_flatMap.mp hf
    exact ⟨rv, hrv, List.mem_map.mp hf⟩

/-- A version keeps the files whose source is live, and goes only when it has none. -/
theorem not_doomed {present : Present} {v : PackageVersion}
    (hfile : ∀ f ∈ v.files, (∀ g ∈ v.files, displacedFile live (some present) g = true) →
      displacedFile live (some present) f = false)
    (hown : v.files.rows = [] → ∀ s, v.upstreamId = some s → LiveBy live present.answeredTier s) :
    doomedVersion live (some present) v = false := by
  unfold doomedVersion
  split
  · rfl
  split
  · next hne =>
    by_contra hall
    have hall' : ∀ g ∈ v.files, displacedFile live (some present) g = true :=
      List.all_eq_true.mp (by simpa using hall)
    obtain ⟨f, hf⟩ := List.exists_mem_of_ne_nil _ hne
    have h1 := hfile f hf hall'
    rw [hall' f hf] at h1
    cases h1
  · next he =>
    rcases hs : v.upstreamId with _ | s
    · rfl
    · exact displaced_of_liveBy (hown (by simpa using he) s hs) _

theorem displacedFile_of_live {present : Present} {f : PackageFile}
    (h : ∀ s, f.upstreamId = some s → LiveBy live present.answeredTier s) :
    displacedFile live (some present) f = false := by
  unfold displacedFile
  rcases hs : f.upstreamId with _ | s
  · rfl
  · exact displaced_of_liveBy (h s hs) _

/-- A version without sources, or with a live one, is not doomed. -/
theorem not_doomed_of_source {present : Present} {v : PackageVersion}
    (h : v.sources = [] ∨ ∃ s ∈ v.sources, LiveBy live present.answeredTier s) :
    doomedVersion live (some present) v = false := by
  refine not_doomed ?_ ?_
  · intro f hf hall
    have hne : v.files.rows ≠ [] := List.ne_nil_of_mem hf
    have hsrc : v.sources = v.files.rows.filterMap PackageFile.upstreamId := if_pos hne
    rcases h with h0 | ⟨s, hs, hl⟩
    · refine displacedFile_of_live fun s hs => ?_
      have := mem_sources_of_file hf hs
      rw [h0] at this
      cases this
    · rw [hsrc] at hs
      obtain ⟨g, hg, hgs⟩ := List.mem_filterMap.mp hs
      have hdis := hall g hg
      rw [displacedFile_of_live fun s' hs' => by rw [hgs] at hs'; cases hs'; exact hl] at hdis
      cases hdis
  · intro he s hs
    have hsrc : v.sources = v.upstreamId.toList := if_neg (by simpa using he)
    rw [hsrc, hs] at h
    rcases h with h0 | ⟨s', hs', hl⟩
    · cases h0
    · obtain rfl : s' = s := by simpa using hs'
      exact hl

/-- Nor is such a version after the answer was persisted into it. -/
theorem not_doomed_of_refreshed {present : Present} {v p : PackageVersion}
    (hr : Refreshed (LiveBy live present.answeredTier) v p)
    (h : v.sources = [] ∨ ∃ s ∈ v.sources, LiveBy live present.answeredTier s) :
    doomedVersion live (some present) p = false := by
  have hsrc : ∀ s, (∃ s', some s = some s' ∧ LiveBy live present.answeredTier s') →
      LiveBy live present.answeredTier s := by
    rintro s ⟨s', hs', hl⟩
    cases hs'
    exact hl
  -- a file with a live source, or with none, survives in `p`
  have hfile : v.files.rows ≠ [] → ∃ f ∈ v.files, ∀ s, f.upstreamId = some s →
      LiveBy live present.answeredTier s := by
    intro hne
    rcases h with h0 | ⟨s, hs, hl⟩
    · obtain ⟨f, hf⟩ := List.exists_mem_of_ne_nil _ hne
      refine ⟨f, hf, fun s hs => ?_⟩
      have := mem_sources_of_file hf hs
      rw [h0] at this
      cases this
    · unfold PackageVersion.sources at hs
      rw [if_pos hne] at hs
      obtain ⟨f, hf, hfs⟩ := List.mem_filterMap.mp hs
      refine ⟨f, hf, fun s' hs' => ?_⟩
      rw [hfs] at hs'
      cases hs'
      exact hl
  refine not_doomed ?_ ?_
  · intro g hg hall
    by_cases hne : v.files.rows = []
    · rcases hr.fresh g hg with hgv | hs
      · have : g ∈ v.files.rows := hgv
        rw [hne] at this
        cases this
      · refine displacedFile_of_live fun s hs' => hsrc s ?_
        rw [hs'] at hs
        exact hs
    · obtain ⟨f, hf, hlive⟩ := hfile hne
      obtain ⟨f', hf', -, hsame | hs⟩ := hr.kept f hf
      · have hdis := hall f' hf'
        rw [displacedFile_of_live (by rw [hsame]; exact hlive)] at hdis
        cases hdis
      · have hdis := hall f' hf'
        rw [displacedFile_of_live fun s hs' => hsrc s (by rw [hs'] at hs; exact hs)] at hdis
        cases hdis
  · intro he s hs
    have hve : v.files.rows = [] := by
      by_contra hne
      obtain ⟨f, hf⟩ := List.exists_mem_of_ne_nil _ hne
      obtain ⟨f', hf', -⟩ := hr.kept f hf
      have : f' ∈ p.files.rows := hf'
      rw [he] at this
      cases this
    rcases hr.source with hsame | hs'
    · have hvs : v.sources = v.upstreamId.toList := if_neg (not_not.mpr hve)
      rw [hvs, ← hsame, hs] at h
      rcases h with h0 | ⟨s', hs', hl⟩
      · cases h0
      · obtain rfl : s' = s := by simpa using hs'
        exact hl
    · rw [hs] at hs'
      exact hsrc s hs'

/-- **A refresh answered by a tier displaces the tiers after it.** -/
theorem refresh_displaces (nm : Naming) (table : UpstreamTable) (ecosystem : Ecosystem)
    (stored : Option Package) (answer : RemotePackage) (t : Int) (upstream : Upstream)
    (requestedName : Option String) (validators : Option Validators) (now : Time)
    {package : Package}
    (hpersist : persistRemotePackage nm ecosystem stored answer (some upstream) requestedName
      validators now = .ok package)
    (hanswer : answer.versions ≠ [])
    (hfrom : AnswerFrom (liveSources nm.caseMap table ecosystem package.normalizedName) t upstream
      answer) :
    Displacement nm ecosystem (liveSources nm.caseMap table ecosystem package.normalizedName) t
      answer (storedVersions stored)
      (pruneUnsourced nm table ecosystem package (some (answer, t))).1.versions := by
  have hversions := persist_versions hpersist
  rw [Option.map_some] at hversions
  have hmem := pruneUnsourced_versions nm table ecosystem package (some (answer, t))
  obtain ⟨present, hpresent, rfl, hlists, hfiles⟩ :=
    presentIn_eq nm ecosystem t hanswer
  rw [hpresent] at hmem
  revert hfrom hmem
  generalize liveSources nm.caseMap table ecosystem package.normalizedName = live
  intro hfrom hmem
  have hsources : ∀ rv ∈ answer.versions,
      Sources (LiveBy live present.answeredTier) (some upstream.id) rv := fun rv hrv =>
    ⟨⟨_, rfl, _, hfrom.upstream_tier, le_refl _⟩,
      fun f hf s hs => ⟨_, hfrom.file_tier rv hrv f hf s hs, le_refl _⟩⟩
  have hkeeps : ∀ v ∈ storedVersions stored,
      (v.isLocal = true ∨ ¬ Lists nm ecosystem answer v) → v ∈ package.versions := by
    intro v hv hk
    rw [hversions]
    refine persistVersions_keeps nm ecosystem _ hsources _ hv (hk.imp_right fun hno rv hrv he => ?_)
    exact hno ⟨rv, hrv, he⟩
  have hfile : ∀ v ∈ (pruneUnsourced nm table ecosystem package
      (some (answer, present.answeredTier))).1.versions, v.isLocal = false → ∀ f ∈ v.files, ∀ s,
      f.upstreamId = some s → Displaceable live present.answeredTier s →
      NoClash nm ecosystem answer v f → ListsFile nm ecosystem answer v f := by
    intro v hv hl f hf s hs hdisp hclash
    obtain ⟨w, hw, hd, rfl⟩ := (hmem v).mp hv
    have hwl : w.isLocal = false := by
      by_contra hne
      rw [dropFiles_local (by simpa using hne)] at hl
      exact hne hl
    obtain ⟨hfw, hdis⟩ := (mem_dropFiles hwl hd f).mp hf
    unfold displacedFile at hdis
    rw [hs] at hdis
    have hin := present_of_displaceable hdis hdisp
    obtain ⟨rv, hrv, rf, hrf, hn⟩ := hfiles f (by simpa using hin)
    exact ⟨rv, hrv, hclash rv hrv rf hrf hn, rf, hrf, hn⟩
  refine ⟨?_, hfile, ?_, ?_, ?_, ?_⟩
  case refine_1 =>
    intro v hv hl hne hdisp hclash
    by_cases hf : v.files.rows = []
    · obtain ⟨w, hw, hd, hwv⟩ := (hmem v).mp hv
      have hwl : w.isLocal = false := by
        by_contra hloc
        rw [← hwv, dropFiles_local (by simpa using hloc)] at hl
        exact hloc hl
      -- a version that lost every file would itself be doomed
      have hwf : w.files.rows = [] := by
        by_contra hwne
        unfold doomedVersion at hd
        rw [if_neg (by simp [hwl]), if_pos hwne] at hd
        obtain ⟨f, hfw, hfd⟩ := List.all_eq_false.mp hd
        have hfv : f ∈ v.files := by
          rw [← hwv]
          refine (mem_dropFiles hwl ?_ f).mpr ⟨hfw, by simpa using hfd⟩
          unfold doomedVersion
          rw [if_neg (by simp [hwl]), if_pos hwne, hd]
        have : f ∈ v.files.rows := hfv
        rw [hf] at this
        cases this
      have hself : w = v := by
        rw [← hwv, dropFiles_eq_self]
        intro f hfw
        have : f ∈ w.files.rows := hfw
        rw [hwf] at this
        cases this
      subst hself
      unfold PackageVersion.sources at hne hdisp
      rw [if_neg (not_not.mpr hf)] at hne hdisp
      rcases hs : w.upstreamId with _ | s
      · rw [hs] at hne
        exact absurd rfl hne
      · unfold doomedVersion at hd
        rw [if_neg (by simp [hl]), if_neg (not_not.mpr hf), hs] at hd
        refine hlists w ?_
        simpa using present_of_displaceable hd (hdisp s (by simp [hs]))
    · have hsrc : v.sources = v.files.rows.filterMap PackageFile.upstreamId := if_pos hf
      obtain ⟨s, hs⟩ := List.exists_mem_of_ne_nil _ hne
      have hs' := hs
      rw [hsrc] at hs'
      obtain ⟨f, hfm, hfs⟩ := List.mem_filterMap.mp hs'
      obtain ⟨rv, hrv, hn, -⟩ := hfile v hv hl f hfm s hfs (hdisp s hs) (hclash f hfm)
      exact ⟨rv, hrv, hn⟩
  case refine_2 =>
    intro v hv hl
    refine (hmem v).mpr ⟨v, hkeeps v hv (.inl hl), ?_, dropFiles_local hl _⟩
    unfold doomedVersion
    rw [if_pos hl]
  case refine_3 =>
    intro v hv hl hno hlive
    refine (hmem v).mpr ⟨v, hkeeps v hv (.inr hno), not_doomed_of_source ?_, dropFiles_eq_self ?_⟩
    · rcases hs : v.sources with _ | ⟨s, rest⟩
      · exact .inl rfl
      · exact .inr ⟨s, List.mem_cons_self, hlive s (hs ▸ List.mem_cons_self)⟩
    · exact fun f hf => displacedFile_of_live fun s hs => hlive s (mem_sources_of_file hf hs)
  case refine_4 =>
    intro v hv hl hno hlive
    have hd : doomedVersion live (some present) v = false := not_doomed_of_source (.inr hlive)
    refine ⟨dropFiles live (some present) v,
      (hmem _).mpr ⟨v, hkeeps v hv (.inr hno), hd, rfl⟩, dropFile_frame v _, ?_, ?_⟩
    · exact fun f hf => ((mem_dropFiles hl hd f).mp hf).1
    · exact fun f hf hs => (mem_dropFiles hl hd f).mpr ⟨hf, displacedFile_of_live hs⟩
  case refine_5 =>
    intro v hv hl hlists' hsrc
    obtain ⟨p, hp, hr⟩ := persistVersions_refreshed nm ecosystem answer.versions hsources
      (storedVersions stored) hv hl
    rw [← hversions] at hp
    have hpl := hr.isLocal.trans hl
    have hd : doomedVersion live (some present) p = false :=
      not_doomed_of_refreshed hr hsrc
    refine ⟨dropFiles live (some present) p, (hmem _).mpr ⟨p, hp, hd, rfl⟩, ?_, ?_, ?_, ?_⟩
    · exact (congrArg PackageVersion.version (dropFile_frame p _)).trans hr.version
    · exact (congrArg PackageVersion.normalizedVersion (dropFile_frame p _)).trans
        hr.normalizedVersion
    · exact (congrArg PackageVersion.isLocal (dropFile_frame p _)).trans hpl
    · intro f hf hs
      obtain ⟨f', hf', hn, hsame | ⟨s, hs', hlive⟩⟩ := hr.kept f hf
      · refine ⟨f', (mem_dropFiles hpl hd f').mpr ⟨hf', displacedFile_of_live ?_⟩, hn⟩
        rw [hsame]
        exact hs
      · refine ⟨f', (mem_dropFiles hpl hd f').mpr ⟨hf', displacedFile_of_live ?_⟩, hn⟩
        intro s' hs''
        rw [hs'] at hs''
        cases hs''
        exact hlive

end

/-! ## A paused source -/

instance (nm : Naming) (ecosystem : Ecosystem) (answer : RemotePackage) (v : PackageVersion) :
    Decidable (Lists nm ecosystem answer v) := by unfold Lists; infer_instance

/-- The internal upstream is disabled; the public one is in tier 2, a mirror in tier 3. -/
def pausedSource : UpstreamTable where
  rows :=
    [{ id := 1, name := "corp", ecosystem := .npm, kind := .npm, enabled := false,
       validKind := npm_validKind },
     { id := 2, name := "npmjs", ecosystem := .npm, kind := .npm, tier := 2,
       validKind := npm_validKind },
     { id := 3, name := "mirror", ecosystem := .npm, kind := .npm, tier := 3,
       validKind := npm_validKind }]

/-- The public upstream of them. -/
def publicSource : Upstream := pausedSource.rows[1]

def plainNaming : Naming where
  caseMap := .ascii
  floatText _ := ""
  normalizePypiVersion v := v
  sortPypiVersions vs := vs
  maxSemver vs := vs.getLast?

/-- 1.0.0 came from the internal upstream, 2.0.0 from the public one, 3.0.0 from the
public one and a deleted one, and 4.0.0 from the mirror under a file name of 2.0.0. -/
def cachedTool : Package where
  ecosystem := .npm
  name := "tool"
  normalizedName := "tool"
  versions :=
    { rows :=
        [{ version := "1.0.0", normalizedVersion := "1.0.0", upstreamId := some 1,
           files := { rows := [{ filename := "tool-1.0.0.tgz", upstreamId := some 1 }] } },
         { version := "2.0.0", normalizedVersion := "2.0.0", upstreamId := some 2 },
         { version := "3.0.0", normalizedVersion := "3.0.0", upstreamId := some 2,
           files := { rows := [{ filename := "tool-3.0.0.tgz", upstreamId := some 2 },
                               { filename := "tool-3.0.0.zip", upstreamId := some 9 }] } },
         { version := "4.0.0", normalizedVersion := "4.0.0", upstreamId := some 3,
           files := { rows := [{ filename := "tool-2.0.0.tgz", upstreamId := some 3 }] } }] }

/-- The public upstream lists 2.0.0 only, and deprecates it. -/
def publicTool : RemotePackage where
  name := "tool"
  versions :=
    [{ version := "2.0.0", deprecated := some "moved",
       files := [{ filename := "tool-2.0.0.tgz", url := "https://r/tool-2.0.0.tgz" }] }]

def persistedTool : Except String Package :=
  persistRemotePackage plainNaming .npm (some cachedTool) publicTool (some pausedSource.rows[1])
    (some "tool") none 0

def refreshedTool : Package :=
  match persistedTool with
  | .ok package => package
  | .error _ => cachedTool

def prunedTool : List PackageVersion :=
  (pruneUnsourced plainNaming pausedSource .npm refreshedTool (some (publicTool, 2))).1.versions.rows

/-- A version of a disabled source survives an answer that does not list it, a
listed version is rewritten, and one with a live source loses a dead file. So
does a version of a lower tier survive under a file name the answer lists. -/
theorem refresh_keeps_disabled : persistedTool = .ok refreshedTool ∧
    (∃ v ∈ prunedTool, v.isLocal = false ∧ v.sources = [pausedSource.rows[0].id] ∧
      pausedSource.rows[0].enabled = false ∧ ¬ Lists plainNaming .npm publicTool v) ∧
    cachedTool.versions.rows[1].sources = [2] ∧ cachedTool.versions.rows[1] ∉ prunedTool ∧
    2 ∈ cachedTool.versions.rows[2].sources ∧ cachedTool.versions.rows[2] ∉ prunedTool ∧
    ∃ v ∈ prunedTool, v.sources = [3] ∧ ¬ Lists plainNaming .npm publicTool v :=
  ⟨rfl, by decide⟩

theorem refresh_displaces_tool : Displacement plainNaming .npm
    (liveSources plainNaming.caseMap pausedSource .npm refreshedTool.normalizedName) 2 publicTool
    (storedVersions (some cachedTool))
    (pruneUnsourced plainNaming pausedSource .npm refreshedTool
      (some (publicTool, 2))).1.versions :=
  refresh_displaces plainNaming pausedSource .npm (some cachedTool) publicTool 2
    pausedSource.rows[1] (some "tool") none 0 rfl (by decide)
    ⟨by decide, by decide⟩

end Minireg
