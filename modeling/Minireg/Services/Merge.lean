import Mathlib.Data.List.Pairwise
import Minireg.Lib.FirstWins
import Minireg.Services.Tiers

/-!
# The merged document of a tier

`merge` unions the documents of one tier, in priority order. `Merged` follows its
loops: of the files listed so far (`Listing`), the first with a filename stays, under
the version that lists it. `merged_document` is the result for a whole tier, whatever
the order in which its queries complete.
-/

namespace Minireg

open Py Lib

/-- A file, with the version it is listed under and the upstream that lists it. -/
structure Listing where
  version : String
  file : RemoteFile
  upstream : Upstream

namespace Listing

def filename (x : Listing) : String := x.file.filename

/-- The file as a merged document carries it. -/
def stamped (x : Listing) : RemoteFile := { x.file with upstreamId := some x.upstream.id }

@[simp] theorem stamped_filename (x : Listing) : x.stamped.filename = x.filename := rfl

end Listing

def versionListings (u : Upstream) (v : RemoteVersion) : List Listing :=
  v.files.map fun f => { version := v.version, file := f, upstream := u }

/-- The files of one document, in its order. -/
def listings (r : RemotePackage × Upstream) : List Listing :=
  r.1.versions.flatMap (versionListings r.2)

/-- The files that a version keeps of what is listed. -/
def filesOf (listed : List Listing) (version : String) : List RemoteFile :=
  ((firstWins Listing.filename listed).filter (·.version = version)).map Listing.stamped

/-! ## The loops of a merge -/

section Loops

variable {listed : List Listing} {seen : List RemoteVersion} {u : Upstream}

/-- One version, with the files it was given of what is listed so far. -/
structure Collected (listed : List Listing) (version : String) (yanked : Yanked)
    (acc : RemoteVersion × List String) : Prop where
  named : acc.1.version = version
  files : acc.1.files = filesOf listed version
  flag : acc.1.yanked = yanked
  claimed : ∀ n, n ∈ acc.2 ↔ n ∈ listed.map Listing.filename

theorem Collected.file {version : String} {yanked : Yanked} {acc : RemoteVersion × List String}
    (h : Collected listed version yanked acc) (f : RemoteFile) :
    Collected (listed ++ [{ version := version, file := f, upstream := u }]) version yanked
      (mergeFile u acc f) := by
  let x : Listing := { version := version, file := f, upstream := u }
  have htaken : f.filename ∈ acc.2 ↔ x.filename ∈ (firstWins Listing.filename listed).map
      Listing.filename := by
    rw [h.claimed, mem_map_firstWins]
    rfl
  unfold mergeFile
  dsimp only
  split
  · next hclaimed =>
    refine ⟨h.named, ?_, h.flag, fun n => ?_⟩
    · unfold filesOf
      rw [firstWins_snoc, claim_taken (htaken.mp hclaimed)]
      exact h.files
    · rw [h.claimed, List.map_append, List.mem_append]
      refine ⟨.inl, fun hn => hn.elim id fun hn => ?_⟩
      obtain rfl := List.mem_singleton.mp hn
      exact (h.claimed _).mp hclaimed
  · next hfree =>
    refine ⟨h.named, ?_, h.flag, fun n => ?_⟩
    · unfold filesOf
      rw [firstWins_snoc, claim_free fun hn => hfree (htaken.mpr hn), List.filter_append,
        List.map_append]
      have hkept : [x].filter (·.version = version) = [x] := by simp [x]
      rw [hkept]
      dsimp only
      rw [h.files]
      rfl
    · rw [List.mem_cons, h.claimed, List.map_append, List.mem_append]
      simp [Listing.filename, or_comm]

theorem Collected.files_foldl {version : String} {yanked : Yanked} (files : List RemoteFile)
    {acc : RemoteVersion × List String} (h : Collected listed version yanked acc) :
    Collected (listed ++ files.map fun f => { version := version, file := f, upstream := u })
      version yanked (files.foldl (mergeFile u) acc) := by
  induction files generalizing listed acc with
  | nil => simpa using h
  | cons f files ih =>
    have hnext := ih (h.file (u := u) f)
    rwa [List.append_assoc] at hnext

/-- The state of a merge after the versions `seen` and the files `listed`. -/
structure Merged (seen : List RemoteVersion) (listed : List Listing)
    (acc : Dict String RemoteVersion × List String) : Prop where
  keys : (acc.1.map Prod.fst).Nodup
  known : ∀ k, (Dict.get? acc.1 k).isSome = true ↔ ∃ w ∈ seen, w.version = k
  entry : ∀ k v, Dict.get? acc.1 k = some v → v.version = k ∧ v.files = filesOf listed k ∧
    ∃ w, seen.find? (fun w => w.version = k) = some w ∧ v.yanked = w.yanked
  claimed : ∀ n, n ∈ acc.2 ↔ n ∈ listed.map Listing.filename
  under : ∀ x ∈ listed, ∃ w ∈ seen, w.version = x.version

/-- Files of another version do not change what a version keeps. -/
theorem filesOf_append_of_ne {version : RemoteVersion} {k : String} (hk : version.version ≠ k) :
    filesOf (listed ++ versionListings u version) k = filesOf listed k := by
  unfold filesOf
  rw [filter_firstWins_append]
  intro x hx
  obtain ⟨f, -, rfl⟩ := List.mem_map.mp hx
  simpa using hk

theorem Merged.version {acc : Dict String RemoteVersion × List String} (h : Merged seen listed acc)
    (version : RemoteVersion) :
    Merged (seen ++ [version]) (listed ++ versionListings u version)
      (mergeVersion u acc version) := by
  -- the row of this version: the one that is there, or a new one
  have htarget : ∃ target yanked, mergeVersion u acc version =
      (Dict.set acc.1 version.version (version.files.foldl (mergeFile u) (target, acc.2)).1,
        (version.files.foldl (mergeFile u) (target, acc.2)).2) ∧
      Collected listed version.version yanked (target, acc.2) ∧
      ∃ w, (seen ++ [version]).find? (fun w => w.version = version.version) = some w ∧
        yanked = w.yanked := by
    unfold mergeVersion
    dsimp only
    rcases hg : Dict.get? acc.1 version.version with _ | target
    · have hnew : ∀ w ∈ seen, w.version ≠ version.version := by
        intro w hw hsame
        have hsome := (h.known version.version).mpr ⟨w, hw, hsame⟩
        rw [hg] at hsome
        cases hsome
      refine ⟨{ version with files := [] }, version.yanked, rfl, ⟨rfl, ?_, rfl, h.claimed⟩,
        version, ?_, rfl⟩
      · symm
        unfold filesOf
        rw [List.map_eq_nil_iff, List.filter_eq_nil_iff]
        intro x hx hsame
        obtain ⟨w, hw, hunder⟩ := h.under x (mem_of_mem_firstWins hx)
        exact hnew w hw (hunder.trans (by simpa using hsame))
      · rw [List.find?_append, List.find?_eq_none.mpr (by simpa using hnew)]
        simp
    · obtain ⟨hnamed, hfiles, w, hw, hflag⟩ := h.entry _ _ hg
      dsimp only
      refine ⟨_, target.yanked, rfl, ?_, w, by rw [List.find?_append, hw]; rfl, hflag⟩
      split
      · exact ⟨hnamed, hfiles, rfl, h.claimed⟩
      · exact ⟨hnamed, hfiles, rfl, h.claimed⟩
  obtain ⟨target, yanked, hmerge, hcollected, w, hw, hflag⟩ := htarget
  rw [hmerge]
  have hfilled := hcollected.files_foldl (u := u) version.files
  refine ⟨Dict.nodup_keys_set h.keys _ _, fun k => ?_, fun k v hv => ?_, hfilled.claimed,
    fun x hx => ?_⟩
  · rw [Dict.get?_set]
    by_cases hk : k = version.version
    · simp [hk]
    · rw [if_neg hk, h.known k]
      simp [Ne.symm hk]
  · rw [Dict.get?_set] at hv
    split at hv
    · next hk =>
      obtain rfl := Option.some.inj hv
      subst hk
      exact ⟨hfilled.named, hfilled.files, w, hw, hfilled.flag.trans hflag⟩
    · next hk =>
      obtain ⟨hnamed, hfiles, w', hw', hflag'⟩ := h.entry k v hv
      rw [filesOf_append_of_ne (Ne.symm hk)]
      exact ⟨hnamed, hfiles, w', by rw [List.find?_append, hw']; rfl, hflag'⟩
  · rcases List.mem_append.mp hx with hx | hx
    · obtain ⟨w', hw', hunder⟩ := h.under x hx
      exact ⟨w', List.mem_append_left _ hw', hunder⟩
    · obtain ⟨f, -, rfl⟩ := List.mem_map.mp hx
      exact ⟨version, List.mem_append_right _ (List.mem_singleton_self _), rfl⟩

theorem Merged.versions {acc : Dict String RemoteVersion × List String} (versions : List RemoteVersion)
    (h : Merged seen listed acc) :
    Merged (seen ++ versions) (listed ++ versions.flatMap (versionListings u))
      (versions.foldl (mergeVersion u) acc) := by
  induction versions generalizing seen listed acc with
  | nil => simpa using h
  | cons version versions ih =>
    have hnext := ih (h.version (u := u) version)
    rwa [List.append_assoc, List.append_assoc] at hnext

theorem Merged.documents {acc : Dict String RemoteVersion × List String}
    (results : List (RemotePackage × Upstream)) (h : Merged seen listed acc) :
    Merged (seen ++ results.flatMap fun r => r.1.versions) (listed ++ results.flatMap listings)
      (results.foldl (fun acc r => r.1.versions.foldl (mergeVersion r.2) acc) acc) := by
  induction results generalizing seen listed acc with
  | nil => simpa using h
  | cons r results ih =>
    have hnext := ih (h.versions (u := r.2) r.1.versions)
    rwa [List.append_assoc, List.append_assoc] at hnext

end Loops

/-! ## What a merged document is -/

/-- The union of the documents `results` in priority order. Each filename is there once,
with the file of the first document that lists it; a version that is left with files is
yanked if all of them are, and one that is left with none says what its first document
says. -/
structure UnionOf (results : List (RemotePackage × Upstream)) (merged : RemotePackage) : Prop where
  once : (merged.versions.flatMap fun v => v.files.map RemoteFile.filename).Nodup
  filenames : ∀ n, (∃ v ∈ merged.versions, ∃ f ∈ v.files, f.filename = n) ↔
    ∃ r ∈ results, ∃ w ∈ r.1.versions, ∃ f ∈ w.files, f.filename = n
  first : ∀ v ∈ merged.versions, ∀ f ∈ v.files, ∃ before r after,
    results = before ++ r :: after ∧
      (∀ q ∈ before, ∀ w ∈ q.1.versions, ∀ g ∈ w.files, g.filename ≠ f.filename) ∧
      ∃ w ∈ r.1.versions, w.version = v.version ∧
        ∃ g ∈ w.files, f = { g with upstreamId := some r.2.id }
  distinct : (merged.versions.map RemoteVersion.version).Nodup
  versions : ∀ k, (∃ v ∈ merged.versions, v.version = k) ↔
    ∃ r ∈ results, ∃ w ∈ r.1.versions, w.version = k
  yanked : ∀ v ∈ merged.versions, v.files ≠ [] →
    (v.yanked.truthy = true ↔ ∀ f ∈ v.files, f.yanked.truthy = true)
  bare : ∀ v ∈ merged.versions, v.files = [] → ∃ w,
    (results.flatMap fun r => r.1.versions).find? (fun w => w.version = v.version) = some w ∧
      v.yanked = w.yanked

section Union

variable {results : List (RemotePackage × Upstream)}

theorem mem_listings {r : RemotePackage × Upstream} {x : Listing} :
    x ∈ listings r ↔ ∃ w ∈ r.1.versions, ∃ f ∈ w.files,
      x = { version := w.version, file := f, upstream := r.2 } := by
  unfold listings versionListings
  simp only [List.mem_flatMap, List.mem_map, eq_comm]

theorem rederiveYanked_frame (v : RemoteVersion) :
    (rederiveYanked v).version = v.version ∧ (rederiveYanked v).files = v.files := by
  unfold rederiveYanked
  split
  · exact ⟨rfl, rfl⟩
  · split <;> exact ⟨rfl, rfl⟩

theorem rederiveYanked_bare {v : RemoteVersion} (h : v.files = []) : rederiveYanked v = v :=
  if_pos h

/-- A version with files is yanked if all of them are. -/
theorem rederiveYanked_truthy {v : RemoteVersion} (h : v.files ≠ []) :
    (rederiveYanked v).yanked.truthy = true ↔ ∀ f ∈ v.files, f.yanked.truthy = true := by
  unfold rederiveYanked
  rw [if_neg h]
  split
  · next hall =>
    refine iff_of_true ?_ (List.all_eq_true.mp hall)
    dsimp only
    generalize hreason : v.files.findSome? _ = reason
    rcases reason with _ | reason
    · rfl
    · obtain ⟨f, -, hf⟩ := List.exists_of_findSome?_eq_some hreason
      rcases hy : f.yanked with b | s
      · rw [hy] at hf
        cases hf
      · rw [hy] at hf
        dsimp only at hf
        split at hf
        · next hs =>
          obtain rfl := Option.some.inj hf
          simpa [Yanked.truthy] using hs
        · cases hf
  · next hnot =>
    refine iff_of_false (by simp [Yanked.truthy]) fun hall => hnot (List.all_eq_true.mpr hall)

/-- The first file with a name is in the first document that lists one. -/
theorem find?_listings {n : String} {x : Listing}
    (h : (results.flatMap listings).find? (fun y => y.filename = n) = some x) :
    ∃ before r after, results = before ++ r :: after ∧
      (∀ q ∈ before, ∀ w ∈ q.1.versions, ∀ g ∈ w.files, g.filename ≠ n) ∧ x ∈ listings r := by
  rw [List.find?_flatMap] at h
  obtain ⟨before, r, after, hresults, hr, hbefore⟩ := List.findSome?_eq_some_iff.mp h
  refine ⟨before, r, after, hresults, fun q hq w hw g hg hname => ?_, List.mem_of_find?_eq_some hr⟩
  have hnone := List.find?_eq_none.mp (hbefore q hq)
    { version := w.version, file := g, upstream := q.2 } (mem_listings.mpr ⟨w, hw, g, hg, rfl⟩)
  simp [Listing.filename, hname] at hnone

theorem mem_filesOf {listed : List Listing} {k : String} {f : RemoteFile} :
    f ∈ filesOf listed k ↔ ∃ x ∈ firstWins Listing.filename listed, x.version = k ∧ x.stamped = f := by
  unfold filesOf
  simp [and_assoc]

section Entries

variable {seen : List RemoteVersion} {listed : List Listing}
  {acc : Dict String RemoteVersion × List String} (h : Merged seen listed acc)

include h

theorem Merged.of_mem {e : String × RemoteVersion} (he : e ∈ acc.1) :
    e.2.version = e.1 ∧ e.2.files = filesOf listed e.1 ∧
      ∃ w, seen.find? (fun w => w.version = e.1) = some w ∧ e.2.yanked = w.yanked :=
  h.entry e.1 e.2 ((Dict.get?_eq_some_iff h.keys).mpr he)

theorem Merged.exists_entry {k : String} : (∃ e ∈ acc.1, e.1 = k) ↔ ∃ w ∈ seen, w.version = k := by
  rw [← h.known]
  constructor
  · rintro ⟨e, he, rfl⟩
    rw [(Dict.get?_eq_some_iff h.keys).mpr he]
    rfl
  · intro hsome
    obtain ⟨v, hv⟩ := Option.isSome_iff_exists.mp hsome
    exact ⟨(k, v), (Dict.get?_eq_some_iff h.keys).mp hv, rfl⟩

/-- The versions share no filename, and none has one twice. -/
theorem Merged.nodup_filenames :
    (acc.1.flatMap fun e => e.2.files.map RemoteFile.filename).Nodup := by
  have hnames : ∀ e ∈ acc.1, e.2.files.map RemoteFile.filename =
      ((firstWins Listing.filename listed).filter (·.version = e.1)).map Listing.filename := by
    intro e he
    rw [(h.of_mem he).2.1]
    unfold filesOf
    rw [List.map_map]
    rfl
  rw [List.nodup_flatMap]
  refine ⟨fun e he => ?_, (List.pairwise_map.mp h.keys).imp_of_mem fun he he' hne => ?_⟩
  · rw [hnames e he]
    exact (nodup_firstWins Listing.filename listed).sublist (List.filter_sublist.map _)
  · intro n (hn : n ∈ List.map RemoteFile.filename _) (hn' : n ∈ List.map RemoteFile.filename _)
    rw [hnames _ he] at hn
    rw [hnames _ he'] at hn'
    obtain ⟨x, hx, rfl⟩ := List.mem_map.mp hn
    obtain ⟨y, hy, hname⟩ := List.mem_map.mp hn'
    obtain ⟨hx, hkx⟩ := List.mem_filter.mp hx
    obtain ⟨hy, hky⟩ := List.mem_filter.mp hy
    -- one listing has the name, and it is under one version
    obtain rfl := List.inj_on_of_nodup_map (nodup_firstWins _ listed) hy hx hname
    exact hne ((by simpa using hkx : _ = _).symm.trans (by simpa using hky))

theorem Merged.filenames {n : String} :
    (∃ e ∈ acc.1, ∃ f ∈ e.2.files, f.filename = n) ↔ n ∈ listed.map Listing.filename := by
  rw [← mem_map_firstWins, List.mem_map]
  constructor
  · rintro ⟨e, he, f, hf, hn⟩
    rw [(h.of_mem he).2.1] at hf
    obtain ⟨x, hx, -, rfl⟩ := mem_filesOf.mp hf
    exact ⟨x, hx, hn⟩
  · rintro ⟨x, hx, hn⟩
    obtain ⟨e, he, hk⟩ := h.exists_entry.mpr (h.under x (mem_of_mem_firstWins hx))
    refine ⟨e, he, x.stamped, ?_, hn⟩
    rw [(h.of_mem he).2.1]
    exact mem_filesOf.mpr ⟨x, hx, hk.symm, rfl⟩

end Entries

/-- **What merging makes of the documents of a tier.** -/
theorem merge_unionOf (base : RemotePackage) (baseUpstream : Upstream)
    (results : List (RemotePackage × Upstream)) :
    UnionOf results (merge base baseUpstream results) := by
  have hstart : Merged [] [] ([], []) :=
    ⟨List.nodup_nil, by simp, fun _ _ h => (nomatch h), by simp, by simp⟩
  have h := hstart.documents results
  rw [List.nil_append, List.nil_append] at h
  generalize hacc : results.foldl (fun acc r => r.1.versions.foldl (mergeVersion r.2) acc)
    (([], []) : Dict String RemoteVersion × List String) = acc at h
  have hversions : (merge base baseUpstream results).versions =
      acc.1.map fun e => rederiveYanked e.2 := by
    rw [← hacc]
    rfl
  -- a version of the merged document is an entry, with its yank flag derived
  have hmem : ∀ v ∈ (merge base baseUpstream results).versions,
      ∃ e ∈ acc.1, v = rederiveYanked e.2 ∧ v.version = e.1 ∧ v.files = e.2.files := by
    intro v hv
    rw [hversions] at hv
    obtain ⟨e, he, rfl⟩ := List.mem_map.mp hv
    obtain ⟨hname, hfiles⟩ := rederiveYanked_frame e.2
    exact ⟨e, he, rfl, hname.trans (h.of_mem he).1, hfiles⟩
  have hentry : ∀ e ∈ acc.1, ∃ v ∈ (merge base baseUpstream results).versions,
      v.version = e.1 ∧ v.files = e.2.files := by
    intro e he
    obtain ⟨hname, hfiles⟩ := rederiveYanked_frame e.2
    exact ⟨rederiveYanked e.2, hversions ▸ List.mem_map_of_mem he, hname.trans (h.of_mem he).1,
      hfiles⟩
  refine ⟨?_, fun n => ?_, fun v hv f hf => ?_, ?_, fun k => ?_, fun v hv hne => ?_,
    fun v hv hbare => ?_⟩
  · rw [hversions, List.flatMap_map]
    simp only [(rederiveYanked_frame _).2]
    exact h.nodup_filenames
  · have hlisted : n ∈ (results.flatMap listings).map Listing.filename ↔
        ∃ r ∈ results, ∃ w ∈ r.1.versions, ∃ f ∈ w.files, f.filename = n := by
      simp only [List.mem_map, List.mem_flatMap, mem_listings]
      constructor
      · rintro ⟨_, ⟨r, hr, w, hw, f, hf, rfl⟩, hn⟩
        exact ⟨r, hr, w, hw, f, hf, hn⟩
      · rintro ⟨r, hr, w, hw, f, hf, hn⟩
        exact ⟨_, ⟨r, hr, w, hw, f, hf, rfl⟩, hn⟩
    rw [← hlisted, ← h.filenames]
    constructor
    · rintro ⟨v, hv, f, hf, hn⟩
      obtain ⟨e, he, -, -, hfiles⟩ := hmem v hv
      exact ⟨e, he, f, hfiles ▸ hf, hn⟩
    · rintro ⟨e, he, f, hf, hn⟩
      obtain ⟨v, hv, -, hfiles⟩ := hentry e he
      exact ⟨v, hv, f, hfiles ▸ hf, hn⟩
  · obtain ⟨e, he, -, hname, hfiles⟩ := hmem v hv
    rw [hfiles, (h.of_mem he).2.1] at hf
    obtain ⟨x, hx, hk, rfl⟩ := mem_filesOf.mp hf
    obtain ⟨before, r, after, hresults, hbefore, hlisted⟩ := find?_listings (mem_firstWins.mp hx)
    obtain ⟨w, hw, g, hg, rfl⟩ := mem_listings.mp hlisted
    exact ⟨before, r, after, hresults, hbefore, w, hw, hk.trans hname.symm, g, hg, rfl⟩
  · have hkeys : (merge base baseUpstream results).versions.map RemoteVersion.version =
        acc.1.map Prod.fst := by
      rw [hversions, List.map_map]
      exact List.map_congr_left fun e he =>
        (rederiveYanked_frame e.2).1.trans (h.of_mem he).1
    rw [hkeys]
    exact h.keys
  · have hseen : (∃ w ∈ results.flatMap fun r => r.1.versions, w.version = k) ↔
        ∃ r ∈ results, ∃ w ∈ r.1.versions, w.version = k := by
      simp only [List.mem_flatMap]
      constructor
      · rintro ⟨w, ⟨r, hr, hw⟩, hk⟩
        exact ⟨r, hr, w, hw, hk⟩
      · rintro ⟨r, hr, w, hw, hk⟩
        exact ⟨w, ⟨r, hr, hw⟩, hk⟩
    rw [← hseen, ← h.exists_entry]
    constructor
    · rintro ⟨v, hv, hk⟩
      obtain ⟨e, he, -, hname, -⟩ := hmem v hv
      exact ⟨e, he, hname.symm.trans hk⟩
    · rintro ⟨e, he, hk⟩
      obtain ⟨v, hv, hname, -⟩ := hentry e he
      exact ⟨v, hv, hname.trans hk⟩
  · obtain ⟨e, he, rfl, -, hfiles⟩ := hmem v hv
    rw [hfiles] at hne ⊢
    exact rederiveYanked_truthy hne
  · obtain ⟨e, he, rfl, hname, hfiles⟩ := hmem v hv
    rw [hfiles] at hbare
    rw [hname, rederiveYanked_bare hbare]
    exact (h.of_mem he).2.2

end Union

/-! ## The answers of a tier -/

section Tier

variable (net : Network) (name : String) (validators : Option Validators)

/-- What an upstream contributes to its tier. -/
def contribution (u : Upstream) : Option (Answer × Upstream) :=
  match net.fetch u name (validatorsFor validators u) with
  | .package p _ => some (.package p, u)
  | .notModified => some (.notModified, u)
  | .notFound => none
  | .failure _ => none

variable {candidates us : List Upstream}

theorem contribution_upstream {u : Upstream} {a : Answer × Upstream}
    (h : contribution net name validators u = some a) : a.2 = u := by
  unfold contribution at h
  split at h
  all_goals cases h
  all_goals rfl

theorem queryEach_collects (hus : ∀ u ∈ us, u.kind.hasProvider = true) (st : ResolverState) :
    ∃ st', queryEach net name true validators us st =
      (.ok (us.filterMap (contribution net name validators), []), st') := by
  induction us generalizing st with
  | nil => exact ⟨st, rfl⟩
  | cons u us ih =>
    have hrest := fun st => ih (fun v hv => hus v (List.mem_cons_of_mem _ hv)) st
    have hprovider := hus u List.mem_cons_self
    rw [List.filterMap_cons]
    unfold queryEach queryOne contribution
    rw [if_pos hprovider]
    dsimp only
    rcases net.fetch u name (validatorsFor validators u) with ⟨p, v⟩ | _ | _ | why
    · obtain ⟨st', hst'⟩ := hrest (((st.ask [u]).markHealthy net u).setValidators u v)
      exact ⟨st', by dsimp only; rw [hst']; rfl⟩
    · obtain ⟨st', hst'⟩ := hrest ((st.ask [u]).markHealthy net u)
      exact ⟨st', by dsimp only; rw [hst']; rfl⟩
    · exact hrest _
    · exact hrest _

/-- A candidate's rank is its place. -/
theorem candidateOrder_getElem (hids : (candidates.map Upstream.id).Nodup) {i : Nat}
    (hi : i < candidates.length) {a : Answer × Upstream} (ha : a.2 = candidates[i]) :
    candidateOrder candidates a = i := by
  have hfind : candidates.findIdx? (fun u => u.id = a.2.id) = some i := by
    rw [List.findIdx?_eq_some_iff_getElem]
    refine ⟨hi, by simp [ha], fun j hj hsame => ?_⟩
    have hne := (List.pairwise_iff_getElem.mp (List.pairwise_map.mp hids)) j i (hj.trans hi) hi hj
    exact hne (by simpa [ha] using hsame)
  unfold candidateOrder
  rw [hfind]

/-- The contributions of the candidates, in their order, are ranked. -/
theorem contributions_ranked (hids : (candidates.map Upstream.id).Nodup) :
    (candidates.filterMap (contribution net name validators)).Pairwise
      fun a b => candidateOrder candidates a < candidateOrder candidates b := by
  rw [List.pairwise_filterMap, List.pairwise_iff_getElem]
  intro i j hi hj hij a ha b hb
  rw [candidateOrder_getElem hids hi (contribution_upstream net name validators ha),
    candidateOrder_getElem hids hj (contribution_upstream net name validators hb)]
  exact hij

/-- **The answers of a tier are in priority order**, whichever queries complete first. -/
theorem queryTier_collects (hids : (candidates.map Upstream.id).Nodup)
    (hus : ∀ u ∈ candidates, u.kind.hasProvider = true) (st : ResolverState) :
    ∃ st', queryTier net candidates name true validators st =
      (.ok (candidates.filterMap (contribution net name validators)), st') := by
  unfold queryTier
  split
  · have hperm := net.completion_perm candidates
    obtain ⟨st', hst'⟩ := queryEach_collects net name validators
      (fun u hu => hus u (hperm.mem_iff.mp hu)) (st.ask (candidates.filter fun u => u.kind.hasProvider))
    dsimp only
    rw [hst']
    have hsorted : ((net.completion candidates).filterMap (contribution net name validators)).insertionSort
        (fun a b => candidateOrder candidates a ≤ candidateOrder candidates b) =
          candidates.filterMap (contribution net name validators) := by
      have hranked := contributions_ranked net name validators hids
      have : Std.Total fun a b : Answer × Upstream =>
          candidateOrder candidates a ≤ candidateOrder candidates b := ⟨fun _ _ => le_total _ _⟩
      have : IsTrans (Answer × Upstream) fun a b =>
          candidateOrder candidates a ≤ candidateOrder candidates b := ⟨fun _ _ _ => le_trans⟩
      refine List.Perm.eq_of_pairwise ?_ (List.pairwise_insertionSort _ _)
        (hranked.imp fun h => h.le) ((List.perm_insertionSort _ _).trans (hperm.filterMap _))
      intro a b ha hb hab hba
      by_contra hne
      have hmem : a ∈ candidates.filterMap (contribution net name validators) :=
        (hperm.filterMap _).mem_iff.mp ((List.mem_insertionSort _).mp ha)
      have : Std.Symm fun a b : Answer × Upstream =>
          candidateOrder candidates a ≠ candidateOrder candidates b := ⟨fun _ _ h => h.symm⟩
      have hdiffer := (hranked.imp fun h => h.ne).forall hmem hb hne
      exact hdiffer (Nat.le_antisymm hab hba)
    dsimp only
    rw [hsorted]
    exact ⟨_, rfl⟩
  · obtain ⟨st', hst'⟩ := queryEach_collects net name validators hus st
    rw [hst']
    exact ⟨st', rfl⟩

end Tier

/-! ## The document of a tier -/

section Document

variable (net : Network) (name : String)

/-- The documents of a tier that merges, in the order of its upstreams. -/
def documents (candidates : List Upstream) : List (RemotePackage × Upstream) :=
  candidates.filterMap fun u => match net.fetch u name none with
    | .package p _ => some (p, u)
    | _ => none

/-- Without validators no upstream answers 304. -/
theorem contributions_eq (candidates : List Upstream) :
    candidates.filterMap (contribution net name none) =
      (documents net name candidates).map fun d => (.package d.1, d.2) := by
  unfold documents
  rw [List.map_filterMap]
  refine List.filterMap_congr fun u _ => ?_
  have hsent : validatorsFor none u = none := rfl
  unfold contribution
  rw [hsent]
  rcases hfetch : net.fetch u name none with ⟨p, v⟩ | _ | _ | why
  · rfl
  · exact absurd hfetch (net.fetch_unconditional u name)
  · rfl
  · rfl

variable {net name} {table : UpstreamTable} {ecosystem : Ecosystem} {g : Int × List Upstream}

theorem loadUpstreams_nodup (table : UpstreamTable) (ecosystem : Ecosystem) (enabledOnly : Bool) :
    ((loadUpstreams table ecosystem enabledOnly).map Upstream.id).Nodup :=
  ((List.perm_insertionSort Upstream.before _).map Upstream.id).nodup_iff.mpr
    (table.nodup.sublist (List.filter_sublist.map _))

theorem claimantsFor_sublist (cm : CaseMap) (upstreams : List Upstream) (name : String)
    (ecosystem : Ecosystem) : (claimantsFor cm upstreams name ecosystem).Sublist upstreams := by
  unfold claimantsFor
  dsimp only
  split <;> exact List.filter_sublist

/-- The candidates of a tier are rows of the table. -/
theorem candidates_sublist (cm : CaseMap)
    (hg : g ∈ groupByTier (claimantsFor cm (loadUpstreams table ecosystem) name ecosystem)) :
    (candidatesOf net g.2).Sublist (loadUpstreams table ecosystem) := by
  obtain ⟨t, -, rfl⟩ := List.mem_map.mp hg
  exact (List.filter_sublist.trans List.filter_sublist).trans (claimantsFor_sublist cm _ name ecosystem)

/-- **The document of a tier that merges**: the union of what its upstreams answer, in
their order, however the queries complete. -/
theorem merged_document {validators : Option Validators}
    (hg : g ∈ groupByTier (claimantsFor net.caseMap (loadUpstreams table .pypi) name .pypi))
    {first second : RemotePackage × Upstream} {rest : List (RemotePackage × Upstream)}
    (hdocuments : documents net name (candidatesOf net g.2) = first :: second :: rest)
    (st : ResolverState) :
    (tierStep net name true validators g st).1 = .stop (.ok (some
        { package := some (merge first.1 first.2 (first :: second :: rest))
          upstream := first.2
          tier := g.1 })) ∧
      UnionOf (documents net name (candidatesOf net g.2))
        (merge first.1 first.2 (first :: second :: rest)) := by
  refine ⟨?_, hdocuments ▸ merge_unionOf first.1 first.2 _⟩
  have hsub : (candidatesOf net g.2).Sublist (loadUpstreams table .pypi) :=
    candidates_sublist net.caseMap hg
  have hids := (loadUpstreams_nodup table .pypi true).sublist (hsub.map Upstream.id)
  have hproviders : ∀ u ∈ candidatesOf net g.2, u.kind.hasProvider = true := by
    intro u hu
    obtain ⟨-, hpypi, -⟩ := mem_loadUpstreams.mp (hsub.subset hu)
    exact u.hasProvider (by rw [hpypi]; decide)
  have hlen : 1 < (candidatesOf net g.2).length := by
    have hle : (documents net name (candidatesOf net g.2)).length ≤ (candidatesOf net g.2).length :=
      List.length_filterMap_le _ _
    rw [hdocuments, List.length_cons, List.length_cons] at hle
    omega
  have hsent : tierValidators true validators (candidatesOf net g.2) = none := by
    simp [tierValidators, hlen]
  obtain ⟨st', hst'⟩ := queryTier_collects net name none hids hproviders { st with tierErrors := [] }
  rw [contributions_eq, hdocuments] at hst'
  unfold tierStep
  dsimp only
  rw [if_neg (List.ne_nil_of_length_pos (by omega)), hsent, hst']
  simp [tierResult]

end Document

/-! ## Two spellings of a version -/

/-- Two upstreams in one tier. -/
def splitProject : UpstreamTable where
  rows :=
    [{ id := 1, name := "corp", ecosystem := .pypi, kind := .pypi },
     { id := 2, name := "pypi", ecosystem := .pypi, kind := .pypi }]

def corpTool : RemotePackage where
  name := "tool"
  versions := [{ version := "1.0", files := [{ filename := "tool-1.0.whl", url := "https://c/1.whl" }] }]

/-- The same wheel under another spelling, and a release that was yanked. -/
def publicWheels : RemotePackage where
  name := "tool"
  versions :=
    [{ version := "1.0.0", files := [{ filename := "tool-1.0.whl", url := "https://p/1.whl" }] },
     { version := "2.0", files := [{ filename := "tool-2.0.whl", url := "https://p/2.whl"
                                     yanked := .reason "broken" }] }]

/-- The second upstream completes first. -/
def splitNetwork : Network where
  caseMap := .ascii
  fetch u _ _ := .package (if u.id = 1 then corpTool else publicWheels) none
  fetch_unconditional u name := by simp
  fetch_untagged u name v p w h := by
    obtain ⟨rfl, -⟩ := Response.package.inj h
    split <;> decide
  now _ := 0
  checkedAt _ := 0
  tierParallel := true
  completion us := us.reverse
  completion_perm us := us.reverse_perm
  finishesLate _ := false

def pairTier : Int × List Upstream := (1, splitProject.rows)

def splitDocument : RemotePackage :=
  merge corpTool splitProject.rows[0]
    [(corpTool, splitProject.rows[0]), (publicWheels, splitProject.rows[1])]

/-- The version that lost its only file is not yanked. -/
theorem merge_bare_version : ∃ v ∈ splitDocument.versions,
    (∀ f ∈ v.files, f.yanked.truthy = true) ∧ v.yanked.truthy = false := by decide

theorem merged_document_split :
    (tierStep splitNetwork "tool" true none pairTier { rows := splitProject.rows }).1 =
      .stop (.ok (some
        { package := some splitDocument, upstream := splitProject.rows[0], tier := 1 })) ∧
      UnionOf (documents splitNetwork "tool" (candidatesOf splitNetwork pairTier.2)) splitDocument := by
  have hg : pairTier ∈ groupByTier (claimantsFor splitNetwork.caseMap
      (loadUpstreams splitProject .pypi) "tool" .pypi) := by decide
  exact merged_document hg rfl { rows := splitProject.rows }

end Minireg
