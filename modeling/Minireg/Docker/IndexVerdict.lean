import Minireg.Docker.Policy
import Mathlib.Logic.Relation

/-!
# The verdict on an index

An index is as bad as its worst image (`WorstImage`), whatever lies between them: indexes may name
indexes. `evaluateIndex` looks at the images an index names itself; `worstImage_iff` says when
these decide as all the images beneath it would.
-/

namespace Minireg.Docker

open Py Lib

/-- The index names this manifest. -/
def Names (db : Db) (index m : DockerManifest) : Prop :=
  m ∈ db.manifests ∧ m.digest ∈ db.childDigests [index.id]

/-- The manifest is named by the index, or by an index beneath it. -/
def Beneath (db : Db) : DockerManifest → DockerManifest → Prop := Relation.TransGen (Names db)

instance (db : Db) (index m : DockerManifest) : Decidable (Names db index m) :=
  inferInstanceAs (Decidable (_ ∧ _))

section Verdict

variable (db : Db) (repo : DockerRepository) (policy : ImagePolicy)

/-- The manifest on its own is refused. -/
def Refused (m : DockerManifest) : Prop := (evaluatePull db repo m policy).allowed = false

/-- The repository has a reason of the push rules against the manifest. -/
def blocked (m : DockerManifest) : Bool :=
  repo.isLocal && (pushBlockReason db repo m.id).getD "" ≠ ""

/-- An index is as bad as its worst image: a scanned image that is refused refuses it, and it is
allowed where all its images are. -/
structure WorstImage (index : DockerManifest) : Prop where
  refused : (∃ m, Beneath db index m ∧ m.kind = .image ∧ m.scanStatus = .scanned ∧
    Refused db repo policy m) → Refused db repo policy index
  allowed : (∀ m, Beneath db index m → m.kind = .image →
    (evaluatePull db repo m policy).allowed = true) →
      (evaluatePull db repo index policy).allowed = true

/-- Where the index is refused for itself (its repository is quarantined, or it is blocked), so is
an image beneath it; elsewhere, if a scanned image beneath it is refused, so is one that it names
itself, by its scan or by the push rules. -/
structure IndexClear (index : DockerManifest) : Prop where
  itself : repo.quarantined = true ∨ blocked db repo index = true →
    ∃ m, Beneath db index m ∧ m.kind = .image ∧ Refused db repo policy m
  beneath : repo.quarantined = false → blocked db repo index = false →
    (∃ m, Beneath db index m ∧ m.kind = .image ∧ m.scanStatus = .scanned ∧
      Refused db repo policy m) →
    ∃ m, Names db index m ∧ m.kind = .image ∧
      (m.scanStatus = .scanned ∨ blocked db repo m = true) ∧ Refused db repo policy m

end Verdict

section

variable {db : Db} {repo : DockerRepository} {policy : ImagePolicy} {index m : DockerManifest}

theorem evaluateRules_code (db : Db) (manifestId : Nat) (policy : ImagePolicy) (rules : GateRules)
    (label : String) : (evaluateRules db manifestId policy rules label).code = .denied := by
  unfold evaluateRules
  dsimp only
  split
  · rfl
  split
  · rfl
  split
  · rfl
  split <;> rfl

theorem blocked_eq : blocked db repo m =
    decide ((if repo.isLocal then (pushBlockReason db repo m.id).getD "" else "") ≠ "") := by
  unfold blocked
  cases repo.isLocal
  · rfl
  · simp

theorem refused_of_itself (h : repo.quarantined = true ∨ blocked db repo m = true) :
    Refused db repo policy m := by
  unfold Refused evaluatePull
  split
  · rfl
  · next hq =>
    have hb := h.resolve_left hq
    rw [blocked_eq, decide_eq_true_eq] at hb
    dsimp only
    rw [if_pos hb]
    rfl

/-- An image that is scanned and not blocked takes the pull rules. -/
theorem refused_scanned (hq : repo.quarantined = false) (hb : blocked db repo m = false)
    (hkind : m.kind = .image) (hscanned : m.scanStatus = .scanned) : Refused db repo policy m ↔
      (evaluateRules db m.id policy policy.pull "pull").allowed = false := by
  rw [blocked_eq, decide_eq_false_iff_not] at hb
  unfold Refused evaluatePull
  rw [if_neg (by simp [hq])]
  dsimp only
  rw [if_neg hb, hkind]
  dsimp only
  rw [if_pos hscanned]

/-- An image refuses the indexes that name it when its scan or the push rules refuse it. -/
theorem evaluateChild_isSome (hq : repo.quarantined = false) (hkind : m.kind = .image) :
    (evaluateChild db repo policy m).isSome = true ↔
      (m.scanStatus = .scanned ∨ blocked db repo m = true) ∧ Refused db repo policy m := by
  unfold evaluateChild
  dsimp only
  by_cases hb : blocked db repo m = true
  · have hrefused : Refused db repo policy m := refused_of_itself (.inr hb)
    have hmark := hb
    rw [blocked_eq, decide_eq_true_eq] at hmark
    rw [if_pos hmark]
    simp [refuse, hb, hrefused]
  · have hmark := eq_false_of_ne_true hb
    rw [blocked_eq, decide_eq_false_iff_not] at hmark
    rw [if_neg hmark]
    by_cases hscanned : m.scanStatus = .scanned
    · rw [if_pos hscanned, refused_scanned hq (eq_false_of_ne_true hb) hkind hscanned]
      rcases hallowed : (evaluateRules db m.id policy policy.pull "pull").allowed with _ | _
      · simp [hallowed, evaluateRules_code, hscanned]
      · simp [hallowed]
    · simp [hscanned, hb]

theorem evaluateChild_allowed {v : ImageVerdict} (h : evaluateChild db repo policy m = some v) :
    v.allowed = false := by
  unfold evaluateChild at h
  obtain ⟨verdict, -, h⟩ := Option.bind_eq_some_iff.mp h
  split at h
  · obtain rfl := Option.some.inj h
    rfl
  · cases h

theorem evaluateIndex_refused : (evaluateIndex db repo index.id policy).allowed = false ↔
    ∃ m, Names db index m ∧ m.kind = .image ∧ (evaluateChild db repo policy m).isSome = true := by
  have hchild : ∀ m, m ∈ childImages db index.id ↔ Names db index m ∧ m.kind = .image := by
    intro m
    unfold childImages Names
    simp [List.mem_filter, and_assoc, Table.mem_rows]
  unfold evaluateIndex
  rcases hfind : (childImages db index.id).findSome? (evaluateChild db repo policy) with _ | v
  · refine iff_of_false (by simp [allow]) ?_
    rintro ⟨m, hnames, hkind, hsome⟩
    rw [List.findSome?_eq_none_iff.mp hfind m ((hchild m).mpr ⟨hnames, hkind⟩)] at hsome
    cases hsome
  · obtain ⟨m, hm, hv⟩ := List.exists_of_findSome?_eq_some hfind
    refine iff_of_true (evaluateChild_allowed hv) ⟨m, ((hchild m).mp hm).1, ((hchild m).mp hm).2, ?_⟩
    rw [hv]
    rfl

/-- **What refuses an index**: itself, or an image that it names. -/
theorem refused_index (hindex : index.kind = .index) : Refused db repo policy index ↔
    repo.quarantined = true ∨ blocked db repo index = true ∨
      ∃ m, Names db index m ∧ m.kind = .image ∧
        (m.scanStatus = .scanned ∨ blocked db repo m = true) ∧ Refused db repo policy m := by
  by_cases hitself : repo.quarantined = true ∨ blocked db repo index = true
  · exact iff_of_true (refused_of_itself hitself) (hitself.elim .inl fun hb => .inr (.inl hb))
  · obtain ⟨hq, hb⟩ := not_or.mp hitself
    have hmark := eq_false_of_ne_true hb
    rw [blocked_eq, decide_eq_false_iff_not] at hmark
    have hpull : evaluatePull db repo index policy = evaluateIndex db repo index.id policy := by
      unfold evaluatePull
      rw [if_neg hq]
      dsimp only
      rw [if_neg hmark, hindex]
    unfold Refused
    rw [hpull, evaluateIndex_refused, or_iff_right hq, or_iff_right hb]
    refine exists_congr fun m => and_congr_right fun _ => and_congr_right fun hkind => ?_
    exact evaluateChild_isSome (eq_false_of_ne_true hq) hkind

/-- **When an index is as bad as its worst image.** -/
theorem worstImage_iff (db : Db) (repo : DockerRepository) (policy : ImagePolicy)
    {index : DockerManifest} (hindex : index.kind = .index) :
    WorstImage db repo policy index ↔ IndexClear db repo policy index := by
  constructor
  · intro h
    constructor
    · intro hitself
      by_contra hnone
      have hallowed := h.allowed fun m hm hkind =>
        eq_true_of_ne_false fun hrefused => hnone ⟨m, hm, hkind, hrefused⟩
      have hrefused : Refused db repo policy index := refused_of_itself hitself
      unfold Refused at hrefused
      rw [hallowed] at hrefused
      cases hrefused
    · intro hq hb hex
      rcases (refused_index hindex).mp (h.refused hex) with hq' | hb' | hchild
      · rw [hq] at hq'
        cases hq'
      · rw [hb] at hb'
        cases hb'
      · exact hchild
  · intro h
    constructor
    · intro hex
      refine (refused_index hindex).mpr ?_
      by_cases hq : repo.quarantined = true
      · exact .inl hq
      by_cases hb : blocked db repo index = true
      · exact .inr (.inl hb)
      exact .inr (.inr (h.beneath (eq_false_of_ne_true hq) (eq_false_of_ne_true hb) hex))
    · intro hall
      refine eq_true_of_ne_false fun hrefused => ?_
      have hbad : ∃ m, Beneath db index m ∧ m.kind = .image ∧ Refused db repo policy m := by
        rcases (refused_index hindex).mp hrefused with hq | hb | ⟨m, hnames, hkind, -, hm⟩
        · exact h.itself (.inl hq)
        · exact h.itself (.inr hb)
        · exact ⟨m, .single hnames, hkind, hm⟩
      obtain ⟨m, hm, hkind, hrefused'⟩ := hbad
      unfold Refused at hrefused'
      rw [hall m hm hkind] at hrefused'
      cases hrefused'

/-- An index that names no index is as bad as its worst image, unless it is refused for itself. -/
theorem worstImage_of_flat (hindex : index.kind = .index) (hq : repo.quarantined = false)
    (hb : blocked db repo index = false)
    (hflat : ∀ m m', Names db index m → ¬ Names db m m') : WorstImage db repo policy index := by
  refine (worstImage_iff db repo policy hindex).mpr ⟨?_, fun _ _ => ?_⟩
  · rintro (hq' | hb')
    · rw [hq] at hq'
      cases hq'
    · rw [hb] at hb'
      cases hb'
  · rintro ⟨m, hm, hkind, hscanned, hrefused⟩
    have hnames : ∀ m', Beneath db index m' → Names db index m' := by
      intro m' hm'
      induction hm' with
      | single hnames => exact hnames
      | tail _ hnames ih => exact absurd hnames (hflat _ _ ih)
    exact ⟨m, hnames m hm, hkind, .inl hscanned, hrefused⟩

end

/-! ## An index of an index -/

def xzImage : DockerManifest :=
  { id := 3, digest := "sha256:image", platform := some "linux/amd64", scanStatus := .scanned }

def innerIndex : DockerManifest :=
  { id := 2, digest := "sha256:inner", kind := .index, isIndex := true }

def outerIndex : DockerManifest :=
  { id := 1, digest := "sha256:outer", kind := .index, isIndex := true }

/-- The outer index names the inner one, which names an image with a denied vulnerability. -/
def nestedDb : Db where
  manifests := { rows := [outerIndex, innerIndex, xzImage] }
  refs :=
    [{ manifestId := 1, refType := .manifest, digest := "sha256:inner" },
     { manifestId := 2, refType := .manifest, digest := "sha256:image" }]
  findings := [{ manifestId := 3, scanId := 4, vulnId := "CVE-2024-3094" }]
  nextId := 5

def nestedRepo : DockerRepository := { id := 1, name := "hub/app", upstreamId := some 1 }

def denyXz : ImagePolicy := { denyCves := ["CVE-2024-3094"] }

/-- The image and the inner index are refused, the outer one is not. -/
theorem outerIndex_allowed : ¬ WorstImage nestedDb nestedRepo denyXz outerIndex := by
  have hbeneath : Beneath nestedDb outerIndex xzImage := by
    have hinner : Names nestedDb outerIndex innerIndex := by decide
    have himage : Names nestedDb innerIndex xzImage := by decide
    exact .tail (.single hinner) himage
  have himage : (evaluatePull nestedDb nestedRepo xzImage denyXz).allowed = false := by
    decide +kernel
  have houter : (evaluatePull nestedDb nestedRepo outerIndex denyXz).allowed = true := by
    decide +kernel
  intro h
  have hrefused := h.refused ⟨xzImage, hbeneath, rfl, rfl, himage⟩
  unfold Refused at hrefused
  rw [houter] at hrefused
  cases hrefused

/-- The inner index is as bad as its image. -/
theorem worstImage_iff_inner : innerIndex.kind = .index ∧
    (WorstImage nestedDb nestedRepo denyXz innerIndex ↔
      IndexClear nestedDb nestedRepo denyXz innerIndex) :=
  ⟨rfl, worstImage_iff nestedDb nestedRepo denyXz rfl⟩

end Minireg.Docker
