import Minireg.Docker.Queue
import Mathlib.Data.List.Find

/-!
# Shared manifest rows

A manifest has one row, whatever repositories hold it, and an index rewrites the
rows of the manifests it names. `imageView` is all that the verdict and the
scanner look at for one image in one repository; `storeIn_view` says what a
store does to it. `storing_elsewhere` compares two histories, one with an index
stored and one without: they treat an image alike unless the index names it.
-/

namespace Minireg.Docker

open Py Lib

/-! ## What an index entry teaches -/

/-- What an index may rewrite in the row of a child. -/
structure ImageFacts where
  kind : Kind
  scanStatus : ScanStatus
  platform : Option String
  deriving DecidableEq, Repr

def DockerManifest.facts (m : DockerManifest) : ImageFacts :=
  { kind := m.kind, scanStatus := m.scanStatus, platform := m.platform }

/-- An entry read by the row of a digest. -/
def ImageFacts.learn (digest : Digest) (f : ImageFacts) (ref : Ref) : ImageFacts :=
  if digest = ref.digest then
    let f := if ref.platform.getD "" ≠ "" && f.platform = none then
        { f with platform := ref.platform }
      else f
    if isAttestationEntry ref.platform ref.annotations then
      { f with kind := .attestation, scanStatus := .notApplicable }
    else f
  else f

theorem learnEntry_facts (ref : Ref) (m : DockerManifest) :
    (learnEntry ref m).facts = m.facts.learn m.digest ref := by
  unfold learnEntry ImageFacts.learn DockerManifest.facts
  by_cases hd : m.digest = ref.digest
  · by_cases hp : (ref.platform.getD "" ≠ "" && m.platform = none) = true <;>
      by_cases ha : isAttestationEntry ref.platform ref.annotations = true <;>
      simp only [hd, hp, ha, if_true, if_false, Bool.false_eq_true]
  · simp only [hd, if_false]

theorem learnEntries_facts (refs : List Ref) (m : DockerManifest) :
    (learnEntries refs m).facts = refs.foldl (ImageFacts.learn m.digest) m.facts := by
  induction refs generalizing m with
  | nil => rfl
  | cons ref refs ih =>
    exact (ih (learnEntry ref m)).trans (by rw [learnEntry_digest, learnEntry_facts]; rfl)

/-- An entry says nothing about a row: it names another digest, or it is no
attestation and gives no platform that the row lacks. -/
def Ref.Silent (digest : Digest) (f : ImageFacts) (ref : Ref) : Prop :=
  digest = ref.digest → isAttestationEntry ref.platform ref.annotations = false ∧
    (f.platform = none → ref.platform.getD "" = "")

/-- A finding without the ids of its rows. -/
def DockerFinding.content (f : DockerFinding) : DockerFinding :=
  { f with manifestId := 0, scanId := 0 }

/-- All that the verdict and the scanner look at for one image in one repository. -/
structure ImageView where
  facts : ImageFacts
  blockReason : Option String
  findings : List DockerFinding
  skipReason : Option String
  deriving DecidableEq

def viewOf (db : Db) (repo : DockerRepository) (m : DockerManifest) : ImageView :=
  { facts := m.facts
    blockReason := pushBlockReason db repo m.id
    findings := (findingsOf db m.id).map DockerFinding.content
    skipReason := Docker.skipReason db m.id }

def imageView (db : Db) (repo : DockerRepository) (digest : Digest) : Option ImageView :=
  (db.manifestRow digest).map (viewOf db repo)

section Verdict

variable {db₁ db₂ : Db} {repo : DockerRepository} {policy : ImagePolicy} {m₁ m₂ : DockerManifest}

end Verdict

/-! ## What a store does to a view -/

/-- What an index stored earlier says about a digest. -/
def parentHint (db : Db) (digest : Digest) : Option (Option String × List (String × Json)) :=
  (parentRef db digest).map fun r => (r.platform, r.annotations)

/-- What is known of a manifest when its row is made. -/
def newFacts (parsed : ParsedManifest)
    (hint : Option (Option String × List (String × Json))) : ImageFacts :=
  let of := fun (kind : Kind) (platform : Option String) =>
    { kind := kind, scanStatus := if kind = .image then .unscanned else .notApplicable,
      platform := platform : ImageFacts }
  if parsed.isIndex then of parsed.kind none
  else
    match hint with
    | none => of parsed.kind none
    | some (platform, annotations) =>
      if isAttestationEntry platform annotations then of .attestation none
      else of parsed.kind platform

/-- The entries of an index; other manifests teach nothing. -/
def entriesOf (parsed : ParsedManifest) : List Ref := if parsed.isIndex then parsed.refs else []

section Store

variable {env : RegistryEnv} {db : Db} {repo : DockerRepository} {digest : Digest}

theorem newManifest_facts (db : Db) (parsed : ParsedManifest) (digest : Digest) (size : Nat)
    (upstreamId pushedBy : Option Nat) (now : Time) :
    (newManifest db parsed digest size upstreamId pushedBy now).facts =
      newFacts parsed (parentHint db digest) := by
  unfold newManifest newKind newFacts parentHint DockerManifest.facts
  dsimp only
  split
  · rfl
  · rcases parentRef db digest with _ | r
    · rfl
    · dsimp only [Option.map_some]
      split <;> rfl

/-- What storing does, case by case. -/
theorem storeIn_eq (body : List UInt8) (contentType : Option String) (expected : Option Digest)
    (upstreamId pushedBy : Option Nat) (now : Time) :
    storeIn env repo body contentType expected upstreamId pushedBy now db =
      match accepted env body contentType expected with
      | none => db
      | some parsed =>
        match db.manifestRow (env.sha256 body) with
        | some existing => (db.putFile (env.sha256 body)).link repo existing
        | none =>
          let row := newManifest db parsed (env.sha256 body) body.length upstreamId pushedBy now
          (insertManifest parsed row (db.putFile (env.sha256 body))).link repo row := by
  have hstore : storeIn env repo body contentType expected upstreamId pushedBy now db =
      match (storeManifest env body contentType expected upstreamId pushedBy now db).toOption with
      | some (db, row) => db.link repo row
      | none => db := by
    unfold storeIn
    rcases storeManifest env body contentType expected upstreamId pushedBy now db with e | ⟨db', row⟩ <;>
      rfl
  rw [hstore, storeManifest_eq]
  rcases accepted env body contentType expected with _ | parsed
  · rfl
  · dsimp only [Option.map_some]
    rcases db.manifestRow (env.sha256 body) with _ | existing <;> rfl

/-- No row points at an id not yet given out, links included. -/
structure IdsGiven (db : Db) : Prop extends QueueOk db where
  links : ∀ l ∈ db.repoManifests, l.manifestId < db.nextId

theorem IdsGiven.putFile (h : IdsGiven db) (digest : Digest) : IdsGiven (db.putFile digest) := by
  unfold Db.putFile
  split
  · exact h
  · exact ⟨⟨h.rows, h.findings, h.jobs, h.oneJob⟩, h.links⟩

/-- Looking a digest up after an insertion. -/
theorem manifestRow_insert {parsed : ParsedManifest} {row : DockerManifest} (hids : IdsGiven db)
    (hid : row.id = db.nextId) :
    (insertManifest parsed row db).manifestRow digest =
      (db.manifestRow digest <|> if row.digest = digest then some row else none).map
        (learnEntries (entriesOf parsed)) := by
  have hfresh : ∀ m ∈ db.manifests, m.id ≠ row.id := fun m hm => by
    have := hids.rows m hm
    omega
  have hnil : learnEntries [] = id := rfl
  have hrows : (insertManifest parsed row db).manifests.rows =
      (db.manifests.rows ++ [row]).map (learnEntries (entriesOf parsed)) := by
    unfold insertManifest entriesOf
    dsimp only
    split
    · exact congrArg (List.map _) (Table.put_rows_of_fresh hfresh)
    · rw [hnil, List.map_id]
      exact Table.put_rows_of_fresh hfresh
  have hp : (fun m : DockerManifest => decide (m.digest = digest)) ∘
      learnEntries (entriesOf parsed) = fun m => decide (m.digest = digest) :=
    funext fun m => by simp only [Function.comp, learnEntries_digest]
  unfold Db.manifestRow
  rw [hrows, List.find?_map, hp, List.find?_append]
  congr 1
  by_cases hd : row.digest = digest <;> simp [hd]

@[simp] theorem pushBlockReason_link (repo' : DockerRepository) (m : DockerManifest) (i : Nat) :
    pushBlockReason (db.link repo' m) repo i = pushBlockReason db repo i := by
  unfold Db.link
  split
  · rfl
  · unfold pushBlockReason Db.linkOf
    dsimp only
    rw [List.find?_append]
    generalize db.repoManifests.find? _ = found
    rcases found with _ | l
    · -- a new link carries no verdict
      rw [Option.none_or, List.find?_singleton]
      split <;> rfl
    · rfl

theorem viewOf_link (repo' : DockerRepository) (m n : DockerManifest) :
    viewOf (db.link repo' m) repo n = viewOf db repo n := by
  unfold viewOf
  rw [pushBlockReason_link]
  unfold Db.link
  split <;> rfl

theorem imageView_link (repo' : DockerRepository) (m : DockerManifest) :
    imageView (db.link repo' m) repo digest = imageView db repo digest := by
  have hv : viewOf (db.link repo' m) repo = viewOf db repo := funext (viewOf_link repo' m)
  have hrow : (db.link repo' m).manifestRow digest = db.manifestRow digest := by
    unfold Db.link
    split <;> rfl
  unfold imageView
  rw [hv, hrow]

theorem imageView_putFile (d : Digest) :
    imageView (db.putFile d) repo digest = imageView db repo digest := by
  unfold Db.putFile
  split <;> rfl

/-- A pull is recorded in the row, and nowhere an image is looked at. -/
theorem imageView_touch {now : Time} {m : DockerManifest} :
    imageView (Docker.touch now db m) repo digest = imageView db repo digest := by
  have hrows : (Docker.touch now db m).manifestRow digest = (db.manifestRow digest).map fun n =>
      if n.id = m.id then { n with lastAccessedAt := some now } else n := by
    unfold Docker.touch Db.updateManifest Db.manifestRow Table.modify
    dsimp only
    rw [List.find?_map]
    congr 1
    refine List.find?_congr fun n _ => ?_
    by_cases hn : n.id = m.id <;> simp [hn]
  unfold imageView
  rw [hrows, Option.map_map]
  congr 1
  funext n
  dsimp only [Function.comp]
  split <;> rfl

/-- The view of a row just made: nothing is known of it but its facts. -/
def ImageView.fresh (facts : ImageFacts) : ImageView :=
  { facts := facts, blockReason := none, findings := [], skipReason := none }

def ImageView.learn (digest : Digest) (refs : List Ref) (v : ImageView) : ImageView :=
  { v with facts := refs.foldl (ImageFacts.learn digest) v.facts }

theorem viewOf_learnEntries (refs : List Ref) (m : DockerManifest) :
    viewOf db repo (learnEntries refs m) = (viewOf db repo m).learn m.digest refs := by
  unfold viewOf ImageView.learn
  rw [learnEntries_facts, learnEntries_id]

/-- No findings, no jobs and no verdicts are stored under a fresh id. -/
theorem viewOf_fresh (hids : IdsGiven db) {m : DockerManifest} (hid : m.id = db.nextId) :
    viewOf db repo m = ImageView.fresh m.facts := by
  have hf : findingsOf db m.id = [] := by
    refine List.filter_eq_nil_iff.mpr fun f hf => ?_
    have := hids.findings f hf
    simp only [decide_eq_true_eq]
    omega
  have hj : (db.jobs.rows.filter fun j => j.manifestId = m.id) = [] := by
    refine List.filter_eq_nil_iff.mpr fun j hj => ?_
    have := (hids.jobs j hj).2
    simp only [decide_eq_true_eq]
    omega
  have hl : db.linkOf repo m.id = none := by
    refine List.find?_eq_none.mpr fun l hl => ?_
    have := hids.links l hl
    simp only [Bool.and_eq_true, decide_eq_true_eq, not_and]
    omega
  unfold viewOf ImageView.fresh pushBlockReason skipReason
  rw [hf, hj, hl]
  rfl

/-- **What a store does to a view.** -/
theorem storeIn_view (env : RegistryEnv) (repo : DockerRepository) (digest : Digest) (hids : IdsGiven db) (repo' : DockerRepository) (body : List UInt8)
    (contentType : Option String) (expected : Option Digest) (upstreamId pushedBy : Option Nat)
    (now : Time) :
    imageView (storeIn env repo' body contentType expected upstreamId pushedBy now db) repo digest =
      match accepted env body contentType expected with
      | none => imageView db repo digest
      | some parsed =>
        if (db.manifestRow (env.sha256 body)).isSome then imageView db repo digest
        else (imageView db repo digest <|>
          if env.sha256 body = digest then
            some (ImageView.fresh (newFacts parsed (parentHint db digest)))
          else none).map (ImageView.learn digest (entriesOf parsed)) := by
  rw [storeIn_eq]
  rcases accepted env body contentType expected with _ | parsed
  · rfl
  · dsimp only
    rcases hrow : db.manifestRow (env.sha256 body) with _ | existing
    · simp only [Option.isSome_none, Bool.false_eq_true, if_false]
      rw [imageView_link]
      have hids' := hids.putFile (env.sha256 body)
      have hn : (db.putFile (env.sha256 body)).nextId = db.nextId := by
        unfold Db.putFile
        split <;> rfl
      have hfind : (db.putFile (env.sha256 body)).manifestRow digest = db.manifestRow digest := by
        unfold Db.putFile
        split <;> rfl
      -- an insertion touches neither the findings, nor the jobs, nor the links
      have hview : ∀ row m, viewOf (insertManifest parsed row (db.putFile (env.sha256 body))) repo m
          = viewOf db repo m := fun row m => by
        unfold Db.putFile
        split <;> rfl
      have hdig : (newManifest db parsed (env.sha256 body) body.length upstreamId pushedBy
          now).digest = env.sha256 body := rfl
      unfold imageView
      rw [manifestRow_insert hids' hn.symm, hfind, hdig]
      rcases hd : db.manifestRow digest with _ | m
      · by_cases hself : env.sha256 body = digest
        · rw [if_pos hself, if_pos hself]
          change some (viewOf _ repo (learnEntries _ _)) =
            some (ImageView.learn digest _ (ImageView.fresh _))
          rw [hview, viewOf_learnEntries, viewOf_fresh hids rfl, newManifest_facts, hdig, hself]
        · rw [if_neg hself, if_neg hself]
          rfl
      · have hdigest : m.digest = digest := by simpa using List.find?_some hd
        simp only [Option.map_some]
        change some (viewOf _ repo (learnEntries _ m)) = some _
        rw [hview, viewOf_learnEntries, hdigest]
    · simp only [Option.isSome_some, if_true]
      rw [imageView_link, imageView_putFile]

/-- What a store does to the hints: a new index adds its entries after the others. -/
theorem storeIn_hint (repo' : DockerRepository) (body : List UInt8)
    (contentType : Option String) (expected : Option Digest) (upstreamId pushedBy : Option Nat)
    (now : Time) :
    parentHint (storeIn env repo' body contentType expected upstreamId pushedBy now db) digest =
      match accepted env body contentType expected with
      | none => parentHint db digest
      | some parsed =>
        if (db.manifestRow (env.sha256 body)).isSome then parentHint db digest
        else parentHint db digest <|>
          ((entriesOf parsed).find? fun r => r.digest = digest).map
            fun r => (r.platform, r.annotations) := by
  have hlink : ∀ (db : Db) (m : DockerManifest), parentHint (db.link repo' m) digest =
      parentHint db digest := fun db m => by
    unfold Db.link
    split <;> rfl
  have hput : ∀ d, parentHint (db.putFile d) digest = parentHint db digest := fun d => by
    unfold Db.putFile
    split <;> rfl
  rw [storeIn_eq]
  rcases hacc : accepted env body contentType expected with _ | parsed
  · rfl
  · dsimp only
    rcases db.manifestRow (env.sha256 body) with _ | existing
    · simp only [Option.isSome_none, Bool.false_eq_true, if_false]
      have hparse : parse env.codec body contentType = .ok parsed := by
        unfold accepted at hacc
        split at hacc
        · cases hacc
        · next hp =>
          split at hacc
          · cases hacc
          · cases hacc
            exact hp
      have hentries : parsed.refs.find? (fun r => r.digest = digest && r.refType = .manifest) =
          (entriesOf parsed).find? fun r => r.digest = digest := by
        unfold entriesOf
        split
        · next hi =>
          refine List.find?_congr fun r hr => ?_
          rw [(parse_refType hparse r hr).mpr hi]
          simp
        · next hi =>
          refine List.find?_eq_none.mpr fun r hr => ?_
          have : r.refType ≠ .manifest := fun h => hi ((parse_refType hparse r hr).mp h)
          simp [this]
      rw [hlink]
      conv_rhs => rw [← hput (env.sha256 body), ← hentries]
      unfold parentHint parentRef insertManifest
      dsimp only
      rw [List.find?_append]
      generalize (db.putFile (env.sha256 body)).refs.find? _ = found
      rcases found with _ | r
      · unfold refRows
        rw [List.find?_map]
        change ((parsed.refs.find? fun r => r.digest = digest && r.refType = .manifest).map _).map _
          = ((parsed.refs.find? fun r => r.digest = digest && r.refType = .manifest).map _)
        rw [Option.map_map]
        rfl
      · rfl
    · simp only [Option.isSome_some, if_true]
      rw [hlink, hput]

theorem imageView_isSome (repo : DockerRepository) : (imageView db repo digest).isSome = (db.manifestRow digest).isSome := by
  unfold imageView
  exact Option.isSome_map

end Store

/-! ## Registry histories -/

/-- What requests write, apart from the scanner: manifests, links, tags and the
times of pulls. -/
inductive RegistryWrite where
  | store (repo : DockerRepository) (body : List UInt8) (contentType : Option String)
      (expected : Option Digest) (upstreamId pushedBy : Option Nat) (now : Time)
  | link (repo : DockerRepository) (digest : Digest)
  | tag (repo : DockerRepository) (name : String) (digest : Digest) (now : Time)
  | touch (digest : Digest) (now : Time)

def RegistryWrite.apply (env : RegistryEnv) (db : Db) : RegistryWrite → Db
  | .store repo body contentType expected upstreamId pushedBy now =>
    storeIn env repo body contentType expected upstreamId pushedBy now db
  | .link repo digest =>
    match db.manifestRow digest with
    | some m => db.link repo m
    | none => db
  | .tag repo name digest now =>
    match db.manifestRow digest with
    | some m => setTag repo name m now db
    | none => db
  | .touch digest now =>
    match db.manifestRow digest with
    | some m => Docker.touch now db m
    | none => db

/-- The digest a write stores. -/
def RegistryWrite.stores (env : RegistryEnv) : RegistryWrite → Option Digest
  | .store _ body _ _ _ _ _ => some (env.sha256 body)
  | _ => none

def runWrites (env : RegistryEnv) (db : Db) (ws : List RegistryWrite) : Db :=
  ws.foldl (RegistryWrite.apply env) db

section Histories

variable {env : RegistryEnv} {db db₁ db₂ : Db} {repo : DockerRepository} {digest other : Digest}

/-! ### Every write keeps the ids given out -/

theorem link_ids (h : IdsGiven db) {m : DockerManifest} (hm : m.id < db.nextId)
    (repo' : DockerRepository) : IdsGiven (db.link repo' m) where
  toQueueOk := h.toQueueOk.of_core (link_core db repo' m)
  links l hl := by
    unfold Db.link at hl ⊢
    split at hl
    · next hlinked => rw [if_pos hlinked]; exact h.links l hl
    · next hlinked =>
      rw [if_neg hlinked]
      rcases List.mem_append.mp hl with hl | hl
      · exact h.links l hl
      · rw [List.mem_singleton.mp hl]
        exact hm

theorem storeIn_ids (env : RegistryEnv) (h : IdsGiven db) (repo' : DockerRepository) (body : List UInt8)
    (contentType : Option String) (expected : Option Digest) (upstreamId pushedBy : Option Nat)
    (now : Time) :
    IdsGiven (storeIn env repo' body contentType expected upstreamId pushedBy now db) := by
  have hput := h.putFile (env.sha256 body)
  have hn : (db.putFile (env.sha256 body)).nextId = db.nextId :=
    congrArg (fun c => c.2.2.2) (putFile_core db (env.sha256 body))
  rw [storeIn_eq]
  rcases accepted env body contentType expected with _ | parsed
  · exact h
  · dsimp only
    rcases hrow : db.manifestRow (env.sha256 body) with _ | existing
    · have hins : IdsGiven (insertManifest parsed (newManifest db parsed (env.sha256 body)
          body.length upstreamId pushedBy now) (db.putFile (env.sha256 body))) :=
        { toQueueOk := hput.toQueueOk.insertManifest hn.symm
          links := fun l hl => Nat.lt_succ_of_lt (hput.links l hl) }
      refine link_ids hins ?_ _
      exact Nat.lt_succ_of_le (Nat.le_of_eq hn.symm)
    · refine link_ids hput ?_ _
      rw [hn]
      exact h.rows existing (List.mem_of_find?_eq_some hrow)

theorem RegistryWrite.apply_ids (env : RegistryEnv) (h : IdsGiven db) (w : RegistryWrite) :
    IdsGiven (w.apply env db) := by
  cases w with
  | store repo' body contentType expected upstreamId pushedBy now => exact storeIn_ids env h ..
  | link repo' d =>
    dsimp only [RegistryWrite.apply]
    split
    · next m hm => exact link_ids h (h.rows m (List.mem_of_find?_eq_some hm)) repo'
    · exact h
  | tag repo' name d now =>
    dsimp only [RegistryWrite.apply]
    split
    · exact ⟨⟨h.rows, h.findings, h.jobs, h.oneJob⟩, h.links⟩
    · exact h
  | touch d now =>
    dsimp only [RegistryWrite.apply]
    split
    · exact ⟨h.toQueueOk.updateManifest, h.links⟩
    · exact h

/-! ### Two histories -/

/-- Two states that agree on the image of `digest`, where only `other` may be
stored in one and not in the other. -/
structure Agree (digest other : Digest) (db₁ db₂ : Db) : Prop where
  ids₁ : IdsGiven db₁
  ids₂ : IdsGiven db₂
  view : ∀ repo, imageView db₁ repo digest = imageView db₂ repo digest
  stored : ∀ d, d ≠ other → (db₁.manifestRow d).isSome = (db₂.manifestRow d).isSome
  hint : db₁.manifestRow digest = none → parentHint db₁ digest = parentHint db₂ digest

/-- A write that changes no view and no hint. -/
theorem Agree.quiet {db₁' db₂' : Db} (h : Agree digest other db₁ db₂) (h₁ : IdsGiven db₁')
    (h₂ : IdsGiven db₂') (hv₁ : ∀ repo d, imageView db₁' repo d = imageView db₁ repo d)
    (hv₂ : ∀ repo d, imageView db₂' repo d = imageView db₂ repo d)
    (hr₁ : db₁'.refs = db₁.refs) (hr₂ : db₂'.refs = db₂.refs) :
    Agree digest other db₁' db₂' := by
  have hs : ∀ {db db' : Db}, (∀ repo d, imageView db' repo d = imageView db repo d) →
      ∀ d, (db'.manifestRow d).isSome = (db.manifestRow d).isSome := fun hv d => by
    rw [← imageView_isSome { id := 0, name := "" }, hv, imageView_isSome]
  refine ⟨h₁, h₂, fun repo => by rw [hv₁, hv₂, h.view], fun d hd => ?_, fun hnone => ?_⟩
  · rw [hs hv₁, hs hv₂, h.stored d hd]
  · have hnone' : db₁.manifestRow digest = none := by
      have := hs hv₁ digest
      rwa [hnone, eq_comm, Option.isSome_none, Option.isSome_eq_false_iff,
        Option.isNone_iff_eq_none] at this
    have hp := h.hint hnone'
    unfold parentHint parentRef at hp ⊢
    rw [hr₁, hr₂]
    exact hp

/-- Whether a digest is stored after a store. -/
theorem storeIn_isSome (env : RegistryEnv) (h : IdsGiven db) (repo' : DockerRepository) (body : List UInt8)
    (contentType : Option String) (expected : Option Digest) (upstreamId pushedBy : Option Nat)
    (now : Time) (d : Digest) :
    ((storeIn env repo' body contentType expected upstreamId pushedBy now db).manifestRow d).isSome =
      ((db.manifestRow d).isSome ||
        ((accepted env body contentType expected).isSome && decide (env.sha256 body = d))) := by
  rw [← imageView_isSome repo', storeIn_view _ _ _ h]
  rcases accepted env body contentType expected with _ | parsed
  · simp [imageView_isSome]
  · dsimp only
    by_cases hd : env.sha256 body = d
    · subst hd
      rcases hrow : db.manifestRow (env.sha256 body) with _ | m
      · simp [imageView, hrow]
      · simp [imageView, hrow]
    · split
      · simp [imageView_isSome, hd]
      · simp [imageView_isSome, hd]

/-- The same store in both histories. -/
theorem Agree.store (h : Agree digest other db₁ db₂) (repo' : DockerRepository)
    (body : List UInt8) (contentType : Option String) (expected : Option Digest)
    (upstreamId pushedBy : Option Nat) (now : Time) (hne : env.sha256 body ≠ other) :
    Agree digest other (storeIn env repo' body contentType expected upstreamId pushedBy now db₁)
      (storeIn env repo' body contentType expected upstreamId pushedBy now db₂) := by
  have hsame := h.stored _ hne
  have hview : ∀ repo, imageView db₁ repo digest = none →
      parentHint db₁ digest = parentHint db₂ digest := fun repo hn => h.hint (by
    have := congrArg Option.isSome hn
    rwa [imageView_isSome, Option.isSome_none, Option.isSome_eq_false_iff,
      Option.isNone_iff_eq_none] at this)
  refine ⟨storeIn_ids env h.ids₁ .., storeIn_ids env h.ids₂ .., fun repo => ?_, fun d hd => ?_, fun hn => ?_⟩
  · rw [storeIn_view _ _ _ h.ids₁, storeIn_view _ _ _ h.ids₂]
    rcases accepted env body contentType expected with _ | parsed
    · exact h.view repo
    · dsimp only
      rw [hsame, h.view repo]
      split
      · rfl
      · -- the hint is read only where there is no row yet
        rcases hv : imageView db₂ repo digest with _ | v
        · rw [hview repo ((h.view repo).trans hv)]
        · rfl
  · rw [storeIn_isSome _ h.ids₁, storeIn_isSome _ h.ids₂, h.stored d hd]
  · have hold : db₁.manifestRow digest = none := by
      have := storeIn_isSome env h.ids₁ repo' body contentType expected upstreamId pushedBy
        now digest
      rw [hn, Option.isSome_none, eq_comm, Bool.or_eq_false_iff, Option.isSome_eq_false_iff,
        Option.isNone_iff_eq_none] at this
      exact this.1
    rw [storeIn_hint, storeIn_hint, h.hint hold, hsame]

/-- The same write in both histories. -/
theorem Agree.write (h : Agree digest other db₁ db₂) (w : RegistryWrite)
    (hw : w.stores env ≠ some other) :
    Agree digest other (w.apply env db₁) (w.apply env db₂) := by
  have hids₁ := RegistryWrite.apply_ids env h.ids₁ w
  have hids₂ := RegistryWrite.apply_ids env h.ids₂ w
  cases w with
  | store repo' body contentType expected upstreamId pushedBy now =>
    exact h.store repo' body contentType expected upstreamId pushedBy now fun he =>
      hw (congrArg some he)
  | link repo' d =>
    have hq : ∀ db : Db, (∀ repo x, imageView ((RegistryWrite.link repo' d).apply env db) repo x =
        imageView db repo x) ∧ ((RegistryWrite.link repo' d).apply env db).refs = db.refs := by
      intro db
      dsimp only [RegistryWrite.apply]
      split
      · next m _ =>
        refine ⟨fun repo x => imageView_link repo' m, ?_⟩
        unfold Db.link
        split <;> rfl
      · exact ⟨fun _ _ => rfl, rfl⟩
    exact h.quiet hids₁ hids₂ (hq db₁).1 (hq db₂).1 (hq db₁).2 (hq db₂).2
  | tag repo' name d now =>
    have hq : ∀ db : Db, (∀ repo x, imageView ((RegistryWrite.tag repo' name d now).apply env db)
        repo x = imageView db repo x) ∧
        ((RegistryWrite.tag repo' name d now).apply env db).refs = db.refs := by
      intro db
      dsimp only [RegistryWrite.apply]
      split <;> exact ⟨fun _ _ => rfl, rfl⟩
    exact h.quiet hids₁ hids₂ (hq db₁).1 (hq db₂).1 (hq db₁).2 (hq db₂).2
  | touch d now =>
    have hq : ∀ db : Db, (∀ repo x, imageView ((RegistryWrite.touch d now).apply env db)
        repo x = imageView db repo x) ∧
        ((RegistryWrite.touch d now).apply env db).refs = db.refs := by
      intro db
      dsimp only [RegistryWrite.apply]
      split
      · exact ⟨fun repo x => imageView_touch, rfl⟩
      · exact ⟨fun _ _ => rfl, rfl⟩
    exact h.quiet hids₁ hids₂ (hq db₁).1 (hq db₂).1 (hq db₁).2 (hq db₂).2

theorem Agree.run (h : Agree digest other db₁ db₂) {ws : List RegistryWrite}
    (hws : ∀ w ∈ ws, w.stores env ≠ some other) :
    Agree digest other (runWrites env db₁ ws) (runWrites env db₂ ws) :=
  List.foldl_rel h fun w hw _ _ h => h.write w (hws w hw)

end Histories

/-! ## The store itself -/

section

variable {db db' : Db} {repo : DockerRepository} {policy : ImagePolicy} {digest : Digest}

end

/-- Ids only grow and links stay what they link. -/
def KeepsLinks (db db' : Db) : Prop :=
  db.nextId ≤ db'.nextId ∧
    db'.repoManifests.map DockerRepoManifest.manifestId =
      db.repoManifests.map DockerRepoManifest.manifestId

namespace KeepsLinks

variable {db db' db'' : Db}

theorem refl (db : Db) : KeepsLinks db db := ⟨Nat.le_refl _, rfl⟩

theorem trans (h : KeepsLinks db db') (h' : KeepsLinks db' db'') : KeepsLinks db db'' :=
  ⟨h.1.trans h'.1, h'.2.trans h.2⟩

theorem putFile (d : Digest) : KeepsLinks db (db.putFile d) := by
  unfold Db.putFile
  split <;> exact refl _

theorem releaseFile (d : Digest) : KeepsLinks db (releaseFile d db) := by
  unfold Docker.releaseFile
  dsimp only
  split <;> exact refl _

theorem pruneReports (manifestId keep : Nat) : KeepsLinks db (pruneReports manifestId keep db) := by
  unfold Docker.pruneReports
  dsimp only
  generalize List.drop keep _ = scans
  induction scans generalizing db with
  | nil => exact refl _
  | cons old scans ih =>
    rw [List.foldl_cons]
    refine trans ?_ ih
    split
    · split
      · exact (releaseFile _).trans (refl _)
      · exact refl _
    · exact refl _

theorem applyPushPolicy (m : DockerManifest) (policy : ImagePolicy) :
    KeepsLinks db (applyPushPolicy m policy db) := by
  unfold Docker.applyPushPolicy
  split
  · exact refl _
  · split
    · exact refl _
    · refine ⟨Nat.le_refl _, ?_⟩
      dsimp only
      rw [List.map_map]
      refine List.map_congr_left fun l _ => ?_
      dsimp only [Function.comp]
      split <;> rfl

theorem enqueue (m : DockerManifest) (repository : String) (reason : ScanReason) (priority : Nat)
    (mode : Option ScanMode) : KeepsLinks db (enqueue m repository reason priority mode db).1 := by
  refine ⟨enqueue_nextId .., ?_⟩
  rcases enqueue_cases m repository reason priority mode db with
    he | ⟨existing, he⟩ | ⟨job, -, -, -, -, he⟩
  · rw [he]
  · rw [he]
    rfl
  · rw [he]
    split <;> rfl

theorem enqueueAll (rows : List (DockerManifest × DockerRepository)) (done : List Nat) :
    KeepsLinks db (enqueueAll rows done db) := by
  induction rows generalizing done db with
  | nil => exact refl _
  | cons p rows ih =>
    unfold Docker.enqueueAll
    split
    · exact ih _
    · exact (enqueue ..).trans (ih _)

theorem claim (policy : ImagePolicy) (worker : String) (now : Time) :
    KeepsLinks db (scannerClaim policy worker now db).1 := by
  rcases scannerClaim_cases policy worker now db with
    ⟨-, he⟩ | he | ⟨job, -, -, ⟨f, he, -⟩ | ⟨f, he, -⟩⟩
  · rw [he]
    exact refl _
  all_goals
    rw [he]
    exact ⟨Nat.le_refl _, rfl⟩

theorem fail (job : DockerScanJob) (error : String) (retry : Bool) (now : Time) :
    KeepsLinks db (fail job error retry now db) := by
  obtain ⟨f, g, he, -⟩ := fail_cases job error retry now db
  rw [he]
  exact ⟨Nat.le_refl _, rfl⟩

theorem ingest {env : ScanEnv} {policy : ImagePolicy} {job : DockerScanJob} {report : List UInt8}
    {sbom : Option (List UInt8)} {now : Time}
    (h : ingest env policy job report sbom now db = .ok db') : KeepsLinks db db' := by
  unfold Docker.ingest at h
  split at h
  · cases h
  · next m _ =>
    split at h
    · cases h
    · next found _ =>
      split at h
      · cases h
      · cases h
        have hrecord : ∀ db : Db, KeepsLinks db
            (recordScan m job (env.sha256 report) found now db) := fun db =>
          ⟨Nat.le_succ _, rfl⟩
        have hsbom : ∀ (raw : List UInt8) (db : Db), KeepsLinks db (storeSbom env m raw db) := by
          intro raw db
          unfold storeSbom
          refine (putFile (env.sha256 raw)).trans ?_
          dsimp only
          split
          · split
            · exact (releaseFile _).trans ⟨Nat.le_refl _, rfl⟩
            · exact ⟨Nat.le_refl _, rfl⟩
          · exact ⟨Nat.le_refl _, rfl⟩
        refine (putFile (env.sha256 report)).trans ?_
        refine trans ?_ (applyPushPolicy _ policy)
        refine trans ?_ (pruneReports m.id policy.keepReports)
        rcases sbom with _ | raw
        · exact hrecord _
        · exact (hsbom raw _).trans (hrecord _)

end KeepsLinks

theorem IdsGiven.keepsLinks {db db' : Db} (h : IdsGiven db) (hq : QueueOk db')
    (hk : KeepsLinks db db') : IdsGiven db' where
  toQueueOk := hq
  links l hl := by
    have hmem := List.mem_map_of_mem (f := DockerRepoManifest.manifestId) hl
    rw [hk.2] at hmem
    obtain ⟨l', hl', he⟩ := List.mem_map.mp hmem
    rw [← he]
    exact (h.links l' hl').trans_le hk.1

theorem ScanAction.apply_ids {env : ScanEnv} {policy : ImagePolicy} {db : Db} (h : IdsGiven db)
    (a : ScanAction) : IdsGiven (a.apply env policy db) := by
  have hq := h.toQueueOk.step env policy a
  cases a with
  | store repo body contentType expected upstreamId pushedBy now =>
    exact storeIn_ids env.toRegistryEnv h ..
  | enqueue digest repository reason priority mode =>
    refine h.keepsLinks hq ?_
    dsimp only [ScanAction.apply]
    split
    · exact .enqueue ..
    · exact .refl _
  | claim worker now => exact h.keepsLinks hq (.claim ..)
  | heartbeat jobId worker now =>
    refine h.keepsLinks hq ?_
    dsimp only [ScanAction.apply, scannerHeartbeat]
    split
    · exact .refl _
    · exact ⟨Nat.le_refl _, rfl⟩
  | fail jobId worker error permanent now =>
    refine h.keepsLinks hq ?_
    dsimp only [ScanAction.apply, scannerFail]
    split
    · exact .refl _
    · exact .fail ..
  | result jobId worker report sbom now =>
    refine h.keepsLinks hq ?_
    dsimp only [ScanAction.apply]
    rcases scannerResult_cases env policy jobId worker report sbom now db with
      he | ⟨job, -, -, ⟨error, he⟩ | hok⟩
    · rw [he]
      exact .refl _
    · rw [he]
      exact .fail ..
    · exact .ingest hok
  | schedule now limit =>
    refine h.keepsLinks hq ?_
    dsimp only [ScanAction.apply, scheduleRescans]
    split
    · exact .refl _
    · exact .enqueueAll ..

inductive RegistryAction where
  | write (w : RegistryWrite)
  | scan (policy : ImagePolicy) (a : ScanAction)

def RegistryAction.apply (env : ScanEnv) (db : Db) : RegistryAction → Db
  | .write w => w.apply env.toRegistryEnv db
  | .scan policy a => a.apply env policy db

/-- The image registry: what requests write and what the scanner does, under
whatever policy there is at the time. -/
def registry (env : ScanEnv) : System Db RegistryAction where
  init db := db.Blank ∧ db.repoManifests = []
  Step db a db' := db' = a.apply env db

theorem IdsGiven.reach {env : ScanEnv} {db : Db} (h : (registry env).Reach (fun _ _ => True) db) :
    IdsGiven db := by
  refine h.invariant (I := IdsGiven) ?_ ?_
  · rintro db ⟨hblank, hlinks⟩
    exact { toQueueOk := hblank.queueOk, links := by simp [hlinks] }
  · rintro db a _ h - rfl
    cases a with
    | write w => exact w.apply_ids _ h
    | scan policy a => exact a.apply_ids h

end Minireg.Docker
