import Minireg.Docker.Push
import Minireg.Lib.Run
import Minireg.Lib.Tenancy

/-!
# Repositories share content, not access

`registryPulls` is the registry under pushes, mounts, deletes and pulls, with a
record of how all content came in (`Event`). `Db.content` is what says who can
read what, `Content.tenancy` the same as a `Tenancy`. `registry_isolated`: as long
as no stored index names a manifest that came through another repository, a
repository serves from local storage only what came through it.
-/

namespace Minireg.Docker

open Py Lib

/-! ## What says who can read what -/

structure Content where
  manifests : List (Nat × Digest)
  refs : List DockerManifestRef
  links : List (Nat × Nat)
  repoBlobs : List DockerRepoBlob
  repositories : List DockerRepository
  nextId : Nat

/-- A repository without its owner. -/
def DockerRepository.unowned (repo : DockerRepository) : DockerRepository :=
  { repo with ownerUserId := none }

/-- The ids and digests of the manifests, what they name, and what each repository has. -/
def Db.content (db : Db) : Content where
  manifests := db.manifests.rows.map fun m => (m.id, m.digest)
  refs := db.refs
  links := db.repoManifests.map fun l => (l.repositoryId, l.manifestId)
  repoBlobs := db.repoBlobs
  repositories := db.repositories.rows.map DockerRepository.unowned
  nextId := db.nextId

namespace Content

def addManifest (c : Content) (digest : Digest) (refs : List Ref) : Content :=
  { c with
    manifests := c.manifests ++ [(c.nextId, digest)]
    refs := c.refs ++ refRows c.nextId refs
    nextId := c.nextId + 1 }

def addLink (c : Content) (repositoryId manifestId : Nat) : Content :=
  { c with links := c.links ++ [(repositoryId, manifestId)] }

def addBlob (c : Content) (row : DockerRepoBlob) : Content :=
  { c with repoBlobs := c.repoBlobs ++ [row] }

def addRepository (c : Content) (repo : DockerRepository) : Content :=
  { c with repositories := c.repositories ++ [repo], nextId := c.nextId + 1 }

/-- What a manifest names in refs of a kind. -/
def naming (c : Content) (kind : RefType → Prop) (d : Digest) : Set Digest :=
  {e | ∃ i, (i, d) ∈ c.manifests ∧
    ∃ r ∈ c.refs, r.manifestId = i ∧ kind r.refType ∧ r.digest = e}

/-- Repositories as tenants that share manifests. -/
def tenancy (c : Content) : Tenancy String Digest where
  stored := {d | ∃ i, (i, d) ∈ c.manifests}
  names := c.naming fun _ => True
  children := c.naming (· = .manifest)
  linked n := {d | ∃ repo ∈ c.repositories, repo.name = n ∧
    ∃ i, (repo.id, i) ∈ c.links ∧ (i, d) ∈ c.manifests}
  held n := {d | ∃ repo ∈ c.repositories, repo.name = n ∧
    { repositoryId := repo.id, digest := d } ∈ c.repoBlobs}

theorem naming_congr {c c' : Content} (hm : c'.manifests = c.manifests) (hr : c'.refs = c.refs) :
    c'.naming = c.naming := by
  unfold naming
  rw [hm, hr]

/-- Ids are unique and given out; repositories are where their names lead. -/
structure Ok (routes : String → Option Nat) (c : Content) : Prop where
  rows : ∀ m ∈ c.manifests, m.1 < c.nextId
  uniqueRows : ∀ m ∈ c.manifests, ∀ m' ∈ c.manifests, m.1 = m'.1 → m = m'
  refs : ∀ r ∈ c.refs, r.manifestId < c.nextId
  links : ∀ l ∈ c.links, l.1 < c.nextId ∧ ∃ d, (l.2, d) ∈ c.manifests
  blobs : ∀ b ∈ c.repoBlobs, b.repositoryId < c.nextId
  repos : ∀ r ∈ c.repositories, r.id < c.nextId
  uniqueRepos : ∀ r ∈ c.repositories, ∀ r' ∈ c.repositories, r.id = r'.id → r.name = r'.name
  routed : ∀ r ∈ c.repositories, r.upstreamId = routes r.name ∧
    r.isLocal = (routes r.name).isNone

variable {routes : String → Option Nat} {c : Content} {digest : Digest} {refs : List Ref}

theorem Ok.addManifest (h : c.Ok routes) : (c.addManifest digest refs).Ok routes where
  rows m hm := by
    rcases List.mem_append.mp hm with hm | hm
    · exact Nat.lt_succ_of_lt (h.rows m hm)
    · rw [List.mem_singleton.mp hm]
      exact Nat.lt_succ_self _
  uniqueRows m hm m' hm' heq := by
    rcases List.mem_append.mp hm with hm | hm <;> rcases List.mem_append.mp hm' with hm' | hm'
    · exact h.uniqueRows m hm m' hm' heq
    · have := h.rows m hm
      rw [List.mem_singleton.mp hm'] at heq
      dsimp only at heq
      omega
    · have := h.rows m' hm'
      rw [List.mem_singleton.mp hm] at heq
      dsimp only at heq
      omega
    · rw [List.mem_singleton.mp hm, List.mem_singleton.mp hm']
  refs r hr := by
    rcases List.mem_append.mp hr with hr | hr
    · exact Nat.lt_succ_of_lt (h.refs r hr)
    · obtain ⟨ref, -, rfl⟩ := List.mem_map.mp hr
      exact Nat.lt_succ_self _
  links l hl :=
    have ⟨d, hd⟩ := (h.links l hl).2
    ⟨Nat.lt_succ_of_lt (h.links l hl).1, d, List.mem_append_left _ hd⟩
  blobs b hb := Nat.lt_succ_of_lt (h.blobs b hb)
  repos r hr := Nat.lt_succ_of_lt (h.repos r hr)
  uniqueRepos := h.uniqueRepos
  routed := h.routed

theorem Ok.addLink (h : c.Ok routes) {repositoryId manifestId : Nat}
    (hrepo : repositoryId < c.nextId) (hm : (manifestId, digest) ∈ c.manifests) :
    (c.addLink repositoryId manifestId).Ok routes where
  rows := h.rows
  uniqueRows := h.uniqueRows
  refs := h.refs
  links l hl := by
    rcases List.mem_append.mp hl with hl | hl
    · exact h.links l hl
    · rw [List.mem_singleton.mp hl]
      exact ⟨hrepo, digest, hm⟩
  blobs := h.blobs
  repos := h.repos
  uniqueRepos := h.uniqueRepos
  routed := h.routed

theorem Ok.addBlob (h : c.Ok routes) {row : DockerRepoBlob} (hrow : row.repositoryId < c.nextId) :
    (c.addBlob row).Ok routes where
  rows := h.rows
  uniqueRows := h.uniqueRows
  refs := h.refs
  links := h.links
  blobs b hb := by
    rcases List.mem_append.mp hb with hb | hb
    · exact h.blobs b hb
    · rw [List.mem_singleton.mp hb]
      exact hrow
  repos := h.repos
  uniqueRepos := h.uniqueRepos
  routed := h.routed

theorem Ok.addRepository (h : c.Ok routes) {repo : DockerRepository} (hid : repo.id = c.nextId)
    (hup : repo.upstreamId = routes repo.name) (hlocal : repo.isLocal = (routes repo.name).isNone) :
    (c.addRepository repo).Ok routes where
  rows m hm := Nat.lt_succ_of_lt (h.rows m hm)
  uniqueRows := h.uniqueRows
  refs r hr := Nat.lt_succ_of_lt (h.refs r hr)
  links l hl := ⟨Nat.lt_succ_of_lt (h.links l hl).1, (h.links l hl).2⟩
  blobs b hb := Nat.lt_succ_of_lt (h.blobs b hb)
  repos r hr := by
    rcases List.mem_append.mp hr with hr | hr
    · exact Nat.lt_succ_of_lt (h.repos r hr)
    · rw [List.mem_singleton.mp hr, hid]
      exact Nat.lt_succ_self _
  uniqueRepos r hr r' hr' heq := by
    rcases List.mem_append.mp hr with hr | hr <;> rcases List.mem_append.mp hr' with hr' | hr'
    · exact h.uniqueRepos r hr r' hr' heq
    · have := h.repos r hr
      rw [List.mem_singleton.mp hr', hid] at heq
      omega
    · have := h.repos r' hr'
      rw [List.mem_singleton.mp hr, hid] at heq
      omega
    · rw [List.mem_singleton.mp hr, List.mem_singleton.mp hr']
  routed r hr := by
    rcases List.mem_append.mp hr with hr | hr
    · exact h.routed r hr
    · rw [List.mem_singleton.mp hr]
      exact ⟨hup, hlocal⟩

/-! ### What each addition does to the tenants -/

section AddManifest

variable (h : c.Ok routes) (hnew : digest ∉ c.tenancy.stored)

theorem mem_addManifest {i : Nat} {d : Digest} :
    (i, d) ∈ (c.addManifest digest refs).manifests ↔
      (i, d) ∈ c.manifests ∨ i = c.nextId ∧ d = digest := by
  unfold addManifest
  simp

include h hnew

/-- The refs of an old manifest are old. -/
theorem addManifest_naming (kind : RefType → Prop) {d : Digest} (hd : d ∈ c.tenancy.stored) :
    (c.addManifest digest refs).naming kind d = c.naming kind d := by
  have hmem : ∀ {i}, (i, d) ∈ (c.addManifest digest refs).manifests ↔ (i, d) ∈ c.manifests :=
    fun {i} => mem_addManifest.trans (or_iff_left (by rintro ⟨-, rfl⟩; exact hnew hd))
  ext e
  constructor
  · rintro ⟨i, hi, r, hr, rfl, hrest⟩
    have hi := hmem.mp hi
    rcases List.mem_append.mp hr with hr | hr
    · exact ⟨_, hi, r, hr, rfl, hrest⟩
    · obtain ⟨ref, -, rfl⟩ := List.mem_map.mp hr
      exact absurd (h.rows _ hi) (Nat.lt_irrefl _)
  · rintro ⟨i, hi, r, hr, hrest⟩
    exact ⟨i, hmem.mpr hi, r, List.mem_append_left _ hr, hrest⟩

/-- The new manifest names what its document does. -/
theorem addManifest_naming_self (kind : RefType → Prop) :
    (c.addManifest digest refs).naming kind digest =
      {e | ∃ r ∈ refs, kind r.refType ∧ r.digest = e} := by
  ext e
  constructor
  · rintro ⟨i, hi, r, hr, rfl, hkind, rfl⟩
    rcases mem_addManifest.mp hi with hi | ⟨hid, -⟩
    · exact (hnew ⟨_, hi⟩).elim
    · rcases List.mem_append.mp hr with hr | hr
      · exact absurd (h.refs r hr) (by omega)
      · obtain ⟨ref, href, rfl⟩ := List.mem_map.mp hr
        exact ⟨ref, href, hkind, rfl⟩
  · rintro ⟨ref, href, hkind, rfl⟩
    exact ⟨c.nextId, mem_addManifest.mpr (.inr ⟨rfl, rfl⟩), _,
      List.mem_append_right _ (List.mem_map_of_mem href), rfl, hkind, rfl⟩

theorem addManifest_grows : c.tenancy.Grows (c.addManifest digest refs).tenancy where
  stored := fun _ ⟨i, hi⟩ => ⟨i, mem_addManifest.mpr (.inl hi)⟩
  names _ hd := addManifest_naming h hnew (fun _ => True) hd
  children _ hd := addManifest_naming h hnew (· = .manifest) hd

omit hnew in
/-- No link points at the new manifest. -/
theorem addManifest_linked :
    (c.addManifest digest refs).tenancy.linked = c.tenancy.linked := by
  ext n d
  constructor
  · rintro ⟨repo, hrepo, hn, i, hlink, hi⟩
    rcases mem_addManifest.mp hi with hi | ⟨rfl, -⟩
    · exact ⟨repo, hrepo, hn, i, hlink, hi⟩
    · obtain ⟨-, d', hd'⟩ := h.links _ hlink
      exact absurd (h.rows _ hd') (Nat.lt_irrefl _)
  · rintro ⟨repo, hrepo, hn, i, hlink, hi⟩
    exact ⟨repo, hrepo, hn, i, hlink, mem_addManifest.mpr (.inl hi)⟩

omit h hnew in
theorem addManifest_stored :
    (c.addManifest digest refs).tenancy.stored = insert digest c.tenancy.stored := by
  ext d
  constructor
  · rintro ⟨i, hi⟩
    rcases mem_addManifest.mp hi with hi | ⟨-, rfl⟩
    · exact .inr ⟨i, hi⟩
    · exact .inl rfl
  · rintro (rfl | ⟨i, hi⟩)
    · exact ⟨c.nextId, mem_addManifest.mpr (.inr ⟨rfl, rfl⟩)⟩
    · exact ⟨i, mem_addManifest.mpr (.inl hi)⟩

end AddManifest

/-- A link gives one repository one document. -/
theorem addLink_tenancy (h : c.Ok routes) {repo : DockerRepository} (hrepo : repo ∈ c.repositories)
    {manifestId : Nat} (hm : (manifestId, digest) ∈ c.manifests) {n : String} {d : Digest}
    (hd : d ∈ (c.addLink repo.id manifestId).tenancy.linked n) :
    d ∈ c.tenancy.linked n ∨ n = repo.name ∧ d = digest := by
  obtain ⟨r, hr, rfl, i, hl, hi⟩ := hd
  rcases List.mem_append.mp hl with hl | hl
  · exact .inl ⟨r, hr, rfl, i, hl, hi⟩
  · obtain ⟨hid, rfl⟩ := Prod.mk.inj (List.mem_singleton.mp hl)
    exact .inr ⟨h.uniqueRepos r hr repo hrepo hid, congrArg Prod.snd (h.uniqueRows _ hi _ hm rfl)⟩

theorem addLink_grows (repositoryId manifestId : Nat) :
    c.tenancy.Grows (c.addLink repositoryId manifestId).tenancy :=
  ⟨subset_rfl, fun _ _ => rfl, fun _ _ => rfl⟩

/-- A new repository has nothing. -/
theorem addRepository_tenancy (h : c.Ok routes) {repo : DockerRepository}
    (hid : repo.id = c.nextId) : (c.addRepository repo).tenancy = c.tenancy := by
  have hlinked : ∀ i, (repo.id, i) ∉ c.links := fun i hl =>
    absurd (h.links _ hl).1 (by rw [hid]; exact Nat.lt_irrefl _)
  have hheld : ∀ d, ({ repositoryId := repo.id, digest := d } : DockerRepoBlob) ∉ c.repoBlobs :=
    fun d hd => absurd (h.blobs _ hd) (by rw [hid]; exact Nat.lt_irrefl _)
  refine Tenancy.ext rfl rfl rfl ?_ ?_
  · ext n d
    constructor
    · rintro ⟨r, hr, hn, i, hl, hi⟩
      rcases List.mem_append.mp hr with hr | hr
      · exact ⟨r, hr, hn, i, hl, hi⟩
      · rw [List.mem_singleton.mp hr] at hl
        exact absurd hl (hlinked i)
    · rintro ⟨r, hr, hrest⟩
      exact ⟨r, List.mem_append_left _ hr, hrest⟩
  · ext n d
    constructor
    · rintro ⟨r, hr, hn, hd⟩
      rcases List.mem_append.mp hr with hr | hr
      · exact ⟨r, hr, hn, hd⟩
      · rw [List.mem_singleton.mp hr] at hd
        exact absurd hd (hheld d)
    · rintro ⟨r, hr, hrest⟩
      exact ⟨r, List.mem_append_left _ hr, hrest⟩

end Content

/-! ## What each operation does to the content -/

section Operations

variable (db : Db) (repo : DockerRepository)

@[simp] theorem putFile_content (digest : Digest) : (db.putFile digest).content = db.content := by
  unfold Db.putFile
  split <;> rfl

@[simp] theorem setTag_content (tag : String) (m : DockerManifest) (now : Time) :
    (setTag repo tag m now db).content = db.content := rfl

@[simp] theorem touch_content (m : DockerManifest) (now : Time) :
    (touch now db m).content = db.content := by
  have hrows : (touch now db m).manifests.rows.map (fun m => (m.id, m.digest)) =
      db.manifests.rows.map fun m => (m.id, m.digest) := by
    refine (List.map_map ..).trans (List.map_congr_left fun n _ => ?_)
    dsimp only [Function.comp]
    split <;> rfl
  exact congrArg (fun rows => { db.content with manifests := rows }) hrows

@[simp] theorem applyPushPolicy_content (m : DockerManifest) (policy : ImagePolicy) :
    (applyPushPolicy m policy db).content = db.content := by
  unfold applyPushPolicy
  split
  · rfl
  · split
    · rfl
    · refine congrArg (fun links => { db.content with links := links }) ?_
      refine (List.map_map ..).trans (List.map_congr_left fun l _ => ?_)
      dsimp only [Function.comp]
      split <;> rfl

@[simp] theorem recordLocalBlob_content (digest : Digest) (now : Time) (size : Nat) :
    (recordLocalBlob digest now db size).content = db.content := by
  unfold recordLocalBlob
  split
  · rfl
  · split <;> rfl

@[simp] theorem recordBlob_content (digest : Digest) (size : Nat) (now : Time) :
    (recordBlob db repo digest size now).content = db.content := by
  unfold recordBlob
  split <;> rfl

@[simp] theorem setOwner_content (userId : Option Nat) :
    (setOwner repo userId db).content = db.content := by
  refine congrArg (fun repos => { db.content with repositories := repos }) ?_
  refine (List.map_map ..).trans (List.map_congr_left fun r _ => ?_)
  dsimp only [Function.comp]
  split <;> rfl

theorem link_content (m : DockerManifest) : (db.link repo m).content = db.content ∨
    (db.link repo m).content = db.content.addLink repo.id m.id := by
  unfold Db.link
  split
  · exact .inl rfl
  · right
    unfold Db.content Content.addLink
    rw [List.map_append]
    rfl

theorem addRepoBlob_content (digest : Digest) : (addRepoBlob repo digest db).content = db.content ∨
    (addRepoBlob repo digest db).content =
      db.content.addBlob { repositoryId := repo.id, digest := digest } := by
  unfold addRepoBlob
  dsimp only
  split
  · exact .inl rfl
  · exact .inr rfl

/-- A new row and its refs; the rows of the children keep their digests. -/
theorem insertManifest_content {db : Db} (parsed : ParsedManifest) (row : DockerManifest)
    (hid : row.id = db.nextId) (hfresh : ∀ m ∈ db.manifests, m.id < db.nextId) :
    (insertManifest parsed row db).content = db.content.addManifest row.digest parsed.refs := by
  have hput : (db.manifests.put row).rows = db.manifests.rows ++ [row] :=
    Table.put_rows_of_fresh fun m hm => by
      have := hfresh m hm
      omega
  have hrows : (insertManifest parsed row db).manifests.rows.map (fun m => (m.id, m.digest)) =
      (db.manifests.rows.map fun m => (m.id, m.digest)) ++ [(db.nextId, row.digest)] := by
    have hmap : (db.manifests.put row).rows.map (fun m => (m.id, m.digest)) =
        (db.manifests.rows.map fun m => (m.id, m.digest)) ++ [(db.nextId, row.digest)] := by
      rw [hput, List.map_append, ← hid]
      rfl
    unfold insertManifest
    dsimp only
    split
    · rw [← hmap]
      refine (List.map_map ..).trans (List.map_congr_left fun m _ => ?_)
      exact Prod.ext (learnEntries_id _ m) (learnEntries_digest _ m)
    · exact hmap
  unfold Db.content Content.addManifest
  rw [hrows]
  unfold insertManifest
  dsimp only
  rw [hid]

end Operations

/-- What a store does to the content. -/
theorem storeManifest_content {env : RegistryEnv} {body : List UInt8} {contentType : Option String}
    {expected : Option Digest} {upstreamId pushedBy : Option Nat} {now : Time} {db db' : Db}
    {row : DockerManifest} (hfresh : ∀ m ∈ db.manifests, m.id < db.nextId)
    (h : storeManifest env body contentType expected upstreamId pushedBy now db = .ok (db', row)) :
    row.digest = env.sha256 body ∧ (row.id, env.sha256 body) ∈ db'.content.manifests ∧
      ∃ parsed, accepted env body contentType expected = some parsed ∧
        ((db.manifestRow (env.sha256 body)).isSome = true ∧ db'.content = db.content ∨
          db.manifestRow (env.sha256 body) = none ∧
            db'.content = db.content.addManifest (env.sha256 body) parsed.refs) := by
  have heq := storeManifest_eq env body contentType expected upstreamId pushedBy now db
  rw [h] at heq
  rcases hacc : accepted env body contentType expected with _ | parsed
  · rw [hacc] at heq
    cases heq
  · rw [hacc] at heq
    rcases hrow : db.manifestRow (env.sha256 body) with _ | existing
    · rw [hrow] at heq
      obtain ⟨rfl, rfl⟩ := Prod.mk.inj (Option.some.inj heq)
      have hid : (db.putFile (env.sha256 body)).nextId = db.nextId :=
        congrArg Content.nextId (putFile_content db _)
      have hrows : (db.putFile (env.sha256 body)).manifests = db.manifests := by
        unfold Db.putFile
        split <;> rfl
      have hcontent := insertManifest_content parsed
        (newManifest db parsed (env.sha256 body) body.length upstreamId pushedBy now) hid.symm
        (by rwa [hrows, hid])
      rw [putFile_content] at hcontent
      refine ⟨rfl, ?_, parsed, rfl, .inr ⟨rfl, hcontent⟩⟩
      rw [hcontent]
      exact List.mem_append_right _ List.mem_cons_self
    · rw [hrow] at heq
      obtain ⟨rfl, rfl⟩ := Prod.mk.inj (Option.some.inj heq)
      have hdigest : row.digest = env.sha256 body := by simpa using List.find?_some hrow
      refine ⟨hdigest, ?_, parsed, rfl, .inl ⟨rfl, putFile_content db _⟩⟩
      rw [putFile_content, ← hdigest]
      exact List.mem_map_of_mem (f := fun m => (m.id, m.digest)) (List.mem_of_find?_eq_some hrow)

/-! ## How content comes in -/

/-- A blob pushed or mounted into a repository, a manifest pushed to it, a
manifest whose bytes an upstream served. -/
inductive Event where
  | blob (repository : String) (digest : Digest)
  | pushed (repository : String) (digest : Digest)
  | served (upstreamId : Nat) (digest : Digest)
  deriving DecidableEq, Repr

/-- What the registry holds, and how that came in. -/
structure World where
  db : Db
  history : List Event

section Provenance

variable (routes : String → Option Nat)

/-- The manifest was pushed to the repository, or its upstream served its bytes. -/
def CameThrough (history : List Event) (repository : String) (digest : Digest) : Prop :=
  .pushed repository digest ∈ history ∨
    ∃ upstreamId, routes repository = some upstreamId ∧ .served upstreamId digest ∈ history

/-- The digest was pushed or mounted into the repository, or a manifest that came
through it names the digest. -/
def Entitled (w : World) (repository : String) (digest : Digest) : Prop :=
  .blob repository digest ∈ w.history ∨
    ∃ m ∈ w.db.manifests, CameThrough routes w.history repository m.digest ∧
      ∃ r ∈ w.db.refs, r.manifestId = m.id ∧ r.digest = digest

def provenance (history : List Event) : Provenance String Digest where
  given n := {d | .blob n d ∈ history}
  origin n := {d | CameThrough routes history n d}

theorem provenance_mono (events history : List Event) :
    provenance routes history ≤ provenance routes (events ++ history) :=
  ⟨fun _ _ hd => List.mem_append_right _ hd, fun _ _ hd =>
    hd.imp (List.mem_append_right _) fun ⟨u, hu, hs⟩ => ⟨u, hu, List.mem_append_right _ hs⟩⟩

theorem entitled_iff {w : World} {n : String} {d : Digest} :
    d ∈ w.db.content.tenancy.entitled (provenance routes w.history) n ↔ Entitled routes w n d := by
  refine or_congr_right ?_
  constructor
  · rintro ⟨m, hm, -, i, hi, r, hr, hid, -, hd⟩
    obtain ⟨row, hrow, heq⟩ := List.mem_map.mp hi
    obtain ⟨rfl, rfl⟩ := Prod.mk.inj heq
    exact ⟨row, hrow, hm, r, hr, hid, hd⟩
  · rintro ⟨row, hrow, hm, r, hr, hid, hd⟩
    have hi : (row.id, row.digest) ∈ w.db.content.manifests :=
      List.mem_map_of_mem (f := fun m => (m.id, m.digest)) hrow
    exact ⟨row.digest, hm, ⟨row.id, hi⟩, row.id, hi, r, hr, hid, trivial, hd⟩

/-- How a manifest of the digest comes in through a repository. -/
def cameIn (repository : String) (digest : Digest) : Event :=
  match routes repository with
  | some upstreamId => .served upstreamId digest
  | none => .pushed repository digest

theorem cameThrough_cameIn (repository : String) (digest : Digest) (history : List Event) :
    CameThrough routes (cameIn routes repository digest :: history) repository digest := by
  unfold cameIn
  split
  · next u hu => exact .inr ⟨u, hu, List.mem_cons_self⟩
  · exact .inl List.mem_cons_self

/-- What a manifest names once it is stored: what its row does, if there is one. -/
def Db.namesOf (db : Db) (digest : Digest) (parsed : ParsedManifest) (kind : RefType → Prop) :
    Set Digest :=
  match db.manifestRow digest with
  | some _ => db.content.naming kind digest
  | none => {e | ∃ r ∈ parsed.refs, kind r.refType ∧ r.digest = e}

/-- Storing these bytes for the repository keeps the repositories apart: the
manifest is no index of a stored manifest that came through elsewhere, and no
index elsewhere names it, unless that gives access to nothing new. -/
def StoresApart (env : RegistryEnv) (w : World) (repository : String) (body : List UInt8)
    (contentType : Option String) (expected : Option Digest) : Prop :=
  ∀ parsed, accepted env body contentType expected = some parsed →
    w.db.content.tenancy.Apart
      (provenance routes (cameIn routes repository (env.sha256 body) :: w.history)) repository
      (env.sha256 body) (w.db.namesOf (env.sha256 body) parsed fun _ => True)
      (w.db.namesOf (env.sha256 body) parsed (· = .manifest))

/-! ## The invariant -/

/-- The repository has a row. -/
def Db.Has (db : Db) (repo : DockerRepository) : Prop :=
  repo.unowned ∈ db.content.repositories

structure World.Sound (w : World) : Prop where
  ok : w.db.content.Ok routes
  /-- Only local repositories are pushed to. -/
  pushes : ∀ n d, .blob n d ∈ w.history ∨ .pushed n d ∈ w.history → routes n = none
  isolated : w.db.content.tenancy.Isolated (provenance routes w.history)

end Provenance

section Steps

variable {env : RegistryEnv} {routes : String → Option Nat} {db db' : Db} {history : List Event}
  {repo : DockerRepository}

theorem World.Sound.of_content (h : World.Sound routes ⟨db, history⟩)
    (hc : db'.content = db.content) : World.Sound routes ⟨db', history⟩ := by
  obtain ⟨hok, hpushes, hiso⟩ := h
  exact ⟨by rwa [hc], hpushes, by rwa [hc]⟩

/-- Ids in the manifest table are given out. -/
theorem World.Sound.fresh (h : World.Sound routes ⟨db, history⟩) :
    ∀ m ∈ db.manifests, m.id < db.nextId := fun _ hm =>
  h.ok.rows _ (List.mem_map_of_mem (f := fun m => (m.id, m.digest)) hm)

theorem getRepo_content (h : World.Sound routes ⟨db, history⟩) (target : Target) :
    (getRepo target db).1.content = db.content ∧
        (getRepo target db).2 ∈ db.repositories ∧ (getRepo target db).2.name = target.canonical ∨
      (getRepo target db).1.content = db.content.addRepository (newRepository target db) ∧
        (getRepo target db).2 = newRepository target db := by
  unfold getRepo
  rcases hfind : repoNamed db target.canonical with _ | repo
  · right
    have hfresh : ∀ r ∈ db.repositories, r.id ≠ (newRepository target db).id := fun r hr =>
      Nat.ne_of_lt (h.ok.repos r.unowned (List.mem_map_of_mem hr))
    refine ⟨?_, rfl⟩
    unfold Db.content Content.addRepository
    dsimp only
    rw [Table.put_rows_of_fresh hfresh, List.map_append]
    rfl
  · exact .inl ⟨rfl, List.mem_of_find?_eq_some hfind, by simpa using List.find?_some hfind⟩

/-- Making a repository changes neither who reads what nor what a manifest names. -/
theorem getRepo_tenancy (h : World.Sound routes ⟨db, history⟩) (target : Target) :
    (getRepo target db).1.content.tenancy = db.content.tenancy ∧
      (getRepo target db).1.namesOf = db.namesOf := by
  constructor
  · rcases getRepo_content h target with ⟨hc, -⟩ | ⟨hc, -⟩
    · rw [hc]
    · rw [hc]
      exact Content.addRepository_tenancy h.ok rfl
  · unfold getRepo
    split <;> rfl

theorem World.Sound.getRepo (h : World.Sound routes ⟨db, history⟩) (name : String) :
    World.Sound routes ⟨(getRepo ⟨name, routes name⟩ db).1, history⟩ ∧
      (getRepo ⟨name, routes name⟩ db).1.Has (getRepo ⟨name, routes name⟩ db).2 ∧
      (getRepo ⟨name, routes name⟩ db).2.name = name := by
  have htenancy := (getRepo_tenancy h ⟨name, routes name⟩).1
  rcases getRepo_content h ⟨name, routes name⟩ with ⟨hc, hmem, hname⟩ | ⟨hc, hrepo⟩
  · refine ⟨h.of_content hc, ?_, hname⟩
    unfold Db.Has
    rw [hc]
    exact List.mem_map_of_mem hmem
  · refine ⟨⟨?_, h.pushes, ?_⟩, ?_, by rw [hrepo]; rfl⟩
    · rw [hc]
      exact h.ok.addRepository rfl rfl rfl
    · rw [htenancy]
      exact h.isolated
    · unfold Db.Has
      rw [hc, hrepo]
      exact List.mem_append_right _ List.mem_cons_self

/-- A blob row, recorded in the history. -/
theorem World.Sound.hold (h : World.Sound routes ⟨db, history⟩) (hhas : db.Has repo)
    (hlocal : routes repo.name = none) {digest : Digest}
    (hc : db'.content = db.content ∨
      db'.content = db.content.addBlob { repositoryId := repo.id, digest := digest }) :
    World.Sound routes ⟨db', .blob repo.name digest :: history⟩ := by
  have hmono := provenance_mono routes [.blob repo.name digest] history
  have hpushes : ∀ n d, .blob n d ∈ Event.blob repo.name digest :: history ∨
      .pushed n d ∈ Event.blob repo.name digest :: history → routes n = none := by
    rintro n d (hd | hd)
    · rcases List.mem_cons.mp hd with hd | hd
      · rw [(Event.blob.inj hd).1]
        exact hlocal
      · exact h.pushes n d (.inl hd)
    · exact h.pushes n d (.inr ((List.mem_cons.mp hd).resolve_left nofun))
  refine ⟨?_, hpushes, ?_⟩
  · rcases hc with hc | hc
    · rw [hc]
      exact h.ok
    · rw [hc]
      exact h.ok.addBlob (h.ok.repos repo.unowned hhas)
  · have htables : db'.content.manifests = db.content.manifests ∧
        db'.content.refs = db.content.refs ∧ db'.content.links = db.content.links ∧
        db'.content.repositories = db.content.repositories ∧
        ∀ b ∈ db'.content.repoBlobs, b ∈ db.content.repoBlobs ∨
          b = { repositoryId := repo.id, digest := digest } := by
      rcases hc with hc | hc
      · rw [hc]
        exact ⟨rfl, rfl, rfl, rfl, fun b hb => .inl hb⟩
      · rw [hc]
        exact ⟨rfl, rfl, rfl, rfl, fun b hb => by simpa [Content.addBlob] using hb⟩
    obtain ⟨hm, hr, hl, hrepos, hblobs⟩ := htables
    refine h.isolated.shrink hmono ?_ ?_ ?_ ?_ ?_
    · simp only [Content.tenancy, hm]
    · simp only [Content.tenancy, Content.naming_congr hm hr]
    · simp only [Content.tenancy, Content.naming_congr hm hr]
    · intro n
      simp only [Content.tenancy, hm, hl, hrepos]
      exact subset_rfl
    · rintro n d ⟨r, hrepo, rfl, hd⟩
      rw [hrepos] at hrepo
      rcases hblobs _ hd with hd | hd
      · exact hmono.1 _ (h.isolated.held _ ⟨r, hrepo, rfl, hd⟩)
      · obtain ⟨hid, rfl⟩ := DockerRepoBlob.mk.inj hd
        have hname : r.name = repo.name := h.ok.uniqueRepos r hrepo repo.unowned hhas hid
        rw [hname]
        exact List.mem_cons_self

/-- Links and blob rows that go away. -/
theorem World.Sound.drop (h : World.Sound routes ⟨db, history⟩)
    (hm : db'.content.manifests = db.content.manifests) (hr : db'.content.refs = db.content.refs)
    (hrepos : db'.content.repositories = db.content.repositories)
    (hnext : db'.content.nextId = db.content.nextId)
    (hlinks : ∀ l ∈ db'.content.links, l ∈ db.content.links)
    (hblobs : ∀ b ∈ db'.content.repoBlobs, b ∈ db.content.repoBlobs) :
    World.Sound routes ⟨db', history⟩ := by
  refine ⟨?_, h.pushes, h.isolated.shrink le_rfl ?_ ?_ ?_ ?_ ?_⟩
  · have hok := h.ok
    constructor
    · rw [hm, hnext]
      exact hok.rows
    · rw [hm]
      exact hok.uniqueRows
    · rw [hr, hnext]
      exact hok.refs
    · rw [hm, hnext]
      exact fun l hl => hok.links l (hlinks l hl)
    · rw [hnext]
      exact fun b hb => hok.blobs b (hblobs b hb)
    · rw [hrepos, hnext]
      exact hok.repos
    · rw [hrepos]
      exact hok.uniqueRepos
    · rw [hrepos]
      exact hok.routed
  · simp only [Content.tenancy, hm]
  · simp only [Content.tenancy, Content.naming_congr hm hr]
  · simp only [Content.tenancy, Content.naming_congr hm hr]
  · rintro n d ⟨r, hrepo, hn, i, hl, hi⟩
    rw [hrepos] at hrepo
    rw [hm] at hi
    exact ⟨r, hrepo, hn, i, hlinks _ hl, hi⟩
  · rintro n d ⟨r, hrepo, hn, hd⟩
    rw [hrepos] at hrepo
    exact h.isolated.held n ⟨r, hrepo, hn, hblobs _ hd⟩

/-- **Storing a manifest** that keeps the repositories apart, and linking it. -/
theorem World.Sound.storeAndLink (h : World.Sound routes ⟨db, history⟩) (hhas : db.Has repo)
    {body : List UInt8} {contentType : Option String} {expected : Option Digest}
    {upstreamId pushedBy : Option Nat} {now : Time} {row : DockerManifest}
    (hapart : StoresApart routes env ⟨db, history⟩ repo.name body contentType expected)
    (hstore : storeManifest env body contentType expected upstreamId pushedBy now db =
      .ok (db', row)) :
    World.Sound routes ⟨db'.link repo row, cameIn routes repo.name row.digest :: history⟩ := by
  obtain ⟨hdigest, hmem, parsed, hacc, hcase⟩ := storeManifest_content h.fresh hstore
  have hap := hapart parsed hacc
  rw [hdigest]
  generalize env.sha256 body = digest at *
  have hmono := provenance_mono routes [cameIn routes repo.name digest] history
  have hcame : digest ∈ (provenance routes (cameIn routes repo.name digest :: history)).origin
      repo.name := cameThrough_cameIn routes repo.name digest history
  have hpushes : ∀ n d, .blob n d ∈ cameIn routes repo.name digest :: history ∨
      .pushed n d ∈ cameIn routes repo.name digest :: history → routes n = none := by
    have hnew : ∀ n d, Event.blob n d = cameIn routes repo.name digest ∨
        Event.pushed n d = cameIn routes repo.name digest → routes n = none := by
      intro n d
      unfold cameIn
      split
      · rintro (hd | hd) <;> cases hd
      · next hnone =>
        rintro (hd | hd)
        · cases hd
        · rw [(Event.pushed.inj hd).1]
          exact hnone
    rintro n d (hd | hd)
    · rcases List.mem_cons.mp hd with hd | hd
      · exact hnew n d (.inl hd)
      · exact h.pushes n d (.inl hd)
    · rcases List.mem_cons.mp hd with hd | hd
      · exact hnew n d (.inr hd)
      · exact h.pushes n d (.inr hd)
  -- the store alone: what is stored, named and linked
  have hstored : db'.content.Ok routes ∧ db'.content.repositories = db.content.repositories ∧
      db'.content.repoBlobs = db.content.repoBlobs ∧
      db.content.tenancy.Grows db'.content.tenancy ∧
      db'.content.tenancy.stored = insert digest db.content.tenancy.stored ∧
      db'.content.tenancy.linked = db.content.tenancy.linked ∧
      ∀ kind, db.namesOf digest parsed kind = db'.content.naming kind digest := by
    rcases hcase with ⟨hsome, hc⟩ | ⟨hnone, hc⟩
    · obtain ⟨m, hm⟩ := Option.isSome_iff_exists.mp hsome
      rw [hc] at hmem ⊢
      refine ⟨h.ok, rfl, rfl, .refl _, ?_, rfl, fun kind => by unfold Db.namesOf; rw [hm]⟩
      have hold : digest ∈ db.content.tenancy.stored := ⟨row.id, hmem⟩
      exact (Set.insert_eq_of_mem hold).symm
    · have hnot : digest ∉ db.content.tenancy.stored := by
        rintro ⟨i, hi⟩
        obtain ⟨m, hm, heq⟩ := List.mem_map.mp hi
        have := List.find?_eq_none.mp hnone m hm
        simp [(Prod.mk.inj heq).2] at this
      rw [hc]
      refine ⟨h.ok.addManifest, rfl, rfl, Content.addManifest_grows h.ok hnot,
        Content.addManifest_stored, Content.addManifest_linked h.ok, fun kind => ?_⟩
      rw [Content.addManifest_naming_self h.ok hnot]
      unfold Db.namesOf
      rw [hnone]
  obtain ⟨hok, hrepos, hblobs, hgrows, hins, hlinked, hnames⟩ := hstored
  have hhas' : repo.unowned ∈ db'.content.repositories := by rwa [hrepos]
  have hheld : db'.content.tenancy.held = db.content.tenancy.held := by
    simp only [Content.tenancy, hrepos, hblobs]
  have hap' : db.content.tenancy.Apart (provenance routes (cameIn routes repo.name digest :: history))
      repo.name digest (db'.content.tenancy.names digest) (db'.content.tenancy.children digest) := by
    rwa [hnames, hnames] at hap
  rcases link_content db' repo row with hc | hc
  · refine ⟨by rwa [hc], hpushes, ?_⟩
    rw [hc]
    exact h.isolated.store hmono hcame hap' hgrows hins (fun u => by rw [hheld])
      fun u m hm => by rw [hlinked] at hm; exact .inl hm
  · refine ⟨?_, hpushes, ?_⟩
    · rw [hc]
      exact hok.addLink (hok.repos repo.unowned hhas') hmem
    · rw [hc]
      refine h.isolated.store hmono hcame hap' ⟨hgrows.stored, hgrows.names, hgrows.children⟩ hins
        (fun u => (congrFun hheld u).subset) fun u m hm => ?_
      rcases Content.addLink_tenancy hok hhas' hmem hm with hm | hm
      · rw [hlinked] at hm
        exact .inl hm
      · exact .inr hm

/-- A manifest that a repository of the same upstream has is linked without a GET. -/
theorem World.Sound.reuse (h : World.Sound routes ⟨db, history⟩) (hhas : db.Has repo)
    {known : DockerManifest} (hknown : known ∈ db.manifests) (hr : reusable repo db known = true) :
    World.Sound routes ⟨db.link repo known, history⟩ := by
  have hrow : (known.id, known.digest) ∈ db.content.manifests :=
    List.mem_map_of_mem (f := fun m => (m.id, m.digest)) hknown
  rcases link_content db repo known with hc | hc
  · exact h.of_content hc
  · refine ⟨?_, h.pushes, ?_⟩
    · rw [hc]
      exact h.ok.addLink (h.ok.repos repo.unowned hhas) hrow
    · have hadd : ∀ v, ∀ m ∈ (db.content.addLink repo.id known.id).tenancy.linked v,
          m ∈ db.content.tenancy.linked v ∨ v = repo.name ∧ m = known.digest := fun v m hm =>
        Content.addLink_tenancy h.ok hhas hrow hm
      rw [hc]
      unfold reusable at hr
      rcases Bool.or_eq_true_iff.mp hr with hlinked | hother
      · -- linked here already
        have hl : known.digest ∈ db.content.tenancy.linked repo.name := by
          obtain ⟨l, hl, hp⟩ := List.any_eq_true.mp hlinked
          simp only [Bool.and_eq_true, decide_eq_true_eq] at hp
          refine ⟨repo.unowned, hhas, rfl, known.id, ?_, hrow⟩
          exact List.mem_map.mpr ⟨l, hl, Prod.ext hp.1 hp.2⟩
        exact h.isolated.share hl subset_rfl subset_rfl (Content.addLink_grows ..) rfl (fun _ => subset_rfl) hadd
      · obtain ⟨l, hl, hp⟩ := List.any_eq_true.mp hother
        simp only [Bool.and_eq_true, decide_eq_true_eq, List.any_eq_true, Bool.not_eq_true'] at hp
        obtain ⟨hid, r, hr, ⟨hrid, hup⟩, hnotlocal⟩ := hp
        have hrin : r.unowned ∈ db.content.repositories := List.mem_map_of_mem hr
        have hl' : known.digest ∈ db.content.tenancy.linked r.name :=
          ⟨r.unowned, hrin, rfl, known.id, List.mem_map.mpr ⟨l, hl, Prod.ext hrid.symm hid⟩, hrow⟩
        -- the same upstream, so nothing was pushed there, and what it served came through both
        obtain ⟨hrroute, hrlocal⟩ := h.ok.routed r.unowned hrin
        have hroute : routes r.name = routes repo.name :=
          hrroute.symm.trans (hup.trans (h.ok.routed repo.unowned hhas).1)
        have hsome : routes r.name ≠ none := fun hnone => by
          have : r.isLocal = true := hrlocal.trans (by
            rw [show routes r.unowned.name = none from hnone]
            rfl)
          rw [hnotlocal] at this
          cases this
        refine h.isolated.share hl' ?_ ?_ (Content.addLink_grows ..) rfl (fun _ => subset_rfl) hadd
        · exact fun d hd => absurd (h.pushes r.name d (.inl hd)) hsome
        · rintro d (hd | ⟨u, hu, hd⟩)
          · exact absurd (h.pushes r.name d (.inr hd)) hsome
          · exact .inr ⟨u, hroute.symm.trans hu, hd⟩

end Steps

/-! ## Runs -/

inductive RepoAction where
  | start (name : String) (ident : RegistryIdentity)
  | upload (name : String) (ident : RegistryIdentity) (content : List UInt8) (digest : Digest)
      (now : Time)
  | mount (name : String) (ident : RegistryIdentity) (source : Option String) (digest : Digest)
      (size : Nat) (policy : ImagePolicy) (now : Time)
  | put (name : String) (ident : RegistryIdentity) (reference : String) (body : List UInt8)
      (contentType : Option String) (policy : ImagePolicy) (now : Time)
  | deleteManifest (name : String) (ident : RegistryIdentity) (digest : Digest)
  | deleteTag (name : String) (ident : RegistryIdentity) (tag : String)
  | deleteBlob (name : String) (ident : RegistryIdentity) (digest : Digest)
  | pullDigest (name : String) (digest : Digest) (negative : Bool) (reply : UpstreamReply)
      (now : Time)
  | pullTag (name tag : String) (probe byDigest byTag : UpstreamReply) (now : Time)
  | openBlob (name : String) (digest : Digest) (reply : BlobReply) (now : Time)
  | touch (digest : Digest) (now : Time)

section Runs

variable (env : RegistryEnv) (routes : String → Option Nat)

/-- A write request to a repository of the local namespace; elsewhere it is
refused. A failed request is rolled back. -/
def World.pushInto (w : World) (name : String) (ident : RegistryIdentity)
    (f : Db → DockerRepository → Except ParseError (Db × List Event)) : World :=
  match routes name with
  | some _ => w
  | none =>
    match repoForPush ⟨name, none⟩ ident w.db with
    | .error _ => w
    | .ok (db, repo) =>
      match f db repo with
      | .error _ => w
      | .ok (db, events) => { db := db, history := events ++ w.history }

/-- A pull; a repository of an upstream is made on its first pull. -/
def World.pullThrough (w : World) (name : String)
    (f : Db → DockerRepository → Db × List Event) : World :=
  if (routes name).isNone && (repoNamed w.db name).isNone then w
  else
    let (db, repo) := getRepo ⟨name, routes name⟩ w.db
    let (db, events) := f db repo
    { db := db, history := events ++ w.history }

/-- What the upstream served, when a pull fetched a manifest. -/
def servedEvents (name : String) : Except ParseError (DockerManifest × Source) → List Event
  | .ok (m, .fetched) => [cameIn routes name m.digest]
  | _ => []

def RepoAction.apply (w : World) : RepoAction → World
  | .start name ident => w.pushInto routes name ident fun db _ => .ok (db, [])
  | .upload name ident content digest now => w.pushInto routes name ident fun db repo =>
    (finishUpload repo digest now db env content).map fun r => (r.1, [.blob name digest])
  | .mount name ident source digest size policy now => w.pushInto routes name ident fun db repo =>
    let (db, mounted) := mountBlob repo digest now db (source.bind (repoNamed db)) size policy
    .ok (db, if mounted then [.blob name digest] else [])
  | .put name ident reference body contentType policy now =>
    w.pushInto routes name ident fun db repo =>
      (putManifest env ⟨name, none⟩ repo db reference body contentType ident policy now).map
        fun r => (r.1, [cameIn routes name r.2.digest])
  | .deleteManifest name ident digest => w.pushInto routes name ident fun db repo =>
    (Docker.deleteManifest repo db digest).map fun db => (db, [])
  | .deleteTag name ident tag => w.pushInto routes name ident fun db repo =>
    (Docker.deleteTag repo db tag).map fun db => (db, [])
  | .deleteBlob name ident digest => w.pushInto routes name ident fun db repo =>
    (Docker.deleteBlob repo db digest).map fun db => (db, [])
  | .pullDigest name digest negative reply now => w.pullThrough routes name fun db repo =>
    let (answer, db) := manifestByDigest env repo now db digest negative reply
    (db, servedEvents routes name answer)
  | .pullTag name tag probe byDigest byTag now => w.pullThrough routes name fun db repo =>
    if repo.isLocal then (db, [])
    else
      let (answer, db) := revalidate env repo now db tag probe byDigest byTag
      (db, servedEvents routes name answer)
  | .openBlob name digest reply now => w.pullThrough routes name fun db repo =>
    ((Docker.openBlob db repo digest now reply).2, [])
  | .touch digest now =>
    match w.db.manifestRow digest with
    | some m => { w with db := Docker.touch now w.db m }
    | none => w

/-- A step keeps the repositories apart: so does the manifest it stores, if it
gets as far as storing one. -/
def RepoAction.KeepsApart (w : World) : RepoAction → Prop
  | .put name ident reference body contentType _ _ =>
    routes name = none → ∀ db repo, repoForPush ⟨name, none⟩ ident w.db = .ok (db, repo) →
      putCheck env ⟨name, none⟩ repo db reference body contentType = .ok () →
        StoresApart routes env w name body contentType
          (if isDigest reference then some reference else none)
  | .pullDigest name digest negative reply _ =>
    let (db, repo) := getRepo ⟨name, routes name⟩ w.db
    routes name ≠ none → manifestHit repo db digest = none → negative = false →
      ∀ body mediaType served, reply = .manifest (some body) mediaType served →
        StoresApart routes env w name body mediaType (some digest)
  | .pullTag name tag probe byDigest byTag now =>
    let (db, repo) := getRepo ⟨name, routes name⟩ w.db
    routes name ≠ none → probeAnswer env repo now db tag probe = none →
      ∀ body mediaType served, (movedReply (movedTo repo db tag probe) byDigest byTag).2 =
          .manifest (some body) mediaType served →
        StoresApart routes env w name body mediaType
          (movedReply (movedTo repo db tag probe) byDigest byTag).1
  | _ => True

/-- A registry that nothing has come into. -/
structure World.Blank (w : World) : Prop where
  repositories : w.db.repositories = .empty _
  manifests : w.db.manifests = .empty _
  refs : w.db.refs = []
  links : w.db.repoManifests = []
  blobs : w.db.repoBlobs = []
  history : w.history = []

/-- The registry under pushes, mounts, deletes and pulls. -/
def registryPulls : System World RepoAction where
  init := World.Blank
  Step w a w' := w' = a.apply env routes w

end Runs

/-! ## Every step keeps the invariant -/

section Sound

variable {env : RegistryEnv} {routes : String → Option Nat} {w : World} {db : Db}
  {history : List Event} {repo : DockerRepository}

/-- Where `StoresApart` looks at the state. -/
theorem StoresApart.at {name : String} {body : List UInt8} {contentType : Option String}
    {expected : Option Digest} (h : StoresApart routes env w name body contentType expected)
    (ht : db.content.tenancy = w.db.content.tenancy) (hn : db.namesOf = w.db.namesOf) :
    StoresApart routes env ⟨db, w.history⟩ name body contentType expected := by
  unfold StoresApart
  dsimp only
  rw [ht, hn]
  exact h

/-- The repository of a push: found or made, and owned. -/
theorem repoForPush_sound (h : w.Sound routes) {name : String} {ident : RegistryIdentity}
    (hlocal : routes name = none) (hok : repoForPush ⟨name, none⟩ ident w.db = .ok (db, repo)) :
    World.Sound routes ⟨db, w.history⟩ ∧ db.Has repo ∧ repo.name = name ∧
      db.content.tenancy = w.db.content.tenancy ∧ db.namesOf = w.db.namesOf := by
  obtain ⟨hsound, hhas, hname⟩ := h.getRepo name
  obtain ⟨htenancy, hnames⟩ := getRepo_tenancy h ⟨name, none⟩
  rw [hlocal] at hsound hhas hname
  unfold repoForPush at hok
  dsimp only at hok
  split at hok
  · obtain ⟨rfl, rfl⟩ := Prod.mk.inj (Except.ok.inj hok)
    refine ⟨hsound.of_content (setOwner_content ..), ?_, hname, ?_, hnames⟩
    · unfold Db.Has
      rw [setOwner_content]
      exact hhas
    · rw [setOwner_content]
      exact htenancy
  · split at hok
    · cases hok
    · obtain ⟨rfl, rfl⟩ := Prod.mk.inj (Except.ok.inj hok)
      exact ⟨hsound, hhas, hname, htenancy, hnames⟩

theorem World.Sound.pushInto (h : w.Sound routes) {name : String} {ident : RegistryIdentity}
    {f : Db → DockerRepository → Except ParseError (Db × List Event)}
    (hf : routes name = none → ∀ db repo, repoForPush ⟨name, none⟩ ident w.db = .ok (db, repo) →
      World.Sound routes ⟨db, w.history⟩ → db.Has repo → repo.name = name →
        ∀ db' events, f db repo = .ok (db', events) →
          World.Sound routes ⟨db', events ++ w.history⟩) :
    (w.pushInto routes name ident f).Sound routes := by
  unfold World.pushInto
  split
  · exact h
  · next hlocal =>
    split
    · exact h
    · next db repo hpush =>
      obtain ⟨hsound, hhas, hname, -⟩ := repoForPush_sound h hlocal hpush
      split
      · exact h
      · next hok => exact hf hlocal _ _ hpush hsound hhas hname _ _ hok

theorem World.Sound.pullThrough (h : w.Sound routes) {name : String}
    {f : Db → DockerRepository → Db × List Event}
    (hf : ∀ db repo, Docker.getRepo ⟨name, routes name⟩ w.db = (db, repo) →
      World.Sound routes ⟨db, w.history⟩ → db.Has repo → repo.name = name →
        World.Sound routes ⟨(f db repo).1, (f db repo).2 ++ w.history⟩) :
    (w.pullThrough routes name f).Sound routes := by
  unfold World.pullThrough
  split
  · exact h
  · obtain ⟨hsound, hhas, hname⟩ := h.getRepo name
    exact hf _ _ rfl hsound hhas hname

/-- A blob pushed or mounted. -/
theorem World.Sound.addRepoBlob (h : World.Sound routes ⟨db, history⟩) (hhas : db.Has repo)
    (hlocal : routes repo.name = none) (digest : Digest) {db₀ : Db}
    (hc : db₀.content = db.content) :
    World.Sound routes ⟨addRepoBlob repo digest db₀, .blob repo.name digest :: history⟩ := by
  refine h.hold hhas hlocal ?_
  rw [← hc]
  exact addRepoBlob_content db₀ repo digest

/-- Storing what the upstream served under a tag. -/
theorem World.Sound.fetchTag (h : World.Sound routes ⟨db, history⟩) (hhas : db.Has repo)
    (tag : String) {expected : Option Digest} {reply : UpstreamReply} (now : Time)
    (hapart : ∀ body mediaType served, reply = .manifest (some body) mediaType served →
      StoresApart routes env ⟨db, history⟩ repo.name body mediaType expected) :
    World.Sound routes ⟨(fetchTag env repo now db tag expected reply).2,
      servedEvents routes repo.name (fetchTag env repo now db tag expected reply).1 ++ history⟩ := by
  cases reply with
  | manifest body mediaType served =>
    cases body with
    | none => exact h
    | some body =>
      unfold Docker.fetchTag Docker.storeAndLink
      rcases hstore : storeManifest env body mediaType expected repo.upstreamId none now db with
        e | ⟨db', row⟩
      · dsimp only
        rw [hstore]
        exact h
      · dsimp only
        rw [hstore]
        exact (h.storeAndLink hhas (hapart body mediaType served rfl) hstore).of_content
          (setTag_content ..)
  | notFound => exact h.of_content rfl
  | unavailable why => exact h

/-- A manifest pulled by digest. -/
theorem World.Sound.manifestByDigest (h : World.Sound routes ⟨db, history⟩) (hhas : db.Has repo)
    {digest : Digest} {negative : Bool} {reply : UpstreamReply} {now : Time}
    (hapart : routes repo.name ≠ none → manifestHit repo db digest = none → negative = false →
      ∀ body mediaType served, reply = .manifest (some body) mediaType served →
        StoresApart routes env ⟨db, history⟩ repo.name body mediaType (some digest)) :
    World.Sound routes ⟨(manifestByDigest env repo now db digest negative reply).2,
      servedEvents routes repo.name (manifestByDigest env repo now db digest negative reply).1 ++
        history⟩ := by
  have hlocal : repo.isLocal = (routes repo.name).isNone := (h.ok.routed repo.unowned hhas).2
  unfold Docker.manifestByDigest
  rcases hhit : manifestHit repo db digest with _ | row
  · dsimp only
    split
    · exact h
    · next hnot =>
      have hroute : routes repo.name ≠ none := by
        rintro hnone
        rw [hlocal, hnone] at hnot
        exact hnot rfl
      split
      · exact h
      · next hneg =>
        split
        · exact h
        · next body mediaType served =>
          unfold Docker.storeAndLink
          rcases hstore : storeManifest env body mediaType (some digest) repo.upstreamId none now
              db with e | ⟨db', row⟩
          · exact h
          · exact h.storeAndLink hhas
              (hapart hroute hhit (by simpa using hneg) body mediaType served rfl) hstore
        · exact h
        · exact h
  · exact h

/-- A tag pulled from its upstream. -/
theorem World.Sound.revalidate (h : World.Sound routes ⟨db, history⟩) (hhas : db.Has repo)
    {tag : String} {probe byDigest byTag : UpstreamReply} {now : Time}
    (hapart : probeAnswer env repo now db tag probe = none → ∀ body mediaType served,
      (movedReply (movedTo repo db tag probe) byDigest byTag).2 =
          .manifest (some body) mediaType served →
        StoresApart routes env ⟨db, history⟩ repo.name body mediaType
          (movedReply (movedTo repo db tag probe) byDigest byTag).1) :
    World.Sound routes ⟨(revalidate env repo now db tag probe byDigest byTag).2,
      servedEvents routes repo.name (revalidate env repo now db tag probe byDigest byTag).1 ++
        history⟩ := by
  unfold Docker.revalidate
  rcases hprobe : probeAnswer env repo now db tag probe with _ | answer
  · have hfetch := h.fetchTag hhas tag now (hapart hprobe)
    dsimp only
    split
    · next hget =>
      rw [hget] at hfetch
      exact hfetch
    · exact hfetch
  · -- the HEAD settled it, and nothing was stored
    dsimp only
    unfold probeAnswer at hprobe
    split at hprobe
    · cases hprobe
    · split at hprobe
      · obtain rfl := Option.some.inj hprobe
        exact h.of_content rfl
      · obtain rfl := Option.some.inj hprobe
        exact h
      · split at hprobe
        · obtain rfl := Option.some.inj hprobe
          exact h.of_content (setTag_content ..)
        · obtain ⟨known, hknown, rfl⟩ := Option.map_eq_some_iff.mp hprobe
          obtain ⟨hrow, hp⟩ := Option.filter_eq_some_iff.mp hknown
          obtain ⟨moved, -, hrow⟩ := Option.bind_eq_some_iff.mp hrow
          exact (h.reuse hhas (List.mem_of_find?_eq_some hrow)
            (Bool.and_eq_true_iff.mp hp).2).of_content (setTag_content ..)

/-- A manifest pushed. -/
theorem World.Sound.putManifest (h : World.Sound routes ⟨db, history⟩) (hhas : db.Has repo)
    {reference : String} {body : List UInt8} {contentType : Option String}
    {ident : RegistryIdentity} {policy : ImagePolicy} {now : Time} {target : Target} {db' : Db}
    {row : DockerManifest}
    (hapart : putCheck env target repo db reference body contentType = .ok () →
      StoresApart routes env ⟨db, history⟩ repo.name body contentType
        (if isDigest reference then some reference else none))
    (hput : putManifest env target repo db reference body contentType ident policy now =
      .ok (db', row)) :
    World.Sound routes ⟨db', cameIn routes repo.name row.digest :: history⟩ := by
  obtain ⟨hcheck, db₁, hstore, rfl⟩ := putManifest_ok hput
  refine (h.storeAndLink hhas (hapart hcheck) hstore).of_content ?_
  dsimp only
  split <;> split <;> simp

/-- Every action keeps the invariant, if it keeps the repositories apart. -/
theorem RepoAction.apply_sound (h : w.Sound routes) (a : RepoAction)
    (ha : a.KeepsApart env routes w) : (a.apply env routes w).Sound routes := by
  cases a with
  | start name ident =>
    dsimp only [RepoAction.apply]
    refine h.pushInto fun _ db repo _ hsound _ _ db' events hok => ?_
    obtain ⟨rfl, rfl⟩ := Prod.mk.inj (Except.ok.inj hok)
    exact hsound
  | upload name ident content digest now =>
    dsimp only [RepoAction.apply]
    refine h.pushInto fun hlocal db repo _ hsound hhas hname db' events hok => ?_
    obtain ⟨⟨db₁, size⟩, hfinish, ⟨⟩⟩ := map_ok hok
    obtain ⟨-, rfl⟩ := finishUpload_ok hfinish
    rw [← hname]
    exact hsound.addRepoBlob hhas (by rwa [hname]) digest (by simp)
  | mount name ident source digest size policy now =>
    dsimp only [RepoAction.apply]
    refine h.pushInto fun hlocal db repo _ hsound hhas hname db' events hok => ?_
    obtain ⟨rfl, rfl⟩ := Prod.mk.inj (Except.ok.inj hok)
    rcases mountBlob_cases (source.bind (repoNamed db)) size policy with hm | ⟨hm, -⟩
    · rw [hm]
      exact hsound
    · rw [hm, ← hname]
      exact hsound.addRepoBlob hhas (by rwa [hname]) digest (by simp)
  | put name ident reference body contentType policy now =>
    dsimp only [RepoAction.apply]
    refine h.pushInto fun hlocal db repo hpush hsound hhas hname db' events hok => ?_
    obtain ⟨⟨db₁, row⟩, hput, ⟨⟩⟩ := map_ok hok
    obtain ⟨-, -, -, htenancy, hnames⟩ := repoForPush_sound h hlocal hpush
    subst hname
    exact hsound.putManifest hhas
      (fun hcheck => (ha hlocal db repo hpush hcheck).at htenancy hnames) hput
  | deleteManifest name ident digest =>
    dsimp only [RepoAction.apply]
    refine h.pushInto fun _ db repo _ hsound _ _ db' events hok => ?_
    obtain ⟨db₁, hdel, ⟨⟩⟩ := map_ok hok
    unfold Docker.deleteManifest at hdel
    split at hdel
    · cases hdel
    · split at hdel
      · cases hdel
      · obtain rfl := Except.ok.inj hdel
        refine hsound.drop rfl rfl rfl rfl (fun l hl => ?_) fun b hb => hb
        obtain ⟨r, hr, rfl⟩ := List.mem_map.mp hl
        exact List.mem_map_of_mem (f := fun l => (l.repositoryId, l.manifestId))
          (List.mem_filter.mp hr).1
  | deleteTag name ident tag =>
    dsimp only [RepoAction.apply]
    refine h.pushInto fun _ db repo _ hsound _ _ db' events hok => ?_
    obtain ⟨db₁, hdel, ⟨⟩⟩ := map_ok hok
    unfold Docker.deleteTag at hdel
    dsimp only at hdel
    split at hdel
    · obtain rfl := Except.ok.inj hdel
      exact hsound.of_content rfl
    · cases hdel
  | deleteBlob name ident digest =>
    dsimp only [RepoAction.apply]
    refine h.pushInto fun _ db repo _ hsound _ _ db' events hok => ?_
    obtain ⟨db₁, hdel, ⟨⟩⟩ := map_ok hok
    unfold Docker.deleteBlob at hdel
    dsimp only at hdel
    split at hdel
    · obtain rfl := Except.ok.inj hdel
      exact hsound.drop rfl rfl rfl rfl (fun l hl => hl) fun b hb => (List.mem_filter.mp hb).1
    · cases hdel
  | pullDigest name digest negative reply now =>
    dsimp only [RepoAction.apply]
    refine h.pullThrough fun db repo hrepo hsound hhas hname => ?_
    obtain ⟨htenancy, hnames⟩ := getRepo_tenancy h ⟨name, routes name⟩
    dsimp only [RepoAction.KeepsApart] at ha
    rw [hrepo] at ha htenancy hnames
    subst hname
    exact hsound.manifestByDigest hhas fun hroute hmiss hneg body mediaType served hreply =>
      (ha hroute hmiss hneg body mediaType served hreply).at htenancy hnames
  | pullTag name tag probe byDigest byTag now =>
    dsimp only [RepoAction.apply]
    refine h.pullThrough fun db repo hrepo hsound hhas hname => ?_
    obtain ⟨htenancy, hnames⟩ := getRepo_tenancy h ⟨name, routes name⟩
    dsimp only [RepoAction.KeepsApart] at ha
    rw [hrepo] at ha htenancy hnames
    subst hname
    split
    · exact hsound
    · next hnotlocal =>
      have hroute : routes repo.name ≠ none := fun hnone =>
        hnotlocal ((hsound.ok.routed repo.unowned hhas).2.trans (by
          rw [show routes repo.unowned.name = none from hnone]
          rfl))
      exact hsound.revalidate hhas fun hprobe body mediaType served hreply =>
        (ha hroute hprobe body mediaType served hreply).at htenancy hnames
  | openBlob name digest reply now =>
    dsimp only [RepoAction.apply]
    refine h.pullThrough fun db repo _ hsound _ _ => hsound.of_content ?_
    dsimp only
    unfold Docker.openBlob
    dsimp only
    split
    · rfl
    · split
      · rfl
      · split
        · rfl
        · split <;> simp
  | touch digest now =>
    dsimp only [RepoAction.apply]
    split
    · exact h.of_content (touch_content ..)
    · exact h

theorem World.Blank.sound (h : w.Blank) : w.Sound routes where
  ok := by
    constructor <;> simp [Db.content, h.repositories, h.manifests, h.refs, h.links, h.blobs]
  pushes := by simp [h.history]
  isolated := by
    constructor <;> simp [Db.content, Content.tenancy, h.repositories, h.manifests, h.links,
      h.blobs]

/-! ## What a repository serves -/

/-- A repository serves the blobs that it can read as a tenant. -/
theorem blobInRepo_readable (h : w.Sound routes) (hrepo : repo ∈ w.db.repositories)
    {digest : Digest} (hb : blobInRepo w.db repo digest = true) :
    digest ∈ w.db.content.tenancy.readable repo.name := by
  have hhas : repo.unowned ∈ w.db.content.repositories := List.mem_map_of_mem hrepo
  -- a link points at a row
  have hlink : ∀ i ∈ linkedIds w.db repo, ∃ d ∈ w.db.content.tenancy.linked repo.name,
      (i, d) ∈ w.db.content.manifests := by
    intro i hi
    obtain ⟨l, hl, rfl⟩ := List.mem_map.mp hi
    obtain ⟨hl, hid⟩ := List.mem_filter.mp hl
    have hl' : (repo.id, l.manifestId) ∈ w.db.content.links :=
      List.mem_map.mpr ⟨l, hl, Prod.ext (of_decide_eq_true hid) rfl⟩
    obtain ⟨-, d, hd⟩ := h.ok.links _ hl'
    exact ⟨d, ⟨repo.unowned, hhas, rfl, l.manifestId, hl', hd⟩, hd⟩
  unfold blobInRepo at hb
  rcases Bool.or_eq_true_iff.mp hb with hb | hb
  · obtain ⟨row, hrow, hp⟩ := List.any_eq_true.mp hb
    simp only [Bool.and_eq_true, decide_eq_true_eq] at hp
    have heq : row = { repositoryId := repo.id, digest := digest } :=
      DockerRepoBlob.mk.injEq .. ▸ hp
    exact .inl ⟨repo.unowned, hhas, rfl, heq ▸ hrow⟩
  · obtain ⟨r, hr, hp⟩ := List.any_eq_true.mp hb
    simp only [Bool.and_eq_true, Bool.or_eq_true, decide_eq_true_eq] at hp
    obtain ⟨rfl, hmem | hmem⟩ := hp
    · obtain ⟨d, hd, hi⟩ := hlink _ hmem
      exact .inr ⟨d, hd, .inl ⟨_, hi, r, hr, rfl, trivial, rfl⟩⟩
    · obtain ⟨c, hc, hcid⟩ := List.mem_map.mp hmem
      obtain ⟨hc, hchild⟩ := List.mem_filter.mp hc
      obtain ⟨r', hr', hdigest⟩ := List.mem_map.mp (of_decide_eq_true hchild)
      obtain ⟨hr', hkind⟩ := List.mem_filter.mp hr'
      simp only [Bool.and_eq_true, decide_eq_true_eq] at hkind
      obtain ⟨d, hd, hi⟩ := hlink _ hkind.1
      have hc' : (c.id, c.digest) ∈ w.db.content.manifests :=
        List.mem_map_of_mem (f := fun m => (m.id, m.digest)) hc
      exact .inr ⟨d, hd, .inr ⟨c.digest, ⟨_, hi, r', hr', rfl, hkind.2, hdigest⟩, ⟨c.id, hc'⟩,
        c.id, hc', r, hr, hcid.symm, trivial, rfl⟩⟩

/-- What a repository serves from local storage is what may be read there. -/
theorem World.Sound.openBlob (h : w.Sound routes) (hrepo : repo ∈ w.db.repositories)
    {digest : Digest} {now : Time} {reply : BlobReply}
    (hopen : (openBlob w.db repo digest now reply).1 = .ok true) :
    Entitled routes w repo.name digest := by
  have hlocal := (openBlob_local_iff w.db repo digest now reply).mp hopen
  have hb : blobInRepo w.db repo digest = true := (Bool.and_eq_true_iff.mp hlocal).1
  exact (entitled_iff routes).mp
    (h.isolated.readable_subset repo.name (blobInRepo_readable h hrepo hb))

/-- Without a GET, a manifest comes by digest only from the repository's own. -/
theorem World.Sound.manifestHit (h : w.Sound routes) (hrepo : repo ∈ w.db.repositories)
    {digest : Digest} {now : Time} {negative : Bool} {reply : UpstreamReply} {m : DockerManifest}
    {source : Source}
    (hget : (Docker.manifestByDigest env repo now w.db digest negative reply).1 = .ok (m, source))
    (hsource : source ≠ .fetched) :
    m.digest = digest ∧ CameThrough routes w.history repo.name digest := by
  unfold Docker.manifestByDigest at hget
  rcases hhit : Docker.manifestHit repo w.db digest with _ | row
  · rw [hhit] at hget
    dsimp only at hget
    split at hget
    · cases hget
    · split at hget
      · cases hget
      · split at hget
        · cases hget
        · split at hget
          · cases hget
          · exact absurd (Prod.mk.inj (Except.ok.inj hget)).2.symm hsource
        · cases hget
        · cases hget
  · rw [hhit] at hget
    obtain ⟨rfl, rfl⟩ := Prod.mk.inj (Except.ok.inj hget)
    obtain ⟨hrow, hp⟩ := Option.filter_eq_some_iff.mp hhit
    have hdigest : row.digest = digest := by simpa using List.find?_some hrow
    refine ⟨hdigest, h.isolated.origin repo.name ?_⟩
    obtain ⟨l, hl, hl'⟩ := List.any_eq_true.mp (Bool.and_eq_true_iff.mp hp).2
    simp only [Bool.and_eq_true, decide_eq_true_eq] at hl'
    refine ⟨repo.unowned, List.mem_map_of_mem hrepo, rfl, row.id,
      List.mem_map.mpr ⟨l, hl, Prod.ext hl'.1 hl'.2⟩, ?_⟩
    rw [← hdigest]
    exact List.mem_map_of_mem (f := fun m => (m.id, m.digest)) (List.mem_of_find?_eq_some hrow)

/-- **Isolation of stored content.** In a run whose steps keep the repositories
apart, a repository serves a blob from local storage only if that was pushed or
mounted into it or a manifest that came through it names it, and a manifest by
digest only if that came through it. -/
theorem registry_isolated
    (hreach : (registryPulls env routes).Reach (fun w a => a.KeepsApart env routes w) w)
    (hrepo : repo ∈ w.db.repositories) (digest : Digest) (now : Time) :
    (∀ reply, (openBlob w.db repo digest now reply).1 = .ok true →
        Entitled routes w repo.name digest) ∧
      ∀ negative reply m source,
        (manifestByDigest env repo now w.db digest negative reply).1 = .ok (m, source) →
          source ≠ .fetched → m.digest = digest ∧ CameThrough routes w.history repo.name digest := by
  have hsound : w.Sound routes := by
    refine hreach.invariant (I := World.Sound routes) (fun w hblank => World.Blank.sound hblank) ?_
    rintro w a _ hw ha rfl
    exact a.apply_sound hw ha
  exact ⟨fun _ hopen => hsound.openBlob hrepo hopen,
    fun _ _ _ _ hget hsource => hsound.manifestHit hrepo hget hsource⟩

end Sound

/-! ## A private image named by somebody's index -/

/-- An index of one manifest. -/
def childIndex (digest : Digest) : List (String × Json) :=
  [("schemaVersion", .int 2), ("mediaType", .str ociIndex),
   ("manifests", .arr [.obj [("digest", .str digest), ("size", .int 2)]])]

/-- An image, and an index that names it. -/
def leakEnv : RegistryEnv where
  codec :=
    { loads := fun body => some (.obj (if body = [] then plainImage else childIndex otherDigest))
      repr := fun _ => "" }
  sha256 body := match body with
    | [] => otherDigest
    | [1] => "sha256:index"
    | _ => zeroDigest

/-- One repository of an upstream; every other name is local. -/
def leakRoutes (name : String) : Option Nat := if name = "evil/app" then some 1 else none

def privateRepo : DockerRepository :=
  { id := 1, name := "local/private", isLocal := true, ownerUserId := some 7 }
def evilRepo : DockerRepository := { id := 3, name := "evil/app", upstreamId := some 1 }

def pusher : RegistryIdentity := { userId := some 7 }

def uploadConfig : RepoAction := .upload "local/private" pusher [2] zeroDigest 0
def pushImage : RepoAction := .put "local/private" pusher "v1" [] none {} 0

/-- The upstream answers with an index that names the private image. -/
def pullIndex : RepoAction :=
  .pullTag "evil/app" "latest" .notFound .notFound (.manifest (some [1]) none none) 1

def emptyWorld : World := { db := {}, history := [] }
def uploadedWorld : World := uploadConfig.apply leakEnv leakRoutes emptyWorld
def privateWorld : World := pushImage.apply leakEnv leakRoutes uploadedWorld
def leakWorld : World := pullIndex.apply leakEnv leakRoutes privateWorld

theorem emptyWorld_blank : emptyWorld.Blank := ⟨rfl, rfl, rfl, rfl, rfl, rfl⟩

/-- The private image's config is served from a repository that only has the index. -/
theorem registry_not_isolated :
    (registryPulls leakEnv leakRoutes).Reach (fun _ _ => True) leakWorld ∧
      ∃ repo ∈ leakWorld.db.repositories, repo.name = "evil/app" ∧
        (openBlob leakWorld.db repo zeroDigest 2 .notFound).1 = .ok true ∧
        ¬ Entitled leakRoutes leakWorld "evil/app" zeroDigest := by
  refine ⟨.step (a := pullIndex) (.step (a := pushImage) (.step (a := uploadConfig)
    (.init emptyWorld_blank) trivial rfl) trivial rfl) trivial rfl, ?_⟩
  refine ⟨evilRepo, by decide +kernel, rfl, by decide +kernel, ?_⟩
  have hhistory : leakWorld.history = [.served 1 "sha256:index", .pushed "local/private" otherDigest,
      .blob "local/private" zeroDigest] := by decide +kernel
  have hnames : ∀ m ∈ leakWorld.db.manifests.rows, m.digest = "sha256:index" →
      ∀ r ∈ leakWorld.db.refs, r.manifestId = m.id → r.digest ≠ zeroDigest := by decide +kernel
  rintro (hblob | ⟨m, hm, hcame, r, hr, hid, hd⟩)
  · rw [hhistory] at hblob
    simp at hblob
  · refine hnames m hm ?_ r hr hid hd
    unfold CameThrough at hcame
    rw [hhistory] at hcame
    simpa [leakRoutes] using hcame

/-- A push keeps the repositories apart; the image is served where it was pushed. -/
theorem registry_isolated_pushed : Entitled leakRoutes privateWorld "local/private" zeroDigest := by
  have hapart : pushImage.KeepsApart leakEnv leakRoutes uploadedWorld := by
    rintro - db repo - - parsed hacc
    have hkinds : ∀ p ∈ accepted leakEnv [] none none, ∀ r ∈ p.refs, r.refType ≠ .manifest := by
      decide +kernel
    have hrow : uploadedWorld.db.manifestRow (leakEnv.sha256 []) = none := by decide +kernel
    have hlinks : uploadedWorld.db.content.links = [] := by decide +kernel
    constructor
    · rintro c hc -
      unfold Db.namesOf at hc
      rw [hrow] at hc
      obtain ⟨r, hr, hkind, -⟩ := hc
      exact absurd hkind (hkinds parsed hacc r hr)
    · rintro - u m ⟨_, _, _, _, hl, _⟩
      rw [hlinks] at hl
      cases hl
  have hreach : (registryPulls leakEnv leakRoutes).Reach
      (fun w a => a.KeepsApart leakEnv leakRoutes w) privateWorld :=
    .step (a := pushImage) (.step (a := uploadConfig) (.init emptyWorld_blank) trivial rfl) hapart rfl
  have hrepo : privateRepo ∈ privateWorld.db.repositories := by decide +kernel
  exact (registry_isolated hreach hrepo zeroDigest 1).1 .notFound (by decide +kernel)

end Minireg.Docker
