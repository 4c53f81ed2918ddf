import Minireg.Docker.Policy
import Mathlib.Data.List.Sort

/-!
# Pull-through and local image storage

`storeManifest` records a manifest by its exact bytes; an index rewrites what is
known of the children it names. `manifestByDigest` and `revalidate` are the two
ways a manifest reaches a repository from its upstream, `blobInRepo` says which
blobs a repository holds, `blobPullVerdict` whether it may serve one. The hash
of the store and the JSON decoder are parameters (`RegistryEnv`); the upstream's
replies come with each request.
-/

namespace Minireg.Docker

open Py Lib

structure RegistryEnv where
  codec : JsonCodec
  sha256 : List UInt8 → Digest

/-! ## Storing a manifest -/

/-- What an index entry teaches about the row it names. -/
def learnEntry (ref : Ref) (m : DockerManifest) : DockerManifest :=
  if m.digest = ref.digest then
    let m := if ref.platform.getD "" ≠ "" && m.platform = none then
        { m with platform := ref.platform }
      else m
    if isAttestationEntry ref.platform ref.annotations then
      { m with kind := .attestation, scanStatus := .notApplicable }
    else m
  else m

theorem learnEntry_id (ref : Ref) (m : DockerManifest) : (learnEntry ref m).id = m.id := by
  unfold learnEntry
  dsimp only
  split
  · split <;> split <;> rfl
  · rfl

/-- The entries of an index, in order. -/
def learnEntries (refs : List Ref) (m : DockerManifest) : DockerManifest :=
  refs.foldl (fun m ref => learnEntry ref m) m

theorem learnEntries_id (refs : List Ref) (m : DockerManifest) :
    (learnEntries refs m).id = m.id := by
  induction refs generalizing m with
  | nil => rfl
  | cons ref refs ih => exact (ih _).trans (learnEntry_id ref m)

/-- Only an attestation entry changes the kind and the scan status. -/
theorem learnEntry_kind {ref : Ref} {m : DockerManifest}
    (h : m.digest = ref.digest → isAttestationEntry ref.platform ref.annotations = false) :
    (learnEntry ref m).kind = m.kind ∧ (learnEntry ref m).scanStatus = m.scanStatus := by
  unfold learnEntry
  dsimp only
  split
  · next hd =>
    rw [if_neg (by simp [h hd])]
    split <;> exact ⟨rfl, rfl⟩
  · exact ⟨rfl, rfl⟩

theorem learnEntry_digest (ref : Ref) (m : DockerManifest) :
    (learnEntry ref m).digest = m.digest := by
  unfold learnEntry
  dsimp only
  split
  · split <;> split <;> rfl
  · rfl

theorem learnEntries_digest (refs : List Ref) (m : DockerManifest) :
    (learnEntries refs m).digest = m.digest := by
  induction refs generalizing m with
  | nil => rfl
  | cons ref refs ih => exact (ih _).trans (learnEntry_digest ref m)

theorem learnEntries_kind {refs : List Ref} {m : DockerManifest}
    (h : ∀ r ∈ refs, m.digest = r.digest → isAttestationEntry r.platform r.annotations = false) :
    (learnEntries refs m).kind = m.kind ∧ (learnEntries refs m).scanStatus = m.scanStatus := by
  induction refs generalizing m with
  | nil => exact ⟨rfl, rfl⟩
  | cons r refs ih =>
    have hr := learnEntry_kind (h r List.mem_cons_self)
    have hrest := ih (m := learnEntry r m) fun r' hr' hd =>
      h r' (List.mem_cons_of_mem _ hr') ((learnEntry_digest r m).symm.trans hd)
    exact ⟨hrest.1.trans hr.1, hrest.2.trans hr.2⟩

/-- The ref row that names this digest as a child, if an index was stored before it. -/
def parentRef (db : Db) (digest : Digest) : Option DockerManifestRef :=
  db.refs.find? fun r => r.digest = digest && r.refType = .manifest

/-- Kind and platform of a new row: the index that named it may have recorded both. -/
def newKind (db : Db) (parsed : ParsedManifest) (digest : Digest) : Kind × Option String :=
  if parsed.isIndex then (parsed.kind, none)
  else
    match parentRef db digest with
    | none => (parsed.kind, none)
    | some parent =>
      if isAttestationEntry parent.platform parent.annotations then (.attestation, none)
      else (parsed.kind, parent.platform)

def newManifest (db : Db) (parsed : ParsedManifest) (digest : Digest) (size : Nat)
    (upstreamId pushedBy : Option Nat) (now : Time) : DockerManifest :=
  let kind := (newKind db parsed digest).1
  { id := db.nextId
    digest := digest
    mediaType := parsed.mediaType
    size := size
    isIndex := parsed.isIndex
    kind := kind
    artifactType := parsed.artifactType
    configDigest := parsed.configDigest
    configMediaType := parsed.configMediaType
    platform := (newKind db parsed digest).2
    totalSize := parsed.totalSize
    layerCount := parsed.layerCount
    subjectDigest := parsed.subjectDigest
    annotations := parsed.annotations
    upstreamId := upstreamId
    pushedByUserId := pushedBy
    scanStatus := if kind = .image then .unscanned else .notApplicable
    createdAt := now
    lastAccessedAt := some now }

/-- The rows of what a manifest points at. -/
def refRows (manifestId : Nat) (refs : List Ref) : List DockerManifestRef :=
  refs.map fun r =>
    { manifestId := manifestId, refType := r.refType, digest := r.digest, mediaType := r.mediaType,
      size := r.size, position := r.position, platform := r.platform, annotations := r.annotations }

/-- A new row with its refs; an index then rewrites the children it names. -/
def insertManifest (parsed : ParsedManifest) (row : DockerManifest) (db : Db) : Db :=
  let manifests := db.manifests.put row
  { db with
    manifests := if parsed.isIndex then
        manifests.modify (learnEntries parsed.refs) (learnEntries_id parsed.refs)
      else manifests
    refs := db.refs ++ refRows row.id parsed.refs
    nextId := db.nextId + 1 }

/-- The rows after an insertion: the new row and the old ones, as the entries of
an index have them. -/
theorem mem_insertManifest {parsed : ParsedManifest} {row m : DockerManifest} {db : Db}
    (h : m ∈ (insertManifest parsed row db).manifests) :
    ∃ n, (n = row ∨ n ∈ db.manifests) ∧
      m = if parsed.isIndex = true then learnEntries parsed.refs n else n := by
  have hput : ∀ n ∈ db.manifests.put row, n = row ∨ n ∈ db.manifests := fun n hn =>
    (Table.mem_put.mp hn).imp_right And.left
  unfold insertManifest at h
  dsimp only at h
  split at h
  · next hi =>
    obtain ⟨n, hn, rfl⟩ := Table.mem_modify.mp h
    exact ⟨n, hput n hn, (if_pos hi).symm⟩
  · next hi => exact ⟨m, hput m h, (if_neg hi).symm⟩

/-- Record a manifest by its exact bytes, returning the possibly pre-existing row. -/
def storeManifest (env : RegistryEnv) (body : List UInt8) (contentType : Option String)
    (expectedDigest : Option Digest) (upstreamId pushedBy : Option Nat) (now : Time) (db : Db) :
    Except ParseError (Db × DockerManifest) :=
  match parse env.codec body contentType with
  | .error e => .error e
  | .ok parsed =>
    let digest := env.sha256 body
    let expected := expectedDigest.getD ""
    if expected ≠ "" && expected ≠ digest then
      .error (.registry "DIGEST_INVALID" ("content digest is " ++ digest ++ ", not " ++ expected))
    else
      let db := db.putFile digest
      match db.manifestRow digest with
      | some existing => .ok (db, existing)
      | none =>
        let row := newManifest db parsed digest body.length upstreamId pushedBy now
        .ok (insertManifest parsed row db, row)

/-- The manifest a store accepts. -/
def accepted (env : RegistryEnv) (body : List UInt8) (contentType : Option String)
    (expected : Option Digest) : Option ParsedManifest :=
  match parse env.codec body contentType with
  | .error _ => none
  | .ok parsed =>
    if expected.getD "" ≠ "" && expected.getD "" ≠ env.sha256 body then none else some parsed

/-- **What a store does**: an accepted manifest gets its file and, when there is
none, its row. -/
theorem storeManifest_eq (env : RegistryEnv) (body : List UInt8) (contentType : Option String)
    (expected : Option Digest) (upstreamId pushedBy : Option Nat) (now : Time) (db : Db) :
    (storeManifest env body contentType expected upstreamId pushedBy now db).toOption =
      (accepted env body contentType expected).map fun parsed =>
        match db.manifestRow (env.sha256 body) with
        | some existing => (db.putFile (env.sha256 body), existing)
        | none =>
          let row := newManifest db parsed (env.sha256 body) body.length upstreamId pushedBy now
          (insertManifest parsed row (db.putFile (env.sha256 body)), row) := by
  have hput : (db.putFile (env.sha256 body)).manifestRow (env.sha256 body) =
      db.manifestRow (env.sha256 body) ∧ (db.putFile (env.sha256 body)).refs = db.refs ∧
      (db.putFile (env.sha256 body)).nextId = db.nextId := by
    unfold Db.putFile
    split <;> exact ⟨rfl, rfl, rfl⟩
  unfold storeManifest accepted
  rcases parse env.codec body contentType with e | parsed
  · rfl
  · dsimp only
    by_cases he : (expected.getD "" ≠ "" && expected.getD "" ≠ env.sha256 body) = true
    · rw [if_pos he, if_pos he]
      rfl
    · rw [if_neg he, if_neg he, hput.1]
      rcases db.manifestRow (env.sha256 body) with _ | existing
      · have hrow : newManifest (db.putFile (env.sha256 body)) parsed (env.sha256 body) body.length
            upstreamId pushedBy now =
            newManifest db parsed (env.sha256 body) body.length upstreamId pushedBy now := by
          unfold newManifest newKind parentRef
          rw [hput.2.1, hput.2.2]
        dsimp only
        rw [hrow]
        rfl
      · rfl

/-- `set_tag`. -/
def setTag (repo : DockerRepository) (tag : String) (manifest : DockerManifest) (now : Time)
    (db : Db) : Db :=
  let row : DockerTag :=
    { repositoryId := repo.id, tag := tag, manifestId := manifest.id, checkedAt := now }
  let same := fun (t : DockerTag) => t.repositoryId = repo.id && t.tag = tag
  { db with tags := if db.tags.any same then db.tags.map fun t => if same t then row else t
      else db.tags ++ [row] }

/-! ## Manifests from an upstream -/

/-- What one request to the upstream ends in. -/
inductive UpstreamReply where
  | manifest (body : Option (List UInt8)) (mediaType : Option String) (digest : Option Digest)
  | notFound
  | unavailable (why : String)

/-- `hit | revalidated | fetched | stale`. -/
inductive Source where
  | hit | revalidated | fetched | stale
  deriving DecidableEq, Repr

def unknownManifest {α : Type} (message : String) : Except ParseError α :=
  .error (.registry "MANIFEST_UNKNOWN" message)

def unavailable {α : Type} (what why : String) : Except ParseError α :=
  .error (.registry "UNAVAILABLE" ("the upstream is unavailable and " ++ what ++
    " is not cached: " ++ why))

section Pull

variable (env : RegistryEnv) (repo : DockerRepository) (now : Time) (db : Db)

/-- Store what the upstream served and link it to the repository. -/
def storeAndLink (body : List UInt8) (mediaType : Option String) (expected : Option Digest) :
    Except ParseError (Db × DockerManifest) :=
  match storeManifest env body mediaType expected repo.upstreamId none now db with
  | .error e => .error e
  | .ok (db, row) => .ok (db.link repo row, row)

/-- The manifest of a digest, when the repository holds it. -/
def manifestHit (digest : Digest) : Option DockerManifest :=
  (db.manifestRow digest).filter fun row => db.exists? digest && db.linked repo row

/-- `_manifest_by_digest`. `negative` says that the digest is remembered as missing. -/
def manifestByDigest (digest : Digest) (negative : Bool) (reply : UpstreamReply) :
    Except ParseError (DockerManifest × Source) × Db :=
  match manifestHit repo db digest with
  | some row => (.ok (row, .hit), db)
  | none =>
    if repo.isLocal then
      (unknownManifest ("manifest " ++ digest ++ " is not in " ++ repo.name), db)
    else if negative then (unknownManifest ("manifest " ++ digest ++ " not found upstream"), db)
    else
      match reply with
      | .manifest none _ _ => (unknownManifest "upstream returned no manifest body", db)
      | .manifest (some body) mediaType _ =>
        match storeAndLink env repo now db body mediaType (some digest) with
        | .error e => (.error e, db)
        | .ok (db, row) => (.ok (row, .fetched), db)
      | .notFound => (unknownManifest ("manifest " ++ digest ++ " not found upstream"), db)
      | .unavailable why => (unavailable ("manifest " ++ digest) why, db)

/-- May a tag that moved to `manifest` take it without a GET? Only when this
upstream has already served it. -/
def reusable (manifest : DockerManifest) : Bool :=
  db.linked repo manifest || db.repoManifests.any fun l =>
    l.manifestId = manifest.id && db.repositories.rows.any fun r =>
      r.id = l.repositoryId && r.upstreamId = repo.upstreamId && !r.isLocal

/-- Store the upstream's answer under the tag. -/
def fetchTag (tag : String) (expected : Option Digest) (reply : UpstreamReply) :
    Except ParseError (DockerManifest × Source) × Db :=
  match reply with
  | .manifest (some body) mediaType _ =>
    match storeAndLink env repo now db body mediaType expected with
    | .error e => (.error e, db)
    | .ok (db, row) => (.ok (row, .fetched), setTag repo tag row now db)
  | .manifest none _ _ => (unavailable (repo.name ++ ":" ++ tag) "empty manifest", db)
  | .notFound => (unknownManifest (repo.name ++ ":" ++ tag ++ " not found upstream"),
      { db with tags := db.tags.filter fun t => !(t.repositoryId = repo.id && t.tag = tag) })
  | .unavailable why => (unavailable (repo.name ++ ":" ++ tag) why, db)

/-- The digest of a reply, where it is one. -/
def replyDigest : UpstreamReply → Option Digest
  | .manifest _ _ (some d) => if isDigest d then some d else none
  | _ => none

/-- The GET: by the digest the tag moved to, by tag when that is gone again. With
the digest that its bytes are checked against. -/
def movedReply (movedTo : Option Digest) (byDigest byTag : UpstreamReply) :
    Option Digest × UpstreamReply :=
  match movedTo, byDigest with
  | some _, .notFound => (replyDigest byTag, byTag)
  | some d, reply => (some d, reply)
  | none, _ => (replyDigest byTag, byTag)

/-- The manifest a tag points at, when its bytes are there. -/
def cachedManifest (tag : String) : Option DockerManifest :=
  ((db.tags.find? fun t => t.repositoryId = repo.id && t.tag = tag).bind fun t =>
    db.manifests.find? t.manifestId).filter fun m => db.exists? m.digest

/-- The digest a HEAD says the tag moved to. -/
def movedTo (tag : String) (probe : UpstreamReply) : Option Digest :=
  (cachedManifest repo db tag).bind fun _ => replyDigest probe

/-- What the HEAD alone settles: the tag has not moved, or to a digest that this
upstream has served; the tag is gone; or the upstream fails and the cached
manifest is served. -/
def probeAnswer (tag : String) (probe : UpstreamReply) :
    Option (Except ParseError (DockerManifest × Source) × Db) :=
  match cachedManifest repo db tag with
  | none => none
  | some cached =>
    match probe with
    | .notFound => some (fetchTag env repo now db tag none .notFound)
    | .unavailable _ => some (.ok (cached, .stale), db)
    | .manifest _ _ probed =>
      if probed = some cached.digest then
        some (.ok (cached, .revalidated), setTag repo tag cached now db)
      else
        (((replyDigest probe).bind db.manifestRow).filter fun known =>
          db.exists? known.digest && reusable repo db known).map fun known =>
            (.ok (known, .revalidated), setTag repo tag known now (db.link repo known))

/-- `_revalidate`, with the replies to the HEAD, the GET by digest and the GET
by tag. A failing upstream serves the cached manifest. -/
def revalidate (tag : String) (probe byDigest byTag : UpstreamReply) :
    Except ParseError (DockerManifest × Source) × Db :=
  match probeAnswer env repo now db tag probe with
  | some answer => answer
  | none =>
    let get := movedReply (movedTo repo db tag probe) byDigest byTag
    match cachedManifest repo db tag, fetchTag env repo now db tag get.1 get.2 with
    | some cached, (.error (.registry "UNAVAILABLE" _), db) => (.ok (cached, .stale), db)
    | _, answer => answer

/-- Record a pull. -/
def touch (manifest : DockerManifest) : Db :=
  db.updateManifest manifest.id fun m => { m with lastAccessedAt := some now }

end Pull

/-! ## Blobs -/

section Blobs

variable (db : Db) (repo : DockerRepository) (digest : Digest)

/-- The ids of the manifests linked to the repository. -/
def linkedIds : List Nat :=
  (db.repoManifests.filter fun l => l.repositoryId = repo.id).map DockerRepoManifest.manifestId

/-- The ids of the stored children of linked indexes. -/
def childIds : List Nat :=
  (db.manifests.rows.filter fun m => m.digest ∈ db.childDigests (linkedIds db repo)).map
    DockerManifest.id

/-- Whether the digest was pushed or mounted into the repository, or is named by
one of its manifests or their children. -/
def blobInRepo : Bool :=
  db.repoBlobs.any (fun b => b.repositoryId = repo.id && b.digest = digest) ||
  db.refs.any fun r => r.digest = digest &&
    (r.manifestId ∈ linkedIds db repo || r.manifestId ∈ childIds db repo)

/-- `_VERDICT_MANIFESTS`. -/
def verdictManifests : Nat := 50

/-- Most recently served first, newest row first among those. -/
def DockerManifest.servedAfter (a b : DockerManifest) : Prop :=
  match a.lastAccessedAt, b.lastAccessedAt with
  | some s, some t => t < s ∨ s = t ∧ b.id ≤ a.id
  | some _, none => True
  | none, some _ => False
  | none, none => b.id ≤ a.id

instance : DecidableRel DockerManifest.servedAfter := fun a b => by
  unfold DockerManifest.servedAfter
  split <;> infer_instance

/-- The manifests of the repository whose layers or config include the digest. -/
def namingManifests : List DockerManifest :=
  (db.manifests.rows.filter fun m => db.refs.any fun r =>
    r.manifestId = m.id && r.digest = digest && r.refType ≠ .manifest &&
      (r.manifestId ∈ linkedIds db repo || r.manifestId ∈ childIds db repo)).insertionSort
    DockerManifest.servedAfter

/-- `manifests_naming_blob`. -/
def manifestsNamingBlob (limit : Nat := verdictManifests) : List DockerManifest :=
  (namingManifests db repo digest).take limit

/-- The loop of `blob_pull_verdict`: the first allowed verdict, else the first refusal. -/
def firstAllowed (verdict : DockerManifest → ImageVerdict) :
    List DockerManifest → Option ImageVerdict → ImageVerdict
  | [], refusal => refusal.getD allow
  | m :: rest, refusal =>
    if (verdict m).allowed then verdict m
    else firstAllowed verdict rest (refusal <|> some (verdict m))

/-- May the bytes of the digest be served from this repository? -/
def blobPullVerdict (policy : ImagePolicy) : ImageVerdict :=
  if repo.quarantined then
    refuse ("repository " ++ repo.name ++ " is quarantined" ++
      (if repo.quarantineReason.getD "" ≠ "" then ": " ++ repo.quarantineReason.getD "" else ""))
      "quarantine"
  else
    firstAllowed (fun m => evaluatePull db repo m policy) (manifestsNamingBlob db repo digest) none

/-- Whether `open_blob` serves the digest from local storage. -/
def opensLocally : Bool := blobInRepo db repo digest && db.exists? digest

/-- What opening a blob upstream comes to. A fill that breaks off leaves nothing. -/
inductive BlobReply where
  | complete (size : Nat)
  | broken
  | notFound
  | unavailable (why : String)

/-- `_record_blob`. -/
def recordBlob (size : Nat) (now : Time) : Db :=
  match db.blobs.find? digest with
  | some _ => db
  | none =>
    let mediaType := (db.refs.find? fun r => r.digest = digest).bind DockerManifestRef.mediaType
    let row : DockerBlob :=
      { digest := digest, size := size, mediaType := mediaType, upstreamId := repo.upstreamId,
        createdAt := now }
    { db with blobs := db.blobs.put row }

/-- `open_blob`: whether the bytes come from local storage. -/
def openBlob (now : Time) (reply : BlobReply) : Except ParseError Bool × Db :=
  let unknown := .error (.registry "BLOB_UNKNOWN" ("blob " ++ digest ++ " is not in " ++ repo.name))
  if !blobInRepo db repo digest then (unknown, db)
  else if db.exists? digest then (.ok true, db)
  else if repo.isLocal then (unknown, db)
  else
    match reply with
    | .complete size => (.ok false, recordBlob (db.putFile digest) repo digest size now)
    | .broken => (.ok false, db)
    | .notFound =>
      (.error (.registry "BLOB_UNKNOWN" ("blob " ++ digest ++ " not found upstream")), db)
    | .unavailable why => (unavailable ("blob " ++ digest) why, db)

/-- `open_blob` answers from local storage for the digests of the repository
whose file is there. -/
theorem openBlob_local_iff (now : Time) (reply : BlobReply) :
    (openBlob db repo digest now reply).1 = .ok true ↔ opensLocally db repo digest = true := by
  unfold openBlob opensLocally
  rcases blobInRepo db repo digest with _ | _
  · simp
  · rcases db.exists? digest with _ | _
    · rcases repo.isLocal with _ | _
      · cases reply <;> simp [unavailable]
      · simp
    · simp

end Blobs

end Minireg.Docker
