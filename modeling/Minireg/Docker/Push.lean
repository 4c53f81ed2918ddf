import Minireg.Docker.Scanning

/-!
# Pushing images

A push is blob uploads and mounts, then a manifest PUT. `repoForPush` finds or
makes the repository, `finishUpload` and `mountBlob` put a blob into it,
`putCheck` refuses a manifest that names what the repository does not have and
`putManifest` stores the rest. Deletes unlink; the bytes stay until they are
collected. The bytes of an upload come with the request.
-/

namespace Minireg.Docker

open Py Lib

/-- Where an image name leads: the upstream's id, none in the local namespace. -/
structure Target where
  canonical : String
  upstreamId : Option Nat
  deriving DecidableEq, Repr

def Target.isLocal (target : Target) : Bool := target.upstreamId.isNone

structure RegistryIdentity where
  userId : Option Nat
  isAdmin : Bool := false
  deriving DecidableEq, Repr

/-- `TAG_RE.fullmatch(ref)`. -/
def isTag (ref : String) : Bool :=
  let word := fun (c : Char) =>
    ('a' ≤ c && c ≤ 'z') || ('A' ≤ c && c ≤ 'Z') || ('0' ≤ c && c ≤ '9') || c = '_'
  match ref.toList with
  | [] => false
  | c :: rest => word c && rest.length ≤ 127 && rest.all fun c => word c || c = '.' || c = '-'

/-! ## Repositories -/

/-- `get_repo` with `create=False`. -/
def repoNamed (db : Db) (name : String) : Option DockerRepository :=
  db.repositories.rows.find? fun r => r.name = name

def newRepository (target : Target) (db : Db) : DockerRepository :=
  { id := db.nextId, name := target.canonical, upstreamId := target.upstreamId,
    isLocal := target.isLocal }

/-- `get_repo` with `create=True`. -/
def getRepo (target : Target) (db : Db) : Db × DockerRepository :=
  match repoNamed db target.canonical with
  | some repo => (db, repo)
  | none =>
    let repo := newRepository target db
    ({ db with repositories := db.repositories.put repo, nextId := db.nextId + 1 }, repo)

/-- The repository has this owner from now on. -/
def setOwner (repo : DockerRepository) (userId : Option Nat) (db : Db) : Db :=
  { db with repositories := db.repositories.modify (fun r =>
      if r.id = repo.id then { r with ownerUserId := userId } else r) (by
      intro r
      split <;> rfl) }

/-- `repo_for_push`: the first pusher owns the repository. -/
def repoForPush (target : Target) (ident : RegistryIdentity) (db : Db) :
    Except ParseError (Db × DockerRepository) :=
  let (db, repo) := getRepo target db
  match repo.ownerUserId with
  | none => .ok (setOwner repo ident.userId db, { repo with ownerUserId := ident.userId })
  | some owner =>
    if some owner ≠ ident.userId && !ident.isAdmin then
      .error (.registry "DENIED"
        (target.canonical ++ " belongs to another user; only its owner can push to it"))
    else .ok (db, repo)

/-! ## Blobs -/

section Blobs

variable (repo : DockerRepository) (digest : Digest) (now : Time) (db : Db)

/-- `record_local_blob`. A layer of an upstream that is pushed again becomes local. -/
def recordLocalBlob (size : Nat) : Db :=
  match db.blobs.find? digest with
  | none =>
    let row : DockerBlob := { digest := digest, size := size, isLocal := true, createdAt := now }
    { db with blobs := db.blobs.put row }
  | some blob =>
    if blob.isLocal then db else { db with blobs := db.blobs.put { blob with isLocal := true } }

/-- `add_repo_blob`. -/
def addRepoBlob : Db :=
  let row : DockerRepoBlob := { repositoryId := repo.id, digest := digest }
  if row ∈ db.repoBlobs then db else { db with repoBlobs := db.repoBlobs ++ [row] }

/-- `upload_commit`: the file of the digest, and its size. -/
def uploadCommit (env : RegistryEnv) (content : List UInt8) : Except ParseError (Db × Nat) :=
  let actual := env.sha256 content
  if actual ≠ digest then
    .error (.registry "DIGEST_INVALID" ("uploaded content is " ++ actual ++ ", not " ++ digest))
  else .ok (db.putFile digest, content.length)

/-- `finish_upload`. -/
def finishUpload (env : RegistryEnv) (content : List UInt8) : Except ParseError (Db × Nat) :=
  if !isDigest digest then
    .error (.registry "DIGEST_INVALID" ("unsupported digest " ++ env.codec.repr (.str digest)))
  else
    match uploadCommit digest db env content with
    | .error e => .error e
    | .ok (db, size) => .ok (addRepoBlob repo digest (recordLocalBlob digest now db size), size)

/-- `mount_blob`: a pull from `source`, so nothing that could not be fetched
there. `size` is the size of the file. -/
def mountBlob (source : Option DockerRepository) (size : Nat) (policy : ImagePolicy) : Db × Bool :=
  match source with
  | none => (db, false)
  | some source =>
    if !db.exists? digest || source.quarantined || !blobInRepo db source digest then (db, false)
    else
      let verdict := blobPullVerdict db source digest policy
      if !verdict.allowed && verdict.code = .denied then (db, false)
      else (addRepoBlob repo digest (recordLocalBlob digest now db size), true)

variable {repo digest now db}

theorem finishUpload_ok {env : RegistryEnv} {content : List UInt8} {db' : Db} {size : Nat}
    (h : finishUpload repo digest now db env content = .ok (db', size)) :
    env.sha256 content = digest ∧
      db' = addRepoBlob repo digest (recordLocalBlob digest now (db.putFile digest) size) := by
  unfold finishUpload uploadCommit at h
  split at h
  · cases h
  · dsimp only at h
    by_cases hactual : env.sha256 content ≠ digest
    · rw [if_pos hactual] at h
      cases h
    · rw [if_neg hactual] at h
      obtain ⟨rfl, rfl⟩ := Prod.mk.inj (Except.ok.inj h)
      exact ⟨not_not.mp hactual, rfl⟩

/-- A mount is refused, or the source holds the blob and so does the repository now. -/
theorem mountBlob_cases (source : Option DockerRepository) (size : Nat) (policy : ImagePolicy) :
    mountBlob repo digest now db source size policy = (db, false) ∨
      mountBlob repo digest now db source size policy =
          (addRepoBlob repo digest (recordLocalBlob digest now db size), true) ∧
        ∃ s, source = some s ∧ blobInRepo db s digest = true ∧ db.exists? digest = true := by
  unfold mountBlob
  split
  · exact .inl rfl
  · next s =>
    split
    · exact .inl rfl
    · next hheld =>
      simp only [Bool.or_eq_true, Bool.not_eq_true', not_or, Bool.not_eq_false] at hheld
      dsimp only
      split
      · exact .inl rfl
      · exact .inr ⟨rfl, s, rfl, hheld.2, hheld.1.1⟩

end Blobs

/-! ## Manifests -/

section Manifests

variable (env : RegistryEnv) (target : Target) (repo : DockerRepository) (db : Db)

/-- Whether the repository lacks what a manifest names. -/
def lacks (ref : Ref) : Bool :=
  if ref.refType = .manifest then
    !(db.manifestRow ref.digest).any fun child => db.linked repo child
  else !db.exists? ref.digest || !blobInRepo db repo ref.digest

/-- What `put_manifest` refuses before it stores anything. -/
def putCheck (reference : String) (body : List UInt8) (contentType : Option String) :
    Except ParseError Unit :=
  if !isDigest reference && !isTag reference then
    .error (.registry "TAG_INVALID"
      ("invalid tag " ++ env.codec.repr (.str (takeChars 140 reference)) ++
        ": tags match [a-zA-Z0-9_][a-zA-Z0-9._-]\x7b0,127\x7d"))
  else
    match parse env.codec body contentType with
    | .error e => .error e
    | .ok parsed =>
      let missing := parsed.refs.filter fun ref => lacks repo db ref
      if missing ≠ [] then
        .error (.registry "MANIFEST_BLOB_UNKNOWN" ("manifest references " ++
          Nat.repr missing.length ++ " blob(s) not uploaded to " ++ target.canonical))
      else .ok ()

/-- `put_manifest`. Bytes that are already scanned are judged by the push rules at once. -/
def putManifest (reference : String) (body : List UInt8) (contentType : Option String)
    (ident : RegistryIdentity) (policy : ImagePolicy) (now : Time) :
    Except ParseError (Db × DockerManifest) :=
  match putCheck env target repo db reference body contentType with
  | .error e => .error e
  | .ok () =>
    let expected := if isDigest reference then some reference else none
    match storeManifest env body contentType expected none ident.userId now db with
    | .error e => .error e
    | .ok (db, manifest) =>
      let db := db.link repo manifest
      let db := if manifest.scanStatus = .scanned then applyPushPolicy manifest policy db else db
      .ok (if isDigest reference then db else setTag repo reference manifest now db, manifest)

variable {env target repo db}

theorem putManifest_ok {reference : String} {body : List UInt8} {contentType : Option String}
    {ident : RegistryIdentity} {policy : ImagePolicy} {now : Time} {db' : Db} {row : DockerManifest}
    (h : putManifest env target repo db reference body contentType ident policy now =
      .ok (db', row)) :
    putCheck env target repo db reference body contentType = .ok () ∧
      ∃ db₁, storeManifest env body contentType
          (if isDigest reference then some reference else none) none ident.userId now db =
          .ok (db₁, row) ∧
        db' = (fun db₂ => if isDigest reference then db₂ else setTag repo reference row now db₂)
          (if row.scanStatus = .scanned then applyPushPolicy row policy (db₁.link repo row)
            else db₁.link repo row) := by
  unfold putManifest at h
  rcases hcheck : putCheck env target repo db reference body contentType with e | u
  · rw [hcheck] at h
    cases h
  · rw [hcheck] at h
    dsimp only at h
    rcases hstore : storeManifest env body contentType
        (if isDigest reference then some reference else none) none ident.userId now db with
      e | ⟨db₁, m⟩
    · rw [hstore] at h
      cases h
    · rw [hstore] at h
      obtain ⟨rfl, rfl⟩ := Prod.mk.inj (Except.ok.inj h)
      exact ⟨rfl, db₁, rfl, rfl⟩

end Manifests

/-! ## Deletes -/

section Deletes

variable (repo : DockerRepository) (db : Db)

/-- `delete_manifest`. -/
def deleteManifest (digest : Digest) : Except ParseError Db :=
  match db.manifestRow digest with
  | none => .error (.registry "MANIFEST_UNKNOWN" ("manifest " ++ digest ++ " not found"))
  | some manifest =>
    if !db.linked repo manifest then
      .error (.registry "MANIFEST_UNKNOWN" ("manifest " ++ digest ++ " is not in " ++ repo.name))
    else
      .ok { db with
        tags := db.tags.filter fun t => !(t.repositoryId = repo.id && t.manifestId = manifest.id)
        repoManifests := db.repoManifests.filter fun l =>
          !(l.repositoryId = repo.id && l.manifestId = manifest.id) }

/-- `delete_tag`. -/
def deleteTag (tag : String) : Except ParseError Db :=
  let same := fun (t : DockerTag) => t.repositoryId = repo.id && t.tag = tag
  if db.tags.any same then .ok { db with tags := db.tags.filter fun t => !same t }
  else .error (.registry "MANIFEST_UNKNOWN" ("tag " ++ tag ++ " not found"))

/-- `delete_blob`: unlink the blob; its bytes stay. -/
def deleteBlob (digest : Digest) : Except ParseError Db :=
  let row : DockerRepoBlob := { repositoryId := repo.id, digest := digest }
  if row ∈ db.repoBlobs then .ok { db with repoBlobs := db.repoBlobs.filter (· ≠ row) }
  else .error (.registry "BLOB_UNKNOWN" ("blob " ++ digest ++ " is not in " ++ repo.name))

end Deletes

end Minireg.Docker
