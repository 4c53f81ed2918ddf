import Minireg.Api.Pages
import Minireg.Api.Refused

/-!
# Documents and downloads

A document lists versions from their own facts; a request for a file evaluates the version of
whichever row its address matches. The two agree on a file exactly when the rows that the address
matches are versions with the file's own verdict, and there is one if the file is offered.
-/

namespace Minireg

open Py Lib Semver

/-! ## Requests for files -/

section Requests

variable (env : RegistryEnv) (order : RowOrder) (package : Package)

/-- The path of a request for a link under `base`: a fragment is not sent. -/
def pathOf (base url : String) : Option (List Char) :=
  (unquote (String.ofList ((url.toList.drop base.length).takeWhile (· ≠ '#')))).map String.toList

/-- The route of `get_file`. -/
def matchFile (path : List Char) : Option (String × String) :=
  match path.splitOn '/' with
  | [[], files, project, filename] =>
    if files = "files".toList ∧ project ≠ [] ∧ filename ≠ [] then
      some (String.ofList project, String.ofList filename)
    else none
  | _ => none

def sidecarEnding : String := ".metadata"

/-- The name of the file that a request for `filename` is about. -/
def sidecarStem (filename : String) : String :=
  if PypiPublish.endsWith filename sidecarEnding then
    String.ofList (filename.toList.take (filename.length - sidecarEnding.length))
  else filename

/-- `get_file`, with `_get_core_metadata`. -/
def getFile (project filename : String) : Except ValueError FileAnswer :=
  let normalized := normalizePypiName env.caseMap project
  let send := if PypiPublish.endsWith filename sidecarEnding then FileAnswer.sidecar
    else FileAnswer.file
  answerFile env .pypi package.normalizedName send
    (locateFileRow order package .pypi normalized (some (sidecarStem filename)) none)

/-- `is_valid_cargo_name`. -/
def isValidCargoName (name : String) : Bool :=
  match (strip name).toList with
  | [] => false
  | c :: rest =>
    c.isAlpha && rest.length ≤ 63 && rest.all fun d => d.isAlphanum || d == '_' || d == '-'

/-- What cargo makes of `dl` in the configuration of the index, for an index entry. -/
def crateUrl (base name version : String) : String :=
  base ++ "/api/v1/crates/" ++ name ++ "/" ++ version ++ "/download"

/-- The route of `download`. -/
def matchCrate (path : List Char) : Option (String × String) :=
  match path.splitOn '/' with
  | [[], api, v1, crates, name, version, download] =>
    if api = "api".toList ∧ v1 = "v1".toList ∧ crates = "crates".toList ∧
        download = "download".toList ∧ name ≠ [] ∧ version ≠ [] then
      some (String.ofList name, String.ofList version)
    else none
  | _ => none

/-- `download`, of `cargo.py`. -/
def download (name version : String) : Except ValueError FileAnswer :=
  if isValidCargoName name then
    answerFile env .cargo package.normalizedName .file
      (locateFileRow order package .cargo (normalizeCargoName env.caseMap name) none (some version))
  else .ok .notFound

end Requests

/-- A request passes the policy check. -/
def Passes (answer : Except ValueError FileAnswer) : Prop :=
  ∃ r, answer = .ok (.file r) ∨ answer = .ok (.sidecar r)

/-! ## The rows that an address matches -/

section Matches

variable (env : RegistryEnv) (package : Package)

def npmMatches (v : PackageVersion) (f : PackageFile) : List (PackageVersion × PackageFile) :=
  let name := addressedName package.name v.version (some f.filename)
  if '/' ∈ name.toList ∨ '\n' ∈ package.name.toList then []
  else (fileRows package).filter fun r => r.2.filename = name

def pypiMatches (f : PackageFile) : List (PackageVersion × PackageFile) :=
  if package.normalizedName = "" ∨ '/' ∈ package.normalizedName.toList ∨ f.filename = "" ∨
      '/' ∈ f.filename.toList then []
  else (fileRows package).filter fun r => r.2.filename = sidecarStem f.filename

/-- Of a version that the index lists under some name. -/
def cargoMatches (base name : String) (v : PackageVersion) : List (PackageVersion × PackageFile) :=
  match (pathOf base (crateUrl base name v.version)).bind matchCrate with
  | some (asked, version) =>
    if isValidCargoName asked ∧ normalizeCargoName env.caseMap asked = package.normalizedName then
      (fileRows package).filter fun r => r.1.version = version
    else []
  | none => []

end Matches

/-- The rows under an address are versions with one verdict, and there is one if it lets the
version through. -/
structure Unambiguous (lets : PackageVersion → Prop) (found : List (PackageVersion × PackageFile))
    (v : PackageVersion) : Prop where
  held : lets v → found ≠ []
  same : ∀ r ∈ found, (lets v ↔ lets r.1)

/-- **Whichever row is handed out, its verdict is the version's.** -/
theorem unambiguous_iff {lets : PackageVersion → Prop}
    {found : List (PackageVersion × PackageFile)} {v : PackageVersion} :
    (∀ picker : Picker (PackageVersion × PackageFile),
      (lets v ↔ ∃ r, picker.first found = some r ∧ lets r.1)) ↔ Unambiguous lets found v := by
  refine (Picker.forall_first_iff 
    (P := fun o : Option (PackageVersion × PackageFile) =>
      lets v ↔ ∃ r, o = some r ∧ lets r.1)).trans ?_
  constructor
  · rintro ⟨hnone, hsome⟩
    refine ⟨fun hv hempty => ?_, fun r hr => ?_⟩
    · obtain ⟨r, hr, -⟩ := (hnone hempty).mp hv
      cases hr
    · exact (hsome r hr).trans ⟨fun ⟨s, hs, hlets⟩ => Option.some.inj hs ▸ hlets,
        fun hlets => ⟨r, rfl, hlets⟩⟩
  · intro h
    refine ⟨fun hempty => ⟨fun hv => absurd hempty (h.held hv), ?_⟩, ?_⟩
    · rintro ⟨r, hr, -⟩
      cases hr
    intro r hr
    exact (h.same r hr).trans ⟨fun hlets => ⟨r, rfl, hlets⟩,
      fun ⟨s, hs, hlets⟩ => Option.some.inj hs ▸ hlets⟩

section Located

variable {env : RegistryEnv} {order : RowOrder} {package : Package} {base : String}

theorem exists_some_and {α : Type} {a : α} {P : α → Prop} :
    (∃ r, some a = some r ∧ P r) ↔ P a := by
  constructor
  · rintro ⟨r, hr, h⟩
    exact Option.some.inj hr ▸ h
  · exact fun h => ⟨a, rfl, h⟩

theorem not_exists_none {α : Type} {P : α → Prop} : ¬ ∃ r, (none : Option α) = some r ∧ P r := by
  rintro ⟨r, hr, -⟩
  cases hr

theorem not_passes_notFound : ¬ Passes (.ok .notFound) := by
  rintro ⟨r, hr | hr⟩ <;> cases hr

theorem passes_answerFile {ecosystem : Ecosystem} (h : Catalogued env ecosystem package)
    {send : PackageVersion × PackageFile → FileAnswer}
    (hsend : send = .file ∨ send = .sidecar) {located : Option (PackageVersion × PackageFile)}
    (hlocated : ∀ r, located = some r → r.1 ∈ package.versions) :
    Passes (answerFile env ecosystem package.normalizedName send located) ↔
      ∃ r, located = some r ∧ Lets env ecosystem package r.1 := by
  rcases located with _ | r
  · exact iff_of_false not_passes_notFound not_exists_none
  · obtain ⟨verdict, hverdict, hallowed⟩ := h.verdict (hlocated r rfl)
    have hanswer : answerFile env ecosystem package.normalizedName send (some r) =
        .ok (if verdict.allowed then send r else .forbidden verdict.reason) := by
      unfold answerFile
      dsimp only
      rw [hverdict]
      rfl
    rw [hanswer]
    constructor
    · rintro ⟨s, hs⟩
      refine ⟨r, rfl, hallowed.mp ?_⟩
      by_contra hdenied
      rw [if_neg hdenied] at hs
      rcases hs with hs | hs <;> cases hs
    · rintro ⟨s, hs, hlets⟩
      obtain rfl := Option.some.inj hs
      rw [if_pos (hallowed.mpr hlets)]
      rcases hsend with rfl | rfl
      · exact ⟨r, .inl rfl⟩
      · exact ⟨r, .inr rfl⟩

/-- The query for the rows of one filename, where the key is the package's. -/
theorem locateFileRow_filename {ecosystem : Ecosystem} (h : package.ecosystem = ecosystem)
    (filename : String) :
    locateFileRow order package ecosystem package.normalizedName (some filename) none =
      order.row.first ((fileRows package).filter fun r => r.2.filename = filename) := by
  unfold locateFileRow
  rw [if_pos ⟨h, rfl⟩]
  refine congrArg _ (List.filter_congr fun r _ => ?_)
  simp

theorem rowAt_npm (h : Catalogued env .npm package) (hplain : Plain package.name.toList)
    {v : PackageVersion} {f : PackageFile} (hf : renderedFile order v = some f) :
    rowAt base order package (distTarball base order package v) =
      order.row.first (npmMatches package v f) := by
  have hkey : package.normalizedName = normalizeNpmName package.name := h.key
  have haddressed : addressedName package.name v.version
      ((renderedFile order v).map PackageFile.filename) =
        addressedName package.name v.version (some f.filename) := by
    rw [hf]
    rfl
  unfold npmMatches
  dsimp only
  split
  · rename_i hbad
    rw [Picker.first_nil]
    rcases hrow : rowAt base order package (distTarball base order package v) with _ | r
    · rfl
    · obtain ⟨hname, hslash, hline, -⟩ := rowAt_spec hkey hrow
      rw [hname, haddressed] at hslash
      exact (hbad.elim hslash hline).elim
  · rename_i hgood
    rw [not_or] at hgood
    have hrequest : requestOf base (distTarball base order package v) =
        some (package.name, addressedName package.name v.version (some f.filename)) := by
      unfold distTarball
      rw [hf]
      exact requestOf_tarballUrl.mpr ⟨rfl, addressedName_ne _ _ _, hgood.1, hgood.2⟩
    unfold rowAt
    rw [hrequest, Option.bind_some]
    unfold tarballRow
    dsimp only
    rw [npmPathToName_of_plain hplain, ← hkey, locateFileRow_filename h.inEcosystem]

theorem pathOf_fileHref (asJson : Bool) (f : PackageFile) :
    pathOf base (fileHref env package base asJson f) =
      some ("/files/".toList ++ (normalizePypiName env.caseMap package.name).toList ++
        '/' :: f.filename.toList) := by
  generalize hproject : normalizePypiName env.caseMap package.name = project
  let path := "/files/".toList ++ project.toList.flatMap quoteChar ++
    '/' :: f.filename.toList.flatMap quoteChar
  have hpath : (fileUrl env base package.name f.filename).toList = base.toList ++ path := by
    unfold fileUrl quote
    rw [hproject]
    simp [path]
  have hfragment : '#' ∉ path := by
    have hquoted : ∀ s : List Char, '#' ∉ s.flatMap quoteChar := by
      intro s hs
      obtain ⟨c, -, hc⟩ := List.mem_flatMap.mp hs
      rcases mem_quoteChar hc with h | h
      · exact absurd h (by decide)
      · exact absurd h (by decide)
    unfold path
    rw [List.mem_append, List.mem_append, List.mem_cons, not_or, not_or, not_or]
    exact ⟨⟨by decide, hquoted _⟩, by decide, hquoted _⟩
  have hsent : ((fileHref env package base asJson f).toList.drop base.length).takeWhile (· ≠ '#') =
      path := by
    have hhref : ∃ rest : List Char, (fileHref env package base asJson f).toList =
        base.toList ++ (path ++ rest) ∧ (rest = [] ∨ ∃ t, rest = '#' :: t) := by
      unfold fileHref
      dsimp only
      split
      · exact ⟨[], by rw [hpath, List.append_nil], .inl rfl⟩
      · split
        · exact ⟨[], by rw [hpath, List.append_nil], .inl rfl⟩
        · refine ⟨"#sha256=".toList ++ (f.sha256.getD "").toList, ?_, .inr ⟨_, rfl⟩⟩
          rw [String.toList_append, String.toList_append, hpath]
          simp only [List.append_assoc]
    obtain ⟨rest, hrest, hend⟩ := hhref
    have hkeep : ∀ c ∈ path, decide (c ≠ '#') = true :=
      fun c hc => decide_eq_true fun h : c = '#' => hfragment (h ▸ hc)
    rw [hrest, ← String.length_toList, List.drop_left, List.takeWhile_append_of_pos hkeep]
    rcases hend with rfl | ⟨t, rfl⟩
    · exact List.append_nil _
    · rw [List.takeWhile_cons_of_neg (by decide), List.append_nil]
  have hbytes : unquoteBytes path = ("/files/".toList ++ project.toList ++
      '/' :: f.filename.toList).flatMap String.utf8EncodeChar := by
    have hdir : "/files/".toList = "/files/".toList.flatMap quotePathChar := by decide
    have hfile := unquoteBytes_quoteChars f.filename.toList []
    rw [List.append_nil] at hfile
    unfold path
    rw [List.append_assoc, hdir, unquoteBytes_quotePathChars, unquoteBytes_quoteChars,
      unquoteBytes_cons (by decide), hfile, List.append_assoc, List.flatMap_append,
      List.flatMap_append, List.flatMap_cons, ← hdir]
    have hslash : String.utf8EncodeChar '/' = [UInt8.ofNat '/'.toNat] := by decide
    rw [hslash]
    simp [unquoteBytes]
  unfold pathOf
  rw [hsent, unquote_of_bytes hbytes, Option.map_some, String.toList_ofList]

theorem two_le_length_splitOn {s : List Char} (h : '/' ∈ s) : 2 ≤ (s.splitOn '/').length := by
  obtain ⟨a, b, rfl⟩ := List.append_of_mem h
  rw [List.splitOn_append_cons_self, List.length_append]
  have ha := List.length_pos_iff.mpr (List.splitOn_ne_nil '/' a)
  have hb := List.length_pos_iff.mpr (List.splitOn_ne_nil '/' b)
  omega

theorem matchFile_path (project filename : String) :
    matchFile ("/files/".toList ++ project.toList ++ '/' :: filename.toList) =
      if project = "" ∨ '/' ∈ project.toList ∨ filename = "" ∨ '/' ∈ filename.toList then none
      else some (project, filename) := by
  have hdir : "/files/".toList = '/' :: ("files".toList ++ '/' :: []) := by decide
  have hsplit : ("/files/".toList ++ project.toList ++ '/' :: filename.toList).splitOn '/' =
      [] :: "files".toList :: (project.toList.splitOn '/' ++ filename.toList.splitOn '/') := by
    rw [List.splitOn_append_cons_self, hdir, List.cons_append, List.append_assoc,
      List.cons_append, List.nil_append]
    have hfirst := List.splitOn_append_cons_self (a := '/') []
      ("files".toList ++ '/' :: project.toList)
    rw [List.nil_append] at hfirst
    rw [hfirst, List.splitOn_append_cons_self, List.splitOn_eq_singleton (by decide)]
    rfl
  unfold matchFile
  rw [hsplit]
  have hproject := List.length_pos_iff.mpr (List.splitOn_ne_nil '/' project.toList)
  have hfilename := List.length_pos_iff.mpr (List.splitOn_ne_nil '/' filename.toList)
  by_cases hslash : '/' ∈ project.toList ∨ '/' ∈ filename.toList
  · have hlong : 3 ≤ (project.toList.splitOn '/' ++ filename.toList.splitOn '/').length := by
      rw [List.length_append]
      rcases hslash with h | h
      · have := two_le_length_splitOn h
        omega
      · have := two_le_length_splitOn h
        omega
    generalize project.toList.splitOn '/' ++ filename.toList.splitOn '/' = parts at hlong
    obtain ⟨a, b, c, rest, rfl⟩ : ∃ a b c rest, parts = a :: b :: c :: rest := by
      match parts, hlong with
      | a :: b :: c :: rest, _ => exact ⟨a, b, c, rest, rfl⟩
    rw [if_pos (by tauto)]
  · rw [not_or] at hslash
    rw [List.splitOn_eq_singleton hslash.1, List.splitOn_eq_singleton hslash.2]
    have hempty : ∀ s : String, s.toList = [] ↔ s = "" := fun s => String.toList_eq_nil_iff
    simp only [List.cons_append, List.nil_append, true_and, ne_eq, hempty, hslash.1, hslash.2,
      false_or, or_false, String.ofList_toList]
    by_cases hp : project = "" <;> by_cases hf : filename = "" <;> simp [hp, hf]

/-- What a request for a tarball finds. -/
theorem tarball_located (h : Catalogued env .npm package) {url : String} :
    (∃ r, requestOf base url = some r ∧ Passes (getTarball env order package r.1 r.2)) ↔
      ∃ r, rowAt base order package url = some r ∧ Lets env .npm package r.1 := by
  unfold rowAt
  rcases requestOf base url with _ | ⟨name, filename⟩
  · exact iff_of_false not_exists_none not_exists_none
  rw [exists_some_and, Option.bind_some]
  unfold getTarball
  rcases hrow : tarballRow order package name filename with _ | row
  · exact iff_of_false not_passes_notFound not_exists_none
  · obtain ⟨⟨-, hkey⟩, hv, -⟩ := locateFileRow_some hrow
    rw [← hkey]
    exact passes_answerFile h (.inl rfl) fun r hr => Option.some.inj hr ▸ hv

theorem locateFileRow_mem {ecosystem : Ecosystem} {normalizedName : String}
    {filename version : Option String} :
    ∀ r, locateFileRow order package ecosystem normalizedName filename version = some r →
      r.1 ∈ package.versions :=
  fun _ hr => (locateFileRow_some hr).2.1

/-- What a request for the link to a file finds. -/
theorem file_located (h : Catalogued env .pypi package) (asJson : Bool) (f : PackageFile) :
    (∃ r, (pathOf base (fileHref env package base asJson f)).bind matchFile = some r ∧
        Passes (getFile env order package r.1 r.2)) ↔
      ∃ r, order.row.first (pypiMatches package f) = some r ∧ Lets env .pypi package r.1 := by
  have hkey : normalizePypiName env.caseMap package.name = package.normalizedName := h.key.symm
  have hfixed : normalizePypiName env.caseMap package.normalizedName = package.normalizedName :=
    h.fixed
  rw [pathOf_fileHref, Option.bind_some, matchFile_path, hkey]
  unfold pypiMatches
  split
  · rw [Picker.first_nil]
    exact iff_of_false not_exists_none not_exists_none
  · rw [exists_some_and]
    unfold getFile
    dsimp only
    rw [passes_answerFile h (by split; exacts [.inr rfl, .inl rfl]) locateFileRow_mem, hfixed,
      locateFileRow_filename h.inEcosystem]

/-- What a request for a crate finds. -/
theorem crate_located (h : Catalogued env .cargo package) {name : String} {v : PackageVersion} :
    (∃ r, (pathOf base (crateUrl base name v.version)).bind matchCrate = some r ∧
        Passes (download env order package r.1 r.2)) ↔
      ∃ r, order.row.first (cargoMatches env package base name v) = some r ∧
        Lets env .cargo package r.1 := by
  unfold cargoMatches
  rcases (pathOf base (crateUrl base name v.version)).bind matchCrate with _ | ⟨asked, version⟩
  · rw [Picker.first_nil]
    exact iff_of_false not_exists_none not_exists_none
  dsimp only
  rw [exists_some_and]
  unfold download
  by_cases hvalid : isValidCargoName asked = true
  · rw [if_pos hvalid, passes_answerFile h (.inl rfl) locateFileRow_mem]
    unfold locateFileRow
    by_cases hkey : normalizeCargoName env.caseMap asked = package.normalizedName
    · rw [if_pos ⟨h.inEcosystem, hkey.symm⟩, if_pos ⟨hvalid, hkey⟩]
      simp
    · rw [if_neg fun hcond => hkey hcond.2.symm, if_neg fun hcond => hkey hcond.2,
        Picker.first_nil]
  · rw [if_neg hvalid, if_neg fun hcond => hvalid hcond.1, Picker.first_nil]
    exact iff_of_false not_passes_notFound not_exists_none

end Located

/-! ## Agreement -/

section Agreement

variable (env : RegistryEnv) (base : String) (package : Package)

/-- The packuments offer a version's file exactly when a request for its tarball passes. -/
def NpmAgrees : Prop :=
  ∀ order abbreviated, ∀ v ∈ package.versions, ∀ f, renderedFile order v = some f →
    (OffersTarball env order package base abbreviated v ↔
      ∃ r, requestOf base (distTarball base order package v) = some r ∧
        Passes (getTarball env order package r.1 r.2))

/-- The simple pages offer a file exactly when a request for its link passes. -/
def PypiAgrees : Prop :=
  ∀ order asJson, ∀ v ∈ package.versions, ∀ f ∈ v.files,
    (OffersFile env package base asJson v f ↔
      ∃ r, (pathOf base (fileHref env package base asJson f)).bind matchFile = some r ∧
        Passes (getFile env order package r.1 r.2))

/-- The index lists a crate without the mark of the policy exactly when a download of it under
the name of its line passes. -/
def CargoAgrees : Prop :=
  ∀ order, ∀ v ∈ package.versions, v.files.rows ≠ [] → ∀ name, entryName package v = .str name →
    (OffersCrate env order package v ↔
      ∃ r, (pathOf base (crateUrl base name v.version)).bind matchCrate = some r ∧
        Passes (download env order package r.1 r.2))

end Agreement

theorem npmAgrees_iff {env : RegistryEnv} {base : String} {package : Package}
    (h : Catalogued env .npm package) (hplain : Plain package.name.toList) :
    NpmAgrees env base package ↔ ∀ v ∈ package.versions, ∀ f ∈ v.files,
      Unambiguous (Lets env .npm package) (npmMatches package v f) v := by
  constructor
  · intro hagrees v hv f hf
    refine unambiguous_iff.mp fun picker => ?_
    obtain ⟨chosen, hchosen⟩ := Picker.exists_first hf
    let order : RowOrder := { file := chosen, row := picker }
    have hrendered : renderedFile order v = some f := hchosen
    have hiff := hagrees order true v hv f hrendered
    rwa [offersTarball_iff h hv, tarball_located h, rowAt_npm h hplain hrendered] at hiff
  · intro hall order abbreviated v hv f hf
    rw [offersTarball_iff h hv, tarball_located h, rowAt_npm h hplain hf]
    exact unambiguous_iff.mpr (hall v hv f (order.file.mem hf)) order.row

theorem pypiAgrees_iff {env : RegistryEnv} {base : String} {package : Package}
    (h : Catalogued env .pypi package) :
    PypiAgrees env base package ↔ ∀ v ∈ package.versions, ∀ f ∈ v.files,
      Unambiguous (Lets env .pypi package) (pypiMatches package f) v := by
  constructor
  · intro hagrees v hv f hf
    refine unambiguous_iff.mp fun picker => ?_
    have hiff := hagrees { file := .seeking fun _ => false, row := picker } true v hv f hf
    rwa [offersFile_iff h hv hf, file_located h] at hiff
  · intro hall order asJson v hv f hf
    rw [offersFile_iff h hv hf, file_located h]
    exact unambiguous_iff.mpr (hall v hv f hf) order.row

theorem cargoAgrees_iff {env : RegistryEnv} {base : String} {package : Package}
    (h : Catalogued env .cargo package) :
    CargoAgrees env base package ↔ ∀ v ∈ package.versions, v.files.rows ≠ [] →
      ∀ name, entryName package v = .str name →
        Unambiguous (Lets env .cargo package) (cargoMatches env package base name v) v := by
  constructor
  · intro hagrees v hv hne name hname
    refine unambiguous_iff.mp fun picker => ?_
    have hiff := hagrees { file := .seeking fun _ => false, row := picker } v hv hne name hname
    rwa [offersCrate_iff h hv, crate_located h] at hiff
  · intro hall order v hv hne name hname
    rw [offersCrate_iff h hv, crate_located h]
    exact unambiguous_iff.mpr (hall v hv hne name hname) order.row

/-- **Documents and downloads agree where addresses are unambiguous.** Rules, allowlist and CVE
policy are those of any engine. -/
theorem documents_agree (env : RegistryEnv) (base : String) (package : Package) :
    (∀ path name asked, splitPackagePath path = some (name, asked) →
      package.normalizedName = normalizeNpmName name → Catalogued env .npm package →
      (NpmAgrees env base package ↔ ∀ v ∈ package.versions, ∀ f ∈ v.files,
        Unambiguous (Lets env .npm package) (npmMatches package v f) v)) ∧
    (Catalogued env .pypi package →
      (PypiAgrees env base package ↔ ∀ v ∈ package.versions, ∀ f ∈ v.files,
        Unambiguous (Lets env .pypi package) (pypiMatches package f) v)) ∧
    (Catalogued env .cargo package →
      (CargoAgrees env base package ↔ ∀ v ∈ package.versions, v.files.rows ≠ [] →
        ∀ name, entryName package v = .str name →
          Unambiguous (Lets env .cargo package) (cargoMatches env package base name v) v)) := by
  refine ⟨fun path name asked hpage hname h => npmAgrees_iff h ?_, pypiAgrees_iff, cargoAgrees_iff⟩
  have hstrip : strip package.name = strip name := h.key.symm.trans hname
  refine Plain.of_strip ?_
  rw [hstrip]
  exact (splitPackagePath_plain hpage).of_piece (strip_piece name)

/-! ## A blocked release that lends its name -/

def blockOldLeftPad : PackageRule :=
  { id := 1, pattern := "left-pad", action := .block, versionSpec := some "<2.0.0" }

/-- The registry with the releases of `left-pad` before 2.0.0 blocked. -/
def leftPadEnv : RegistryEnv := { demoEnv with engine := { rules := [blockOldLeftPad] } }

/-- What the packument of a package lists. -/
def listedVersions (page : Except ValueError (Page (PackageVersion × List (String × Json)))) :
    List (String × Json) :=
  match page with
  | .ok (.document entries) => entries.map fun e => (e.1.version, tarballIn e.2)
  | _ => []

/-- Why a request for a URL of the package is refused. -/
def refusal (package : Package) (url : String) : Option (Option String) :=
  (requestOf "http://localhost/npm" url).bind fun r =>
    match getTarball leftPadEnv storedOrder package r.1 r.2 with
    | .ok (.forbidden reason) => some reason
    | _ => none

/-- The packument offers 2.0.0, and a request for the address it gives is refused: the row of that
name that is found is the blocked one. -/
theorem perDirectory_refused :
    (shelve perDirectory).toOption.map (fun p =>
      (listedVersions (packument leftPadEnv storedOrder p "http://localhost/npm" true),
        refusal p "http://localhost/npm/left-pad/-/package.tgz")) =
      some ([("2.0.0", .str "http://localhost/npm/left-pad/-/package.tgz")],
        some (some "blocked by rule 'left-pad'")) := by
  decide +kernel

def leftPadVersion (version filename : String) : PackageVersion :=
  { version := version
    normalizedVersion := version
    files := ⟨[{ filename := filename }], List.nodup_singleton _⟩ }

/-- Two releases with files named after them. -/
def leftPadPackage : Package where
  ecosystem := .npm
  name := "left-pad"
  normalizedName := "left-pad"
  versions := ⟨[leftPadVersion "1.0.0" "left-pad-1.0.0.tgz",
    leftPadVersion "2.0.0" "left-pad-2.0.0.tgz"], by decide⟩

theorem leftPad_versions {v : PackageVersion} (hv : v ∈ leftPadPackage.versions) :
    v = leftPadVersion "1.0.0" "left-pad-1.0.0.tgz" ∨
      v = leftPadVersion "2.0.0" "left-pad-2.0.0.tgz" := by
  rcases List.mem_cons.mp hv with h | hv
  · exact .inl h
  · exact .inr (List.mem_singleton.mp hv)

theorem leftPad_agrees : NpmAgrees leftPadEnv "http://localhost/npm" leftPadPackage := by
  have hcatalogued : Catalogued leftPadEnv .npm leftPadPackage :=
    { inEcosystem := rfl
      key := by decide +kernel
      fixed := by decide +kernel
      versions := by
        intro v hv
        rcases leftPad_versions hv with rfl | rfl <;> rfl
      fits := by
        intro v hv
        have hspec : ∀ r ∈ leftPadEnv.engine.rules, (r.versionSpec.getD "").length ≤ 255 := by
          intro r hr
          rw [List.mem_singleton.mp hr]
          decide
        rcases leftPad_versions hv with rfl | rfl
        · exact ⟨hspec, by decide⟩
        · exact ⟨hspec, by decide⟩ }
  have hpage : splitPackagePath "left-pad" = some ("left-pad", none) := by decide +kernel
  refine ((documents_agree leftPadEnv "http://localhost/npm" leftPadPackage).1 _ _ _ hpage
    (by decide +kernel) hcatalogued).mpr fun v hv f hf => ?_
  rcases leftPad_versions hv with rfl | rfl
  · obtain rfl := List.mem_singleton.mp hf
    have hmatch : npmMatches leftPadPackage (leftPadVersion "1.0.0" "left-pad-1.0.0.tgz")
        { filename := "left-pad-1.0.0.tgz" } = [(leftPadVersion "1.0.0" "left-pad-1.0.0.tgz",
          { filename := "left-pad-1.0.0.tgz" })] := by decide +kernel
    rw [hmatch]
    exact ⟨fun _ => List.cons_ne_nil _ _, fun r hr => by rw [List.mem_singleton.mp hr]⟩
  · obtain rfl := List.mem_singleton.mp hf
    have hmatch : npmMatches leftPadPackage (leftPadVersion "2.0.0" "left-pad-2.0.0.tgz")
        { filename := "left-pad-2.0.0.tgz" } = [(leftPadVersion "2.0.0" "left-pad-2.0.0.tgz",
          { filename := "left-pad-2.0.0.tgz" })] := by decide +kernel
    rw [hmatch]
    exact ⟨fun _ => List.cons_ne_nil _ _, fun r hr => by rw [List.mem_singleton.mp hr]⟩

end Minireg
