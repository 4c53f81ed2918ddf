import Minireg.Api.Addresses
import Minireg.Services.PypiPublish

/-!
# Package documents under the policy

The documents that list a package's versions: the packument, the simple page and the sparse index.
Each is refused when the name as a whole is blocked, and leaves out the versions the policy does
not let through; the index, which has no other way to say it, lists them as yanked. What a
document offers are the versions that the policy lets through, no matter what the rules are.
-/

namespace Minireg

open Py Lib Semver

/-! ## Documents -/

inductive Page (α : Type) where
  | notFound
  | forbidden (reason : Option String)
  | document (entries : List α)

section Documents

variable (env : RegistryEnv) (order : RowOrder) (package : Package)

/-- `ABBREVIATED_VERSION_KEYS`. -/
def abbreviatedVersionKeys : List String :=
  ["name", "version", "deprecated", "dependencies", "acceptDependencies", "optionalDependencies",
    "devDependencies", "bundleDependencies", "peerDependencies", "peerDependenciesMeta", "bin",
    "directories", "dist", "engines", "_hasShrinkwrap", "hasInstallScript", "funding", "cpu", "os"]

/-- `render_version`. -/
def renderVersion (base : String) (abbreviated : Bool) (v : PackageVersion) :
    List (String × Json) :=
  let fields := Dict.setdefault v.metadataJson "name" (.str package.name)
  let fields := Dict.set fields "version" (.str v.version)
  let dist := distFor base package v (order.file.first v.files.rows)
  let fields := Dict.set fields "dist" (.obj dist)
  let fields := if v.deprecated.getD "" = "" then fields
    else Dict.set fields "deprecated" (.str (v.deprecated.getD ""))
  if abbreviated then fields.filter fun e => e.1 ∈ abbreviatedVersionKeys
  else Dict.setdefault fields "_id" (.str (package.name ++ "@" ++ v.version))

/-- `_packument_response`, as far as the `versions` of the document. -/
def packument (base : String) (abbreviated : Bool) :
    Except ValueError (Page (PackageVersion × List (String × Json))) := do
  let name ← isNameBlocked env.policy env.engine .npm package.normalizedName
  if !name.allowed then return .forbidden name.reason
  else if package.versions.rows = [] then return .notFound
  else
    let blocked ← blockedVersions env .npm package.normalizedName package
    let shown := package.versions.rows.filter fun v => v.version ∉ blocked
    if blocked ≠ [] && shown = [] then
      return .forbidden (some "all versions of this package are blocked by policy")
    else
      return .document (shown.map fun v => (v, renderVersion order package base abbreviated v))

/-- One file of a simple page. -/
structure SimpleFile where
  version : PackageVersion
  file : PackageFile
  href : String

/-- `file_url`. -/
def fileUrl (base projectName filename : String) : String :=
  base ++ "/files/" ++ quote (normalizePypiName env.caseMap projectName) ++ "/" ++ quote filename

/-- The link to a file: on an HTML page with its digest. -/
def fileHref (base : String) (asJson : Bool) (f : PackageFile) : String :=
  let url := fileUrl env base package.name f.filename
  if asJson then url
  else if f.sha256.getD "" = "" then url else url ++ "#sha256=" ++ f.sha256.getD ""

/-- The files of a version on a simple page. -/
def simpleFiles (base : String) (asJson : Bool) (v : PackageVersion) : List SimpleFile :=
  v.files.rows.map fun f => { version := v, file := f, href := fileHref env package base asJson f }

/-- `simple_project`, as far as the files that `render_project_json` and `render_project_html`
list. -/
def simpleProject (base : String) (asJson : Bool) : Except ValueError (Page SimpleFile) := do
  let name ← isNameBlocked env.policy env.engine .pypi package.normalizedName
  if !name.allowed then return .forbidden name.reason
  else
    let excluded ← blockedVersions env .pypi package.normalizedName package
    if excluded ≠ [] && excluded.dedup.length = package.versions.rows.length then
      return .forbidden (some "all versions of this project are blocked by policy")
    else
      return .document ((package.versions.rows.filter fun v => v.version ∉ excluded).flatMap
        (simpleFiles env package base asJson))

/-- One line of a crate's index; `blocked` is the mark of the policy. -/
structure IndexLine where
  version : PackageVersion
  blocked : Bool
  entry : List (String × Json)

/-- `entry.get("name") or package.name`. -/
def entryName (v : PackageVersion) : Json :=
  if (Json.get v.metadataJson "name").truthy then Json.get v.metadataJson "name"
  else .str package.name

/-- `render_index_entry`. -/
def renderIndexEntry (v : PackageVersion) (blocked : Bool) : List (String × Json) :=
  let cksum := ((order.file.first v.files.rows).bind PackageFile.sha256).getD ""
  let entry := Dict.set v.metadataJson "name" (entryName package v)
  let entry := Dict.set entry "vers" (.str v.version)
  let entry := if cksum = "" then entry else Dict.set entry "cksum" (.str cksum)
  let entry := Dict.setdefault entry "cksum" (.str "")
  let entry := Dict.setdefault entry "deps" (.arr [])
  let entry := Dict.setdefault entry "features" (.obj [])
  Dict.set entry "yanked" (.bool (v.yanked || blocked))

/-- The line of a version, where these versions are blocked. -/
def indexLine (blocked : List String) (v : PackageVersion) : IndexLine where
  version := v
  blocked := v.version ∈ blocked
  entry := renderIndexEntry order package v (v.version ∈ blocked)

/-- `index_file`. The lines are served oldest first. -/
def indexFile : Except ValueError (Page IndexLine) := do
  let name ← isNameBlocked env.policy env.engine .cargo package.normalizedName
  if !name.allowed then return .forbidden name.reason
  else
    let blocked ← blockedVersions env .cargo package.normalizedName package
    return .document (package.versions.rows.map (indexLine order package blocked))

end Documents

/-! ## The name and its versions -/

section Verdicts

variable {env : RegistryEnv} {ecosystem : Ecosystem} {package : Package}

/-- The policy lets a version of a package through. -/
def Lets (env : RegistryEnv) (ecosystem : Ecosystem) (package : Package) (v : PackageVersion) :
    Prop :=
  Admits env.policy env.engine (storedSubject ecosystem package.normalizedName v)

/-- What the code keeps of a stored package: its key, and its versions' keys and widths. -/
structure Catalogued (env : RegistryEnv) (ecosystem : Ecosystem) (package : Package) : Prop where
  inEcosystem : package.ecosystem = ecosystem
  key : package.normalizedName = env.normalizedFor ecosystem package.name
  fixed : env.normalizedFor ecosystem package.normalizedName = package.normalizedName
  versions : ∀ v ∈ package.versions,
    v.normalizedVersion = normalizedVersion env.naming ecosystem v.version
  fits : ∀ v ∈ package.versions,
    FitsColumns env.engine (storedSubject ecosystem package.normalizedName v)

/-- The subject of a check on the name alone. -/
def nameSubject (ecosystem : Ecosystem) (normalizedName : String) : Subject :=
  { ecosystem := ecosystem, normalizedName := normalizedName, nameLevel := true }

theorem matchesVersion_none {spec : Option String} {version : Option String}
    (h : matchesVersion env.policy ecosystem spec none = .ok true) :
    matchesVersion env.policy ecosystem spec version = .ok true := by
  unfold matchesVersion at h ⊢
  split at h
  · rename_i hempty
    rw [if_pos hempty]
  · cases h

/-- **A version is let through only where the name is.** -/
theorem Lets.name {v : PackageVersion} (h : Lets env ecosystem package v) :
    Admits env.policy env.engine (nameSubject ecosystem package.normalizedName) := by
  refine ⟨?_, fun hmode => ?_, rfl⟩
  · rintro ⟨r, hr, hblocks⟩
    refine h.notBlocked ⟨r, hr, ?_⟩
    unfold blocksSubject at hblocks ⊢
    split at hblocks
    · rename_i hcovers
      exact (if_pos hcovers).trans (matchesVersion_none hblocks)
    · cases hblocks
  · obtain ⟨r, hr, hallows⟩ := h.listed hmode
    refine ⟨r, hr, ?_⟩
    unfold allowsSubject at hallows ⊢
    split at hallows
    · rename_i hcovers
      exact if_pos hcovers
    · cases hallows

theorem filterM_ok {α ε : Type} {f : α → Except ε Bool} {g : α → Bool} {l : List α}
    (h : ∀ a ∈ l, f a = .ok (g a)) : l.filterM f = .ok (l.filter g) := by
  have haux : ∀ acc : List α, l.filterAuxM f acc = .ok ((l.filter g).reverse ++ acc) := by
    induction l with
    | nil => exact fun acc => rfl
    | cons a l ih =>
      intro acc
      have ih := ih fun b hb => h b (List.mem_cons_of_mem _ hb)
      rw [List.filterAuxM, h a List.mem_cons_self]
      show l.filterAuxM f (cond (g a) (a :: acc) acc) = _
      rw [ih, List.filter_cons]
      cases g a <;> simp
  unfold List.filterM
  rw [haux]
  show Except.ok _ = _
  rw [List.append_nil, List.reverse_reverse]

/-- The verdict on a stored version, which its columns are short enough to reach. -/
theorem Catalogued.verdict (h : Catalogued env ecosystem package) {v : PackageVersion}
    (hv : v ∈ package.versions) : ∃ verdict, evaluate env.policy env.engine
        (storedSubject ecosystem package.normalizedName v) = .ok verdict ∧
      (verdict.allowed = true ↔ Lets env ecosystem package v) := by
  have hreturns : Returns (evaluate env.policy env.engine
      (storedSubject ecosystem package.normalizedName v)) := evaluate_returns (h.fits v hv)
  obtain ⟨verdict, hverdict⟩ := hreturns.exists_ok
  exact ⟨verdict, hverdict, evaluate_allowed_iff hverdict⟩

/-- The verdict on the name, which lets through the name of any version it lets through. -/
theorem Catalogued.nameVerdict (h : Catalogued env ecosystem package) (hne : package.versions.rows ≠ []) :
    ∃ verdict, isNameBlocked env.policy env.engine ecosystem package.normalizedName =
        .ok verdict ∧
      ∀ v, Lets env ecosystem package v → verdict.allowed = true := by
  obtain ⟨v, hv⟩ := List.exists_mem_of_ne_nil _ hne
  have hfits : FitsColumns env.engine (nameSubject ecosystem package.normalizedName) :=
    ⟨(h.fits v hv).1, Nat.zero_le _⟩
  have hreturns : Returns (evaluate env.policy env.engine
      (nameSubject ecosystem package.normalizedName)) := evaluate_returns hfits
  obtain ⟨verdict, hverdict⟩ := hreturns.exists_ok
  exact ⟨verdict, hverdict, fun w hw => (evaluate_allowed_iff hverdict).mpr hw.name⟩

/-- The blocked versions are those that the policy does not let through. -/
theorem Catalogued.blockedVersions (h : Catalogued env ecosystem package) :
    ∃ blocked, blockedVersions env ecosystem package.normalizedName package = .ok blocked ∧
      (∀ v ∈ package.versions, v.version ∈ blocked ↔ ¬ Lets env ecosystem package v) ∧
      (blocked.dedup.length = package.versions.rows.length →
        ∀ v ∈ package.versions, ¬ Lets env ecosystem package v) := by
  classical
  let passes : PackageVersion → Bool := fun v => decide (Lets env ecosystem package v)
  have hfilter : package.versions.rows.filterM (fun v => do
      return !(← evaluate env.policy env.engine
        (storedSubject ecosystem package.normalizedName v)).allowed) =
      .ok (package.versions.rows.filter fun v => !passes v) := by
    refine filterM_ok fun v hv => ?_
    obtain ⟨verdict, hverdict, hallowed⟩ := h.verdict hv
    have hbit : verdict.allowed = passes v := by
      rw [Bool.eq_iff_iff, hallowed]
      exact decide_eq_true_iff.symm
    rw [hverdict, ← hbit]
    rfl
  refine ⟨_, by unfold Minireg.blockedVersions; rw [hfilter]; rfl, fun v hv => ?_,
    fun hlen v hv => ?_⟩
  · rw [List.mem_map]
    constructor
    · rintro ⟨w, hw, hversion⟩
      obtain ⟨hw, hblocked⟩ := List.mem_filter.mp hw
      have hsame : w = v := Table.eq_of_key hw hv (by
        rw [h.versions w hw, h.versions v hv, hversion])
      subst hsame
      simpa [passes] using hblocked
    · intro hblocked
      exact ⟨v, List.mem_filter.mpr ⟨hv, by simpa [passes] using hblocked⟩, rfl⟩
  · have hle : package.versions.rows.length ≤
        (package.versions.rows.filter fun v => !passes v).length := by
      rw [← hlen]
      exact (List.dedup_sublist _).length_le.trans (List.length_map _).le
    have hall := (List.length_filter_eq_length_iff.mp
      (Nat.le_antisymm (List.length_filter_le _ _) hle)) v hv
    simpa [passes] using hall

end Verdicts

/-! ## What a document offers -/

section Listing

variable {env : RegistryEnv} {order : RowOrder} {package : Package} {base : String}

/-- The address that a rendered version gives. -/
def tarballIn (fields : List (String × Json)) : Json :=
  Json.get ((Json.get fields "dist").asObj?.getD []) "tarball"

theorem renderVersion_tarball (abbreviated : Bool) (v : PackageVersion) :
    tarballIn (renderVersion order package base abbreviated v) =
      .str (distTarball base order package v) := by
  have hdist : Dict.get? (renderVersion order package base abbreviated v) "dist" =
      some (.obj (distFor base package v (renderedFile order v))) := by
    unfold renderVersion
    extract_lets named versioned dist fields deprecated
    have hfields : Dict.get? fields "dist" =
        some (.obj (distFor base package v (renderedFile order v))) := by
      show Dict.get? (Dict.set versioned "dist" _) "dist" = _
      rw [Dict.get?_set, if_pos rfl]
      rfl
    have hdeprecated : Dict.get? deprecated "dist" =
        some (.obj (distFor base package v (renderedFile order v))) := by
      unfold deprecated
      split
      · exact hfields
      · rw [Dict.get?_set, if_neg (by decide), hfields]
    split
    · exact (Dict.get?_filter_of (p := fun k => k ∈ abbreviatedVersionKeys) (by decide) _).trans
        hdeprecated
    · exact Dict.get?_setdefault_of_some hdeprecated _ _
  have hget : Json.get (renderVersion order package base abbreviated v) "dist" =
      .obj (distFor base package v (renderedFile order v)) := by
    show (Dict.get? _ "dist").getD Json.null = _
    rw [hdist]
    rfl
  unfold tarballIn
  rw [hget]
  exact distFor_tarball base order package v

/-- A packument offers a version under the address of its tarball. -/
def OffersTarball (env : RegistryEnv) (order : RowOrder) (package : Package) (base : String)
    (abbreviated : Bool) (v : PackageVersion) : Prop :=
  ∃ entries fields, packument env order package base abbreviated = .ok (.document entries) ∧
    (v, fields) ∈ entries ∧ tarballIn fields = .str (distTarball base order package v)

theorem offersTarball_iff (h : Catalogued env .npm package) {abbreviated : Bool}
    {v : PackageVersion} (hv : v ∈ package.versions) :
    OffersTarball env order package base abbreviated v ↔ Lets env .npm package v := by
  have hne : package.versions.rows ≠ [] := List.ne_nil_of_mem hv
  obtain ⟨verdict, hverdict, hname⟩ := h.nameVerdict hne
  obtain ⟨blocked, hblocked, hmem, -⟩ := h.blockedVersions
  have hshown : v ∈ (package.versions.rows.filter fun v => v.version ∉ blocked) ↔
      Lets env .npm package v := by
    rw [← not_not (a := Lets env .npm package v), ← hmem v hv, List.mem_filter, decide_eq_true_iff]
    exact and_iff_right hv
  rw [← hshown]
  unfold OffersTarball packument
  rw [hverdict, hblocked]
  constructor
  · rintro ⟨entries, fields, hpage, hentry, -⟩
    dsimp only [bind, Except.bind, pure, Except.pure] at hpage
    split at hpage
    · cases hpage
    split at hpage
    · cases hpage
    · cases hpage
      obtain ⟨w, hw, heq⟩ := List.mem_map.mp hentry
      exact (Prod.mk.inj heq).1 ▸ hw
  · intro hshow
    have hallowed := hname v (hshown.mp hshow)
    have hentry := List.mem_map_of_mem
      (f := fun v => (v, renderVersion order package base abbreviated v)) hshow
    refine ⟨_, _, ?_, hentry, renderVersion_tarball abbreviated v⟩
    dsimp only [bind, Except.bind, pure, Except.pure]
    rw [hallowed, if_neg (by decide), if_neg hne, if_neg]
    rw [Bool.and_eq_true, decide_eq_true_iff, decide_eq_true_iff]
    exact fun hcond => List.ne_nil_of_mem hshow hcond.2

/-- A simple page offers a file under a link. -/
def OffersFile (env : RegistryEnv) (package : Package) (base : String) (asJson : Bool)
    (v : PackageVersion) (f : PackageFile) : Prop :=
  ∃ entries, simpleProject env package base asJson = .ok (.document entries) ∧
    { version := v, file := f, href := fileHref env package base asJson f } ∈ entries

theorem offersFile_iff (h : Catalogued env .pypi package) {asJson : Bool}
    {v : PackageVersion} (hv : v ∈ package.versions) {f : PackageFile} (hf : f ∈ v.files) :
    OffersFile env package base asJson v f ↔ Lets env .pypi package v := by
  have hne : package.versions.rows ≠ [] := List.ne_nil_of_mem hv
  obtain ⟨verdict, hverdict, hname⟩ := h.nameVerdict hne
  obtain ⟨blocked, hblocked, hmem, hall⟩ := h.blockedVersions
  have hshown : v ∈ (package.versions.rows.filter fun v => v.version ∉ blocked) ↔
      Lets env .pypi package v := by
    rw [← not_not (a := Lets env .pypi package v), ← hmem v hv, List.mem_filter, decide_eq_true_iff]
    exact and_iff_right hv
  unfold OffersFile simpleProject
  rw [hverdict, hblocked]
  constructor
  · rintro ⟨entries, hpage, hentry⟩
    dsimp only [bind, Except.bind, pure, Except.pure] at hpage
    split at hpage
    · cases hpage
    split at hpage
    · cases hpage
    · cases hpage
      obtain ⟨w, hw, hentry⟩ := List.mem_flatMap.mp hentry
      obtain ⟨g, hg, heq⟩ := List.mem_map.mp hentry
      rw [← hshown]
      exact (SimpleFile.mk.inj heq).1 ▸ hw
  · intro hlets
    have hallowed := hname v hlets
    have hentry : { version := v, file := f, href := fileHref env package base asJson f } ∈
        simpleFiles env package base asJson v := List.mem_map.mpr ⟨f, hf, rfl⟩
    refine ⟨_, ?_, List.mem_flatMap.mpr ⟨v, hshown.mpr hlets, hentry⟩⟩
    dsimp only [bind, Except.bind, pure, Except.pure]
    rw [hallowed, if_neg (by decide), if_neg]
    rw [Bool.and_eq_true, decide_eq_true_iff, decide_eq_true_iff]
    exact fun hcond => hall hcond.2 v hv hlets

/-- The index lists a version without the mark of the policy. -/
def OffersCrate (env : RegistryEnv) (order : RowOrder) (package : Package) (v : PackageVersion) :
    Prop :=
  ∃ entries, indexFile env order package = .ok (.document entries) ∧
    ∃ line ∈ entries, line.version = v ∧ line.blocked = false

theorem offersCrate_iff (h : Catalogued env .cargo package) {v : PackageVersion}
    (hv : v ∈ package.versions) :
    OffersCrate env order package v ↔ Lets env .cargo package v := by
  have hne : package.versions.rows ≠ [] := List.ne_nil_of_mem hv
  obtain ⟨verdict, hverdict, hname⟩ := h.nameVerdict hne
  obtain ⟨blocked, hblocked, hmem, -⟩ := h.blockedVersions
  have hmark : decide (v.version ∈ blocked) = false ↔ Lets env .cargo package v := by
    rw [decide_eq_false_iff_not, hmem v hv, not_not]
  unfold OffersCrate indexFile
  rw [hverdict, hblocked]
  constructor
  · rintro ⟨entries, hpage, line, hline, rfl, hclear⟩
    dsimp only [bind, Except.bind, pure, Except.pure] at hpage
    split at hpage
    · cases hpage
    · cases hpage
      obtain ⟨w, hw, rfl⟩ := List.mem_map.mp hline
      exact hmark.mp hclear
  · intro hlets
    have hline := List.mem_map_of_mem (f := indexLine order package blocked) hv
    refine ⟨_, ?_, _, hline, rfl, hmark.mpr hlets⟩
    dsimp only [bind, Except.bind, pure, Except.pure]
    rw [hname v hlets, if_neg (by decide)]

end Listing
end Minireg
