import Mathlib.Data.List.Pairwise
import Minireg.Api.Tarballs
import Minireg.Services.Displaced
import Minireg.Services.References

/-!
# Where tarball addresses lead

The rows of a package are looked up by filename alone, so each address leads to its own version's
file exactly when the versions share no filename and every filename can be asked for. Of a
packument that a name is first stored from, that is a condition on the URLs it gives.
-/

namespace Minireg

open Py Lib

/-! ## What an address leads to -/

section Addresses

variable (base : String) (order : RowOrder) (package : Package)

/-- The file a version is rendered with. -/
def renderedFile (v : PackageVersion) : Option PackageFile := order.file.first v.files.rows

/-- The `dist.tarball` of a version. -/
def distTarball (v : PackageVersion) : String :=
  tarballUrl base package.name v.version ((renderedFile order v).map PackageFile.filename)

/-- The row that a request for a URL works on. -/
def rowAt (url : String) : Option (PackageVersion × PackageFile) :=
  (requestOf base url).bind fun r => tarballRow order package r.1 r.2

/-- No two versions share an address, and each version's address leads to its own file. -/
structure Addressed : Prop where
  apart : ∀ v ∈ package.versions, ∀ w ∈ package.versions, v ≠ w →
    Json.get (distFor base package v (renderedFile order v)) "tarball" ≠
      Json.get (distFor base package w (renderedFile order w)) "tarball"
  found : ∀ v ∈ package.versions,
    rowAt base order package (distTarball base order package v) =
      (renderedFile order v).map fun f => (v, f)

/-- The names a version may be asked for by. -/
def addressedNames (v : PackageVersion) : List String :=
  if v.files.rows = [] then [npmTarballFilename package.name v.version]
  else v.files.rows.map PackageFile.filename

/-- No filename is in two versions, and every filename can be asked for. -/
structure Distinguishable : Prop where
  apart : ∀ v ∈ package.versions, ∀ w ∈ package.versions, v ≠ w →
    ∀ name ∈ addressedNames package v, name ∉ addressedNames package w
  named : ∀ v ∈ package.versions, ∀ f ∈ v.files,
    f.filename ≠ "" ∧ '/' ∉ f.filename.toList ∧ '\n' ∉ package.name.toList

end Addresses

theorem distFor_tarball (base : String) (order : RowOrder) (package : Package)
    (v : PackageVersion) :
    Json.get (distFor base package v (renderedFile order v)) "tarball" =
      .str (distTarball base order package v) := by
  unfold distFor Json.get
  dsimp only
  have hfilter : ∀ l : List (String × Json),
      (l.filter fun e => e.1 ≠ "tarball" && e.1 ≠ "shasum" && e.1 ≠ "integrity").lookup "tarball" =
        none := by
    intro l
    rw [List.lookup_eq_none_iff]
    intro e he
    have hcond := (List.mem_filter.mp he).2
    simp only [Bool.and_eq_true, decide_eq_true_eq] at hcond
    simpa using hcond.1.1.symm
  rw [List.lookup_append, List.lookup_append, List.lookup_append, hfilter, Option.none_or]
  rfl

theorem requestOf_tarballUrl {base packageName version name' filename' : String}
    {filename : Option String} :
    requestOf base (tarballUrl base packageName version filename) = some (name', filename') ↔
      packageName.toList ++ ['/', '-', '/'] ++
          (addressedName packageName version filename).toList =
        name'.toList ++ ['/', '-', '/'] ++ filename'.toList ∧
      filename' ≠ "" ∧ '/' ∉ filename'.toList ∧ '\n' ∉ name'.toList := by
  unfold requestOf
  rw [unquote_tarballUrl, Option.bind_some, matchTarball_spec, String.toList_ofList,
    List.cons.injEq]
  simp only [true_and]

/-- A file with a name that can be asked for is asked for by it. -/
theorem requestOf_named {base packageName version filename : String} (hne : filename ≠ "")
    (hslash : '/' ∉ filename.toList) (hline : '\n' ∉ packageName.toList) :
    requestOf base (tarballUrl base packageName version (some filename)) =
      some (packageName, filename) := by
  have haddressed : addressedName packageName version (some filename) = filename := if_neg hne
  exact requestOf_tarballUrl.mpr ⟨by rw [haddressed], hne, hslash, hline⟩

theorem addressedName_of_tarballUrl {base packageName v w : String} {f g : Option String}
    (h : tarballUrl base packageName v f = tarballUrl base packageName w g) :
    addressedName packageName v f = addressedName packageName w g := by
  have hv := unquote_tarballUrl base packageName v f
  rw [h, unquote_tarballUrl, Option.some_inj, String.ofList_inj, List.cons.injEq] at hv
  exact (String.toList_inj.mp (List.append_cancel_left hv.2)).symm

/-- Equal texts that end in slash-free segments end in the same one. -/
theorem append_slash_inj {s t a b : List Char} (ha : '/' ∉ a) (hb : '/' ∉ b)
    (h : s ++ '/' :: a = t ++ '/' :: b) : s = t ∧ a = b := by
  have hrev := congrArg List.reverse h
  rw [List.reverse_append, List.reverse_append, List.reverse_cons, List.reverse_cons,
    List.append_assoc, List.append_assoc, List.singleton_append, List.singleton_append] at hrev
  have hlast := congrArg (List.takeWhile (· ≠ '/')) hrev
  rw [takeWhile_append_slash (by simpa using ha), takeWhile_append_slash (by simpa using hb),
    List.reverse_inj] at hlast
  subst hlast
  exact ⟨List.append_cancel_right h, rfl⟩

theorem mem_fileRows {package : Package} {r : PackageVersion × PackageFile} :
    r ∈ fileRows package ↔ r.1 ∈ package.versions ∧ r.2 ∈ r.1.files := by
  unfold fileRows
  rw [List.mem_flatMap]
  constructor
  · rintro ⟨v, hv, hr⟩
    obtain ⟨f, hf, rfl⟩ := List.mem_map.mp hr
    exact ⟨hv, hf⟩
  · rintro ⟨hv, hf⟩
    exact ⟨r.1, hv, List.mem_map.mpr ⟨r.2, hf, rfl⟩⟩

theorem locateFileRow_some {order : RowOrder} {package : Package} {ecosystem : Ecosystem}
    {normalizedName : String} {filename version : Option String}
    {r : PackageVersion × PackageFile}
    (h : locateFileRow order package ecosystem normalizedName filename version = some r) :
    (package.ecosystem = ecosystem ∧ package.normalizedName = normalizedName) ∧
      r.1 ∈ package.versions ∧ r.2 ∈ r.1.files ∧
      (∀ name, filename = some name → r.2.filename = name) ∧
      (∀ asked, version = some asked → r.1.version = asked) := by
  unfold locateFileRow at h
  split at h
  · rename_i hkey
    obtain ⟨hrow, hcond⟩ := List.mem_filter.mp (order.row.mem h)
    obtain ⟨hv, hf⟩ := mem_fileRows.mp hrow
    rw [Bool.and_eq_true] at hcond
    refine ⟨hkey, hv, hf, ?_, ?_⟩
    · rintro name rfl
      simpa using hcond.1
    · rintro asked rfl
      simpa using hcond.2
  · cases h

theorem count_unescapeSlash (digit : Char) (s : List Char) :
    s.count '/' ≤ (unescapeSlash digit s).count '/' := by
  induction s using unescapeSlash.induct digit with
  | case1 rest ih =>
    rw [unescapeSlash, if_pos rfl, List.count_cons_self]
    have hcount : ('%' :: '2' :: digit :: rest).count '/' ≤ rest.count '/' + 1 := by
      rw [List.count_cons_of_ne (by decide), List.count_cons_of_ne (by decide), List.count_cons]
      split <;> omega
    omega
  | case2 d rest hd ih =>
    rw [unescapeSlash, if_neg hd, List.count_cons_of_ne (by decide),
      List.count_cons_of_ne (by decide)]
    exact ih
  | case3 d rest hne ih =>
    rw [unescapeSlash]
    · rw [List.count_cons, List.count_cons]
      omega
    · exact hne
  | case4 => exact Nat.le_refl _

theorem count_dropWhile {p : Char → Bool} {c : Char} (hp : p c = false) (s : List Char) :
    (s.dropWhile p).count c = s.count c := by
  induction s with
  | nil => rfl
  | cons d s ih =>
    by_cases hd : p d = true
    · have hne : d ≠ c := by
        rintro rfl
        rw [hp] at hd
        cases hd
      rw [List.dropWhile_cons_of_pos hd, ih, List.count_cons_of_ne hne]
    · rw [List.dropWhile_cons_of_neg hd]

theorem count_strip (s : String) : (strip s).toList.count '/' = s.toList.count '/' := by
  unfold strip
  rw [String.toList_ofList, List.count_reverse, count_dropWhile (by decide), List.count_reverse,
    count_dropWhile (by decide)]

theorem count_npmPathToName (path : String) :
    path.toList.count '/' ≤ (npmPathToName path).toList.count '/' := by
  unfold npmPathToName
  rw [String.toList_ofList]
  exact (count_unescapeSlash 'F' _).trans (count_unescapeSlash 'f' _)

section Addresses

variable {base : String} {package : Package}

theorem addressedName_mem (order : RowOrder) (h : Distinguishable package) {v : PackageVersion}
    (hv : v ∈ package.versions) :
    addressedName package.name v.version ((renderedFile order v).map PackageFile.filename) ∈
      addressedNames package v := by
  unfold addressedNames
  split
  · rename_i hempty
    unfold renderedFile
    rw [hempty, Picker.first_nil]
    exact List.mem_singleton.mpr rfl
  · rename_i hne
    obtain ⟨f, hf⟩ := Option.isSome_iff_exists.mp (order.file.isSome hne)
    unfold renderedFile
    rw [hf]
    have hname : addressedName package.name v.version (some f.filename) = f.filename :=
      if_neg (h.named v hv f (order.file.mem hf)).1
    exact List.mem_map.mpr ⟨f, order.file.mem hf, hname.symm⟩

/-- Some order renders a version under any of the names it has. -/
theorem addressedName_seeking (row : Picker (PackageVersion × PackageFile)) {v : PackageVersion}
    (hnamed : ∀ f ∈ v.files, f.filename ≠ "") {name : String}
    (hname : name ∈ addressedNames package v) :
    addressedName package.name v.version
      ((renderedFile { file := .seeking fun f => f.filename = name, row := row } v).map
        PackageFile.filename) = name := by
  unfold addressedNames at hname
  unfold renderedFile
  split at hname
  · rename_i hempty
    rw [hempty, Picker.first_nil, List.mem_singleton.mp hname]
    rfl
  · obtain ⟨f, hf, rfl⟩ := List.mem_map.mp hname
    obtain ⟨g, hg, hmem, hgname⟩ := Picker.seeking_first (p := fun g => g.filename = f.filename) hf
      (decide_eq_true rfl)
    rw [hg, Option.map_some, of_decide_eq_true hgname]
    exact if_neg (hnamed f hf)

theorem rowAt_some {order : RowOrder} {v : PackageVersion} {r : PackageVersion × PackageFile}
    (h : rowAt base order package (distTarball base order package v) = some r) :
    ∃ name : String, package.name.toList ++ ['/', '-', '/'] ++ (addressedName package.name v.version
          ((renderedFile order v).map PackageFile.filename)).toList =
        name.toList ++ ['/', '-', '/'] ++ r.2.filename.toList ∧
      r.2.filename ≠ "" ∧ '/' ∉ r.2.filename.toList ∧ '\n' ∉ name.toList ∧
      package.normalizedName = normalizeNpmName (npmPathToName name) ∧
      r.1 ∈ package.versions ∧ r.2 ∈ r.1.files := by
  obtain ⟨⟨name, filename⟩, hrequest, hrow⟩ := Option.bind_eq_some_iff.mp h
  obtain ⟨⟨-, hkey⟩, hv, hf, hname, -⟩ := locateFileRow_some hrow
  obtain ⟨hpath, hne, hslash, hline⟩ := requestOf_tarballUrl.mp hrequest
  obtain rfl := hname filename rfl
  exact ⟨name, hpath, hne, hslash, hline, hkey, hv, hf⟩

theorem addressedName_ne (packageName version : String) (filename : Option String) :
    addressedName packageName version filename ≠ "" := by
  unfold addressedName
  split
  · intro h
    have hlen := congrArg String.length h
    unfold npmTarballFilename at hlen
    rw [String.length_append] at hlen
    exact absurd hlen (by simp)
  · assumption

/-- What is found under a version's address has the name that the address ends in, and that name
could be asked for. -/
theorem rowAt_spec (hkey : package.normalizedName = normalizeNpmName package.name)
    {order : RowOrder} {v : PackageVersion} {r : PackageVersion × PackageFile}
    (h : rowAt base order package (distTarball base order package v) = some r) :
    r.2.filename = addressedName package.name v.version
        ((renderedFile order v).map PackageFile.filename) ∧
      '/' ∉ r.2.filename.toList ∧ '\n' ∉ package.name.toList ∧
      r.1 ∈ package.versions ∧ r.2 ∈ r.1.files := by
  obtain ⟨name, hpath, -, hslash, hline, hname, hw, hg⟩ := rowAt_some h
  generalize addressedName package.name v.version
    ((renderedFile order v).map PackageFile.filename) = a at hpath
  by_cases ha : '/' ∈ a.toList
  · -- The package of the request would have more slashes in its name than this one.
    exfalso
    have hcount := congrArg (List.count '/') hpath
    rw [List.count_append, List.count_append, List.count_append, List.count_append,
      List.count_eq_zero.mpr hslash] at hcount
    have hpos := List.count_pos_iff.mpr ha
    have hmore := count_npmPathToName name
    have hsame : (npmPathToName name).toList.count '/' = package.name.toList.count '/' := by
      rw [← count_strip package.name, ← count_strip (npmPathToName name)]
      exact congrArg (fun s => s.toList.count '/') (hname.symm.trans hkey)
    omega
  · obtain ⟨hdirs, hlast⟩ := append_slash_inj ha hslash
      (s := package.name.toList ++ ['/', '-']) (t := name.toList ++ ['/', '-'])
      (by simpa using hpath)
    have hsame := List.append_cancel_right hdirs
    exact ⟨(String.toList_inj.mp hlast).symm, hslash, hsame ▸ hline, hw, hg⟩

/-- Where every order leads each address to its own file, the filenames are apart. -/
theorem distinguishable_of_addressed (h : ∀ order, Addressed base order package) :
    Distinguishable package := by
  have hnamed : ∀ v ∈ package.versions, ∀ f ∈ v.files,
      f.filename ≠ "" ∧ '/' ∉ f.filename.toList ∧ '\n' ∉ package.name.toList := by
    intro v hv f hf
    let order : RowOrder := { file := .seeking fun g => g = f, row := .seeking fun _ => false }
    have hrendered : renderedFile order v = some f := by
      obtain ⟨g, hg, -, heq⟩ := Picker.seeking_first (p := fun g => g = f) hf (decide_eq_true rfl)
      rw [← of_decide_eq_true heq]
      exact hg
    have hfound := (h order).found v hv
    rw [hrendered] at hfound
    obtain ⟨name, hpath, hne, hslash, hline, -⟩ := rowAt_some hfound
    have haddressed : addressedName package.name v.version
        ((renderedFile order v).map PackageFile.filename) = f.filename := by
      rw [hrendered]
      exact if_neg hne
    rw [haddressed] at hpath
    have hsame := List.append_cancel_right (List.append_cancel_right hpath)
    exact ⟨hne, hslash, hsame ▸ hline⟩
  refine ⟨fun v hv w hw hne name hvname hwname => ?_, hnamed⟩
  let order : RowOrder :=
    { file := .seeking fun f => f.filename = name, row := .seeking fun _ => false }
  refine (h order).apart v hv w hw hne ?_
  rw [distFor_tarball, distFor_tarball]
  have hvaddress := addressedName_seeking order.row
    (fun f hf => (hnamed v hv f hf).1) hvname
  have hwaddress := addressedName_seeking order.row
    (fun f hf => (hnamed w hw f hf).1) hwname
  unfold distTarball tarballUrl
  rw [hvaddress, hwaddress]

/-- Where the filenames are apart, each address leads to its own file. -/
theorem addressed_of_distinguishable (hecosystem : package.ecosystem = .npm)
    (hkey : package.normalizedName = normalizeNpmName package.name)
    (hplain : Plain package.name.toList) (h : Distinguishable package) (order : RowOrder) :
    Addressed base order package := by
  refine ⟨fun v hv w hw hne heq => ?_, fun v hv => ?_⟩
  · rw [distFor_tarball, distFor_tarball, Json.str.injEq] at heq
    have hname := addressedName_of_tarballUrl heq
    refine h.apart v hv w hw hne _ (addressedName_mem order h hv) ?_
    rw [hname]
    exact addressedName_mem order h hw
  rcases hrendered : renderedFile order v with _ | f
  · have hempty : v.files.rows = [] := by
      by_contra hne
      have hsome := order.file.isSome hne
      rw [renderedFile] at hrendered
      rw [hrendered] at hsome
      cases hsome
    rcases hrow : rowAt base order package (distTarball base order package v) with _ | r
    · rfl
    -- A row was found under the default name of a version without files.
    exfalso
    obtain ⟨hname, -, -, hw, hg⟩ := rowAt_spec hkey hrow
    have hne : v ≠ r.1 := by
      rintro rfl
      exact List.ne_nil_of_mem hg hempty
    refine h.apart v hv r.1 hw hne _ (addressedName_mem order h hv) ?_
    unfold addressedNames
    rw [if_neg (List.ne_nil_of_mem hg), ← hname]
    exact List.mem_map.mpr ⟨r.2, hg, rfl⟩
  · have hf : f ∈ v.files := order.file.mem hrendered
    obtain ⟨hne, hslash, hline⟩ := h.named v hv f hf
    have hrequest : requestOf base (distTarball base order package v) =
        some (package.name, f.filename) := by
      unfold distTarball
      rw [hrendered]
      exact requestOf_named hne hslash hline
    unfold rowAt
    rw [hrequest, Option.bind_some, Option.map_some]
    unfold tarballRow locateFileRow
    dsimp only
    rw [npmPathToName_of_plain hplain, if_pos ⟨hecosystem, hkey⟩]
    refine order.row.first_eq (List.mem_filter.mpr ⟨mem_fileRows.mpr ⟨hv, hf⟩, by simp⟩) ?_
    rintro ⟨w, g⟩ hrow
    obtain ⟨hmem, hcond⟩ := List.mem_filter.mp hrow
    obtain ⟨hw, hg⟩ := mem_fileRows.mp hmem
    have hname : g.filename = f.filename := by simpa using hcond
    have hvw : w = v := by
      by_contra hvw
      have hgname : g.filename ∈ addressedNames package w := by
        unfold addressedNames
        rw [if_neg (List.ne_nil_of_mem hg)]
        exact List.mem_map.mpr ⟨g, hg, rfl⟩
      refine h.apart w hw v hv hvw _ hgname ?_
      unfold addressedNames
      rw [if_neg (List.ne_nil_of_mem hf), hname]
      exact List.mem_map.mpr ⟨f, hf, rfl⟩
    subst hvw
    exact congrArg (Prod.mk w) (Lib.Table.eq_of_key hg hf hname)

end Addresses

/-- A request for a version's address is decided on that version's facts, and answered with its
file. -/
theorem Addressed.served {base : String} {order : RowOrder} {package : Package}
    (h : Addressed base order package) (env : RegistryEnv) {v : PackageVersion} {f : PackageFile}
    (hv : v ∈ package.versions) (hf : renderedFile order v = some f) :
    ∃ r, requestOf base (distTarball base order package v) = some r ∧
      getTarball env order package r.1 r.2 = (do
        let verdict ← evaluate env.policy env.engine
          (storedSubject .npm package.normalizedName v)
        return if verdict.allowed then .file (v, f) else .forbidden verdict.reason) := by
  have hfound := h.found v hv
  rw [hf, Option.map_some] at hfound
  obtain ⟨r, hrequest, hrow⟩ := Option.bind_eq_some_iff.mp hfound
  refine ⟨r, hrequest, ?_⟩
  obtain ⟨⟨-, hkey⟩, -⟩ := locateFileRow_some hrow
  unfold getTarball answerFile
  rw [hrow, hkey]

/-! ## A packument that a name is first stored from -/

theorem persistFile_fresh {defaultSource : Option Nat} {s : PackageVersion × Bool}
    {remote : RemoteFile} (h : s.1.files.rows = []) :
    (persistFile defaultSource s remote).1.files.rows.map PackageFile.filename =
      [remote.filename] := by
  have hnone : s.1.files.find? remote.filename = none := by
    rw [Table.find?, h]
    rfl
  have hempty : ∀ g ∈ s.1.files, ∀ k : String, g.filename ≠ k := by
    intro g hg
    rw [← Table.mem_rows, h] at hg
    cases hg
  unfold persistFile
  rw [hnone]
  dsimp only
  rw [Table.put_rows_of_fresh fun g hg => hempty g hg _, h, List.nil_append,
    List.map_cons, (applyFile_pointer _ _ _).1]
  rfl

/-- A new version row holds the file of the version, if there is one. -/
theorem persistFields_fresh {defaultSource : Option Nat} {remote : RemoteVersion} {isNew : Bool}
    {v : PackageVersion} {name : Option String} (h : v.files.rows = [])
    (hname : remote.files.map RemoteFile.filename = name.toList) :
    (persistFields defaultSource remote isNew v).1.files.rows.map PackageFile.filename =
      name.toList := by
  have hfiles : ∀ s : PackageVersion × Bool, s.1.files.rows = [] →
      (remote.files.foldl (persistFile defaultSource) s).1.files.rows.map PackageFile.filename =
        name.toList := by
    intro s hs
    rcases name with _ | name
    · rw [List.map_eq_nil_iff.mp hname, List.foldl_nil, hs]
      rfl
    · obtain ⟨f, hf, rfl⟩ := List.map_eq_singleton_iff.mp hname
      rw [hf, List.foldl_cons, List.foldl_nil, persistFile_fresh hs]
      rfl
  unfold persistFields
  dsimp only
  refine hfiles _ (Eq.trans (congrArg Table.rows ?_) h)
  rcases remote.yanked with b | reason <;> simp only [assign_fst, implies_true] <;>
    split <;> simp only [assign_fst, implies_true]

/-- What a version row says of its tarball. -/
def storedTarball (v : PackageVersion) : String × List String :=
  (v.version, v.files.rows.map PackageFile.filename)

theorem persistVersions_fresh (nm : Naming) (defaultSource : Option Nat)
    {remotes : List RemoteVersion} {tarballs : List (String × Option String)}
    (h : remotes.map (fun v => (v.version, v.files.map RemoteFile.filename)) =
      tarballs.map fun e => (e.1, e.2.toList))
    (hnodup : (tarballs.map Prod.fst).Nodup) (versions : Table PackageVersion.normalizedVersion)
    (hfresh : ∀ v ∈ versions, v.normalizedVersion ∉ tarballs.map Prod.fst) :
    (remotes.foldl (persistVersion nm .npm defaultSource) versions).rows.map storedTarball =
      versions.rows.map storedTarball ++ tarballs.map fun e => (e.1, e.2.toList) := by
  induction remotes generalizing tarballs versions with
  | nil =>
    rw [← h]
    exact (List.append_nil _).symm
  | cons rv remotes ih =>
    cases tarballs with
    | nil => cases h
    | cons e tarballs =>
      rw [List.map_cons, List.map_cons, List.cons.injEq] at h
      obtain ⟨hversion, hname⟩ := Prod.mk.inj h.1
      rw [List.map_cons, List.nodup_cons] at hnodup
      have hnone : versions.find? (normalizedVersion nm .npm rv.version) = none := by
        rw [Table.find?_eq_none_iff]
        intro v hv heq
        refine hfresh v hv ?_
        rw [heq, List.map_cons]
        exact List.mem_cons.mpr (.inl hversion)
      let new : PackageVersion :=
        { version := rv.version
          normalizedVersion := normalizedVersion nm .npm rv.version
          upstreamId := versionSource defaultSource rv
          metadataJson := rv.metadata }
      let row := (persistFields defaultSource rv true new).1
      have hstep : persistVersion nm .npm defaultSource versions rv = versions.put row := by
        unfold persistVersion
        dsimp only
        rw [hnone]
      have hrow : SameRow new row := persistFields_sameRow rv true new
      have hput : (versions.put row).rows = versions.rows ++ [row] := by
        refine Table.put_rows_of_fresh fun v hv heq => ?_
        refine (Table.find?_eq_none_iff.mp hnone) v hv ?_
        exact heq.trans hrow.normalizedVersion
      have htarball : storedTarball row = (e.1, e.2.toList) := by
        unfold storedTarball
        rw [persistFields_fresh rfl hname]
        exact congrArg (·, e.2.toList) (hrow.version.trans hversion)
      have hrest : ∀ v ∈ versions.put row, v.normalizedVersion ∉ tarballs.map Prod.fst := by
        intro v hv hmem
        rcases Table.mem_put.mp hv with rfl | ⟨hv, -⟩
        · have hkey : row.normalizedVersion = rv.version := hrow.normalizedVersion
          rw [hkey, hversion] at hmem
          exact hnodup.1 hmem
        · exact hfresh v hv (List.mem_cons_of_mem _ hmem)
      rw [List.foldl_cons, hstep, ih h.2 hnodup.2 _ hrest, hput, List.map_append,
        List.append_assoc, List.map_cons, List.map_nil, htarball, List.map_cons]
      rfl

/-- The name that a package is stored under, when a request asks for one. -/
def packumentName (doc : List (String × Json)) (requested : String) : String :=
  match Json.get doc "name" with
  | .str s => if s = "" then requested else s
  | _ => requested

/-- No two versions of a packument have tarballs of one name, and each tarball has a name that
can be asked for. A version without a tarball counts with the name npm would give it. -/
structure NamesApart (name : String) (tarballs : List (String × Option String)) : Prop where
  apart : tarballs.Pairwise fun a b =>
    a.2.getD (npmTarballFilename name a.1) ≠ b.2.getD (npmTarballFilename name b.1)
  named : ∀ e ∈ tarballs, ∀ filename, e.2 = some filename →
    filename ≠ "" ∧ '\n' ∉ name.toList

theorem slash_not_mem_baseName (url : String) : '/' ∉ (baseName url).toList := by
  unfold baseName
  rw [String.toList_ofList, List.mem_reverse]
  intro h
  simpa using List.mem_takeWhile_imp h

theorem slash_not_mem_tarballs {doc : List (String × Json)} {e : String × Option String}
    {filename : String} (he : e ∈ packumentTarballs doc) (hname : e.2 = some filename) :
    '/' ∉ filename.toList := by
  obtain ⟨vdoc, -, rfl⟩ := List.mem_map.mp he
  dsimp only at hname
  unfold tarballName nameInUrl at hname
  split at hname
  · split at hname
    · cases hname
    · rw [← Option.some.inj hname]
      exact slash_not_mem_baseName _
  · cases hname

/-- The names that a version with these files may be asked for by. -/
def tarballNames (name : String) (stored : String × List String) : List String :=
  if stored.2 = [] then [npmTarballFilename name stored.1] else stored.2

theorem addressedNames_eq (package : Package) (v : PackageVersion) :
    addressedNames package v = tarballNames package.name (storedTarball v) := by
  unfold addressedNames tarballNames storedTarball
  by_cases hempty : v.files.rows = []
  · rw [if_pos hempty, if_pos (List.map_eq_nil_iff.mpr hempty)]
  · rw [if_neg hempty, if_neg fun h => hempty (List.map_eq_nil_iff.mp h)]

theorem tarballNames_toList (name : String) (e : String × Option String) :
    tarballNames name (e.1, e.2.toList) = [e.2.getD (npmTarballFilename name e.1)] := by
  rcases e with ⟨version, _ | filename⟩ <;> rfl

theorem distinguishable_iff_namesApart {package : Package} {doc : List (String × Json)}
    (h : package.versions.rows.map storedTarball =
      (packumentTarballs doc).map fun e => (e.1, e.2.toList)) :
    Distinguishable package ↔ NamesApart package.name (packumentTarballs doc) := by
  have hforward : ∀ v ∈ package.versions, ∃ e ∈ packumentTarballs doc,
      storedTarball v = (e.1, e.2.toList) := by
    intro v hv
    have hmem := List.mem_map_of_mem (f := storedTarball) hv
    rw [h] at hmem
    obtain ⟨e, he, heq⟩ := List.mem_map.mp hmem
    exact ⟨e, he, heq.symm⟩
  have hback : ∀ e ∈ packumentTarballs doc, ∃ v ∈ package.versions,
      storedTarball v = (e.1, e.2.toList) := by
    intro e he
    have hmem := List.mem_map_of_mem (f := fun e => (e.1, e.2.toList)) he
    rw [← h] at hmem
    exact List.mem_map.mp hmem
  -- Both sides compare the names of the same list, pair by pair.
  have hpairs : (package.versions.rows.Pairwise fun v w =>
        ∀ name ∈ addressedNames package v, name ∉ addressedNames package w) ↔
      (packumentTarballs doc).Pairwise fun a b =>
        a.2.getD (npmTarballFilename package.name a.1) ≠
          b.2.getD (npmTarballFilename package.name b.1) := by
    have hstored := List.pairwise_map (f := storedTarball) (l := package.versions.rows)
      (R := fun p q => ∀ name ∈ tarballNames package.name p, name ∉ tarballNames package.name q)
    rw [h, List.pairwise_map] at hstored
    simp only [tarballNames_toList, List.mem_singleton, forall_eq, ← addressedNames_eq] at hstored
    exact hstored.symm
  constructor
  · intro hd
    refine ⟨hpairs.mp ?_, ?_⟩
    · exact (List.Nodup.of_map _ package.versions.nodup).pairwise_of_forall_ne
        fun v hv w hw hne => hd.apart v hv w hw hne
    · intro e he name hname
      obtain ⟨v, hv, hstored⟩ := hback e he
      have hmem : name ∈ v.files.rows.map PackageFile.filename := by
        rw [(Prod.mk.inj hstored).2, hname]
        exact List.mem_singleton.mpr rfl
      obtain ⟨f, hf, rfl⟩ := List.mem_map.mp hmem
      exact ⟨(hd.named v hv f hf).1, (hd.named v hv f hf).2.2⟩
  · intro hn
    refine ⟨?_, ?_⟩
    · have hall := hpairs.mpr hn.apart
      have hsymm : Std.Symm fun v w => ∀ name ∈ addressedNames package v,
          name ∉ addressedNames package w :=
        ⟨fun v w hvw name hw hv => hvw name hv hw⟩
      exact fun v hv w hw hne => hall.forall hv hw hne
    · intro v hv f hf
      obtain ⟨e, he, hstored⟩ := hforward v hv
      have hmem := List.mem_map_of_mem (f := PackageFile.filename) hf
      rw [(Prod.mk.inj hstored).2] at hmem
      have hname : e.2 = some f.filename := by simpa using hmem
      have hnamed := hn.named e he _ hname
      exact ⟨hnamed.1, slash_not_mem_tarballs he hname, hnamed.2⟩

/-- What the name of a stored package says: it is the name of a page, up to blanks. -/
theorem persist_identity {nm : Naming} {upstream : Upstream} {name : String}
    {stored : Option Package} {remote : RemotePackage} {validators : Option Validators} {now : Time} {p : Package}
    (hne : name ≠ "")
    (hstored : ∀ s, stored = some s → s.ecosystem = .npm ∧
      s.normalizedName = normalizeNpmName s.name ∧ s.normalizedName = normalizeNpmName name)
    (h : persistRemotePackage nm .npm stored remote (some upstream) (some name) validators now =
      .ok p) :
    p.ecosystem = .npm ∧ p.normalizedName = normalizeNpmName p.name ∧
      p.normalizedName = normalizeNpmName name ∧
      (stored = none → p.name = if remote.name ≠ "" then remote.name else name) := by
  unfold persistRemotePackage at h
  extract_lets requested displayName normalized upstreamId row keywords versions latest at h
  split at h
  · cases h
  · rename_i hsame
    cases h
    cases stored with
    | some s =>
      obtain ⟨hecosystem, hkey, hname⟩ := hstored s rfl
      exact ⟨hecosystem, hkey, hname, fun h => by cases h⟩
    | none =>
      refine ⟨rfl, rfl, ?_, fun _ => rfl⟩
      by_contra hother
      refine hsame ?_
      rw [Bool.and_eq_true]
      exact ⟨decide_eq_true hne, decide_eq_true fun heq => hother heq.symm⟩

theorem packumentName_of_nameOf {doc : List (String × Json)} {name : String}
    (h : nameOf doc = .ok name) (requested : String) :
    (if name ≠ "" then name else requested) = packumentName doc requested := by
  unfold nameOf at h
  unfold packumentName
  split at h
  · rw [textOf_ok h, ite_not]
  · rename_i hfalsy
    obtain rfl := Except.ok.inj h
    rw [if_neg fun hne => hne rfl]
    split
    · rename_i s hs
      have hempty : s = "" := by simpa [hs, Json.truthy] using hfalsy
      rw [if_pos hempty]
    · rfl

/-- A packument is stored and rendered: each version's address leads to its own file, in whatever
order the database hands out rows, exactly when the names of the stored files tell the versions
apart. For a package that was not stored before, these are the names in the packument. -/
theorem tarballs_addressed (nm : Naming) (base : String) {parseTime : String → Option Time}
    {upstream : Upstream} {path name : String} {asked : Option String}
    {doc : List (String × Json)} {etag : Option String} {remote : RemotePackage}
    {stored : Option Package} {validators : Option Validators} {now : Time} {p : Package}
    (hpage : splitPackagePath path = some (name, asked))
    (hstored : ∀ s, stored = some s → s.ecosystem = .npm ∧
      s.normalizedName = normalizeNpmName s.name ∧ s.normalizedName = normalizeNpmName name)
    (hparse : parsePackument parseTime upstream doc etag = .ok remote)
    (hpersist : persistRemotePackage nm .npm stored remote (some upstream) (some name) validators
      now = .ok p) :
    ((∀ order, Addressed base order p) ↔ Distinguishable p) ∧
      (stored = none → ((packumentTarballs doc).map Prod.fst).Nodup →
        (Distinguishable p ↔
          NamesApart (packumentName doc name) (packumentTarballs doc))) := by
  obtain ⟨hecosystem, hkey, hname, hfresh⟩ :=
    persist_identity (splitPackagePath_ne hpage) hstored hpersist
  have hplain : Plain p.name.toList := by
    refine Plain.of_strip ?_
    have hstrip : strip p.name = strip name := hkey.symm.trans hname
    rw [hstrip]
    exact (splitPackagePath_plain hpage).of_piece (strip_piece name)
  refine ⟨⟨distinguishable_of_addressed,
    fun hd order => addressed_of_distinguishable hecosystem hkey hplain hd order⟩, ?_⟩
  intro hnone hnodup
  obtain ⟨hnameOf, htarballs⟩ := parsePackument_spec hparse
  rw [← packumentName_of_nameOf hnameOf, ← hfresh hnone]
  refine distinguishable_iff_namesApart ?_
  rw [persist_versions hpersist, hnone]
  exact persistVersions_fresh nm _ htarballs hnodup _
    fun v hv => absurd hv Table.not_mem_empty

/-! ## Two packuments -/

/-- The packument of two versions, from their tarballs' URLs. -/
def twoVersions (first second : String) : List (String × Json) :=
  [("name", .str "left-pad"),
    ("versions", .obj [
      ("1.0.0", .obj [("dist", .obj [("tarball", .str first)])]),
      ("2.0.0", .obj [("dist", .obj [("tarball", .str second)])])])]

/-- A registry that keeps the tarball of each version in a directory of its own. -/
def perDirectory : List (String × Json) :=
  twoVersions "https://up/left-pad/1.0.0/package.tgz" "https://up/left-pad/2.0.0/package.tgz"

def perName : List (String × Json) :=
  twoVersions "https://up/left-pad-1.0.0.tgz" "https://up/left-pad-2.0.0.tgz"

def tarballUpstream : Upstream :=
  { id := 1, name := "up", ecosystem := .npm, kind := .npm, validKind := npm_validKind }

/-- What is stored of a packument that answers a first request for `left-pad`. -/
def shelve (doc : List (String × Json)) : Except String Package := do
  let remote ← parsePackument (fun _ => none) tarballUpstream doc none
  persistRemotePackage plainNaming .npm none remote (some tarballUpstream) (some "left-pad") none 0

/-- Rows in the order they were stored. -/
def storedOrder : RowOrder := { file := .seeking fun _ => false, row := .seeking fun _ => false }

/-- Each version with its address and the version whose file that address leads to. -/
def addresses (base : String) (package : Package) : List (String × String × Option String) :=
  package.versions.rows.map fun v =>
    (v.version, distTarball base storedOrder package v,
      (rowAt base storedOrder package (distTarball base storedOrder package v)).map (·.1.version))

/-- The two versions share an address, and it leads to the first one's file. -/
theorem perDirectory_shared :
    (shelve perDirectory).toOption.map (addresses "http://localhost/npm") =
      some [("1.0.0", "http://localhost/npm/left-pad/-/package.tgz", some "1.0.0"),
        ("2.0.0", "http://localhost/npm/left-pad/-/package.tgz", some "1.0.0")] := by
  decide +kernel

theorem perName_addressed : ∃ p, shelve perName = .ok p ∧
    ∀ order, Addressed "http://localhost/npm" order p := by
  have hok : (shelve perName).toOption.isSome = true := by decide +kernel
  obtain ⟨p, hp⟩ := Option.isSome_iff_exists.mp hok
  have hshelved := toOption_ok hp
  obtain ⟨remote, hparse, hpersist⟩ := bind_ok hshelved
  have hpage : splitPackagePath "left-pad" = some ("left-pad", none) := by decide +kernel
  have hnames : packumentTarballs perName =
      [("1.0.0", some "left-pad-1.0.0.tgz"), ("2.0.0", some "left-pad-2.0.0.tgz")] := by
    decide +kernel
  obtain ⟨haddressed, hfirst⟩ := tarballs_addressed plainNaming "http://localhost/npm" hpage
    (fun s hs => by cases hs) hparse hpersist
  refine ⟨p, hshelved, haddressed.mpr ((hfirst rfl (by rw [hnames]; decide)).mpr ?_)⟩
  rw [hnames]
  refine ⟨by decide +kernel, ?_⟩
  have hname : '\n' ∉ (packumentName perName "left-pad").toList := by decide +kernel
  intro e he filename hfilename
  refine ⟨?_, hname⟩
  rintro rfl
  rcases List.mem_cons.mp he with rfl | he
  · exact absurd hfilename (by decide)
  · rw [List.mem_singleton.mp he] at hfilename
    exact absurd hfilename (by decide)

end Minireg
