import Mathlib.Data.List.TakeWhile
import Minireg.Api.Registry
import Minireg.Core.Quote
import Minireg.Lib.Picker
import Minireg.Upstreams.NpmProvider

/-!
# Tarball addresses

A packument gives each version an address made of the package's name, a `-` and a filename,
where the filename is what the upstream's own URL ended in, and a request for that address finds
the row back by the filename alone, across all versions. The address reads back as the name and
the filename it was made of; whether that is one version's file depends on the filenames being
apart.
-/

namespace Minireg

open Py Lib

/-! ## Rendering -/

/-- `filename or npm_tarball_filename(package_name, version)`. -/
def addressedName (packageName version : String) (filename : Option String) : String :=
  if filename.getD "" = "" then npmTarballFilename packageName version else filename.getD ""

/-- `tarball_url`. -/
def tarballUrl (base packageName version : String) (filename : Option String) : String :=
  base ++ "/" ++ quotePath packageName ++ "/-/" ++
    quote (addressedName packageName version filename)

/-- A text field of `dist`, kept only when there is something in it. -/
def distText (key : String) (own : Option String) (original : Json) : List (String × Json) :=
  let value := if own.getD "" = "" then original else .str (own.getD "")
  if value.truthy then [(key, value)] else []

/-- `_dist_for`, where `fileRow` is the first file of the version. A `dist` that is no dict is
not stored: reading the packument failed on it. -/
def distFor (base : String) (package : Package) (versionRow : PackageVersion)
    (fileRow : Option PackageFile) : List (String × Json) :=
  let original := (Json.get versionRow.metadataJson "dist").asObj?.getD []
  original.filter (fun e => e.1 ≠ "tarball" && e.1 ≠ "shasum" && e.1 ≠ "integrity") ++
    [("tarball", .str (tarballUrl base package.name versionRow.version
      (fileRow.map PackageFile.filename)))] ++
    distText "shasum" (fileRow.bind PackageFile.sha1) (Json.get original "shasum") ++
    distText "integrity" (fileRow.bind PackageFile.integrity) (Json.get original "integrity")

/-! ## Requests -/

/-- `path.replace("%2F", "/")`, for either case of the last digit. -/
def unescapeSlash (digit : Char) : List Char → List Char
  | '%' :: '2' :: c :: rest =>
    if c = digit then '/' :: unescapeSlash digit rest
    else '%' :: unescapeSlash digit ('2' :: c :: rest)
  | c :: rest => c :: unescapeSlash digit rest
  | [] => []

/-- `npm_path_to_name`. -/
def npmPathToName (path : String) : String :=
  String.ofList (unescapeSlash 'f' (unescapeSlash 'F' path.toList))

/-- `path.strip("/")`. -/
def stripSlashes (path : List Char) : List Char :=
  ((path.dropWhile (· = '/')).reverse.dropWhile (· = '/')).reverse

/-- `split_package_path`: the package, and the version or tag if one is asked for. -/
def splitPackagePath (path : String) : Option (String × Option String) :=
  let segments := ((npmPathToName (String.ofList (stripSlashes path.toList))).toList.splitOn '/')
  let segments := (segments.filter (· ≠ [])).map String.ofList
  let name? : Option (String × List String) := match segments with
    | [] => none
    | first :: rest =>
      if first.toList.head? = some '@' then match rest with
        | [] => none
        | second :: rest => some (first ++ "/" ++ second, rest)
      else some (first, rest)
  name?.bind fun (name, rest) => match rest with
    | [] => some (name, none)
    | [version] => some (name, some version)
    | _ => none

/-- The route of `get_tarball`. Its path parameter does not match a line break. -/
def matchTarball (path : List Char) : Option (String × String) :=
  let filename := (path.reverse.takeWhile (· ≠ '/')).reverse
  match path.take (path.length - filename.length) with
  | '/' :: dirs =>
    let name := dirs.take (dirs.length - 3)
    if filename ≠ [] ∧ dirs.drop (dirs.length - 3) = ['/', '-', '/'] ∧ '\n' ∉ name then
      some (String.ofList name, String.ofList filename)
    else none
  | _ => none

/-- The route parameters of a request for a URL under `base`. -/
def requestOf (base url : String) : Option (String × String) :=
  (unquote (String.ofList (url.toList.drop base.length))).bind fun path => matchTarball path.toList

/-! ## Rows -/

/-- Which row a query without an order hands out first: of a version's files, and of the rows
that `_locate_file_row` selects. -/
structure RowOrder where
  file : Picker PackageFile
  row : Picker (PackageVersion × PackageFile)

/-- The file rows of a package, each with its version's. -/
def fileRows (package : Package) : List (PackageVersion × PackageFile) :=
  package.versions.rows.flatMap fun v => v.files.rows.map fun f => (v, f)

/-- `_locate_file_row`, in the rows of one package. -/
def locateFileRow (order : RowOrder) (package : Package) (ecosystem : Ecosystem)
    (normalizedName : String) (filename version : Option String) :
    Option (PackageVersion × PackageFile) :=
  if package.ecosystem = ecosystem ∧ package.normalizedName = normalizedName then
    order.row.first ((fileRows package).filter fun r =>
      filename.all (r.2.filename = ·) && version.all (r.1.version = ·))
  else none

/-- The row that `get_tarball` works on. -/
def tarballRow (order : RowOrder) (package : Package) (packageName filename : String) :
    Option (PackageVersion × PackageFile) :=
  locateFileRow order package .npm (normalizeNpmName (npmPathToName packageName)) (some filename)
    none

inductive FileAnswer where
  | notFound
  | forbidden (reason : Option String)
  | file (row : PackageVersion × PackageFile)
  /-- The metadata of a file, in the file's place. -/
  | sidecar (row : PackageVersion × PackageFile)

/-- The policy check on a located file, up to where it is sent. -/
def answerFile (env : RegistryEnv) (ecosystem : Ecosystem) (normalizedName : String)
    (send : PackageVersion × PackageFile → FileAnswer)
    (located : Option (PackageVersion × PackageFile)) : Except Semver.ValueError FileAnswer :=
  match located with
  | none => .ok .notFound
  | some r => do
    let verdict ← evaluate env.policy env.engine (storedSubject ecosystem normalizedName r.1)
    return if verdict.allowed then send r else .forbidden verdict.reason

/-- `get_tarball`. -/
def getTarball (env : RegistryEnv) (order : RowOrder) (package : Package)
    (packageName filename : String) : Except Semver.ValueError FileAnswer :=
  answerFile env .npm (normalizeNpmName (npmPathToName packageName)) .file
    (tarballRow order package packageName filename)

/-! ## Names without an escaped slash -/

/-- What `npm_path_to_name` replaces. -/
def slashEscape (digit : Char) : List Char := ['%', '2', digit]

/-- A text that `npm_path_to_name` leaves alone. -/
def Plain (s : List Char) : Prop := ¬ slashEscape 'F' <:+: s ∧ ¬ slashEscape 'f' <:+: s

theorem unescapeSlash_of_plain {digit : Char} {s : List Char} (h : ¬ slashEscape digit <:+: s) :
    unescapeSlash digit s = s := by
  have htail : ∀ {c : Char} {t : List Char}, ¬ slashEscape digit <:+: c :: t →
      ¬ slashEscape digit <:+: t := fun h hsub => h (List.infix_cons_iff.mpr (.inr hsub))
  induction s using unescapeSlash.induct digit with
  | case1 rest _ => exact absurd ⟨[], rest, rfl⟩ h
  | case2 c rest hc ih => rw [unescapeSlash, if_neg hc, ih (htail h)]
  | case3 c rest hne ih =>
    rw [unescapeSlash, ih (htail h)]
    exact hne
  | case4 => rfl

/-- A character other than a slash that is written was read. -/
theorem unescapeSlash_eq_cons {digit c : Char} {s t : List Char} (hc : c ≠ '/')
    (h : unescapeSlash digit s = c :: t) : ∃ s', s = c :: s' ∧ t = unescapeSlash digit s' := by
  fun_cases unescapeSlash digit s with
  | case1 rest =>
    rw [unescapeSlash, if_pos rfl] at h
    exact absurd (List.cons.inj h).1.symm hc
  | case2 d rest hd =>
    rw [unescapeSlash, if_neg hd] at h
    obtain ⟨rfl, rfl⟩ := List.cons.inj h
    exact ⟨_, rfl, rfl⟩
  | case3 d rest hne =>
    rw [unescapeSlash] at h
    · obtain ⟨rfl, rfl⟩ := List.cons.inj h
      exact ⟨_, rfl, rfl⟩
    · exact hne
  | case4 => cases h

/-- No escape is made by replacing one. -/
theorem infix_of_unescapeSlash {digit c : Char} {s : List Char} (hc : c ≠ '/')
    (h : slashEscape c <:+: unescapeSlash digit s) : slashEscape c <:+: s ∧ c ≠ digit := by
  have htail : ∀ {d : Char} {t : List Char}, slashEscape c <:+: t ∧ c ≠ digit →
      slashEscape c <:+: d :: t ∧ c ≠ digit :=
    fun ⟨hsub, hne⟩ => ⟨List.infix_cons_iff.mpr (.inr hsub), hne⟩
  -- An escape at the front was read as it stands, and was not replaced.
  have hfront : ∀ {t : List Char}, (∀ r, '%' :: t ≠ '%' :: '2' :: digit :: r) →
      slashEscape c <+: '%' :: unescapeSlash digit t → slashEscape c <:+: '%' :: t ∧ c ≠ digit := by
    rintro t hkeep ⟨r, hr⟩
    obtain ⟨t', rfl, ht'⟩ := unescapeSlash_eq_cons (by decide) (List.cons.inj hr).2.symm
    obtain ⟨r', rfl, -⟩ := unescapeSlash_eq_cons hc ht'.symm
    refine ⟨⟨[], r', rfl⟩, ?_⟩
    rintro rfl
    exact hkeep r' rfl
  induction s using unescapeSlash.induct digit with
  | case1 rest ih =>
    rw [unescapeSlash, if_pos rfl] at h
    rcases List.infix_cons_iff.mp h with ⟨r, hr⟩ | h
    · exact absurd (List.cons.inj hr).1 (by decide)
    · exact htail (htail (htail (ih h)))
  | case2 d rest hd ih =>
    rw [unescapeSlash, if_neg hd] at h
    rcases List.infix_cons_iff.mp h with h | h
    · refine hfront (fun r hr => hd ?_) h
      exact (List.cons.inj (List.cons.inj (List.cons.inj hr).2).2).1
    · exact htail (ih h)
  | case3 d rest hne ih =>
    rw [unescapeSlash] at h
    · rcases List.infix_cons_iff.mp h with h | h
      · obtain ⟨r, hr⟩ := id h
        obtain rfl := (List.cons.inj hr).1
        refine hfront (fun r hr => ?_) h
        exact hne digit r rfl (List.cons.inj hr).2
      · exact htail (ih h)
    · exact hne
  | case4 =>
    obtain ⟨a, b, hab⟩ := h
    cases a <;> cases hab

theorem npmPathToName_plain (path : String) : Plain (npmPathToName path).toList := by
  unfold npmPathToName
  rw [String.toList_ofList]
  refine ⟨fun h => ?_, fun h => (infix_of_unescapeSlash (by decide) h).2 rfl⟩
  exact (infix_of_unescapeSlash (by decide) (infix_of_unescapeSlash (by decide) h).1).2 rfl

theorem npmPathToName_of_plain {name : String} (h : Plain name.toList) :
    npmPathToName name = name := by
  unfold npmPathToName
  rw [unescapeSlash_of_plain h.1, unescapeSlash_of_plain h.2, String.ofList_toList]

theorem Plain.of_piece {s t : List Char} (h : Plain t) (hsub : s <:+: t) : Plain s :=
  ⟨fun he => h.1 (he.trans hsub), fun he => h.2 (he.trans hsub)⟩

theorem infix_dropWhile {p : Char → Bool} {s pat : List Char}
    (hne : pat ≠ []) (hp : ∀ c ∈ pat, p c = false) (h : pat <:+: s) : pat <:+: s.dropWhile p := by
  induction s with
  | nil => exact h
  | cons c s ih =>
    by_cases hc : p c = true
    · rw [List.dropWhile_cons_of_pos hc]
      rcases List.infix_cons_iff.mp h with ⟨r, hr⟩ | h
      · obtain ⟨d, t, rfl⟩ := List.exists_cons_of_ne_nil hne
        rw [(List.cons.inj hr).1] at hp
        rw [hp c List.mem_cons_self] at hc
        cases hc
      · exact ih h
    · rwa [List.dropWhile_cons_of_neg hc]

/-- An escape has no blank at its ends, so stripping keeps it. -/
theorem Plain.of_strip {s : String} (h : Plain (strip s).toList) : Plain s.toList := by
  have hkeep : ∀ digit : Char, isSpace digit = false → slashEscape digit <:+: s.toList →
      slashEscape digit <:+: (strip s).toList := by
    intro digit hdigit hsub
    have hblank : ∀ c ∈ slashEscape digit, isSpace c = false := by
      intro c hc
      rcases List.mem_cons.mp hc with rfl | hc
      · decide
      rcases List.mem_cons.mp hc with rfl | hc
      · decide
      · rw [List.mem_singleton.mp hc]
        exact hdigit
    have hleft := infix_dropWhile (by simp [slashEscape]) hblank hsub
    have hright := infix_dropWhile (p := isSpace) (by simp [slashEscape])
      (fun c hc => hblank c (List.mem_reverse.mp hc)) (List.reverse_infix.mpr hleft)
    unfold strip
    rw [String.toList_ofList]
    simpa using List.reverse_infix.mpr hright
  exact ⟨fun he => h.1 (hkeep 'F' (by decide) he), fun he => h.2 (hkeep 'f' (by decide) he)⟩

theorem strip_piece (s : String) : (strip s).toList <:+: s.toList := by
  unfold strip
  rw [String.toList_ofList]
  have hright := (List.dropWhile_suffix isSpace (l := (s.toList.dropWhile isSpace).reverse)).isInfix
  have hleft := (List.dropWhile_suffix isSpace (l := s.toList)).isInfix
  have h := List.reverse_infix.mpr hright
  rw [List.reverse_reverse] at h
  exact h.trans hleft

theorem infix_intercalate {sep part : List Char} {parts : List (List Char)} (h : part ∈ parts) :
    part <:+: sep.intercalate parts := by
  induction parts with
  | nil => cases h
  | cons p rest ih =>
    cases rest with
    | nil =>
      rw [List.mem_singleton.mp h, List.intercalate_singleton]
    | cons q rest =>
      rw [List.intercalate_cons_cons]
      rcases List.mem_cons.mp h with rfl | h
      · exact ⟨[], sep ++ sep.intercalate (q :: rest), by simp⟩
      · exact (ih h).trans (List.suffix_append _ _).isInfix

theorem infix_of_mem_splitOn {a : Char} {s part : List Char} (h : part ∈ s.splitOn a) :
    part <:+: s := by
  have hsub : part <:+: [a].intercalate (s.splitOn a) := infix_intercalate h
  rwa [List.intercalate_splitOn] at hsub

/-- Two plain texts around a slash are a plain text. -/
theorem Plain.join_slash {s t : List Char} (hs : Plain s) (ht : Plain t) :
    Plain (s ++ '/' :: t) := by
  have hside : ∀ digit : Char, digit ≠ '/' → slashEscape digit <:+: s ++ '/' :: t →
      slashEscape digit <:+: s ∨ slashEscape digit <:+: t := by
    intro digit hdigit hsub
    rcases List.infix_append_iff.mp hsub with h | h | ⟨l, r, heq, hl, hr⟩
    · exact .inl h
    · rcases List.infix_cons_iff.mp h with ⟨r, hr⟩ | h
      · exact absurd (List.cons.inj hr).1 (by decide)
      · exact .inr h
    · cases r with
      | nil =>
        rw [heq, List.append_nil]
        exact .inl hl.isInfix
      | cons c r =>
        -- The slash would be one of the characters of the escape.
        obtain ⟨u, hu⟩ := hr
        have hmem : '/' ∈ slashEscape digit := by
          rw [heq, (List.cons.inj hu).1]
          simp
        simp [slashEscape, hdigit.symm] at hmem
  exact ⟨fun h => (hside 'F' (by decide) h).elim hs.1 ht.1,
    fun h => (hside 'f' (by decide) h).elim hs.2 ht.2⟩

/-- The package of a page is named by one segment of the path, or by two. -/
theorem splitPackagePath_segments {path name : String} {asked : Option String}
    (h : splitPackagePath path = some (name, asked)) : ∃ first : String, first ≠ "" ∧
      Plain first.toList ∧
      (name = first ∨ ∃ second : String, Plain second.toList ∧ name = first ++ "/" ++ second) := by
  unfold splitPackagePath at h
  dsimp only at h
  generalize hpath : (npmPathToName (String.ofList (stripSlashes path.toList))).toList = l at h
  have hplain : Plain l := hpath ▸ npmPathToName_plain _
  have hsegment : ∀ s ∈ ((l.splitOn '/').filter (· ≠ [])).map String.ofList,
      s ≠ "" ∧ Plain s.toList := by
    intro s hs
    obtain ⟨part, hpart, rfl⟩ := List.mem_map.mp hs
    obtain ⟨hpart, hne⟩ := List.mem_filter.mp hpart
    rw [String.toList_ofList]
    exact ⟨by simpa using hne, hplain.of_piece (infix_of_mem_splitOn hpart)⟩
  generalize ((l.splitOn '/').filter (· ≠ [])).map String.ofList = segments at h hsegment
  obtain ⟨⟨found, rest⟩, hfound, h⟩ := Option.bind_eq_some_iff.mp h
  have hname : name = found := by
    dsimp only at h
    split at h
    · exact (Prod.mk.inj (Option.some.inj h)).1.symm
    · exact (Prod.mk.inj (Option.some.inj h)).1.symm
    · cases h
  rw [hname]
  split at hfound
  · cases hfound
  · rename_i first others
    obtain ⟨hne, hfirst⟩ := hsegment first List.mem_cons_self
    refine ⟨first, hne, hfirst, ?_⟩
    split at hfound
    · split at hfound
      · cases hfound
      · rename_i second others
        obtain ⟨-, hsecond⟩ := hsegment second (List.mem_cons_of_mem _ List.mem_cons_self)
        exact .inr ⟨second, hsecond, (Prod.mk.inj (Option.some.inj hfound)).1.symm⟩
    · exact .inl (Prod.mk.inj (Option.some.inj hfound)).1.symm

theorem splitPackagePath_plain {path name : String} {asked : Option String}
    (h : splitPackagePath path = some (name, asked)) : Plain name.toList := by
  obtain ⟨first, -, hfirst, rfl | ⟨second, hsecond, rfl⟩⟩ := splitPackagePath_segments h
  · exact hfirst
  · rw [String.toList_append, String.toList_append, List.append_assoc]
    exact hfirst.join_slash hsecond

theorem splitPackagePath_ne {path name : String} {asked : Option String}
    (h : splitPackagePath path = some (name, asked)) : name ≠ "" := by
  obtain ⟨first, hne, -, rfl | ⟨second, -, rfl⟩⟩ := splitPackagePath_segments h
  · exact hne
  · intro hempty
    have hlen := congrArg String.length hempty
    rw [String.length_append, String.length_append] at hlen
    have hslash : "/".length = 1 := rfl
    have hzero : "".length = 0 := rfl
    omega

/-! ## Routes -/

theorem takeWhile_append_slash {s t : List Char} (h : '/' ∉ s) :
    (s ++ '/' :: t).takeWhile (· ≠ '/') = s := by
  rw [List.takeWhile_append_of_pos fun c hc => by
    have hne : c ≠ '/' := fun heq => h (heq ▸ hc)
    simpa using hne]
  simp

/-- A path is routed by its last segment, under a segment `-`. -/
theorem matchTarball_spec {path : List Char} {name filename : String} :
    matchTarball path = some (name, filename) ↔
      path = '/' :: (name.toList ++ ['/', '-', '/'] ++ filename.toList) ∧ filename ≠ "" ∧
        '/' ∉ filename.toList ∧ '\n' ∉ name.toList := by
  unfold matchTarball
  dsimp only
  constructor
  · intro h
    generalize hlast : (path.reverse.takeWhile (· ≠ '/')).reverse = last at h
    have hparts : path = (path.reverse.dropWhile (· ≠ '/')).reverse ++ last := by
      rw [← hlast, ← List.reverse_append, List.takeWhile_append_dropWhile, List.reverse_reverse]
    have hslash : '/' ∉ last := fun hmem => by
      rw [← hlast, List.mem_reverse] at hmem
      simpa using List.mem_takeWhile_imp hmem
    split at h
    · rename_i dirs hdirs
      split at h
      · rename_i hcond
        obtain ⟨hne, hdash, hline⟩ := hcond
        obtain ⟨rfl, rfl⟩ := Prod.mk.inj (Option.some.inj h)
        have hpath : path = '/' :: dirs ++ last := by
          conv_lhs => rw [hparts]
          rw [← hdirs]
          congr 1
          conv_rhs => rw [hparts]
          rw [List.length_append, Nat.add_sub_cancel, List.take_left]
        rw [String.toList_ofList, String.toList_ofList, ← hdash, List.take_append_drop]
        exact ⟨hpath, fun h => hne (by simpa using h), hslash, hline⟩
      · cases h
    · cases h
  · rintro ⟨hpath, hne, hslash, hline⟩
    have hlast : (path.reverse.takeWhile (· ≠ '/')).reverse = filename.toList := by
      rw [hpath]
      have hrev : ('/' :: (name.toList ++ ['/', '-', '/'] ++ filename.toList)).reverse =
          filename.toList.reverse ++ '/' :: ('-' :: '/' :: (name.toList.reverse ++ ['/'])) := by
        simp
      rw [hrev, takeWhile_append_slash (by simpa using hslash), List.reverse_reverse]
    have htake : path.take (path.length - filename.toList.length) =
        '/' :: (name.toList ++ ['/', '-', '/']) := by
      rw [hpath, ← List.cons_append, List.length_append, Nat.add_sub_cancel, List.take_left]
    have hlen : (name.toList ++ ['/', '-', '/']).length - 3 = name.toList.length := by simp
    rw [hlast, htake]
    simp only
    rw [hlen, List.take_left, List.drop_left, if_pos ⟨by simpa using hne, rfl, hline⟩,
      String.ofList_toList, String.ofList_toList]

/-- The URL of a file reads back as the package's name and the file's. -/
theorem unquote_tarballUrl (base packageName version : String) (filename : Option String) :
    unquote (String.ofList
      ((tarballUrl base packageName version filename).toList.drop base.length)) =
      some (String.ofList ('/' :: (packageName.toList ++ ['/', '-', '/'] ++
        (addressedName packageName version filename).toList))) := by
  have hbase : (tarballUrl base packageName version filename).toList.drop base.length =
      ('/' :: (packageName.toList ++ ['/', '-', '/'])).flatMap quotePathChar ++
        (addressedName packageName version filename).toList.flatMap quoteChar := by
    unfold tarballUrl quote
    rw [String.append_assoc, String.append_assoc, String.append_assoc, String.toList_append,
      ← String.length_toList, List.drop_left, String.toList_append, String.toList_append,
      String.toList_append, quotePath_toList, String.toList_ofList, List.flatMap_cons,
      List.flatMap_append]
    simp [quotePathChar]
    rfl
  rw [hbase, unquote_path]
  rfl

end Minireg
