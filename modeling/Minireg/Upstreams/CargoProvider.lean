import Minireg.Core.Quote
import Minireg.Lib.Templates
import Minireg.Py.Raise

/-!
# Crates and where their downloads are

`download_url` renders the `dl` template of a Cargo registry for one version. `specifiedUrl` is
what the registry specification says of such a template, and `downloadUrl_substitutes` what the
code makes of it: both prefix markers are built from the lower case of the name.
-/

namespace Minireg.CargoProvider

open Py Lib.Templates

/-! ## Index paths -/

section Paths

variable (cm : CaseMap)

/-- The shards of a name. -/
def shards (name : List Char) : List Char :=
  match name with
  | [_] => ['1']
  | [_, _] => ['2']
  | [a, _, _] => ['3', '/', a]
  | _ => name.take 2 ++ '/' :: (name.drop 2).take 2

/-- `cargo_index_prefix`. -/
def cargoIndexPrefix (name : String) : Except String (List Char) :=
  let lowered := (normalizeCargoName cm name).toList
  if lowered = [] then .error "crate name cannot be empty" else .ok (shards lowered)

/-- `cargo_index_path`. -/
def cargoIndexPath (name : String) : Except String (List Char) :=
  (cargoIndexPrefix cm name).map fun directory =>
    directory ++ '/' :: (normalizeCargoName cm name).toList

end Paths

/-! ## Download templates -/

/-- `_DL_MARKERS`. -/
def dlMarkers : List (List Char) :=
  ["{crate}".toList, "{version}".toList, "\x7bprefix\x7d".toList, "\x7blowerprefix\x7d".toList,
   "{sha256-checksum}".toList]

/-- `s.rstrip(c)`. -/
def rstrip (c : Char) (s : List Char) : List Char := (s.reverse.dropWhile (· == c)).reverse

/-- `s.rsplit(c, 1)[0]`. -/
def beforeLast (c : Char) (s : List Char) : List Char :=
  if c ∈ s then ((s.reverse.dropWhile (· ≠ c)).drop 1).reverse else s

def hasMarker (template : List Char) : Bool := dlMarkers.any fun marker => hasSub marker template

section Urls

variable (cm : CaseMap)

/-- `CargoProvider.download_url`. -/
def downloadUrl (dlTemplate name version : String) (cksum : Option String) :
    Except String String := do
  let base := rstrip '/' dlTemplate.toList
  if hasMarker base = false then
    return String.ofList base ++ "/" ++ quote name ++ "/" ++ quote version ++ "/download"
  let lowered := (normalizeCargoName cm name).toList
  let directory := beforeLast '/' (← cargoIndexPath cm name)
  return String.ofList <|
    replace "{lowername}".toList lowered <|
    replace "{sha256-checksum}".toList (cksum.getD "").toList <|
    replace "\x7bprefix\x7d".toList directory <|
    replace "\x7blowerprefix\x7d".toList directory <|
    replace "{version}".toList version.toList <|
    replace "{crate}".toList name.toList base

/-- What the registry specification says: the markers at once, and the prefix of the name as it
is written. -/
def specifiedUrl (dlTemplate name version cksum : String) : String :=
  if hasMarker dlTemplate.toList then
    String.ofList <| substitute
      [("{crate}".toList, name.toList), ("{version}".toList, version.toList),
       ("\x7blowerprefix\x7d".toList, shards (cm.lower name).toList),
       ("\x7bprefix\x7d".toList, shards name.toList), ("{sha256-checksum}".toList, cksum.toList)]
      dlTemplate.toList
  else dlTemplate ++ "/" ++ name ++ "/" ++ version ++ "/download"

/-- The texts that `download_url` puts in the place of markers. -/
def urlTexts (name version cksum : String) : Texts Char :=
  let lowered := (normalizeCargoName cm name).toList
  [("{crate}".toList, name.toList), ("{version}".toList, version.toList),
   ("\x7blowerprefix\x7d".toList, shards lowered), ("\x7bprefix\x7d".toList, shards lowered),
   ("{sha256-checksum}".toList, cksum.toList), ("{lowername}".toList, lowered)]

end Urls

variable {cm : CaseMap} {name version : String}

theorem beforeLast_append {c : Char} {s t : List Char} (h : c ∉ t) :
    beforeLast c (s ++ c :: t) = s := by
  have hrest : (s ++ c :: t).reverse.dropWhile (· ≠ c) = c :: s.reverse := by
    rw [List.reverse_append, List.reverse_cons, List.append_assoc, List.dropWhile_append_of_pos]
    · simp
    · intro d hd
      have hne : d ≠ c := fun hdc => h (hdc ▸ List.mem_reverse.mp hd)
      simpa using hne
  unfold beforeLast
  rw [if_pos (List.mem_append_right _ List.mem_cons_self), hrest, List.drop_one, List.tail_cons,
    List.reverse_reverse]

theorem mem_shards {name : List Char} {c : Char} (h : c ∈ shards name) (hsep : c ≠ '/')
    (hdigit : c ≠ '1' ∧ c ≠ '2' ∧ c ≠ '3') : c ∈ name := by
  unfold shards at h
  split at h
  · exact absurd (List.mem_singleton.mp h) hdigit.1
  · exact absurd (List.mem_singleton.mp h) hdigit.2.1
  · simp only [List.mem_cons, List.not_mem_nil, or_false] at h
    rcases h with h | h | h
    · exact absurd h hdigit.2.2
    · exact absurd h hsep
    · exact h ▸ List.mem_cons_self
  · rcases List.mem_append.mp h with h | h
    · exact List.mem_of_mem_take h
    · rcases List.mem_cons.mp h with h | h
      · exact absurd h hsep
      · exact List.mem_of_mem_drop (List.mem_of_mem_take h)

theorem isMarker (body : String) {marker : String}
    (hmarker : marker.toList = '{' :: (body.toList ++ ['}']))
    (hbody : '{' ∉ body.toList ∧ '}' ∉ body.toList) : IsMarker '{' '}' marker.toList :=
  ⟨⟨body.toList, hmarker, hbody⟩, by decide⟩

/-- The texts are put in the place of markers. -/
theorem urlTexts_plain {cksum : String} (hname : '{' ∉ name.toList)
    (hlowered : '{' ∉ (normalizeCargoName cm name).toList) (hversion : '{' ∉ version.toList)
    (hcksum : '{' ∉ cksum.toList) : Plain '{' '}' (urlTexts cm name version cksum) where
  markers := by
    unfold urlTexts
    simp only [List.forall_mem_cons]
    exact ⟨isMarker "crate" (by decide) (by decide), isMarker "version" (by decide) (by decide),
      isMarker "lowerprefix" (by decide) (by decide), isMarker "prefix" (by decide) (by decide),
      isMarker "sha256-checksum" (by decide) (by decide),
      isMarker "lowername" (by decide) (by decide), fun e he => absurd he List.not_mem_nil⟩
  distinct := by
    change ["{crate}".toList, "{version}".toList, "\x7blowerprefix\x7d".toList, "\x7bprefix\x7d".toList,
      "{sha256-checksum}".toList, "{lowername}".toList].Nodup
    decide
  texts := by
    have hshards : '{' ∉ shards (normalizeCargoName cm name).toList := fun h =>
      hlowered (mem_shards h (by decide) (by decide))
    unfold urlTexts
    simp only [List.forall_mem_cons]
    exact ⟨hname, hversion, hshards, hshards, hcksum, hlowered, fun e he => absurd he List.not_mem_nil⟩

/-- What is before the last slash of an index path. -/
theorem beforeLast_cargoIndexPath (hname : normalizeCargoName cm name ≠ "")
    (hslash : '/' ∉ (normalizeCargoName cm name).toList) :
    (cargoIndexPath cm name).map (beforeLast '/') =
      .ok (shards (normalizeCargoName cm name).toList) := by
  have hne : (normalizeCargoName cm name).toList ≠ [] := by simpa using hname
  unfold cargoIndexPath cargoIndexPrefix
  rw [if_neg hne]
  exact congrArg Except.ok (beforeLast_append hslash)

/-- **The template of a registry.** Slashes at its end go first. Without a marker, the path of
the download is appended to it. With one, it is the substitution of its markers, both prefixes
built from the lower case of the name. -/
theorem downloadUrl_substitutes (cm : CaseMap) (template name version : String)
    (cksum : Option String) :
    (hasMarker (rstrip '/' template.toList) = false →
      downloadUrl cm template name version cksum =
        .ok (String.ofList (rstrip '/' template.toList) ++ "/" ++ quote name ++ "/" ++
          quote version ++ "/download")) ∧
    (hasMarker (rstrip '/' template.toList) = true →
      normalizeCargoName cm name ≠ "" → '/' ∉ (normalizeCargoName cm name).toList →
      (∀ text ∈ [name, normalizeCargoName cm name, version, cksum.getD ""], '{' ∉ text.toList) →
      unnested '{' '}' ("{lowername}".toList :: dlMarkers) (rstrip '/' template.toList) = true →
      downloadUrl cm template name version cksum =
        .ok (String.ofList (substitute (urlTexts cm name version (cksum.getD ""))
          (rstrip '/' template.toList)))) := by
  constructor
  · intro hmarker
    unfold downloadUrl
    rw [if_pos hmarker]
    rfl
  · intro hmarker hname hslash htexts hunnested
    simp only [List.forall_mem_cons] at htexts
    obtain ⟨hbrace, hlowered, hversion, hcksum, -⟩ := htexts
    have hplain : Plain '{' '}' (urlTexts cm name version (cksum.getD "")) :=
      urlTexts_plain hbrace hlowered hversion hcksum
    have hlisted : ∀ e ∈ urlTexts cm name version (cksum.getD ""),
        e.1 ∈ "{lowername}".toList :: dlMarkers := by
      unfold urlTexts
      simp only [List.forall_mem_cons]
      exact ⟨by decide, by decide, by decide, by decide, by decide, by decide,
        fun e he => absurd he List.not_mem_nil⟩
    rw [← foldl_replace hplain hlisted hunnested]
    obtain ⟨path, hpath, hdirectory⟩ := map_ok (beforeLast_cargoIndexPath hname hslash)
    have hsome : ¬ hasMarker (rstrip '/' template.toList) = false := by
      rw [hmarker]
      decide
    simp only [urlTexts]
    rw [← hdirectory]
    unfold downloadUrl
    rw [if_neg hsome, hpath]
    rfl

/-- For a name in lower case, and a template that ends in no slash and does not know
`{lowername}`, that is what the specification says. -/
theorem downloadUrl_specified {template cksum : String}
    (hmarker : hasMarker template.toList = true) (hend : rstrip '/' template.toList = template.toList)
    (hlower : cm.lower name = name) (hstrip : strip name = name) (hname : name ≠ "")
    (hslash : '/' ∉ name.toList)
    (htexts : ∀ text ∈ [name, version, cksum], '{' ∉ text.toList)
    (hunnested : unnested '{' '}' ("{lowername}".toList :: dlMarkers) template.toList = true)
    (hlowername : hasSub "{lowername}".toList template.toList = false) :
    downloadUrl cm template name version (some cksum) =
      .ok (specifiedUrl cm template name version cksum) := by
  have hnormal : normalizeCargoName cm name = name := by
    unfold normalizeCargoName
    rw [hstrip, hlower]
  simp only [List.forall_mem_cons] at htexts
  obtain ⟨hbrace, hversion, hcksum, -⟩ := htexts
  have hsubstitutes := (downloadUrl_substitutes cm template name version (some cksum)).2
  rw [hend, hnormal] at hsubstitutes
  have hplaces := hsubstitutes hmarker hname hslash (by
    simp only [List.forall_mem_cons]
    exact ⟨hbrace, hbrace, hversion, hcksum, fun e he => absurd he List.not_mem_nil⟩) hunnested
  have habsent : ∀ rest, rest <:+ template.toList → ¬ "{lowername}".toList <+: rest := by
    intro rest hrest hp
    have hfound : hasSub "{lowername}".toList template.toList = true :=
      List.any_eq_true.mpr ⟨rest, (List.mem_tails _ _).mpr hrest, List.isPrefixOf_iff_prefix.mpr hp⟩
    rw [hfound] at hlowername
    cases hlowername
  rw [hplaces]
  unfold specifiedUrl
  rw [if_pos hmarker, hlower]
  have htable : urlTexts cm name version cksum =
      [("{crate}".toList, name.toList), ("{version}".toList, version.toList),
       ("\x7blowerprefix\x7d".toList, shards name.toList), ("\x7bprefix\x7d".toList, shards name.toList),
       ("{sha256-checksum}".toList, cksum.toList)] ++ [("{lowername}".toList, name.toList)] := by
    unfold urlTexts
    rw [hnormal]
    rfl
  change Except.ok (String.ofList (substitute (urlTexts cm name version cksum) template.toList)) = _
  rw [htable, substitute_absent habsent]

/-- The specification builds the prefix marker from the name as it is written. -/
theorem downloadUrl_lower_prefix :
    downloadUrl .ascii "https://dl.test/\x7bprefix\x7d/{crate}" "Serde" "1.0.0" (some "") ≠
      .ok (specifiedUrl .ascii "https://dl.test/\x7bprefix\x7d/{crate}" "Serde" "1.0.0" "") := by
  decide +kernel

/-- A template with two markers. -/
theorem downloadUrl_substitutes_serde :
    downloadUrl .ascii "https://dl.test/\x7bprefix\x7d/{crate}-{version}.crate/" "serde" "1.0.0" none =
      .ok (String.ofList (substitute (urlTexts .ascii "serde" "1.0.0" "")
        (rstrip '/' "https://dl.test/\x7bprefix\x7d/{crate}-{version}.crate/".toList))) :=
  (downloadUrl_substitutes .ascii _ "serde" "1.0.0" none).2 (by decide +kernel)
    (by decide +kernel) (by decide +kernel) (by decide +kernel) (by decide +kernel)

end Minireg.CargoProvider
