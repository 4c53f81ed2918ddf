import Minireg.Core.Precedence
import Minireg.Core.SemverConverts
import Minireg.Services.NpmPublish

/-!
# The identity of a published version

A published version is accepted by one expression and read by another parser, and it is
stored, compared and printed as a string. Where the accepted strings are written in ASCII,
end without a line break and hold numbers that Python converts, each is the text of the
version it parses to: `published_identity_iff`.
-/

namespace Minireg.NpmPublish

open Py Semver

/-! ## The grammar -/

/-- An ASCII digit. -/
def IsDigit (c : Char) : Prop := '0' ≤ c ∧ c ≤ '9'

/-- `<numeric identifier>`: no leading zero. -/
def IsNumeric (s : List Char) : Prop :=
  s = ['0'] ∨ ∃ c t, s = c :: t ∧ '1' ≤ c ∧ c ≤ '9' ∧ ∀ d ∈ t, IsDigit d

/-- `<pre-release identifier>`: a number, or a text with something that is no digit. -/
def IsIdentifier (s : List Char) : Prop :=
  IsNumeric s ∨ (∀ c ∈ s, isAlnum c = true) ∧ ∃ c ∈ s, isLetter c = true

/-- `-` and the identifiers, where there are any. -/
def prereleaseText (ids : List (List Char)) : List Char :=
  if ids = [] then [] else '-' :: ['.'].intercalate ids

/-- A version of the semver 2.0.0 grammar, without build metadata. -/
def IsSemver (version : String) : Prop :=
  ∃ major minor patch ids, IsNumeric major ∧ IsNumeric minor ∧ IsNumeric patch ∧
    (∀ id ∈ ids, IsIdentifier id) ∧
      version.toList = dotted major minor patch ++ prereleaseText ids

theorem IsDigit.isDecimal {c : Char} (h : IsDigit c) : isDecimal c = true :=
  isDecimal_of_digit h.1 h.2

theorem IsNumeric.numeral {s : List Char} (h : IsNumeric s) : Numeral s := by
  rcases h with rfl | ⟨c, t, rfl, h₁, h₉, ht⟩
  · exact .inl rfl
  · exact .inr ⟨c, t, rfl, h₁, h₉, fun d hd => (ht d hd).isDecimal⟩

theorem IsNumeric.digits {s : List Char} (h : IsNumeric s) : ∀ c ∈ s, IsDigit c := by
  rcases h with rfl | ⟨c, t, rfl, h₁, h₉, ht⟩
  · exact List.forall_mem_singleton.mpr ⟨by decide, by decide⟩
  · exact List.forall_mem_cons.mpr ⟨⟨le_trans (by decide) h₁, h₉⟩, ht⟩

theorem isNumeric_of_numeral {s : List Char} (h : Numeral s) (hascii : ∀ c ∈ s, isDecimal c = true →
    IsDigit c) : IsNumeric s := by
  rcases h with rfl | ⟨c, t, rfl, h₁, h₉, ht⟩
  · exact .inl rfl
  · exact .inr ⟨c, t, rfl, h₁, h₉, fun d hd =>
      hascii d (List.mem_cons_of_mem c hd) (ht d hd)⟩

/-- An ASCII digit is no letter of an identifier. -/
theorem IsDigit.not_isLetter {c : Char} (h : IsDigit c) : isLetter c = false := by
  have h₉ : c.toNat ≤ 57 := h.2
  have h₀ : 48 ≤ c.toNat := h.1
  unfold isLetter
  have hlower : ¬ 'a' ≤ c := fun ha => absurd (show 97 ≤ c.toNat from ha) (by omega)
  have hupper : ¬ 'A' ≤ c := fun ha => absurd (show 65 ≤ c.toNat from ha) (by omega)
  have hhyphen : c ≠ '-' := by
    rintro rfl
    exact absurd h₀ (by decide)
  simp [hlower, hupper, hhyphen]

theorem IsDigit.isAlnum {c : Char} (h : IsDigit c) : isAlnum c = true := by
  unfold Semver.isAlnum
  simp [h.1, h.2]

/-- The characters `[0-9a-zA-Z-]` that are decimals are ASCII digits. -/
theorem isDigit_of_isAlnum {c : Char} (h : isAlnum c = true) (hdecimal : isDecimal c = true) :
    IsDigit c := by
  have hblocks : (decimalBlocks.all fun b => b == 48 || Nat.ble 0x660 b) = true := by decide
  have hrange := toNat_of_isAlnum h
  obtain ⟨d, hd⟩ := Option.isSome_iff_exists.mp hdecimal
  unfold decimal? at hd
  obtain ⟨b, hb, -⟩ := Option.map_eq_some_iff.mp hd
  have hin := List.find?_some hb
  simp only [Bool.and_eq_true, decide_eq_true_eq] at hin
  have hblock := List.all_eq_true.mp hblocks b (List.mem_of_find?_eq_some hb)
  simp only [Bool.or_eq_true, beq_iff_eq, Nat.ble_eq] at hblock
  have h₀ : 48 ≤ c.toNat := by omega
  have h₉ : c.toNat ≤ 57 := by omega
  exact ⟨h₀, h₉⟩

theorem isLetter_of_isAlnum {c : Char} (h : isAlnum c = true) (hdecimal : isDecimal c = false) :
    isLetter c = true := by
  unfold isAlnum at h
  rcases Bool.or_eq_true_iff.mp h with h | h
  · rw [Bool.and_eq_true, decide_eq_true_eq, decide_eq_true_eq] at h
    rw [isDecimal_of_digit h.1 h.2] at hdecimal
    cases hdecimal
  · exact h

/-- A text in ASCII matches as an identifier exactly where the grammar has it. -/
theorem isPreIdent_iff {s : List Char} (hascii : ∀ c ∈ s, isDecimal c = true → IsDigit c) :
    isPreIdent s = true ↔ IsIdentifier s := by
  unfold IsIdentifier
  constructor
  · intro h
    have hchars := (inPre_of_isPreIdent h).2
    unfold isPreIdent at h
    rcases Bool.or_eq_true_iff.mp h with h | h
    · split at h
      · next a rest hscan =>
        have hself : s = a := by
          rw [scanNum_append hscan, List.isEmpty_iff.mp h, List.append_nil]
        rw [hself] at hascii ⊢
        exact .inl (isNumeric_of_numeral (scanNum_numeral hscan) hascii)
      · cases h
    · split at h
      · next c rest hdrop =>
        rw [Bool.and_eq_true] at h
        have happend := List.takeWhile_append_dropWhile (p := isDecimal) (l := s)
        rw [hdrop] at happend
        refine .inr ⟨fun d hd => ?_, c, ?_, h.1⟩
        · rcases Bool.or_eq_true_iff.mp (hchars d hd) with hdecimal | halnum
          · exact (hascii d hd hdecimal).isAlnum
          · exact halnum
        · rw [← happend]
          exact List.mem_append_right _ List.mem_cons_self
      · cases h
  · unfold isPreIdent
    rw [Bool.or_eq_true]
    rintro (h | ⟨halnum, c, hc, hletter⟩)
    · have hscan := h.numeral.scan .nil
      rw [List.append_nil] at hscan
      exact .inl (by rw [hscan]; rfl)
    · refine .inr ?_
      have hnot : isDecimal c = false := by
        rw [Bool.eq_false_iff]
        intro hdecimal
        rw [(hascii c hc hdecimal).not_isLetter] at hletter
        cases hletter
      have hsub : ∀ d ∈ s.dropWhile isDecimal, isAlnum d = true :=
        fun d hd => halnum d ((List.dropWhile_suffix isDecimal).subset hd)
      rcases hdrop : s.dropWhile isDecimal with _ | ⟨d, rest⟩
      · rw [List.dropWhile_eq_nil_iff.mp hdrop c hc] at hnot
        cases hnot
      · rw [hdrop] at hsub
        have hfirst := isLetter_of_isAlnum (hsub d List.mem_cons_self)
          (stops_dropWhile isDecimal s d rest hdrop)
        dsimp only
        rw [hfirst, Bool.true_and, List.all_eq_true]
        exact fun e he => hsub e (List.mem_cons_of_mem _ he)

/-! ## Numbers print as they are written -/

theorem digitChar_of_isDigit {c : Char} (h : IsDigit c) : Nat.digitChar (c.toNat - 48) = c := by
  have h₀ : 48 ≤ c.toNat := h.1
  have h₉ : c.toNat ≤ 57 := h.2
  refine Char.toNat_inj.mp ?_
  rw [Nat.toNat_digitChar_of_lt_ten (by omega)]
  omega

/-- The digits after a number that is not zero are its last digits. -/
theorem toDigits_ofDigitChars {s : List Char} (h : ∀ c ∈ s, IsDigit c) {n : Nat} (hn : 0 < n) :
    Nat.toDigits 10 (Nat.ofDigitChars 10 s n) = Nat.toDigits 10 n ++ s := by
  induction s generalizing n with
  | nil => rw [Nat.ofDigitChars_nil, List.append_nil]
  | cons c s ih =>
    have hc := h c List.mem_cons_self
    have hvalue : c.toNat - '0'.toNat < 10 := by
      have h₉ : c.toNat ≤ 57 := hc.2
      exact Nat.lt_of_le_of_lt (Nat.sub_le_sub_right h₉ 48) (by decide)
    have hsplit := Nat.toDigits_append_toDigits (b := 10) (by decide) hn hvalue
    rw [Nat.toDigits_of_lt_base hvalue] at hsplit
    rw [Nat.ofDigitChars_cons, ih (fun d hd => h d (List.mem_cons_of_mem _ hd)) (by omega),
      ← hsplit, List.append_assoc, List.singleton_append]
    exact congrArg (Nat.toDigits 10 n ++ · :: s) (digitChar_of_isDigit hc)

theorem toDigits_pyInt {s : List Char} {n : Nat} (h : IsNumeric s) (hn : pyInt s = .ok n) :
    Nat.toDigits 10 n = s := by
  have hdigits := h.digits
  have hvalue : n = Nat.ofDigitChars 10 s 0 := by
    unfold pyInt at hn
    split at hn
    · cases hn
    · rw [← Except.ok.inj hn]
      refine foldl_decimal (fun c hc => ?_) 0
      have h₀ : 48 ≤ c.toNat := (hdigits c hc).1
      have h₉ : c.toNat ≤ 57 := (hdigits c hc).2
      simp [Char.isDigit, UInt32.le_iff_toNat_le, h₀, h₉]
  rw [hvalue]
  rcases h with rfl | ⟨c, t, rfl, h₁, h₉, ht⟩
  · decide
  · have hpos : 0 < c.toNat - '0'.toNat := by
      have h₁ : 49 ≤ c.toNat := h₁
      exact Nat.sub_pos_of_lt (Nat.lt_of_succ_le h₁)
    have hlt : c.toNat - '0'.toNat < 10 := by
      have h₉ : c.toNat ≤ 57 := h₉
      exact Nat.lt_of_le_of_lt (Nat.sub_le_sub_right h₉ 48) (by decide)
    rw [Nat.ofDigitChars_cons, Nat.mul_zero, Nat.zero_add, toDigits_ofDigitChars ht hpos,
      Nat.toDigits_of_lt_base hlt, List.singleton_append]
    exact congrArg (· :: t) (digitChar_of_isDigit ⟨le_trans (by decide) h₁, h₉⟩)

/-! ## Accepted versions -/

/-- The publish parser takes a document of the name with this version. -/
def Publishable (codec : Codec) (name version : String) : Prop :=
  ∃ doc request, parsePublishDocument codec doc name = .ok request ∧
    ∃ e ∈ request.versions, e.1 = version

/-- What the parser asks of a version, scanned: the groups, and a last line break or nothing. -/
structure Scans (version : String) (g : Groups) (rest : List Char) : Prop where
  scan : scanVersion version.toList = some (g, rest)
  rest : rest = [] ∨ rest = ['\n']
  build : g.build = none

theorem Scans.spelled {version : String} {g : Groups} {rest : List Char}
    (h : Scans version g rest) : g.Spelled := scanVersion_spelled h.scan

theorem plus_mem_text {g : Groups} {s : List Char} (h : g.build = some s) : '+' ∈ g.text := by
  unfold Groups.text
  rw [h]
  exact List.mem_append_right _ List.mem_cons_self

/-- No character before the build metadata is a plus. -/
theorem plus_not_mem_text {g : Groups} (h : g.Spelled) (hbuild : g.build = none) :
    '+' ∉ g.text := by
  have hnumeral (a : List Char) (ha : Numeral a) : '+' ∉ a := fun hmem =>
    absurd (ha.digits.2 '+' hmem) (by decide)
  unfold Groups.text dotted
  rw [hbuild]
  simp only [buildText, List.append_nil, List.mem_append, List.mem_cons, not_or]
  refine ⟨⟨⟨hnumeral _ h.major, by decide, hnumeral _ h.minor⟩, by decide, hnumeral _ h.patch⟩, ?_⟩
  rcases hpre : g.pre with _ | s
  · exact List.not_mem_nil
  · intro hmem
    rcases List.mem_cons.mp hmem with heq | hmem
    · exact absurd heq (by decide)
    · exact absurd ((h.pre s hpre).2 '+' hmem) (by decide)

theorem scans_iff (version : String) :
    (∃ g rest, Scans version g rest) ↔
      isValidSemver version = true ∧ '+' ∉ version.toList := by
  unfold isValidSemver
  constructor
  · rintro ⟨g, rest, h⟩
    have happend := scanVersion_append h.scan
    refine ⟨?_, fun hmem => ?_⟩
    · rw [h.scan]
      dsimp only
      rcases h.rest with hrest | hrest <;> simp [hrest]
    · rw [happend] at hmem
      rcases List.mem_append.mp hmem with hmem | hmem
      · exact plus_not_mem_text h.spelled h.build hmem
      · rcases h.rest with rfl | rfl
        · exact List.not_mem_nil hmem
        · exact absurd (List.mem_singleton.mp hmem) (by decide)
  · rintro ⟨hvalid, hplus⟩
    split at hvalid
    · next g rest hscan =>
      refine ⟨g, rest, hscan, by simpa using hvalid, ?_⟩
      rcases hbuild : g.build with _ | s
      · rfl
      · refine absurd ?_ hplus
        rw [scanVersion_append hscan]
        exact List.mem_append_left _ (plus_mem_text hbuild)
    · cases hvalid

/-- **The publish parser takes a version** exactly where its expression matches it without
build metadata. -/
theorem publishable_iff {codec : Codec} {name : String}
    (hname : npmNameError codec.caseMap name = none) (version : String) :
    Publishable codec name version ↔ ∃ g rest, Scans version g rest := by
  rw [scans_iff]
  constructor
  · rintro ⟨doc, request, hparse, e, he, rfl⟩
    exact (parsePublishDocument_versions hparse).2 e he
  · rintro ⟨hvalid, hplus⟩
    have hne : name ≠ "" := by
      rintro rfl
      cases hname
    refine ⟨.obj [("name", .str name), ("versions", .obj [(version, .obj [])])],
      { name := name, versions := [(version, [])], intent := .deprecate }, ?_,
      (version, []), List.mem_singleton_self _, rfl⟩
    have hdocument : documentName [("name", .str name), ("versions", .obj [(version, .obj [])])]
        name = .str name := by
      unfold documentName
      simp [Json.get, Json.truthy, hne]
    have hcheck : checkVersion codec name version (.obj []) = .ok [] := by
      unfold checkVersion
      simp [hvalid, hplus, Json.get]
    unfold parsePublishDocument
    dsimp only
    rw [hdocument]
    simp only [hne, if_false, ne_eq, not_true_eq_false, hname, documentVersions]
    have hversions : [(version, Json.obj [])].mapM (m := Result)
        (fun e => (checkVersion codec name e.1 e.2).map fun fields => (e.1, fields)) =
          .ok [(version, [])] := by
      rw [List.mapM_cons, hcheck, List.mapM_nil]
      rfl
    have hget (key : String) (h : key ≠ "name") (h' : key ≠ "versions") : Json.get
        [("name", .str name), ("versions", .obj [(version, .obj [])])] key = .null := by
      simp [Json.get, List.lookup_cons, beq_eq_false_iff_ne.mpr h, beq_eq_false_iff_ne.mpr h']
    have hdocumentVersions : Json.get
        [("name", .str name), ("versions", .obj [(version, .obj [])])] "versions" =
          .obj [(version, .obj [])] := by
      simp [Json.get, List.lookup_cons]
    rw [hdocumentVersions, hget "dist-tags" (by decide) (by decide),
      hget "_attachments" (by decide) (by decide), hget "description" (by decide) (by decide)]
    change (do
      let versions ← [(version, Json.obj [])].mapM (m := Result)
        (fun e => (checkVersion codec name e.1 e.2).map fun fields => (e.1, fields))
      return _ : Result PublishRequest) = _
    rw [hversions]
    rfl

/-! ## What a version is printed as -/

/-- Every digit of the text is an ASCII digit. -/
def Ascii (s : List Char) : Prop := ∀ c ∈ s, isDecimal c = true → IsDigit c

theorem identText_of_parse {part : List Char} {id : Ident} (hpart : isPreIdent part = true)
    (hascii : Ascii part) (h : parseIdent part = .ok id) : id.text.toList = part := by
  unfold parseIdent at h
  split at h
  · next hdecimal =>
    obtain ⟨n, hn, rfl⟩ := map_ok h
    have hnumeric : IsNumeric part := by
      rcases (isPreIdent_iff hascii).mp hpart with hnumeric | ⟨-, c, hc, hletter⟩
      · exact hnumeric
      · rw [(hascii c hc (List.all_eq_true.mp hdecimal c hc)).not_isLetter] at hletter
        cases hletter
    rw [Ident.toList_text]
    exact toDigits_pyInt hnumeric hn
  · cases h
    exact String.toList_ofList

theorem subset_intercalate {sep part : List Char} {l : List (List Char)} (h : part ∈ l) :
    part ⊆ sep.intercalate l := by
  induction l with
  | nil => cases h
  | cons first l ih =>
    cases l with
    | nil =>
      obtain rfl := List.mem_singleton.mp h
      simp
    | cons second l =>
      rw [List.intercalate_cons_cons]
      rcases List.mem_cons.mp h with rfl | h
      · exact fun c hc => List.mem_append_left _ (List.mem_append_left _ hc)
      · exact fun c hc => List.mem_append_right _ (ih h hc)

theorem mem_of_mem_splitOn {s part : List Char} (h : part ∈ s.splitOn '.') : part ⊆ s := by
  have hsub : part ⊆ ['.'].intercalate (s.splitOn '.') := subset_intercalate h
  rwa [List.intercalate_splitOn] at hsub

theorem identTexts_of_parse {parts : List (List Char)} {ids : List Ident}
    (h : parts.mapM parseIdent = .ok ids)
    (hparts : ∀ part ∈ parts, isPreIdent part = true ∧ Ascii part) :
    ids.map (·.text.toList) = parts := by
  have hall := mapM_ok h
  clear h
  induction hall with
  | nil => rfl
  | @cons part id parts ids hid _ ih =>
    obtain ⟨⟨hpart, hascii⟩, hrest⟩ := List.forall_mem_cons.mp hparts
    rw [List.map_cons, identText_of_parse hpart hascii hid, ih hrest]

/-- **A version prints as the ASCII text it is parsed from.** -/
theorem groups_of_parse {g : Groups} (hg : g.Spelled) (hascii : Ascii g.text) {v : SemVer}
    (h : g.toSemVer = .ok v) : v.groups = g := by
  have hsub (a : List Char) (ha : a ⊆ g.text) : Ascii a := fun c hc => hascii c (ha hc)
  have htext := Groups.text_append g []
  rw [List.append_nil] at htext
  unfold Groups.toSemVer at h
  obtain ⟨major, hmajor, h⟩ := bind_ok h
  obtain ⟨minor, hminor, h⟩ := bind_ok h
  obtain ⟨patch, hpatch, h⟩ := bind_ok h
  obtain ⟨prerelease, hprerelease, h⟩ := bind_ok h
  obtain rfl := Except.ok.inj h
  have hmajor' := toDigits_pyInt (isNumeric_of_numeral hg.major (hsub _ fun c hc => by
    rw [htext]; simp [hc])) hmajor
  have hminor' := toDigits_pyInt (isNumeric_of_numeral hg.minor (hsub _ fun c hc => by
    rw [htext]; simp [hc])) hminor
  have hpatch' := toDigits_pyInt (isNumeric_of_numeral hg.patch (hsub _ fun c hc => by
    rw [htext]; simp [hc])) hpatch
  have hbuild : (g.build.map String.ofList).map String.toList = g.build := by
    rw [Option.map_map]
    rcases g.build with _ | s
    · rfl
    · exact congrArg some String.toList_ofList
  have hpre : (if prerelease = [] then none else some (identsText prerelease)) = g.pre := by
    rcases hsome : g.pre with _ | s
    · rw [hsome] at hprerelease
      cases hprerelease
      rfl
    · rw [hsome] at hprerelease
      have hparts := List.all_eq_true.mp (hg.pre s hsome).1
      have hne : s ≠ [] := by
        rintro rfl
        exact absurd (hparts [] List.mem_cons_self) (by decide)
      have hs : s ⊆ g.text := fun c hc => by
        rw [htext, hsome]
        simp [preText, hc]
      rw [splitPrerelease_eq hne] at hprerelease
      have htexts := identTexts_of_parse hprerelease fun part hpart =>
        ⟨hparts part hpart, hsub part fun c hc => hs (mem_of_mem_splitOn hpart hc)⟩
      have hids : prerelease ≠ [] := by
        rintro rfl
        exact List.splitOn_ne_nil '.' s htexts.symm
      rw [if_neg hids, identsText, htexts, List.intercalate_splitOn]
  unfold SemVer.groups
  dsimp only
  rw [hmajor', hminor', hpatch', hbuild, hpre]

/-- The version is written in ASCII, without a line break, and with numbers that Python
converts. -/
structure Plainly (version : String) : Prop where
  ascii : Ascii version.toList
  newline : version.toList.getLast? ≠ some '\n'
  converts : ∀ g rest, scanVersion version.toList = some (g, rest) → g.Converts

/-- The version parses, and prints as it is written. -/
def PrintsBack (version : String) : Prop := ∃ v, Parses version v ∧ v.text = version

variable {version : String} {g : Groups} {rest : List Char}

/-- A version without a line break at its end is the text of its groups. -/
theorem Scans.text (h : Scans version g rest) (hnewline : version.toList.getLast? ≠ some '\n') :
    version.toList = g.text := by
  have happend := scanVersion_append h.scan
  rcases h.rest with rfl | rfl
  · rw [happend, List.append_nil]
  · rw [happend, List.getLast?_append] at hnewline
    exact absurd rfl hnewline

/-- A version that is the text of its groups parses to what they spell. -/
theorem parse_text (hg : g.Spelled) (htext : version.toList = g.text) :
    SemVer.parse version = g.toSemVer.map some := by
  have hscan := scanVersion_text hg (.inl rfl)
  rw [List.append_nil] at hscan
  unfold SemVer.parse matchFullVersion
  rw [htext, stripChars_eq_self (text_isSpace hg), dropWhile_eq_self_of_stops (text_stops hg),
    hscan]
  rfl

theorem Scans.printsBack (h : Scans version g rest) (hplain : Plainly version) :
    PrintsBack version := by
  have htext := h.text hplain.newline
  have hascii := hplain.ascii
  rw [htext] at hascii
  obtain ⟨v, hv⟩ := ((g.returns_iff).mpr (hplain.converts g rest h.scan)).exists_ok
  refine ⟨v, ?_, String.toList_inj.mp ?_⟩
  · unfold Parses
    rw [parse_text h.spelled htext, hv]
    rfl
  · rw [(h.spelled.printable hv).toList_text, groups_of_parse h.spelled hascii hv, htext]

theorem IsIdentifier.isAlnum {s : List Char} (h : IsIdentifier s) : ∀ c ∈ s, isAlnum c = true := by
  rcases h with h | ⟨h, -⟩
  · exact fun c hc => (h.digits c hc).isAlnum
  · exact h

/-- The characters of the grammar. -/
def inGrammar (c : Char) : Bool := isAlnum c || c == '.'

theorem ascii_of_inGrammar {s : List Char} (h : ∀ c ∈ s, inGrammar c = true) : Ascii s := by
  intro c hc hdecimal
  rcases Bool.or_eq_true_iff.mp (h c hc) with halnum | hdot
  · exact isDigit_of_isAlnum halnum hdecimal
  · rw [beq_iff_eq.mp hdot] at hdecimal
    exact absurd hdecimal (by decide)

theorem prereleaseText_chars {ids : List (List Char)} (h : ∀ id ∈ ids, IsIdentifier id) :
    ∀ c ∈ prereleaseText ids, inGrammar c = true := by
  unfold prereleaseText
  split
  · nofun
  · refine List.forall_mem_cons.mpr ⟨by decide, fun c hc => ?_⟩
    rcases mem_intercalate hc with hc | ⟨id, hid, hc⟩
    · rw [List.mem_singleton.mp hc]
      decide
    · unfold inGrammar
      rw [(h id hid).isAlnum c hc, Bool.true_or]

theorem IsSemver.chars (h : IsSemver version) : ∀ c ∈ version.toList, inGrammar c = true := by
  obtain ⟨major, minor, patch, ids, hmajor, hminor, hpatch, hids, htext⟩ := h
  have hnumeric (s : List Char) (hs : IsNumeric s) : ∀ c ∈ s, inGrammar c = true := fun c hc => by
    unfold inGrammar
    rw [(hs.digits c hc).isAlnum, Bool.true_or]
  rw [htext]
  unfold dotted
  simp only [List.forall_mem_append, List.forall_mem_cons]
  exact ⟨⟨⟨hnumeric _ hmajor, by decide, hnumeric _ hminor⟩, by decide, hnumeric _ hpatch⟩,
    prereleaseText_chars hids⟩

/-- A version of the grammar is written in ASCII, and without a line break. -/
theorem IsSemver.ascii (h : IsSemver version) :
    Ascii version.toList ∧ version.toList.getLast? ≠ some '\n' := by
  refine ⟨ascii_of_inGrammar h.chars, fun hlast => ?_⟩
  exact absurd (h.chars '\n' (List.mem_of_getLast? hlast)) (by decide)

/-- The groups of a version of the grammar. -/
def writtenGroups (major minor patch : List Char) (ids : List (List Char)) : Groups where
  major := major
  minor := minor
  patch := patch
  pre := if ids = [] then none else some (['.'].intercalate ids)
  build := none

/-- What the grammar has, the expression matches. -/
theorem IsSemver.scans (h : IsSemver version) : ∃ g, Scans version g [] := by
  obtain ⟨major, minor, patch, ids, hmajor, hminor, hpatch, hids, htext⟩ := h
  have hpre (hne : ids ≠ []) : (['.'].intercalate ids).splitOn '.' = ids := by
    refine List.splitOn_intercalate '.' (fun id hid hdot => ?_) hne
    exact absurd ((hids id hid).isAlnum '.' hdot) (by decide)
  have hspelled : (writtenGroups major minor patch ids).Spelled := by
    refine ⟨hmajor.numeral, hminor.numeral, hpatch.numeral, fun s hs => ?_, nofun⟩
    obtain ⟨hne, hs⟩ := Option.ite_none_left_eq_some.mp hs
    obtain rfl := Option.some.inj hs
    refine ⟨?_, fun c hc => ?_⟩
    · rw [hpre hne, List.all_eq_true]
      intro id hid
      have halnum := (hids id hid).isAlnum
      exact (isPreIdent_iff fun c hc => isDigit_of_isAlnum (halnum c hc)).mpr (hids id hid)
    · unfold inPre
      rcases mem_intercalate hc with hc | ⟨id, hid, hc⟩
      · rw [List.mem_singleton.mp hc]
        decide
      · rw [(hids id hid).isAlnum c hc, Bool.or_true, Bool.true_or]
  have hwritten : version.toList = (writtenGroups major minor patch ids).text := by
    rw [htext]
    unfold writtenGroups Groups.text prereleaseText
    dsimp only
    split <;> simp [preText, buildText]
  refine ⟨writtenGroups major minor patch ids, ?_, .inl rfl, rfl⟩
  have hscan := scanVersion_text hspelled (.inl rfl)
  rwa [List.append_nil, ← hwritten] at hscan

/-- A plainly written version is one of the grammar. -/
theorem Scans.isSemver (h : Scans version g rest) (hplain : Plainly version) :
    IsSemver version := by
  have htext := h.text hplain.newline
  have hascii := hplain.ascii
  have hg := h.spelled
  have happend := Groups.text_append g []
  rw [List.append_nil, h.build] at happend
  rw [htext, happend] at hascii
  have hnumeric (a : List Char) (ha : Numeral a) (hsub : ∀ c ∈ a, c ∈ g.major ++ '.' ::
      (g.minor ++ '.' :: (g.patch ++ (preText g.pre ++ (buildText none ++ []))))) : IsNumeric a :=
    isNumeric_of_numeral ha fun c hc => hascii c (hsub c hc)
  have hmajor := hnumeric _ hg.major fun c hc => by simp [hc]
  have hminor := hnumeric _ hg.minor fun c hc => by simp [hc]
  have hpatch := hnumeric _ hg.patch fun c hc => by simp [hc]
  rcases hpre : g.pre with _ | s
  · refine ⟨g.major, g.minor, g.patch, [], hmajor, hminor, hpatch, nofun, ?_⟩
    rw [htext, happend, hpre]
    simp [dotted, prereleaseText, preText, buildText]
  · refine ⟨g.major, g.minor, g.patch, s.splitOn '.', hmajor, hminor, hpatch, ?_, ?_⟩
    · intro id hid
      refine (isPreIdent_iff fun c hc => hascii c ?_).mp (List.all_eq_true.mp (hg.pre s hpre).1 id hid)
      rw [hpre]
      simp [preText, mem_of_mem_splitOn hid hc]
    · rw [htext, happend, hpre]
      simp [dotted, prereleaseText, preText, buildText, List.splitOn_ne_nil]

/-! ## One identity -/

/-- Two versions of equal precedence. -/
def EqualPrecedence (s t : String) : Prop := ∃ v w, Parses s v ∧ Parses t w ∧ v.equivalent w = true

/-- The published versions of a name have one identity, as far as two strings go. -/
structure OneIdentity (codec : Codec) (name s t : String) : Prop where
  printsBack : ∀ u ∈ [s, t], Publishable codec name u → PrintsBack u
  grammar : ∀ u ∈ [s, t], (Publishable codec name u ↔ IsSemver u)
  unique : Publishable codec name s → Publishable codec name t → EqualPrecedence s t → s = t

/-- A version of the grammar that prints back is plainly written. -/
theorem IsSemver.plainly (h : IsSemver version) (hprints : PrintsBack version) :
    Plainly version := by
  obtain ⟨hascii, hnewline⟩ := h.ascii
  obtain ⟨g, hscans⟩ := h.scans
  refine ⟨hascii, hnewline, fun g' rest' hscan => ?_⟩
  obtain ⟨rfl, rfl⟩ := Prod.mk.inj (Option.some.inj (hscan.symm.trans hscans.scan))
  obtain ⟨v, hv, -⟩ := hprints
  unfold Parses at hv
  rw [parse_text hscans.spelled (hscans.text hnewline)] at hv
  obtain ⟨w, hw, -⟩ := map_ok hv
  exact g'.returns_iff.mp (Semver.returns_iff.mpr ⟨w, hw⟩)

/-- Without a plus in it, the text of a version shows no build metadata. -/
theorem text_dropBuild {v : SemVer} (h : '+' ∉ v.text.toList) :
    v.text = ({ v with build := none } : SemVer).text := by
  unfold SemVer.text at h ⊢
  rcases hbuild : v.build with _ | build
  · rfl
  · rw [hbuild] at h
    dsimp only at h ⊢
    split
    · rfl
    · next hne =>
      rw [if_neg hne] at h
      refine absurd ?_ h
      simp

/-- Accepted versions that print back are equal where their precedence is. -/
theorem PrintsBack.eq_of_equal {s t : String} (hs : PrintsBack s) (ht : PrintsBack t)
    (hplus : '+' ∉ s.toList ∧ '+' ∉ t.toList) (h : EqualPrecedence s t) : s = t := by
  obtain ⟨v, hv, rfl⟩ := hs
  obtain ⟨w, hw, rfl⟩ := ht
  obtain ⟨v', w', hv', hw', hequal⟩ := h
  obtain rfl := Option.some.inj (Except.ok.inj (hv.symm.trans hv'))
  obtain rfl := Option.some.inj (Except.ok.inj (hw.symm.trans hw'))
  have hkey : v.key = w.key := of_decide_eq_true hequal
  calc v.text = ({ v with build := none } : SemVer).text := text_dropBuild hplus.1
    _ = ({ w with build := none } : SemVer).text := by rw [(SemVer.key_inj v w).mp hkey]
    _ = w.text := (text_dropBuild hplus.2).symm

/-- **Published versions have one identity** where they are plainly written, and only
there. -/
theorem published_identity_iff (codec : Codec) (name : String)
    (hname : npmNameError codec.caseMap name = none) (s t : String) :
    OneIdentity codec name s t ↔ ∀ u ∈ [s, t], Publishable codec name u → Plainly u := by
  constructor
  · rintro ⟨hprints, hgrammar, -⟩ u hu hpublishable
    exact ((hgrammar u hu).mp hpublishable).plainly (hprints u hu hpublishable)
  · intro hplain
    have hprints (u : String) (hu : u ∈ [s, t]) (hpublishable : Publishable codec name u) :
        PrintsBack u := by
      obtain ⟨g, rest, hscans⟩ := (publishable_iff hname u).mp hpublishable
      exact hscans.printsBack (hplain u hu hpublishable)
    refine ⟨hprints, fun u hu => ⟨fun hpublishable => ?_, fun hsemver => ?_⟩, fun hs ht => ?_⟩
    · obtain ⟨g, rest, hscans⟩ := (publishable_iff hname u).mp hpublishable
      exact hscans.isSemver (hplain u hu hpublishable)
    · obtain ⟨g, hscans⟩ := hsemver.scans
      exact (publishable_iff hname u).mpr ⟨g, [], hscans⟩
    · refine (hprints s (by simp) hs).eq_of_equal (hprints t (by simp) ht) ⟨?_, ?_⟩
      · exact ((scans_iff s).mp ((publishable_iff hname s).mp hs)).2
      · exact ((scans_iff t).mp ((publishable_iff hname t).mp ht)).2

/-- A codec that keeps texts as they are. -/
def asciiCodec : Codec where
  caseMap := .ascii
  str _ := ""
  b64decode _ := none
  b64encode _ := ""
  hash _ data := data
  hex _ := ""
  hasBindingGyp _ := false
  maxPublishBytes := 0

/-- Of `left-pad`, the versions `1.0.0` and `1.0.0-rc.1` have one identity. -/
theorem published_identity_releases :
    npmNameError asciiCodec.caseMap "left-pad" = none ∧
      (OneIdentity asciiCodec "left-pad" "1.0.0" "1.0.0-rc.1" ↔
        ∀ u ∈ ["1.0.0", "1.0.0-rc.1"], Publishable asciiCodec "left-pad" u → Plainly u) :=
  ⟨by decide +kernel, published_identity_iff asciiCodec "left-pad" (by decide +kernel) _ _⟩

/-- A line break at the end is taken, and the version is `1.0.0` as well. -/
theorem lineBreak_identity :
    ¬ ∀ codec name s t, npmNameError codec.caseMap name = none → OneIdentity codec name s t := by
  intro h
  have hone := h asciiCodec "left-pad" "1.0.0\n" "1.0.0" (by decide +kernel)
  have hname : npmNameError asciiCodec.caseMap "left-pad" = none := by decide +kernel
  have hpublishable : Publishable asciiCodec "left-pad" "1.0.0\n" :=
    (publishable_iff hname _).mpr
      ⟨⟨['1'], ['0'], ['0'], none, none⟩, ['\n'], by decide +kernel, .inr rfl, rfl⟩
  have hsemver := ((hone.grammar "1.0.0\n" List.mem_cons_self).mp hpublishable).ascii.2
  exact hsemver (by decide +kernel)

end Minireg.NpmPublish
