import Minireg.Core.SemverPrint
import Minireg.Services.Retire

/-!
# Validators come back as they were stored

`decodeText` is `decode` of any text of the column, not only of one that `encode` wrote:
`isdigit` admits the digits of every script, and superscripts, on which `int` raises.
`stored_validators` is the round trip, and says of which texts only encodings are used.
-/

namespace Minireg.Validators

open Py Semver

/-! ## Decoding -/

/-- The digits that are no decimals, as ranges of characters. -/
def otherDigits : List (Nat × Nat) :=
  [(0xb2, 0xb3), (0xb9, 0xb9), (0x1369, 0x1371), (0x19da, 0x19da), (0x2070, 0x2070),
    (0x2074, 0x2079), (0x2080, 0x2089), (0x2460, 0x2468), (0x2474, 0x247c), (0x2488, 0x2490),
    (0x24ea, 0x24ea), (0x24f5, 0x24fd), (0x24ff, 0x24ff), (0x2776, 0x277e), (0x2780, 0x2788),
    (0x278a, 0x2792), (0x10a40, 0x10a43), (0x10e60, 0x10e68), (0x11052, 0x1105a),
    (0x1f100, 0x1f10a)]

/-- A character that `isdigit` admits. -/
def isDigit (c : Char) : Bool :=
  isDecimal c || otherDigits.any fun (first, last) => first ≤ c.toNat && c.toNat ≤ last

/-- What `int` raises of digits. -/
inductive IntError where
  | invalidLiteral
  | valueError (e : ValueError)
  deriving DecidableEq

/-- `int(s)`, of a text of digits. -/
def intOfDigits (s : List Char) : Except IntError Nat :=
  if s.all isDecimal then
    match pyInt s with
    | .ok n => .ok n
    | .error e => .error (.valueError e)
  else .error .invalidLiteral

/-- `stored.split("|", 2)`, where it has three parts. -/
def parts (s : List Char) : Option (List Char × List Char × List Char) :=
  (splitSep s).bind fun (id, rest) =>
    (splitSep rest).map fun (lastModified, etag) => (id, lastModified, etag)

def decodeText (stored : Option String) : Except IntError (Option Validators) :=
  match parts (stored.getD "").toList with
  | none => .ok none
  | some (id, lastModified, etag) =>
    if id ≠ [] && id.all isDigit then
      match intOfDigits id with
      | .error e => .error e
      | .ok upstreamId =>
        let found : Validators :=
          { upstreamId := upstreamId, etag := orNone etag, lastModified := orNone lastModified }
        .ok (if found.usable then some found else none)
    else .ok none

/-! ## Parts -/

theorem splitSep_append {a : List Char} (h : '|' ∉ a) (r : List Char) :
    splitSep (a ++ '|' :: r) = some (a, r) := by
  have hne : ∀ c ∈ a, decide (c ≠ '|') = true := fun c hc =>
    decide_eq_true fun heq => h (heq ▸ hc)
  unfold splitSep
  rw [List.dropWhile_append_of_pos hne, List.takeWhile_append_of_pos hne]
  simp

theorem splitSep_some {s a r : List Char} (h : splitSep s = some (a, r)) :
    s = a ++ '|' :: r ∧ '|' ∉ a := by
  unfold splitSep at h
  split at h
  · cases h
  · next c rest hdrop =>
    obtain ⟨rfl, rfl⟩ := Prod.mk.inj (Option.some.inj h)
    have hc : c = '|' := by
      have hhead := List.head?_dropWhile_not (fun c => decide (c ≠ '|')) s
      rw [hdrop] at hhead
      simpa using hhead
    refine ⟨?_, fun hmem => ?_⟩
    · rw [hc] at hdrop
      rw [← hdrop, List.takeWhile_append_dropWhile]
    · simpa using List.all_eq_true.mp List.all_takeWhile _ hmem

theorem parts_append {a b : List Char} (ha : '|' ∉ a) (hb : '|' ∉ b) (c : List Char) :
    parts (a ++ '|' :: (b ++ '|' :: c)) = some (a, b, c) := by
  rw [parts, splitSep_append ha, Option.bind_some]
  dsimp only
  rw [splitSep_append hb]
  rfl

theorem parts_some {s a b c : List Char} (h : parts s = some (a, b, c)) :
    s = a ++ '|' :: (b ++ '|' :: c) ∧ '|' ∉ a ∧ '|' ∉ b := by
  obtain ⟨⟨a', r⟩, hfirst, h⟩ := Option.bind_eq_some_iff.mp h
  obtain ⟨⟨b', c'⟩, hsecond, h⟩ := Option.map_eq_some_iff.mp h
  obtain ⟨rfl, rfl, rfl⟩ : a' = a ∧ b' = b ∧ c' = c := by simpa using h
  obtain ⟨rfl, ha⟩ := splitSep_some hfirst
  obtain ⟨rfl, hb⟩ := splitSep_some hsecond
  exact ⟨rfl, ha, hb⟩

/-! ## The id -/

theorem isDecimal_of_isDigit {c : Char} (h : c.isDigit = true) : isDecimal c = true := by
  have hc : 48 ≤ c.toNat ∧ c.toNat ≤ 57 := by
    simpa [Char.isDigit, UInt32.le_iff_toNat_le] using h
  exact isDecimal_of_digit hc.1 hc.2

theorem decimals_toDigits (n : Nat) : (Nat.toDigits 10 n).all isDecimal = true :=
  List.all_eq_true.mpr fun _ hc =>
    isDecimal_of_isDigit (Nat.isDigit_of_mem_toDigits (by decide) (by decide) hc)

theorem digits_of_decimals {s : List Char} (h : s.all isDecimal = true) :
    s.all isDigit = true := by
  refine List.all_eq_true.mpr fun c hc => ?_
  rw [isDigit, List.all_eq_true.mp h c hc]
  rfl

theorem sep_not_mem_toDigits (n : Nat) : '|' ∉ Nat.toDigits 10 n := fun hmem =>
  absurd (Nat.isDigit_of_mem_toDigits (by decide) (by decide) hmem) (by decide)

/-- `int` reads a text of digits exactly where they are decimals and not too many. -/
theorem intOfDigits_ok_iff {s : List Char} :
    (∃ n, intOfDigits s = .ok n) ↔ s.all isDecimal = true ∧ s.length ≤ maxStrDigits := by
  unfold intOfDigits pyInt
  by_cases hdecimals : s.all isDecimal = true
  · rw [if_pos hdecimals]
    by_cases hlong : maxStrDigits < s.length
    · rw [if_pos hlong]
      simpa [hdecimals] using hlong
    · rw [if_neg hlong]
      exact ⟨fun _ => ⟨hdecimals, Nat.le_of_not_lt hlong⟩, fun _ => ⟨_, rfl⟩⟩
  · rw [if_neg hdecimals]
    constructor
    · rintro ⟨n, hn⟩
      cases hn
    · exact fun h => absurd h.1 hdecimals

theorem intOfDigits_toDigits {n : Nat} (h : (Nat.toDigits 10 n).length ≤ maxStrDigits) :
    intOfDigits (Nat.toDigits 10 n) = .ok n := by
  have hshort : Short n := (Nat.length_toDigits_le_iff (by decide) (by decide)).mp h
  rw [intOfDigits, if_pos (decimals_toDigits n), pyInt_toDigits hshort]

/-! ## Encodings -/

/-- A field comes back, or nothing does. -/
def Kept (before after : Option String) : Prop := after = before ∨ after = none

theorem orNone_kept (field : Option String) : Kept field (orNone (field.getD "").toList) := by
  unfold Kept orNone
  split
  · exact .inr rfl
  · next hne =>
    rcases field with _ | text
    · exact absurd rfl hne
    · exact .inl (congrArg some String.ofList_toList)

theorem orNone_getD (s : List Char) : ((orNone s).getD "").toList = s := by
  unfold orNone
  split
  · next h => rw [h]; rfl
  · exact String.toList_ofList

theorem usable_iff (id : Nat) (etag lastModified : List Char) :
    usable { upstreamId := id, etag := orNone etag, lastModified := orNone lastModified } = true ↔
      ¬(lastModified = [] ∧ etag = []) := by
  have hempty : ∀ s : List Char, (orNone s).getD "" = "" ↔ s = [] := fun s => by
    rw [← String.toList_inj, orNone_getD]
    rfl
  simp only [usable, ne_eq, Bool.or_eq_true, decide_eq_true_eq, hempty]
  tauto

/-- **What is written**: the id, and two fields that are kept or dropped, within the width of
the column. -/
theorem encode_some {v : Validators} {e : String} (h : v.encode = some e) :
    ∃ lastModified etag : List Char,
      e.toList = Nat.toDigits 10 v.upstreamId ++ '|' :: (lastModified ++ '|' :: etag) ∧
        '|' ∉ lastModified ∧ ¬(lastModified = [] ∧ etag = []) ∧ e.length ≤ maxEncoded ∧
        Kept v.lastModified (orNone lastModified) ∧ Kept v.etag (orNone etag) := by
  unfold encode at h
  obtain ⟨⟨etag, lm⟩, hcandidate, h⟩ := List.exists_of_findSome?_eq_some h
  dsimp only at h
  split at h
  · cases h
  next hsome =>
  split at h
  swap
  · cases h
  next hwidth =>
  obtain rfl := Option.some.inj h
  -- which of the three candidates it is only decides what is dropped
  have hlm : '|' ∉ lm.toList ∧ Kept v.lastModified (orNone lm.toList) := by
    have hnone : '|' ∉ ("" : String).toList ∧ Kept v.lastModified (orNone ("" : String).toList) :=
      ⟨by decide, .inr rfl⟩
    have hfield : '|' ∉ (if '|' ∈ (v.lastModified.getD "").toList then ""
        else v.lastModified.getD "").toList ∧ Kept v.lastModified
          (orNone (if '|' ∈ (v.lastModified.getD "").toList then ""
            else v.lastModified.getD "").toList) := by
      split
      · exact hnone
      · next hsep => exact ⟨hsep, orNone_kept _⟩
    rcases List.mem_cons.mp hcandidate with hc | hc
    · rw [(Prod.mk.inj hc).2]
      exact hfield
    rcases List.mem_cons.mp hc with hc | hc
    · rw [(Prod.mk.inj hc).2]
      exact hfield
    · rw [(Prod.mk.inj (List.mem_singleton.mp hc)).2]
      exact hnone
  have hetag : Kept v.etag (orNone etag.toList) := by
    rcases List.mem_cons.mp hcandidate with hc | hc
    · rw [(Prod.mk.inj hc).1]
      exact orNone_kept _
    rcases List.mem_cons.mp hc with hc | hc
    · rw [(Prod.mk.inj hc).1]
      exact .inr rfl
    · rw [(Prod.mk.inj (List.mem_singleton.mp hc)).1]
      exact orNone_kept _
  refine ⟨lm.toList, etag.toList, by simp, hlm.1, ?_, hwidth, hlm.2, hetag⟩
  rintro ⟨hlm, hetag⟩
  refine hsome ?_
  rw [String.toList_eq_nil_iff.mp hlm, String.toList_eq_nil_iff.mp hetag]
  decide

/-- What fits, with a decimal id and a field, is an encoding. -/
theorem encode_of_parts {n : Nat} {lastModified etag : List Char} {e : String}
    (he : e.toList = Nat.toDigits 10 n ++ '|' :: (lastModified ++ '|' :: etag))
    (hsep : '|' ∉ lastModified) (hsome : ¬(lastModified = [] ∧ etag = []))
    (hwidth : e.length ≤ maxEncoded) :
    encode { upstreamId := n, etag := orNone etag, lastModified := orNone lastModified } =
      some e := by
  have hlm : (if '|' ∈ ((orNone lastModified).getD "").toList then ""
      else (orNone lastModified).getD "") = String.ofList lastModified := by
    rw [orNone_getD, if_neg hsep, ← String.toList_inj, orNone_getD, String.toList_ofList]
  have hetag : (orNone etag).getD "" = String.ofList etag := by
    rw [← String.toList_inj, orNone_getD, String.toList_ofList]
  have htext : toString n ++ "|" ++ String.ofList lastModified ++ "|" ++ String.ofList etag = e := by
    rw [← String.toList_inj, he]
    simp
  have hfields : ¬(String.ofList etag = "" ∧ String.ofList lastModified = "") := by
    rintro ⟨he, hl⟩
    exact hsome ⟨by simpa using congrArg String.toList hl, by simpa using congrArg String.toList he⟩
  unfold encode
  dsimp only
  rw [hlm, hetag, List.findSome?_cons, if_neg (by simpa using hfields), htext, if_pos hwidth]

/-! ## The round trip -/

/-- Text of digits in front of two separators is decoded as `int` reads it. -/
theorem decodeText_digits {stored : String} {id lastModified etag : List Char}
    (hparts : parts stored.toList = some (id, lastModified, etag)) (hne : id ≠ [])
    (hdigits : id.all isDigit = true) :
    decodeText (some stored) = (intOfDigits id).map fun upstreamId =>
      if lastModified = [] ∧ etag = [] then none
      else some
        { upstreamId := upstreamId, etag := orNone etag, lastModified := orNone lastModified } := by
  unfold decodeText
  rw [Option.getD_some, hparts]
  dsimp only
  rw [if_pos (by simpa [hne] using hdigits)]
  rcases intOfDigits id with e | n
  · rfl
  · by_cases hnothing : lastModified = [] ∧ etag = []
    · have hunusable := (usable_iff n etag lastModified).not.mpr (not_not.mpr hnothing)
      simp only [hunusable, Except.map, if_pos hnothing, Bool.false_eq_true, if_false]
    · have husable := (usable_iff n etag lastModified).mpr hnothing
      simp only [husable, Except.map, if_neg hnothing, if_true]

/-- Every other text is decoded to nothing. -/
theorem decodeText_other {stored : String}
    (h : ∀ id lastModified etag, parts stored.toList = some (id, lastModified, etag) →
      ¬(id ≠ [] ∧ id.all isDigit = true)) :
    decodeText (some stored) = .ok none := by
  unfold decodeText
  rw [Option.getD_some]
  rcases hparts : parts stored.toList with _ | ⟨id, lastModified, etag⟩
  · rfl
  · dsimp only
    rw [if_neg (by simpa using h id lastModified etag hparts)]

/-- An id that fits the column is short enough for `int`. -/
theorem id_fits {n : Nat} {rest : List Char} {e : String}
    (he : e.toList = Nat.toDigits 10 n ++ rest) (hwidth : e.length ≤ maxEncoded) :
    (Nat.toDigits 10 n).length ≤ maxStrDigits := by
  have hle : (Nat.toDigits 10 n).length ≤ e.toList.length := by
    rw [he, List.length_append]
    exact Nat.le_add_right _ _
  rw [String.length_toList] at hle
  exact (hle.trans hwidth).trans (by decide)

/-- What fits, with a decimal id and a field, is decoded to the id and the fields. -/
theorem decodeText_of_parts {n : Nat} {lastModified etag : List Char} {e : String}
    (he : e.toList = Nat.toDigits 10 n ++ '|' :: (lastModified ++ '|' :: etag))
    (hsep : '|' ∉ lastModified) (hsome : ¬(lastModified = [] ∧ etag = []))
    (hwidth : e.length ≤ maxEncoded) :
    decodeText (some e) = .ok (some
      { upstreamId := n, etag := orNone etag, lastModified := orNone lastModified }) := by
  have hparts : parts e.toList = some (Nat.toDigits 10 n, lastModified, etag) := by
    rw [he]
    exact parts_append (sep_not_mem_toDigits _) hsep etag
  rw [decodeText_digits hparts Nat.toDigits_ne_nil (digits_of_decimals (decimals_toDigits _)),
    intOfDigits_toDigits (id_fits he hwidth), Except.map, if_neg hsome]

/-- An encoding is decoded to the id and the fields that were kept. -/
theorem decodeText_encode {v : Validators} {e : String} (h : v.encode = some e) :
    ∃ back, decodeText (some e) = .ok (some back) ∧ back.upstreamId = v.upstreamId ∧
      Kept v.etag back.etag ∧ Kept v.lastModified back.lastModified := by
  obtain ⟨lastModified, etag, he, hsep, hsome, hwidth, hlm, hetag⟩ := encode_some h
  exact ⟨_, decodeText_of_parts he hsep hsome hwidth, rfl, hetag, hlm⟩

/-- The prefix of an upstream says whose an encoding is. -/
theorem boundPrefix_encode {v : Validators} {e : String} (h : v.encode = some e) (u : Nat) :
    (boundPrefix u).toList <+: e.toList ↔ v.upstreamId = u := by
  obtain ⟨rest, he⟩ := encode_bound h
  have hbound : (boundPrefix u).toList = Nat.toDigits 10 u ++ ['|'] := by simp [boundPrefix]
  rw [hbound, he]
  constructor
  · rintro ⟨tail, htail⟩
    have hsplit := splitSep_append (sep_not_mem_toDigits u) tail
    rw [← List.singleton_append, ← List.append_assoc, htail,
      splitSep_append (sep_not_mem_toDigits _)] at hsplit
    have hdigits := congrArg (Nat.ofDigitChars 10 · 0) (Prod.mk.inj (Option.some.inj hsplit)).1
    simpa only [Nat.ofDigitChars_ten_toDigits] using hdigits
  · rintro rfl
    exact ⟨rest, by simp⟩

/-- A text of digits in front of two separators has no field behind them, or is the decimal
text of a number and fits the column. -/
def Plain (stored : String) : Prop :=
  ∀ id lastModified etag, parts stored.toList = some (id, lastModified, etag) →
    id ≠ [] → id.all isDigit = true →
      (lastModified = [] ∧ etag = [] ∧ id.all isDecimal = true ∧ id.length ≤ maxStrDigits) ∨
        ((∃ n, id = Nat.toDigits 10 n) ∧ stored.length ≤ maxEncoded)

/-- Where no validators are encoded as the text, it is decoded to nothing. -/
theorem malformed_refused_iff (stored : String) :
    ((∀ v : Validators, v.encode ≠ some stored) → decodeText (some stored) = .ok none) ↔
      Plain stored := by
  constructor
  · intro h id lastModified etag hparts hne hdigits
    by_cases hencoded : ∃ v : Validators, v.encode = some stored
    · obtain ⟨v, hv⟩ := hencoded
      obtain ⟨lm, et, he, hsep, -, hwidth, -⟩ := encode_some hv
      rw [he, parts_append (sep_not_mem_toDigits _) hsep] at hparts
      exact .inr ⟨⟨_, (Prod.mk.inj (Option.some.inj hparts)).1.symm⟩, hwidth⟩
    · have hnone := h (not_exists.mp hencoded)
      rw [decodeText_digits hparts hne hdigits] at hnone
      rcases hid : intOfDigits id with e | n
      · rw [hid] at hnone
        cases hnone
      · have hread := intOfDigits_ok_iff.mp ⟨n, hid⟩
        rw [hid, Except.map] at hnone
        split at hnone
        · next hnothing => exact .inl ⟨hnothing.1, hnothing.2, hread⟩
        · cases hnone
  · intro hplain hmalformed
    by_cases hread : ∃ id lastModified etag,
        parts stored.toList = some (id, lastModified, etag) ∧ id ≠ [] ∧ id.all isDigit = true
    · obtain ⟨id, lastModified, etag, hparts, hne, hdigits⟩ := hread
      have hdecode := decodeText_digits hparts hne hdigits
      have hnothing : lastModified = [] ∧ etag = [] := by
        by_contra hsome
        rcases hplain id lastModified etag hparts hne hdigits with h | ⟨⟨n, rfl⟩, hwidth⟩
        · exact hsome ⟨h.1, h.2.1⟩
        · obtain ⟨he, -, hsep⟩ := parts_some hparts
          exact hmalformed _ (encode_of_parts he hsep hsome hwidth)
      have hok : ∃ n, intOfDigits id = .ok n := by
        rcases hplain id lastModified etag hparts hne hdigits with h | ⟨⟨n, rfl⟩, hwidth⟩
        · exact intOfDigits_ok_iff.mpr h.2.2
        · exact ⟨n, intOfDigits_toDigits (id_fits (parts_some hparts).1 hwidth)⟩
      obtain ⟨n, hn⟩ := hok
      rw [hdecode, hn, Except.map, if_pos hnothing]
    · exact decodeText_other fun id lastModified etag hparts h =>
        hread ⟨id, lastModified, etag, hparts, h⟩

/-- **Validators come back**: what is encoded fits the column, is decoded to the same upstream
with each field as it was or dropped, and starts with the prefix of that upstream alone. What
no validators are encoded as is decoded to nothing exactly where it is plain. -/
theorem stored_validators (v : Validators) (u : Nat) (stored : String) :
    (∀ e, v.encode = some e →
      e.length ≤ maxEncoded ∧
      (∃ back, decodeText (some e) = .ok (some back) ∧ back.upstreamId = v.upstreamId ∧
        Kept v.etag back.etag ∧ Kept v.lastModified back.lastModified) ∧
      ((boundPrefix u).toList <+: e.toList ↔ v.upstreamId = u)) ∧
    (((∀ v : Validators, v.encode ≠ some stored) → decodeText (some stored) = .ok none) ↔
      Plain stored) := by
  refine ⟨fun e he => ⟨?_, decodeText_encode he, boundPrefix_encode he u⟩,
    malformed_refused_iff stored⟩
  obtain ⟨-, -, -, -, -, hwidth, -⟩ := encode_some he
  exact hwidth

/-- `int` raises on a superscript, which `isdigit` admits. -/
theorem superscript_raises :
    (∀ v : Validators, v.encode ≠ some "²|a|b") ∧
      decodeText (some "²|a|b") = .error .invalidLiteral := by
  refine ⟨fun v hv => ?_, by decide +kernel⟩
  obtain ⟨rest, he⟩ := encode_bound hv
  have hsplit : splitSep ("²|a|b" : String).toList =
      some (Nat.toDigits 10 v.upstreamId, rest) := by
    rw [he]
    exact splitSep_append (sep_not_mem_toDigits _) rest
  have hdigits : Nat.toDigits 10 v.upstreamId = ['²'] := by
    have hread : splitSep ("²|a|b" : String).toList = some (['²'], ['a', '|', 'b']) := by decide
    rw [hread] at hsplit
    exact (Prod.mk.inj (Option.some.inj hsplit)).1.symm
  have hdecimal := decimals_toDigits v.upstreamId
  rw [hdigits] at hdecimal
  revert hdecimal
  decide

end Minireg.Validators
