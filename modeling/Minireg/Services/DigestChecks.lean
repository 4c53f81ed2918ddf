import Minireg.Py.Dict
import Minireg.Services.Packages

/-!
# The digests of a download

What an upstream advertises of a file (hex digests, and an SRI string of any number of
tokens) is compared with the bytes that arrived. `verify_accepts_iff` says when the
download is accepted: every hex digest is right, so is the strongest algorithm that the
SRI string has and the registry knows, and something was compared where that is required.
-/

namespace Minireg.Integrity

open Py

abbrev Bytes := List UInt8

inductive HashAlgorithm where
  | sha512 | sha384 | sha256 | sha1 | md5 | blake2b
  deriving DecidableEq, Repr

namespace HashAlgorithm

def name : HashAlgorithm → String
  | sha512 => "sha512"
  | sha384 => "sha384"
  | sha256 => "sha256"
  | sha1 => "sha1"
  | md5 => "md5"
  | blake2b => "blake2b"

/-- `digest_size`. -/
def size : HashAlgorithm → Nat
  | sha512 => 64
  | sha384 => 48
  | sha256 => 32
  | sha1 => 20
  | md5 => 16
  | blake2b => 32

end HashAlgorithm

/-- `_SRI_STRENGTH`. -/
def sriStrength : List HashAlgorithm := [.sha512, .sha384, .sha256, .sha1]

/-- Outside the checks: case maps, the hash functions, base64 (validating) and hex. -/
structure Hashing where
  caseMap : CaseMap
  digest : HashAlgorithm → Bytes → Bytes
  b64decode : String → Option Bytes
  hex : Bytes → String
  fromHex : String → Bytes
  length_digest : ∀ algorithm data, (digest algorithm data).length = algorithm.size
  fromHex_hex : ∀ data, fromHex (hex data) = data

/-- The digests computed while the bytes arrived, in hex. -/
structure StoredBlob where
  sha256 : String
  sha1 : String
  md5 : String
  blake2b256 : String
  sha512 : String

/-- `_Expected`: what the file row says to expect. -/
structure Expected where
  filename : String
  sha256 : Option String := none
  sha1 : Option String := none
  md5 : Option String := none
  blake2b256 : Option String := none
  integrity : Option String := none
  requireDigest : Bool

/-- Why a download is refused: `DigestMismatch`, or nothing to compare. -/
inductive Refusal where
  | mismatch (message : String)
  | unverified (message : String)
  deriving DecidableEq, Repr

section Checks

variable (hashing : Hashing)

/-- `Digests.stored`. -/
def storedOf (data : Bytes) : StoredBlob where
  sha256 := hashing.hex (hashing.digest .sha256 data)
  sha1 := hashing.hex (hashing.digest .sha1 data)
  md5 := hashing.hex (hashing.digest .md5 data)
  blake2b256 := hashing.hex (hashing.digest .blake2b data)
  sha512 := hashing.hex (hashing.digest .sha512 data)

/-- The algorithm and the value of one token, where the registry knows the algorithm. -/
def sriToken (token : String) : Option (HashAlgorithm × String) :=
  let chars := token.toList
  if '-' ∈ chars then
    let algorithm := hashing.caseMap.lower (String.ofList (chars.takeWhile (· ≠ '-')))
    let rest := (chars.dropWhile (· ≠ '-')).drop 1
    (sriStrength.find? fun a => a.name = algorithm).map fun a =>
      (a, String.ofList (rest.takeWhile (· ≠ '?')))
  else none

/-- What a value decodes to: nothing, where it is no base64 or of the wrong length. -/
def sriValue (algorithm : HashAlgorithm) (value : String) : Option Bytes :=
  (hashing.b64decode value).filter fun digest => digest.length = algorithm.size

/-- `groups.setdefault(algorithm, []).append(value)`. -/
def addSri (groups : Dict HashAlgorithm (List (Option Bytes))) (token : String) :
    Dict HashAlgorithm (List (Option Bytes)) :=
  match sriToken hashing token with
  | none => groups
  | some (algorithm, value) =>
    groups.set algorithm ((groups.get? algorithm).getD [] ++ [sriValue hashing algorithm value])

/-- `_parse_sri`. -/
def parseSri (integrity : String) : Dict HashAlgorithm (List (Option Bytes)) :=
  (splitWords integrity.toList).foldl (addSri hashing) []

/-- `sri_algorithm`. -/
def sriAlgorithm (integrity : Option String) : Option HashAlgorithm :=
  let groups := parseSri hashing (integrity.getD "")
  sriStrength.find? fun a => (groups.get? a).isSome

/-- `_check_sri`: whether a digest was compared. -/
def checkSri (filename integrity : String) (actual : Dict HashAlgorithm Bytes) :
    Except Refusal Bool :=
  let groups := parseSri hashing integrity
  match sriStrength.find? fun a => (groups.get? a).isSome with
  | none => .ok false
  | some algorithm =>
    match actual.get? algorithm with
    | none => .ok false
    | some computed =>
      let values := (groups.get? algorithm).getD []
      if some computed ∈ values then .ok true
      else if values.all Option.isNone then
        .error (.mismatch (filename ++ ": SRI integrity value for " ++ algorithm.name ++
          " is not a valid digest"))
      else .error (.mismatch (filename ++ ": SRI integrity mismatch (" ++ algorithm.name ++ ")"))

/-- One turn of the loop over the hex digests. -/
def checkHex (filename : String) (compared : Bool) (check : String × Option String × String) :
    Except Refusal Bool :=
  let expected := check.2.1.getD ""
  let actual := check.2.2
  if expected = "" then .ok compared
  else if hashing.caseMap.lower expected ≠ hashing.caseMap.lower actual then
    .error (.mismatch (filename ++ ": " ++ check.1 ++ " mismatch (expected " ++ expected ++
      ", got " ++ actual ++ ")"))
  else .ok true

/-- `checks`. -/
def hexChecks (row : Expected) (stored : StoredBlob) : List (String × Option String × String) :=
  [("sha256", row.sha256, stored.sha256), ("sha1", row.sha1, stored.sha1),
   ("md5", row.md5, stored.md5), ("blake2b_256", row.blake2b256, stored.blake2b256)]

/-- `actual_raw`. -/
def actualRaw (stored : StoredBlob) (extra : Dict HashAlgorithm Bytes) :
    Dict HashAlgorithm Bytes :=
  extra.foldl (fun d e => d.set e.1 e.2)
    [(.sha512, hashing.fromHex stored.sha512), (.sha256, hashing.fromHex stored.sha256),
     (.sha1, hashing.fromHex stored.sha1)]

/-- `_verify_digests`. -/
def verifyDigests (row : Expected) (stored : StoredBlob) (require : Bool)
    (extra : Dict HashAlgorithm Bytes) : Except Refusal Unit := do
  let compared ← (hexChecks row stored).foldlM (checkHex hashing row.filename) false
  let integrity := row.integrity.getD ""
  let compared ← if integrity = "" then pure compared
    else do
      let checked ← checkSri hashing row.filename integrity (actualRaw hashing stored extra)
      pure (checked || compared)
  if require && !compared then
    throw (.unverified (row.filename ++ ": upstream published no digest for this artifact " ++
      "that could be verified, and this upstream is configured to require one"))

/-- The digests the download did not compute as it went. -/
def extraDigests (row : Expected) (data : Bytes) : Dict HashAlgorithm Bytes :=
  if sriAlgorithm hashing row.integrity = some .sha384 then
    [(.sha384, hashing.digest .sha384 data)]
  else []

/-- The check of a download, as it is called once the bytes are there. -/
def verifyDownload (row : Expected) (data : Bytes) : Except Refusal Unit :=
  verifyDigests hashing row (storedOf hashing data) row.requireDigest
    (extraDigests hashing row data)

end Checks

/-! ## What is advertised -/

section Advertised

variable (hashing : Hashing)

/-- The hex digests of a row, with their algorithms. -/
def Expected.advertised (row : Expected) : List (HashAlgorithm × String) :=
  [(HashAlgorithm.sha256, row.sha256.getD ""), (.sha1, row.sha1.getD ""), (.md5, row.md5.getD ""),
    (.blake2b, row.blake2b256.getD "")].filter fun d => d.2 ≠ ""

/-- The entries of an SRI string whose algorithm the registry knows. -/
def sriEntries (integrity : String) : List (HashAlgorithm × String) :=
  (splitWords integrity.toList).filterMap (sriToken hashing)

/-- The algorithm is the strongest of an SRI string that the registry knows. -/
structure Strongest (integrity : String) (algorithm : HashAlgorithm) : Prop where
  present : ∃ value, (algorithm, value) ∈ sriEntries hashing integrity
  above : ∀ e ∈ sriEntries hashing integrity,
    sriStrength.idxOf algorithm ≤ sriStrength.idxOf e.1

/-- Every hex digest is that of the bytes, in whatever letter case. -/
def HexMatches (row : Expected) (data : Bytes) : Prop :=
  ∀ d ∈ row.advertised, hashing.caseMap.lower d.2 =
    hashing.caseMap.lower (hashing.hex (hashing.digest d.1 data))

/-- The digest of the bytes is among the entries of the strongest algorithm. -/
def SriMatches (row : Expected) (data : Bytes) : Prop :=
  ∀ algorithm, Strongest hashing (row.integrity.getD "") algorithm →
    ∃ value, (algorithm, value) ∈ sriEntries hashing (row.integrity.getD "") ∧
      hashing.b64decode value = some (hashing.digest algorithm data)

/-- There is something to compare: a hex digest, or an entry of a known algorithm. -/
def Comparable (row : Expected) : Prop :=
  row.advertised ≠ [] ∨ sriEntries hashing (row.integrity.getD "") ≠ []

end Advertised

/-! ## Reading an SRI string -/

section Sri

variable {hashing : Hashing}

/-- What the entries of one algorithm decode to, in order. -/
def valuesOf (hashing : Hashing) (entries : List (HashAlgorithm × String))
    (algorithm : HashAlgorithm) : List (Option Bytes) :=
  (entries.filter fun e => e.1 = algorithm).map fun e => sriValue hashing algorithm e.2

theorem foldl_addSri (tokens : List String) (groups : Dict HashAlgorithm (List (Option Bytes)))
    (algorithm : HashAlgorithm) :
    ((tokens.foldl (addSri hashing) groups).get? algorithm).getD [] =
        (groups.get? algorithm).getD [] ++
          valuesOf hashing (tokens.filterMap (sriToken hashing)) algorithm ∧
      ((tokens.foldl (addSri hashing) groups).get? algorithm).isSome =
        ((groups.get? algorithm).isSome ||
          (tokens.filterMap (sriToken hashing)).any fun e => e.1 = algorithm) := by
  induction tokens generalizing groups with
  | nil => exact ⟨(List.append_nil _).symm, (Bool.or_false _).symm⟩
  | cons token tokens ih =>
    obtain ⟨hvalues, hsome⟩ := ih (addSri hashing groups token)
    rw [List.foldl_cons, hvalues, hsome]
    unfold addSri
    rcases htoken : sriToken hashing token with _ | ⟨a, value⟩
    · rw [List.filterMap_cons_none htoken]
      exact ⟨rfl, rfl⟩
    · rw [List.filterMap_cons_some htoken]
      dsimp only
      rw [Dict.get?_set, List.any_cons]
      unfold valuesOf
      by_cases ha : a = algorithm
      · subst ha
        simp
      · have hne : algorithm ≠ a := fun h => ha h.symm
        simp [ha, hne]

theorem parseSri_values (integrity : String) (algorithm : HashAlgorithm) :
    ((parseSri hashing integrity).get? algorithm).getD [] =
      valuesOf hashing (sriEntries hashing integrity) algorithm :=
  (foldl_addSri (splitWords integrity.toList) [] algorithm).1

theorem parseSri_isSome (integrity : String) (algorithm : HashAlgorithm) :
    ((parseSri hashing integrity).get? algorithm).isSome = true ↔
      ∃ value, (algorithm, value) ∈ sriEntries hashing integrity := by
  have hsome := (@foldl_addSri hashing (splitWords integrity.toList) [] algorithm).2
  unfold parseSri
  rw [hsome]
  unfold sriEntries
  constructor
  · intro h
    obtain ⟨⟨a, value⟩, he, ha⟩ := List.any_eq_true.mp h
    obtain rfl := of_decide_eq_true ha
    exact ⟨value, he⟩
  · rintro ⟨value, he⟩
    exact List.any_eq_true.mpr ⟨_, he, decide_eq_true rfl⟩

/-- The algorithms of the entries are those the registry knows. -/
theorem known_of_mem {integrity : String} {e : HashAlgorithm × String}
    (h : e ∈ sriEntries hashing integrity) : e.1 ∈ sriStrength := by
  obtain ⟨token, -, htoken⟩ := List.mem_filterMap.mp h
  unfold sriToken at htoken
  dsimp only at htoken
  split at htoken
  · obtain ⟨a, ha, rfl⟩ := Option.map_eq_some_iff.mp htoken
    exact List.mem_of_find?_eq_some ha
  · cases htoken

/-- The first element a test accepts is the one of the least index. -/
theorem find?_eq_some_iff_idxOf {α : Type} [DecidableEq α] {l : List α} {p : α → Bool} {a : α} :
    l.find? p = some a ↔
      a ∈ l ∧ p a = true ∧ ∀ b ∈ l, p b = true → l.idxOf a ≤ l.idxOf b := by
  induction l with
  | nil => simp
  | cons c l ih =>
    rw [List.find?_cons]
    rcases hc : p c with _ | _
    · dsimp only
      rw [ih]
      have hne (b : α) (hb : p b = true) : b ≠ c := by
        rintro rfl
        rw [hc] at hb
        cases hb
      constructor
      · rintro ⟨ha, hpa, hleast⟩
        refine ⟨List.mem_cons_of_mem c ha, hpa, fun b hb hpb => ?_⟩
        rw [List.idxOf_cons_ne l (hne a hpa).symm, List.idxOf_cons_ne l (hne b hpb).symm]
        exact Nat.succ_le_succ (hleast b (List.mem_of_ne_of_mem (hne b hpb) hb) hpb)
      · rintro ⟨ha, hpa, hleast⟩
        refine ⟨List.mem_of_ne_of_mem (hne a hpa) ha, hpa, fun b hb hpb => ?_⟩
        have hle := hleast b (List.mem_cons_of_mem c hb) hpb
        rw [List.idxOf_cons_ne l (hne a hpa).symm, List.idxOf_cons_ne l (hne b hpb).symm] at hle
        exact Nat.le_of_succ_le_succ hle
    · dsimp only
      constructor
      · intro h
        obtain rfl := Option.some.inj h
        refine ⟨List.mem_cons_self, hc, fun b _ _ => ?_⟩
        rw [List.idxOf_cons_self]
        exact Nat.zero_le _
      · rintro ⟨-, -, hleast⟩
        have hle := hleast c List.mem_cons_self hc
        rw [List.idxOf_cons_self] at hle
        by_contra hne
        have hne : c ≠ a := fun h => hne (congrArg some h)
        rw [List.idxOf_cons_ne l hne] at hle
        exact absurd hle (by omega)

theorem strongest_iff (integrity : String) (algorithm : HashAlgorithm) :
    sriStrength.find? (fun a => ((parseSri hashing integrity).get? a).isSome) = some algorithm ↔
      Strongest hashing integrity algorithm := by
  rw [find?_eq_some_iff_idxOf]
  simp only [parseSri_isSome]
  constructor
  · rintro ⟨-, hpresent, hleast⟩
    exact ⟨hpresent, fun e he => hleast e.1 (known_of_mem he) ⟨e.2, he⟩⟩
  · rintro ⟨⟨value, hpresent⟩, habove⟩
    refine ⟨known_of_mem hpresent, ⟨value, hpresent⟩, ?_⟩
    rintro b - ⟨value', hb⟩
    exact habove _ hb

/-- The digest is among the values of an algorithm where an entry decodes to it. -/
theorem mem_valuesOf (integrity : String) (algorithm : HashAlgorithm) (data : Bytes) :
    some (hashing.digest algorithm data) ∈
        valuesOf hashing (sriEntries hashing integrity) algorithm ↔
      ∃ value, (algorithm, value) ∈ sriEntries hashing integrity ∧
        hashing.b64decode value = some (hashing.digest algorithm data) := by
  have hvalue (value : String) :
      sriValue hashing algorithm value = some (hashing.digest algorithm data) ↔
        hashing.b64decode value = some (hashing.digest algorithm data) := by
    unfold sriValue
    rw [Option.filter_eq_some_iff, decide_eq_true_eq]
    exact and_iff_left (hashing.length_digest algorithm data)
  unfold valuesOf
  constructor
  · intro h
    obtain ⟨⟨a, value⟩, hfilter, heq⟩ := List.mem_map.mp h
    obtain ⟨hmem, ha⟩ := List.mem_filter.mp hfilter
    obtain rfl : a = algorithm := of_decide_eq_true ha
    exact ⟨value, hmem, (hvalue value).mp heq⟩
  · rintro ⟨value, he, heq⟩
    exact List.mem_map.mpr ⟨(algorithm, value),
      List.mem_filter.mpr ⟨he, decide_eq_true rfl⟩, (hvalue value).mpr heq⟩

end Sri

/-! ## The checks -/

section Verify

variable {hashing : Hashing} {row : Expected} {data : Bytes}

/-- The loop over the hex digests, from wherever it is. -/
theorem foldlM_checkHex (filename : String) (checks : List (String × Option String × String))
    (compared : Bool) (result : Bool) :
    checks.foldlM (checkHex hashing filename) compared = .ok result ↔
      (∀ c ∈ checks, c.2.1.getD "" ≠ "" →
        hashing.caseMap.lower (c.2.1.getD "") = hashing.caseMap.lower c.2.2) ∧
      result = (compared || checks.any fun c => c.2.1.getD "" ≠ "") := by
  induction checks generalizing compared with
  | nil =>
    rw [List.foldlM_nil]
    simp only [List.any_nil, Bool.or_false]
    exact ⟨fun h => ⟨nofun, (Except.ok.inj h).symm⟩, fun h => congrArg Except.ok h.2.symm⟩
  | cons c checks ih =>
    rw [List.foldlM_cons, List.forall_mem_cons, List.any_cons]
    unfold checkHex
    dsimp only
    by_cases hempty : c.2.1.getD "" = ""
    · rw [if_pos hempty]
      simp only [hempty, ne_eq, not_true_eq_false, false_imp_iff, true_and, decide_false,
        Bool.false_or]
      exact ih compared
    · rw [if_neg hempty]
      by_cases hlower : hashing.caseMap.lower (c.2.1.getD "") = hashing.caseMap.lower c.2.2
      · rw [if_neg (not_not.mpr hlower)]
        simp only [hempty, hlower, ne_eq, not_false_eq_true, true_imp_iff, true_and,
          decide_true, Bool.true_or, Bool.or_true]
        refine (ih true).trans ?_
        rw [Bool.true_or]
      · rw [if_pos hlower]
        refine iff_of_false ?_ fun h => hlower (h.1.1 hempty)
        nofun

theorem hexChecks_matches :
    (∀ c ∈ hexChecks row (storedOf hashing data), c.2.1.getD "" ≠ "" →
        hashing.caseMap.lower (c.2.1.getD "") = hashing.caseMap.lower c.2.2) ↔
      HexMatches hashing row data := by
  unfold HexMatches Expected.advertised hexChecks storedOf
  simp only [List.forall_mem_cons, List.mem_filter, and_imp, List.not_mem_nil, false_imp_iff,
    implies_true, and_true, ne_eq, decide_not, Bool.not_eq_eq_eq_not, Bool.not_true,
    decide_eq_false_iff_not]

theorem hexChecks_any (stored : StoredBlob) :
    ((hexChecks row stored).any fun c => c.2.1.getD "" ≠ "") = true ↔ row.advertised ≠ [] := by
  unfold Expected.advertised hexChecks
  rw [ne_eq, List.filter_eq_nil_iff]
  simp only [List.any_cons, List.any_nil, Bool.or_false, Bool.or_eq_true, decide_eq_true_eq,
    List.forall_mem_cons, List.not_mem_nil, false_imp_iff, implies_true, and_true, not_and_or,
    not_not]

/-- What the digests of the bytes are looked up in. -/
theorem actualRaw_get? {algorithm : HashAlgorithm}
    (h : sriAlgorithm hashing row.integrity = some algorithm) :
    (actualRaw hashing (storedOf hashing data) (extraDigests hashing row data)).get? algorithm =
      some (hashing.digest algorithm data) := by
  have hknown : algorithm ∈ sriStrength := by
    unfold sriAlgorithm at h
    exact List.mem_of_find?_eq_some h
  unfold actualRaw extraDigests storedOf
  rw [h]
  simp only [sriStrength, List.mem_cons, List.not_mem_nil, or_false] at hknown
  rcases hknown with rfl | rfl | rfl | rfl
  · exact congrArg some (hashing.fromHex_hex _)
  · rw [if_pos rfl, List.foldl_cons, List.foldl_nil, Dict.get?_set, if_pos rfl]
  · exact congrArg some (hashing.fromHex_hex _)
  · exact congrArg some (hashing.fromHex_hex _)

/-- Where no algorithm is found, the string has no entry of a known one. -/
theorem entries_eq_nil {integrity : String}
    (h : sriStrength.find? (fun a => ((parseSri hashing integrity).get? a).isSome) = none) :
    sriEntries hashing integrity = [] := by
  rw [List.eq_nil_iff_forall_not_mem]
  intro e he
  have hnone := List.find?_eq_none.mp h e.1 (known_of_mem he)
  exact hnone ((parseSri_isSome integrity e.1).mpr ⟨e.2, he⟩)

theorem sriMatches_of_nil (h : sriEntries hashing (row.integrity.getD "") = []) :
    SriMatches hashing row data := by
  rintro algorithm ⟨⟨value, hvalue⟩, -⟩
  rw [h] at hvalue
  exact absurd hvalue List.not_mem_nil

/-- **The check of an SRI string**: the digest is among the entries of its strongest
algorithm, and it was compared if there is one. -/
theorem checkSri_iff {integrity : String} (h : row.integrity = some integrity) (result : Bool) :
    checkSri hashing row.filename integrity
        (actualRaw hashing (storedOf hashing data) (extraDigests hashing row data)) = .ok result ↔
      SriMatches hashing row data ∧ result = !(sriEntries hashing integrity).isEmpty := by
  have hgetD : row.integrity.getD "" = integrity := by rw [h, Option.getD_some]
  unfold checkSri
  dsimp only
  rcases hfind : sriStrength.find? (fun a => ((parseSri hashing integrity).get? a).isSome)
    with _ | a
  · have hnil := entries_eq_nil hfind
    have hmatches : SriMatches hashing row data := sriMatches_of_nil (hgetD ▸ hnil)
    rw [hnil]
    exact ⟨fun heq => ⟨hmatches, (Except.ok.inj heq).symm⟩, fun heq => congrArg _ heq.2.symm⟩
  · have hstrongest := (strongest_iff integrity a).mp hfind
    have hsome : sriAlgorithm hashing row.integrity = some a := by
      unfold sriAlgorithm
      rw [hgetD]
      exact hfind
    have hmatches : SriMatches hashing row data ↔
        some (hashing.digest a data) ∈ valuesOf hashing (sriEntries hashing integrity) a := by
      rw [mem_valuesOf]
      unfold SriMatches
      rw [hgetD]
      refine ⟨fun hall => hall a hstrongest, fun hmem b hb => ?_⟩
      obtain rfl := Option.some.inj (hfind.symm.trans ((strongest_iff integrity b).mpr hb))
      exact hmem
    have hentries : (sriEntries hashing integrity).isEmpty = false := by
      obtain ⟨value, hvalue⟩ := hstrongest.present
      exact List.isEmpty_eq_false_iff_exists_mem.mpr ⟨_, hvalue⟩
    dsimp only
    rw [@actualRaw_get? hashing row data _ hsome, parseSri_values, hmatches, hentries]
    dsimp only
    split
    · next hmem =>
      exact ⟨fun heq => ⟨hmem, (Except.ok.inj heq).symm⟩, fun heq => congrArg _ heq.2.symm⟩
    · next hmem =>
      refine iff_of_false ?_ fun heq => hmem heq.1
      split <;> nofun

/-- **A download is accepted** exactly where every hex digest is that of its bytes, the
strongest known algorithm of its SRI string has their digest, and something was compared
where that is required. -/
theorem verify_accepts_iff (hashing : Hashing) (row : Expected) (data : Bytes) (require : Bool) :
    verifyDigests hashing row (storedOf hashing data) require (extraDigests hashing row data) =
        .ok () ↔
      HexMatches hashing row data ∧ SriMatches hashing row data ∧
        (require = true → Comparable hashing row) := by
  have hhexIff := @foldlM_checkHex hashing row.filename
    (hexChecks row (storedOf hashing data)) false
  simp only [hexChecks_matches, Bool.false_or] at hhexIff
  unfold verifyDigests
  rcases hhex : (hexChecks row (storedOf hashing data)).foldlM (checkHex hashing row.filename) false
    with e | compared
  · refine iff_of_false nofun fun h => ?_
    rw [(hhexIff _).mpr ⟨h.1, rfl⟩] at hhex
    cases hhex
  obtain ⟨hmatches, hcompared⟩ := (hhexIff compared).mp hhex
  rw [and_iff_right hmatches]
  have hadvertised : compared = true ↔ row.advertised ≠ [] := by
    rw [hcompared]
    exact hexChecks_any _
  -- what is left once it is known whether the SRI string was compared
  have hend (checked : Bool) (hchecked : checked = true ↔
      sriEntries hashing (row.integrity.getD "") ≠ []) (message : String) :
      (if require && !(checked || compared) then
        throw (.unverified message) else pure () : Except Refusal Unit) = .ok () ↔
          (require = true → Comparable hashing row) := by
    have hcomparable : Comparable hashing row ↔ (checked || compared) = true := by
      unfold Comparable
      rw [← hadvertised, ← hchecked, Bool.or_eq_true, or_comm]
    rw [hcomparable]
    rcases require with _ | _
    · exact iff_of_true rfl nofun
    · rcases checked || compared with _ | _
      · exact iff_of_false nofun fun h => Bool.false_ne_true (h rfl)
      · exact iff_of_true rfl fun _ => rfl
  by_cases hempty : row.integrity.getD "" = ""
  · have hnil : sriEntries hashing (row.integrity.getD "") = [] := by
      rw [hempty]
      rfl
    have hlast := hend false (iff_of_false Bool.false_ne_true fun h => h hnil)
    rw [and_iff_right (sriMatches_of_nil hnil), ← hlast]
    simp only [bind, Except.bind, if_pos hempty, pure, Except.pure, Bool.false_or]
    rfl
  · obtain ⟨integrity, hsome⟩ : ∃ integrity, row.integrity = some integrity := by
      rcases hsome : row.integrity with _ | integrity
      · rw [hsome] at hempty
        exact absurd rfl hempty
      · exact ⟨integrity, rfl⟩
    have hgetD : row.integrity.getD "" = integrity := by rw [hsome, Option.getD_some]
    have hsriIff := @checkSri_iff hashing row data _ hsome
    simp only [bind, Except.bind, if_neg hempty]
    rw [hgetD]
    rcases hsri : checkSri hashing row.filename integrity
        (actualRaw hashing (storedOf hashing data) (extraDigests hashing row data))
      with e | checked
    · refine iff_of_false nofun fun h => ?_
      rw [(hsriIff _).mpr ⟨h.1, rfl⟩] at hsri
      cases hsri
    · obtain ⟨hsriMatches, hchecked⟩ := (hsriIff checked).mp hsri
      have hlast := hend checked (by rw [hchecked, hgetD]; simp)
      rw [and_iff_right hsriMatches, ← hlast]
      rfl

/-- Digests of zeros, and one character a byte for hex. -/
def zeroHashing : Hashing where
  caseMap := .ascii
  digest algorithm _ := List.replicate algorithm.size 0
  b64decode _ := none
  hex data := String.ofList (data.map fun b => Char.ofNat b.toNat)
  fromHex text := text.toList.map fun c => UInt8.ofNat c.toNat
  length_digest algorithm _ := List.length_replicate
  fromHex_hex data := by
    rw [String.toList_ofList, List.map_map]
    refine List.map_id'' (fun b => ?_) data
    have hvalid : Nat.isValidChar b.toNat := .inl (b.toNat_lt.trans (by decide))
    have hnat : (Char.ofNat b.toNat).toNat = b.toNat := by
      unfold Char.ofNat
      rw [dif_pos hvalid]
      rfl
    rw [Function.comp_apply, hnat, UInt8.ofNat_toNat]

/-- An SRI string that does not decode compares nothing that could be right. -/
example : ¬ SriMatches zeroHashing
    { filename := "a", integrity := some "sha512-?", requireDigest := false } [] := by
  intro h
  have hstrongest : Strongest zeroHashing "sha512-?" .sha512 := by
    refine (strongest_iff "sha512-?" .sha512).mp ?_
    decide +kernel
  obtain ⟨value, -, hvalue⟩ := h .sha512 hstrongest
  cases hvalue

end Verify

end Minireg.Integrity
