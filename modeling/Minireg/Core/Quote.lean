import Minireg.Core.Naming

/-!
# Quoting a path segment

`quote` spells a text so that it can stand between two slashes of a URL, and `unquote` is what
the server reads of it: the percent escapes as bytes, the bytes as UTF-8. A text that was
quoted is read as it was.
-/

namespace Minireg

open Py

def hexDigits : List Char := "0123456789ABCDEF".toList

/-- The value of a hexadecimal digit, of either case. -/
def hexValue (c : Char) : Option Nat :=
  if '0' ≤ c ∧ c ≤ '9' then some (c.toNat - '0'.toNat)
  else if 'A' ≤ c ∧ c ≤ 'F' then some (c.toNat - 'A'.toNat + 10)
  else if 'a' ≤ c ∧ c ≤ 'f' then some (c.toNat - 'a'.toNat + 10)
  else none

def percentByte (b : UInt8) : List Char :=
  ['%', hexDigits.getD (b.toNat / 16) '0', hexDigits.getD (b.toNat % 16) '0']

def quoteChar (c : Char) : List Char :=
  if isUnreserved c then [c] else (String.utf8EncodeChar c).flatMap percentByte

/-- `quote(s, safe="")`. -/
def quote (s : String) : String := String.ofList (s.toList.flatMap quoteChar)

/-- `"/".join(quote(segment, safe="") for segment in path.split("/"))`. -/
def quotePath (path : String) : String :=
  join "/" ((path.toList.splitOn '/').map fun segment => quote (String.ofList segment))

/-- The bytes of a path as it was sent: a `%` that no two digits follow stands for itself. -/
def unquoteBytes : List Char → List UInt8
  | [] => []
  | '%' :: a :: b :: rest =>
    match hexValue a, hexValue b with
    | some x, some y => UInt8.ofNat (16 * x + y) :: unquoteBytes rest
    | _, _ => UInt8.ofNat '%'.toNat :: unquoteBytes (a :: b :: rest)
  | c :: rest => UInt8.ofNat c.toNat :: unquoteBytes rest

/-- The text of a path; none where the bytes are not UTF-8. -/
def unquote (path : String) : Option String :=
  (unquoteBytes path.toList).toByteArray.utf8Decode?.map fun cs => String.ofList cs.toList

theorem hexValue_digit {n : Nat} (h : n < 16) : hexValue (hexDigits.getD n '0') = some n := by
  have hall : ∀ i : Fin 16, hexValue (hexDigits.getD i.val '0') = some i.val := by decide
  exact hall ⟨n, h⟩

theorem unquoteBytes_percentByte (b : UInt8) (rest : List Char) :
    unquoteBytes (percentByte b ++ rest) = b :: unquoteBytes rest := by
  have hb := b.toNat_lt
  have hhi : b.toNat / 16 < 16 := by omega
  have hlo : b.toNat % 16 < 16 := by omega
  have hsum : 16 * (b.toNat / 16) + b.toNat % 16 = b.toNat := by omega
  unfold percentByte
  simp only [List.cons_append, List.nil_append]
  rw [unquoteBytes, hexValue_digit hhi, hexValue_digit hlo]
  simp [hsum]

theorem unquoteBytes_percentBytes (bs : List UInt8) (rest : List Char) :
    unquoteBytes (bs.flatMap percentByte ++ rest) = bs ++ unquoteBytes rest := by
  induction bs with
  | nil => rfl
  | cons b bs ih =>
    rw [List.flatMap_cons, List.append_assoc, unquoteBytes_percentByte, ih, List.cons_append]

/-- A character that stands for itself is ASCII, and neither a slash nor the start of an
escape. -/
theorem isUnreserved_ascii {c : Char} (h : isUnreserved c = true) :
    c.toNat < 128 ∧ c ≠ '%' ∧ c ≠ '/' := by
  refine ⟨?_, fun hc => ?_, fun hc => ?_⟩
  · simp only [isUnreserved, Bool.or_eq_true, Bool.and_eq_true, decide_eq_true_eq, beq_iff_eq,
      Char.le_def, UInt32.le_iff_toNat_le] at h
    rcases h with (((((h | h) | h) | rfl) | rfl) | rfl) | rfl
    · exact Nat.lt_of_le_of_lt h.2 (by decide)
    · exact Nat.lt_of_le_of_lt h.2 (by decide)
    · exact Nat.lt_of_le_of_lt h.2 (by decide)
    all_goals decide
  · subst hc
    exact absurd h (by decide)
  · subst hc
    exact absurd h (by decide)

theorem unquoteBytes_cons {c : Char} (h : c ≠ '%') (rest : List Char) :
    unquoteBytes (c :: rest) = UInt8.ofNat c.toNat :: unquoteBytes rest := by
  rw [unquoteBytes]
  rintro a b t rfl
  exact absurd rfl h

theorem utf8EncodeChar_ascii {c : Char} (h : c.toNat < 128) :
    String.utf8EncodeChar c = [UInt8.ofNat c.toNat] := by
  have hle : c.val ≤ 127 := UInt32.le_iff_toNat_le.mpr (Nat.le_of_lt_succ h)
  rw [String.utf8EncodeChar_eq_singleton (Char.utf8Size_eq_one_iff.mpr hle)]
  rfl

theorem unquoteBytes_quoteChar (c : Char) (rest : List Char) :
    unquoteBytes (quoteChar c ++ rest) = String.utf8EncodeChar c ++ unquoteBytes rest := by
  unfold quoteChar
  split
  · rename_i h
    obtain ⟨hascii, hpercent, -⟩ := isUnreserved_ascii h
    rw [List.cons_append, List.nil_append, unquoteBytes_cons hpercent,
      utf8EncodeChar_ascii hascii, List.cons_append, List.nil_append]
  · exact unquoteBytes_percentBytes _ rest

theorem unquoteBytes_quoteChars (s : List Char) (rest : List Char) :
    unquoteBytes (s.flatMap quoteChar ++ rest) =
      s.flatMap String.utf8EncodeChar ++ unquoteBytes rest := by
  induction s with
  | nil => rfl
  | cons c s ih =>
    rw [List.flatMap_cons, List.append_assoc, unquoteBytes_quoteChar, ih, List.flatMap_cons,
      List.append_assoc]

/-- Quoting leaves no character that a URL takes for its own. -/
theorem mem_quoteChar {c d : Char} (h : d ∈ quoteChar c) : d = '%' ∨ isUnreserved d = true := by
  unfold quoteChar at h
  split at h
  · rename_i hc
    exact .inr (List.mem_singleton.mp h ▸ hc)
  · obtain ⟨b, -, hd⟩ := List.mem_flatMap.mp h
    have hdigit : ∀ i, i < 16 → isUnreserved (hexDigits.getD i '0') = true := by
      have hall : ∀ i : Fin 16, isUnreserved (hexDigits.getD i.val '0') = true := by decide
      exact fun i hi => hall ⟨i, hi⟩
    have hb := b.toNat_lt
    unfold percentByte at hd
    rcases List.mem_cons.mp hd with rfl | hd
    · exact .inl rfl
    rcases List.mem_cons.mp hd with rfl | hd
    · exact .inr (hdigit _ (by omega))
    · exact .inr (List.mem_singleton.mp hd ▸ hdigit _ (by omega))

/-! ## A path with its slashes -/

/-- What a character of a path becomes: the slashes stay. -/
def quotePathChar (c : Char) : List Char := if c = '/' then [c] else quoteChar c

theorem quote_cons (c : Char) (s : List Char) :
    quote (String.ofList (c :: s)) =
      String.ofList (quoteChar c) ++ quote (String.ofList s) := by
  unfold quote
  rw [String.toList_ofList, String.toList_ofList, List.flatMap_cons, String.ofList_append]

theorem join_cons_cons (sep a b : String) (rest : List String) :
    join sep (a :: b :: rest) = a ++ sep ++ join sep (b :: rest) := rfl

theorem join_append_cons (sep a b : String) (rest : List String) :
    join sep ((a ++ b) :: rest) = a ++ join sep (b :: rest) := by
  cases rest with
  | nil => rfl
  | cons c rest =>
    rw [join_cons_cons, join_cons_cons, String.append_assoc, String.append_assoc,
      String.append_assoc]

theorem quotePath_toList (path : String) :
    (quotePath path).toList = path.toList.flatMap quotePathChar := by
  unfold quotePath
  induction path.toList with
  | nil => rfl
  | cons c s ih =>
    rw [List.flatMap_cons, ← ih, List.splitOn_cons_eq_if_modifyHead]
    obtain ⟨first, rest, hsplit⟩ := List.exists_cons_of_ne_nil (List.splitOn_ne_nil '/' s)
    rw [hsplit]
    by_cases hc : c = '/'
    · subst hc
      rw [if_pos (beq_self_eq_true _), List.map_cons, List.map_cons, join_cons_cons,
        String.toList_append]
      rfl
    · rw [if_neg (by simpa using hc), quotePathChar, if_neg hc, List.modifyHead_cons,
        List.map_cons, quote_cons, join_append_cons, String.toList_append, String.toList_ofList]
      rfl

theorem unquoteBytes_quotePathChars (s rest : List Char) :
    unquoteBytes (s.flatMap quotePathChar ++ rest) =
      s.flatMap String.utf8EncodeChar ++ unquoteBytes rest := by
  induction s with
  | nil => rfl
  | cons c s ih =>
    rw [List.flatMap_cons, List.append_assoc, List.flatMap_cons, List.append_assoc, ← ih]
    by_cases hc : c = '/'
    · subst hc
      rw [quotePathChar, if_pos rfl, List.cons_append, List.nil_append,
        unquoteBytes_cons (by decide)]
      rfl
    · rw [quotePathChar, if_neg hc, unquoteBytes_quoteChar]

/-- A path is read as the text whose bytes it spells. -/
theorem unquote_of_bytes {path s : List Char}
    (h : unquoteBytes path = s.flatMap String.utf8EncodeChar) :
    unquote (String.ofList path) = some (String.ofList s) := by
  unfold unquote
  rw [String.toList_ofList, h]
  have hdecode := List.utf8Decode?_utf8Encode (l := s)
  unfold List.utf8Encode at hdecode
  rw [hdecode]
  rfl

/-- The path of a quoted name under some directories is read as it was. -/
theorem unquote_path (dirs name : List Char) :
    unquote (String.ofList (dirs.flatMap quotePathChar ++ name.flatMap quoteChar)) =
      some (String.ofList (dirs ++ name)) := by
  have hname := unquoteBytes_quoteChars name []
  rw [List.append_nil] at hname
  refine unquote_of_bytes ?_
  rw [unquoteBytes_quotePathChars, hname, List.flatMap_append]
  exact congrArg _ (List.append_nil _)

end Minireg
