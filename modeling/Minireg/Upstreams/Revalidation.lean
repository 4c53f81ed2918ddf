import Minireg.Upstreams.Base

/-!
# Stored validators

The `packages.cached_etag` column holds validators bound to the upstream that
issued them, encoded as `<upstream id>|<last-modified>|<etag>`.
-/

namespace Minireg

open Py

/-- `_MAX_ENCODED`. -/
def maxEncoded : Nat := 255

/-- The text before the first separator and the text after it. -/
def splitSep (s : List Char) : Option (List Char × List Char) :=
  match s.dropWhile (· ≠ '|') with
  | [] => none
  | _ :: rest => some (s.takeWhile (· ≠ '|'), rest)

/-- `value or None`, for a text. -/
def orNone (s : List Char) : Option String := if s = [] then none else some (String.ofList s)

namespace Validators

def usable (v : Validators) : Bool := v.etag.getD "" ≠ "" || v.lastModified.getD "" ≠ ""

def encode (v : Validators) : Option String :=
  let lastModified := v.lastModified.getD ""
  let lastModified := if '|' ∈ lastModified.toList then "" else lastModified
  let etag := v.etag.getD ""
  [(etag, lastModified), ("", lastModified), (etag, "")].findSome? fun (etag, lm) =>
    if etag = "" && lm = "" then none
    else
      let encoded := toString v.upstreamId ++ "|" ++ lm ++ "|" ++ etag
      if encoded.length ≤ maxEncoded then some encoded else none

/-- `decode`, of what `encode` wrote: the id is decimal, and `int` does not raise. -/
def decode (stored : Option String) : Option Validators :=
  match splitSep (stored.getD "").toList with
  | none => none
  | some (id, rest) =>
    match splitSep rest with
    | none => none
    | some (lastModified, etag) =>
      if id ≠ [] && id.all Char.isDigit then
        let found : Validators :=
          { upstreamId := id.foldl (fun n c => n * 10 + (c.toNat - '0'.toNat)) 0
            etag := orNone etag
            lastModified := orNone lastModified }
        if found.usable then some found else none
      else none

/-- Every encoding starts with the id of the upstream and a separator. -/
theorem encode_bound {v : Validators} {e : String} (h : v.encode = some e) :
    ∃ rest, e.toList = Nat.toDigits 10 v.upstreamId ++ '|' :: rest := by
  unfold encode at h
  obtain ⟨⟨etag, lm⟩, -, h⟩ := List.exists_of_findSome?_eq_some h
  dsimp only at h
  split at h
  · cases h
  · split at h
    · obtain rfl := Option.some.inj h
      exact ⟨lm.toList ++ '|' :: etag.toList, by simp⟩
    · cases h

/-- Decoding gives back the id before the first separator. -/
theorem decode_bound {e : String} {n : Nat} {rest : List Char} {v : Validators}
    (he : e.toList = Nat.toDigits 10 n ++ '|' :: rest) (h : decode (some e) = some v) :
    v.upstreamId = n := by
  have hdigits : ∀ c ∈ Nat.toDigits 10 n, decide (c ≠ '|') = true := by
    intro c hc
    have hdigit := Nat.isDigit_of_mem_toDigits (by decide) (by decide) hc
    refine decide_eq_true fun heq => ?_
    subst heq
    cases hdigit
  have hsplit : splitSep e.toList = some (Nat.toDigits 10 n, rest) := by
    rw [he]
    unfold splitSep
    rw [List.dropWhile_append_of_pos hdigits, List.takeWhile_append_of_pos hdigits]
    simp
  unfold decode at h
  rw [Option.getD_some, hsplit] at h
  dsimp only at h
  split at h
  · cases h
  · split at h
    · split at h
      · obtain rfl := Option.some.inj h
        simpa only [Nat.ofDigitChars_eq_foldl, Nat.mul_comm] using
          Nat.ofDigitChars_ten_toDigits (n := n)
      · cases h
    · cases h

end Validators

end Minireg
