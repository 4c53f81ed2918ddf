import Mathlib.Data.List.Basic

/-!
# Python strings

`strip` removes what `str.isspace` accepts, from both ends. The case maps of
Python are the full Unicode ones, so `CaseMap` leaves them abstract: nothing
here depends on what they do to a letter, only on both sides of a comparison
going through the same map. `CaseMap.ascii` is their restriction to ASCII.
-/

namespace Minireg.Py

/-- `str.lower` and `str.upper`. -/
structure CaseMap where
  lower : String → String
  upper : String → String

/-- The case maps on ASCII text. -/
def CaseMap.ascii : CaseMap where
  lower s := String.ofList (s.toList.map Char.toLower)
  upper s := String.ofList (s.toList.map Char.toUpper)

/-- `str.isspace` of one character. -/
def isSpace (c : Char) : Bool :=
  let n := c.toNat
  (0x09 ≤ n && n ≤ 0x0d) || (0x1c ≤ n && n ≤ 0x20) || n == 0x85 || n == 0xa0 || n == 0x1680 ||
    (0x2000 ≤ n && n ≤ 0x200a) || n == 0x2028 || n == 0x2029 || n == 0x202f || n == 0x205f ||
    n == 0x3000

/-- `s.strip()`. -/
def strip (s : String) : String :=
  String.ofList ((s.toList.dropWhile isSpace).reverse.dropWhile isSpace).reverse

/-- `sep` in `s`, as a substring test. -/
def hasSub (sub s : List Char) : Bool := s.tails.any fun t => sub.isPrefixOf t

/-- `s[:n]`. -/
def takeChars (n : Nat) (s : String) : String := String.ofList (s.toList.take n)

/-- `sep.join(parts)`. -/
def join (sep : String) : List String → String
  | [] => ""
  | [s] => s
  | s :: rest => s ++ sep ++ join sep rest

end Minireg.Py
