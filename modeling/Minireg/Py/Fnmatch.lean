import Mathlib.Data.List.Infix

/-!
# Shell-style globs

`fnmatch.fnmatchcase`: `translate` reads a pattern as the regular expression
Python's `fnmatch.translate` builds, `globMatch` runs it. A bracket expression
is cut into literals and hyphens; a range whose ends are out of order is
dropped with both ends, and what is left is read as a regular expression set,
where a leading `!` negates.
-/

namespace Minireg.Py.Fnmatch

/-- One item of a translated pattern. -/
inductive Glob where
  | lit (c : Char)
  | any
  | star
  | set (negated : Bool) (ranges : List (Char × Char))
  deriving DecidableEq, Repr

/-- The text of a bracket expression, with the hyphens that form ranges. -/
inductive Piece where
  | lit (c : Char)
  | hyphen
  deriving DecidableEq, Repr

/-- Cut the text of a bracket expression, dropping empty ranges. -/
def pieces : List Char → List Piece
  | [] => []
  | a :: '-' :: b :: rest =>
    if a ≤ b then .lit a :: .hyphen :: .lit b :: pieces rest else pieces rest
  | a :: rest => .lit a :: pieces rest

/-- The ranges of a regular expression set. -/
def ranges : List Piece → List (Char × Char)
  | [] => []
  | .lit a :: .hyphen :: .lit b :: rest => (a, b) :: ranges rest
  | .lit a :: rest => (a, a) :: ranges rest
  | .hyphen :: rest => ('-', '-') :: ranges rest

/-- The bracket expression whose text is `stuff`. -/
def bracket (stuff : List Char) : Glob :=
  let ps : List Piece := match stuff with
    | '!' :: rest => .lit '!' :: pieces rest
    | _ => pieces stuff
  match ps with
  | .lit '!' :: rest => .set true (ranges rest)
  | ps => .set false (ranges ps)

/-- The text up to the closing bracket and what follows it. A `]` right after
the opening bracket, or after its `!`, does not close it. -/
def closing (s : List Char) : Option (List Char × List Char) :=
  let (head, rest) := match s with
    | '!' :: ']' :: t => (['!', ']'], t)
    | '!' :: t => (['!'], t)
    | ']' :: t => ([']'], t)
    | t => ([], t)
  let body := rest.takeWhile (· ≠ ']')
  match rest.dropWhile (· ≠ ']') with
  | [] => none
  | _ :: after => some (head ++ body, after)

/-- `translate` with the pattern's length as fuel. -/
def translateAux : Nat → List Char → List Glob
  | 0, _ => []
  | _, [] => []
  | n + 1, '*' :: rest => .star :: translateAux n rest
  | n + 1, '?' :: rest => .any :: translateAux n rest
  | n + 1, '[' :: rest =>
    match closing rest with
    | none => .lit '[' :: translateAux n rest
    | some (stuff, after) => bracket stuff :: translateAux n after
  | n + 1, c :: rest => .lit c :: translateAux n rest

def translate (pat : List Char) : List Glob := translateAux pat.length pat

/-- Whether one item admits one character. -/
def Glob.admits : Glob → Char → Bool
  | .lit d, c => d == c
  | .any, _ => true
  | .star, _ => true
  | .set negated rs, c => (rs.any fun r => r.1 ≤ c && c ≤ r.2) != negated

/-- Whether the whole text matches. -/
def globMatch : List Glob → List Char → Bool
  | [], s => s.isEmpty
  | .star :: ps, s => s.tails.any fun t => globMatch ps t
  | p :: ps, s =>
    match s with
    | [] => false
    | c :: t => p.admits c && globMatch ps t

/-- `fnmatch.fnmatchcase(name, pat)`. -/
def fnmatchcase (name pat : String) : Bool := globMatch (translate pat.toList) name.toList

example : fnmatchcase "@corp/secrets" "@corp/*" = true := by decide
example : fnmatchcase "lib-b" "lib-[!a-c]" = false := by decide

end Minireg.Py.Fnmatch
