import Mathlib.Data.List.Lex
import Mathlib.Data.Prod.Lex
import Mathlib.Data.String.Basic
import Minireg.Py.Text

/-!
# Versions and version ranges

`SemVer.parse` reads a version, `SemVer.key` is what precedence compares, and
`parseRange` reads a node-semver range: a range is desugared, token by token,
into primitive comparators. The regular expressions of the source are
deterministic on what they accept, so each one is a scanner that consumes as
much as it can. An integer of more digits than Python converts raises, and so
do `parseRange` and `satisfies` here.
-/

namespace Minireg.Semver

open Py

/-! ## Characters and numbers -/

/-- Where the blocks of ten decimal digits start. -/
def decimalBlocks : List Nat :=
  [0x30, 0x660, 0x6f0, 0x7c0, 0x966, 0x9e6, 0xa66, 0xae6, 0xb66, 0xbe6, 0xc66, 0xce6, 0xd66, 0xde6,
    0xe50, 0xed0, 0xf20, 0x1040, 0x1090, 0x17e0, 0x1810, 0x1946, 0x19d0, 0x1a80, 0x1a90, 0x1b50,
    0x1bb0, 0x1c40, 0x1c50, 0xa620, 0xa8d0, 0xa900, 0xa9d0, 0xa9f0, 0xaa50, 0xabf0, 0xff10, 0x104a0,
    0x10d30, 0x10d40, 0x11066, 0x110f0, 0x11136, 0x111d0, 0x112f0, 0x11450, 0x114d0, 0x11650,
    0x116c0, 0x116d0, 0x116da, 0x11730, 0x118e0, 0x11950, 0x11bf0, 0x11c50, 0x11d50, 0x11da0,
    0x11f50, 0x16130, 0x16a60, 0x16ac0, 0x16b50, 0x16d70, 0x1ccf0, 0x1d7ce, 0x1d7d8, 0x1d7e2,
    0x1d7ec, 0x1d7f6, 0x1e140, 0x1e2f0, 0x1e4f0, 0x1e5f1, 0x1e950, 0x1fbf0]

/-- The digit a character stands for: `\d` admits the decimals of every script. -/
def decimal? (c : Char) : Option Nat :=
  (decimalBlocks.find? fun b => b ≤ c.toNat && c.toNat < b + 10).map fun b => c.toNat - b

/-- `\d`. -/
def isDecimal (c : Char) : Bool := (decimal? c).isSome

/-- `[a-zA-Z-]`. -/
def isLetter (c : Char) : Bool := ('a' ≤ c && c ≤ 'z') || ('A' ≤ c && c ≤ 'Z') || c == '-'

/-- `[0-9a-zA-Z-]`. -/
def isAlnum (c : Char) : Bool := ('0' ≤ c && c ≤ '9') || isLetter c

/-- A character of `[v=\s]`. -/
def isLead (c : Char) : Bool := c == 'v' || c == '=' || isSpace c

/-- What `int` and `str` raise. -/
inductive ValueError where
  | tooManyDigits
  deriving DecidableEq, Repr

/-- What reading a range raises. -/
inductive RangeError where
  | invalidRange (msg : String)
  | valueError (e : ValueError)
  deriving DecidableEq, Repr

/-- An error on its way through the range parser. -/
def raised {α : Type} : Except ValueError α → Except RangeError α := Except.mapError .valueError

/-- How many digits Python converts. -/
def maxStrDigits : Nat := 4300

/-- `int(s)`, for a text of digits. -/
def pyInt (s : List Char) : Except ValueError Nat :=
  if maxStrDigits < s.length then .error .tooManyDigits
  else .ok (s.foldl (fun n c => 10 * n + (decimal? c).getD 0) 0)

/-- `str(n)`. -/
def pyStr (n : Nat) : Except ValueError (List Char) :=
  let s := (toString n).toList
  if maxStrDigits < s.length then .error .tooManyDigits else .ok s

/-! ## Scanners -/

/-- `_NUM`. -/
def scanNum : List Char → Option (List Char × List Char)
  | '0' :: rest => some (['0'], rest)
  | c :: rest =>
    if '1' ≤ c ∧ c ≤ '9' then some (c :: rest.takeWhile isDecimal, rest.dropWhile isDecimal)
    else none
  | [] => none

/-- `_XID`. -/
def scanXid : List Char → Option (List Char × List Char)
  | 'x' :: rest => some (['x'], rest)
  | 'X' :: rest => some (['X'], rest)
  | '*' :: rest => some (['*'], rest)
  | s => scanNum s

/-- One identifier, matching `_PRE_IDENT`. -/
def isPreIdent (s : List Char) : Bool :=
  (match scanNum s with
    | some (_, rest) => rest.isEmpty
    | none => false) ||
  match s.dropWhile isDecimal with
  | c :: rest => isLetter c && rest.all isAlnum
  | [] => false

/-- `_PRERELEASE?`: the identifiers after a hyphen. -/
def scanPrerelease : List Char → Option (List Char) × List Char
  | '-' :: rest =>
    let inPre := fun c => isDecimal c || isAlnum c || c == '.'
    let pre := rest.takeWhile inPre
    if (pre.splitOn '.').all isPreIdent then (some pre, rest.dropWhile inPre) else (none, '-' :: rest)
  | s => (none, s)

/-- `_BUILD?`. -/
def scanBuild : List Char → Option (List Char) × List Char
  | '+' :: rest =>
    let inBuild := fun c => isAlnum c || c == '.'
    let build := rest.takeWhile inBuild
    if (build.splitOn '.').all (fun part => !part.isEmpty) then
      (some build, rest.dropWhile inBuild)
    else (none, '+' :: rest)
  | s => (none, s)

/-- The groups of a full version. -/
structure Groups where
  major : List Char
  minor : List Char
  patch : List Char
  pre : Option (List Char)
  build : Option (List Char)
  deriving DecidableEq, Repr

/-- `NUM.NUM.NUM` with a prerelease and build metadata, and what follows. -/
def scanVersion (s : List Char) : Option (Groups × List Char) :=
  match scanNum s with
  | some (major, '.' :: s) =>
    match scanNum s with
    | some (minor, '.' :: s) =>
      match scanNum s with
      | some (patch, s) =>
        let (pre, s) := scanPrerelease s
        let (build, s) := scanBuild s
        some ({ major := major, minor := minor, patch := patch, pre := pre, build := build }, s)
      | none => none
    | _ => none
  | _ => none

/-- `FULL_VERSION_RE`. -/
def matchFullVersion (s : List Char) : Option Groups :=
  match scanVersion (s.dropWhile isLead) with
  | some (groups, rest) => if rest.all isSpace then some groups else none
  | none => none

/-- The groups of a partial version. A component that is missing is `none`. -/
structure Partial where
  major : List Char
  minor : Option (List Char) := none
  patch : Option (List Char) := none
  pre : Option (List Char) := none
  build : Option (List Char) := none
  deriving DecidableEq, Repr

/-- `_XRANGE_PLAIN`, and what follows. -/
def scanPartial (s : List Char) : Option (Partial × List Char) :=
  match scanXid (s.dropWhile isLead) with
  | none => none
  | some (major, s) =>
    match s with
    | '.' :: t =>
      match scanXid t with
      | none => some ({ major := major }, s)
      | some (minor, s) =>
        match s with
        | '.' :: t =>
          match scanXid t with
          | none => some ({ major := major, minor := some minor }, s)
          | some (patch, s) =>
            let (pre, s) := scanPrerelease s
            let (build, s) := scanBuild s
            some ({ major := major, minor := some minor, patch := some patch, pre := pre,
                    build := build }, s)
        | s => some ({ major := major, minor := some minor }, s)
    | s => some ({ major := major }, s)

/-- `_XRANGE_PLAIN\s*$`. -/
def matchPartial (s : List Char) : Option Partial :=
  match scanPartial s with
  | some (p, rest) => if rest.all isSpace then some p else none
  | none => none

/-- The comparison a comparator asks for. `empty` is the operator left out. -/
inductive Operator where
  | empty | eq | lt | le | gt | ge
  deriving DecidableEq, Repr

def Operator.text : Operator → List Char
  | .empty => []
  | .eq => ['=']
  | .lt => ['<']
  | .le => ['<', '=']
  | .gt => ['>']
  | .ge => ['>', '=']

/-- `([<>]?=?)`. -/
def scanOperator : List Char → Operator × List Char
  | '<' :: '=' :: rest => (.le, rest)
  | '<' :: rest => (.lt, rest)
  | '>' :: '=' :: rest => (.ge, rest)
  | '>' :: rest => (.gt, rest)
  | '=' :: rest => (.eq, rest)
  | s => (.empty, s)

/-- `TILDE_RE`. -/
def matchTilde (s : List Char) : Option Partial :=
  match s.dropWhile isSpace with
  | '~' :: '>' :: rest => matchPartial rest
  | '~' :: rest => matchPartial rest
  | _ => none

/-- `CARET_RE`. -/
def matchCaret (s : List Char) : Option Partial :=
  match s.dropWhile isSpace with
  | '^' :: rest => matchPartial rest
  | _ => none

/-- `XRANGE_RE`. -/
def matchXrange (s : List Char) : Option (Operator × Partial) :=
  let (operator, rest) := scanOperator (s.dropWhile isSpace)
  (matchPartial (rest.dropWhile isSpace)).map fun p => (operator, p)

/-- `COMPARATOR_RE`. -/
def matchComparator (s : List Char) : Option (Operator × Groups) :=
  let (operator, rest) := scanOperator (s.dropWhile isSpace)
  (matchFullVersion (rest.dropWhile isSpace)).map fun g => (operator, g)

/-- `s.strip()`. -/
def stripChars (s : List Char) : List Char :=
  ((s.dropWhile isSpace).reverse.dropWhile isSpace).reverse

/-- The groups of `HYPHEN_RE`, each side with its text. -/
def matchHyphen (s : List Char) : Option ((List Char × Partial) × (List Char × Partial)) :=
  let left := s.dropWhile isSpace
  match scanPartial left with
  | none => none
  | some (low, rest) =>
    match rest, rest.dropWhile isSpace with
    | c :: _, '-' :: d :: right =>
      if isSpace c && isSpace d then
        let right := right.dropWhile isSpace
        (matchPartial right).map fun high =>
          ((left.take (left.length - rest.length), low), (stripChars right, high))
      else none
    | _, _ => none

/-! ## Versions -/

/-- One dot-separated identifier of a prerelease. -/
inductive Ident where
  | num (n : Nat)
  | alpha (s : String)
  deriving DecidableEq, Repr

structure SemVer where
  major : Nat
  minor : Nat
  patch : Nat
  prerelease : List Ident := []
  build : Option String := none
  deriving DecidableEq, Repr

/-- `_split_prerelease`. -/
def splitPrerelease : Option (List Char) → Except ValueError (List Ident)
  | none | some [] => .ok []
  | some raw => (raw.splitOn '.').mapM fun part =>
    if part.all isDecimal then (pyInt part).map .num else .ok (.alpha (String.ofList part))

/-- The version some groups spell. -/
def Groups.toSemVer (g : Groups) : Except ValueError SemVer := do
  let major ← pyInt g.major
  let minor ← pyInt g.minor
  let patch ← pyInt g.patch
  let prerelease ← splitPrerelease g.pre
  return { major := major, minor := minor, patch := patch, prerelease := prerelease,
           build := g.build.map String.ofList }

/-- `(0, n, "")` of a number, `(1, 0, s)` of anything else. -/
abbrev Part := Nat ×ₗ Nat ×ₗ String

def Ident.part : Ident → Part
  | .num n => toLex (0, toLex (n, ""))
  | .alpha s => toLex (1, toLex (0, s))

def Ident.text : Ident → String
  | .num n => toString n
  | .alpha s => s

/-- What precedence compares. Build metadata takes no part. -/
abbrev Key := Nat ×ₗ Nat ×ₗ Nat ×ₗ Nat ×ₗ List Part

/-- `_prerelease_key`: a version without a prerelease is above all that have one. -/
def prereleaseKey (prerelease : List Ident) : Nat ×ₗ List Part :=
  if prerelease.isEmpty then toLex (1, []) else toLex (0, prerelease.map Ident.part)

namespace SemVer

/-- `SemVer.parse`. -/
def parse (value : String) : Except ValueError (Option SemVer) :=
  match matchFullVersion (stripChars value.toList) with
  | none => .ok none
  | some g => g.toSemVer.map some

def isPrerelease (v : SemVer) : Bool := !v.prerelease.isEmpty

/-- `SemVer.tuple`. -/
def tuple (v : SemVer) : Nat × Nat × Nat := (v.major, v.minor, v.patch)

/-- `SemVer._key`. -/
def key (v : SemVer) : Key :=
  toLex (v.major, toLex (v.minor, toLex (v.patch, prereleaseKey v.prerelease)))

/-- Precedence equality. -/
def equivalent (v w : SemVer) : Bool := v.key = w.key

/-- `str(v)`. -/
def text (v : SemVer) : String :=
  let base := toString v.major ++ "." ++ toString v.minor ++ "." ++ toString v.patch
  let base := if v.prerelease.isEmpty then base
    else base ++ "-" ++ join "." (v.prerelease.map Ident.text)
  match v.build with
  | some build => if build = "" then base else base ++ "+" ++ build
  | none => base

end SemVer

/-! ## Comparators -/

/-- What a comparator compares with: `any` is `ANY`. -/
inductive Bound where
  | any
  | version (v : SemVer)
  deriving DecidableEq, Repr

structure Comparator where
  operator : Operator
  semver : Bound
  deriving DecidableEq, Repr

/-- `Comparator.test`. -/
def Comparator.test (c : Comparator) (v : SemVer) : Bool :=
  match c.semver with
  | .any => true
  | .version w =>
    match c.operator with
    | .empty | .eq => v.equivalent w
    | .gt => w.key < v.key
    | .ge => w.key ≤ v.key
    | .lt => v.key < w.key
    | .le => v.key ≤ w.key

/-- `ComparatorSet.test`: a prerelease needs a comparator that opts in. -/
def testSet (comparators : List Comparator) (v : SemVer) (includePrerelease : Bool) : Bool :=
  comparators.all (fun c => c.test v) &&
    if v.isPrerelease && !includePrerelease then
      comparators.any fun c => match c.semver with
        | .any => false
        | .version w => w.isPrerelease && w.tuple = v.tuple
    else true

/-- Comparator sets joined with `||`. -/
structure Range where
  sets : List (List Comparator)
  includePrerelease : Bool := false
  deriving DecidableEq, Repr

/-- `Range.test` of a parsed version. -/
def Range.test (r : Range) (v : SemVer) : Bool :=
  r.sets.any fun set => testSet set v r.includePrerelease

/-! ## Desugaring -/

/-- `_is_x`. -/
def isX : Option (List Char) → Bool
  | none => true
  | some s => s = [] || s = ['x'] || s = ['X'] || s = ['*']

/-- The text of a component that is there. -/
def digits (component : Option (List Char)) : List Char := component.getD []

/-- `"-0"` where prereleases are included. -/
def lowerPre (includePrerelease : Bool) : List Char := if includePrerelease then ['-', '0'] else []

/-- `f"{int(s) + 1}"`. -/
def bump (s : List Char) : Except ValueError (List Char) := do pyStr ((← pyInt s) + 1)

/-- `f"{a}.{b}.{c}"`. -/
def dotted (a b c : List Char) : List Char := a ++ '.' :: b ++ '.' :: c

/-- `f"{lower} {upper}"`. -/
def between (lower upper : List Char) : List Char := lower ++ ' ' :: upper

def zero : List Char := ['0']

/-- `<{major + 1}.0.0-0`. -/
def belowNextMajor (major : List Char) : Except ValueError (List Char) := do
  return '<' :: dotted (← bump major) zero zero ++ ['-', '0']

/-- `<{major}.{minor + 1}.0-0`. -/
def belowNextMinor (major minor : List Char) : Except ValueError (List Char) := do
  return '<' :: dotted major (← bump minor) zero ++ ['-', '0']

/-- `>={major}.{minor}.{patch}{suffix}`. -/
def atLeast (major minor patch suffix : List Char) : List Char :=
  '>' :: '=' :: dotted major minor patch ++ suffix

/-- The lower bound of a hyphen range. -/
def hyphenLower (low : List Char × Partial) (includePrerelease : Bool) : List Char :=
  let f := low.2
  if isX (some f.major) then []
  else if isX f.minor then atLeast f.major zero zero (lowerPre includePrerelease)
  else if isX f.patch then atLeast f.major (digits f.minor) zero (lowerPre includePrerelease)
  else '>' :: '=' :: stripChars low.1

/-- The upper bound of a hyphen range. -/
def hyphenUpper (high : List Char × Partial) : Except ValueError (List Char) :=
  let t := high.2
  if isX (some t.major) then .ok []
  else if isX t.minor then belowNextMajor t.major
  else if isX t.patch then belowNextMinor t.major (digits t.minor)
  else match t.pre with
    | some (c :: pre) =>
      .ok ('<' :: '=' :: dotted t.major (digits t.minor) (digits t.patch) ++ '-' :: c :: pre)
    | _ => .ok ('<' :: '=' :: stripChars high.1)

/-- `_desugar_hyphen`. -/
def desugarHyphen (low high : List Char × Partial) (includePrerelease : Bool) :
    Except ValueError (List Char) := do
  return stripChars (between (hyphenLower low includePrerelease) (← hyphenUpper high))

/-- The lower bound of a tilde or caret range whose components are all there. -/
def fullLower (p : Partial) (suffix : List Char) : List Char :=
  match p.pre with
  | some (c :: pre) => atLeast p.major (digits p.minor) (digits p.patch) ('-' :: c :: pre)
  | _ => atLeast p.major (digits p.minor) (digits p.patch) suffix

/-- `_desugar_tilde`. -/
def desugarTilde (p : Partial) (includePrerelease : Bool) : Except ValueError (List Char) := do
  let suffix := lowerPre includePrerelease
  if isX (some p.major) then return ['*']
  else if isX p.minor then
    return between (atLeast p.major zero zero suffix) (← belowNextMajor p.major)
  else if isX p.patch then
    return between (atLeast p.major (digits p.minor) zero suffix)
      (← belowNextMinor p.major (digits p.minor))
  else return between (fullLower p suffix) (← belowNextMinor p.major (digits p.minor))

/-- `_desugar_caret`. -/
def desugarCaret (p : Partial) (includePrerelease : Bool) : Except ValueError (List Char) := do
  let suffix := lowerPre includePrerelease
  if isX (some p.major) then return ['*']
  else if isX p.minor then
    return between (atLeast p.major zero zero suffix) (← belowNextMajor p.major)
  else if isX p.patch then
    let lower := atLeast p.major (digits p.minor) zero suffix
    if p.major = zero then return between lower (← belowNextMinor p.major (digits p.minor))
    else return between lower (← belowNextMajor p.major)
  else
    let lower := fullLower p (if p.major = zero then suffix else [])
    if p.major = zero then
      if digits p.minor = zero then
        return between lower
          ('<' :: dotted p.major (digits p.minor) (← bump (digits p.patch)) ++ ['-', '0'])
      else return between lower (← belowNextMinor p.major (digits p.minor))
    else return between lower (← belowNextMajor p.major)

/-- Move the bound of an operator past what its partial version leaves open. -/
def moveBound (operator : Operator) (xMinor : Bool) (major minor : Nat) : Operator × Nat × Nat :=
  match operator with
  | .gt => if xMinor then (.ge, major + 1, 0) else (.ge, major, minor + 1)
  | .le => if xMinor then (.lt, major + 1, minor) else (.lt, major, minor + 1)
  | operator => (operator, major, minor)

/-- `0 if x_minor else int(minor)`. -/
def minorOf (xMinor : Bool) (p : Partial) : Except ValueError Nat :=
  if xMinor then .ok 0 else pyInt (digits p.minor)

/-- An operator before a partial version: one bound, with both numbers written out. -/
def operatorBound (operator : Operator) (xMinor : Bool) (p : Partial) :
    Except ValueError (List Char) := do
  let minor ← minorOf xMinor p
  let major ← pyInt p.major
  let moved := moveBound operator xMinor major minor
  return moved.1.text ++ dotted (← pyStr moved.2.1) (← pyStr moved.2.2) zero ++
    (if moved.1 = .lt then ['-', '0'] else [])

/-- `_desugar_xrange`. A token that is a full version comes back unchanged. -/
def desugarXrange (token : List Char) (operator : Operator) (p : Partial)
    (includePrerelease : Bool) : Except ValueError (List Char) := do
  let xMinor := isX (some p.major) || isX p.minor
  let anyX := xMinor || isX p.patch
  let operator := if operator = .eq && anyX then .empty else operator
  let suffix := lowerPre includePrerelease
  if isX (some p.major) then
    if operator = .gt || operator = .lt then return "<0.0.0-0".toList else return ['*']
  else if operator ≠ .empty && anyX then operatorBound operator xMinor p
  else if xMinor then
    return between (atLeast p.major zero zero suffix) (← belowNextMajor p.major)
  else if anyX then
    return between (atLeast p.major (digits p.minor) zero suffix)
      (← belowNextMinor p.major (digits p.minor))
  else return stripChars token

/-! ## Range parsing -/

/-- `text.split()`. -/
def splitSpaces (s : List Char) : List (List Char) := (s.splitOnP isSpace).filter (· ≠ [])

/-- A character that ends an operator. -/
def isOperatorEnd (c : Char) : Bool :=
  c == '<' || c == '>' || c == '=' || c == '~' || c == '^'

/-- `_OPERATOR_SPACE_RE.sub`: the whitespace after an operator goes. -/
def dropOperatorSpace : Bool → List Char → List Char
  | _, [] => []
  | afterOperator, c :: rest =>
    if afterOperator && isSpace c then dropOperatorSpace true rest
    else c :: dropOperatorSpace (isOperatorEnd c) rest

/-- `_parse_comparator`. -/
def parseComparator (token : List Char) : Except RangeError Comparator :=
  let token := stripChars token
  if token = [] || token = ['*'] || token = ['x'] || token = ['X'] then
    .ok { operator := .empty, semver := .any }
  else match matchComparator token with
    | none => .error (.invalidRange (String.ofList ("invalid comparator: ".toList ++ token)))
    | some (operator, g) =>
      (raised g.toSemVer).map fun v => { operator := operator, semver := .version v }

/-- The first of the three sugared forms a token has. -/
def expandToken (token : List Char) (includePrerelease : Bool) : Except ValueError (List Char) :=
  match matchTilde token with
  | some p => desugarTilde p includePrerelease
  | none => match matchCaret token with
    | some p => desugarCaret p includePrerelease
    | none => match matchXrange token with
      | some (operator, p) => desugarXrange token operator p includePrerelease
      | none => .ok token

def anyComparator : List Comparator := [{ operator := .empty, semver := .any }]

/-- A hyphen range as its two bounds; anything else as it stands. -/
def expandHyphen (raw : List Char) (includePrerelease : Bool) : Except ValueError (List Char) :=
  match matchHyphen raw with
  | some (low, high) => desugarHyphen low high includePrerelease
  | none => .ok raw

/-- The comparators of one token. -/
def parseToken (token : List Char) (includePrerelease : Bool) :
    Except RangeError (List Comparator) := do
  (splitSpaces (← raised (expandToken token includePrerelease))).mapM parseComparator

/-- `_parse_comparator_set`. -/
def parseComparatorSet (raw : List Char) (includePrerelease : Bool) :
    Except RangeError (List Comparator) := do
  let raw := stripChars raw
  if raw = [] then return anyComparator
  else
    let raw ← raised (expandHyphen raw includePrerelease)
    let raw := dropOperatorSpace false (stripChars raw)
    if raw = [] then return anyComparator
    else
      let groups ← (splitSpaces raw).mapM fun token => parseToken token includePrerelease
      return if groups.flatten = [] then anyComparator else groups.flatten

/-- `re.split(r"\s*\|\|\s*", raw)`. The whitespace goes when a part is parsed. -/
def splitBars : List Char → List (List Char)
  | '|' :: '|' :: rest => [] :: splitBars rest
  | c :: rest => match splitBars rest with
    | part :: parts => (c :: part) :: parts
    | [] => [[c]]
  | [] => [[]]

def parseRange (rangeStr : String) (includePrerelease : Bool := false) : Except RangeError Range := do
  let sets ← (splitBars (stripChars rangeStr.toList)).mapM fun part =>
    parseComparatorSet part includePrerelease
  return { sets := sets, includePrerelease := includePrerelease }

/-- Only `InvalidRange` is caught. -/
def isValidRange (rangeStr : String) : Except ValueError Bool :=
  match parseRange rangeStr with
  | .ok _ => .ok true
  | .error (.invalidRange _) => .ok false
  | .error (.valueError e) => .error e

def satisfies (version rangeStr : String) (includePrerelease : Bool := false) :
    Except ValueError Bool := do
  match ← SemVer.parse version with
  | none => return false
  | some v =>
    match parseRange rangeStr includePrerelease with
    | .ok range => return range.test v
    | .error (.invalidRange _) => return false
    | .error (.valueError e) => .error e

end Minireg.Semver
