import Mathlib.Data.List.Sort
import Mathlib.Data.String.Basic
import Minireg.Cli.Audit
import Minireg.Core.Semver
import Minireg.Py.Dict
import Minireg.Py.Lines

/-!
# Reading requirements files

`readLine` is what `parse_requirements` sees in a line: an include, a pin, a requirement
that names a package without pinning it, or nothing it reports. `parseRequirements`
follows the includes of one file, `discover` reads every requirements file of a directory.
-/

namespace Minireg.Cli

open Py Semver

/-! ## One line -/

/-- A character of `[A-Za-z0-9._-]`. -/
def isNameChar (c : Char) : Bool := isAlnum c || c == '.' || c == '_'

/-- `raw.split("#", 1)[0].strip().rstrip("\\").strip()`. -/
def cleanLine (raw : List Char) : List Char :=
  let text := stripChars (raw.takeWhile (· ≠ '#'))
  stripChars (text.reverse.dropWhile (· = '\\')).reverse

/-- The file that `_INCLUDE_RE` finds. -/
def matchInclude (line : List Char) : Option (List Char) :=
  match line.dropPrefix? "-r".toList <|> line.dropPrefix? "--requirement".toList with
  | none => none
  | some rest =>
    let rest := rest.dropWhile isSpace
    let rest :=
      match rest with
      | '=' :: t => if t.dropWhile isSpace = [] then rest else t.dropWhile isSpace
      | _ => rest
    let file := rest.takeWhile fun c => !isSpace c
    if file = [] then none else some file

/-- What follows an opening bracket: the rest behind the closing one, or all of it. -/
def closeExtras (t : List Char) : List Char :=
  match t.dropWhile (· ≠ ']') with
  | _ :: rest => rest.dropWhile isSpace
  | [] => '[' :: t

/-- What follows `\s*(?:\[[^\]]*\])?\s*`. -/
def skipExtras (s : List Char) : List Char :=
  match s.dropWhile isSpace with
  | '[' :: t => closeExtras t
  | rest => rest

/-- A character of `[^\s;#]`. -/
def isPinChar (c : Char) : Bool := !isSpace c && c ≠ ';' && c ≠ '#'

/-- `\s*(?P<version>[^\s;#]+)`. -/
def scanPinned (s : List Char) : Option (List Char) :=
  let version := (s.dropWhile isSpace).takeWhile isPinChar
  if version = [] then none else some version

/-- `===?(?!=)\s*(?P<version>[^\s;#]+)`. -/
def pinnedAfter : List Char → Option (List Char)
  | '=' :: '=' :: '=' :: '=' :: _ => none
  | '=' :: '=' :: '=' :: rest => scanPinned rest
  | '=' :: '=' :: rest => scanPinned rest
  | _ => none

/-- The name and version that `_PIN_RE` finds. -/
def matchPin (line : List Char) : Option (List Char × List Char) :=
  let name := line.takeWhile isNameChar
  if name = [] then none
  else (pinnedAfter (skipExtras (line.dropWhile isNameChar))).map fun version => (name, version)

/-- A character of `("<", ">", "~", "!", "=")`. -/
def isSpecifierStart (c : Char) : Bool := c ∈ ['<', '>', '~', '!', '=']

/-- `_NAMED_RE` matches, and what is left is nothing or starts a specifier. -/
def isNamed (line : List Char) : Bool :=
  line.takeWhile isNameChar ≠ [] &&
    ((skipExtras (line.dropWhile isNameChar)).dropWhile isSpace).head?.all isSpecifierStart

/-- `"://" in line`. -/
def hasUrl (line : List Char) : Bool := hasSub "://".toList line

/-- What a line says. -/
inductive Line where
  | blank
  | file (name : List Char)
  | option
  | pin (name version : List Char)
  | named (line : List Char)
  | other
  deriving DecidableEq

def readLine (raw : List Char) : Line :=
  let line := cleanLine raw
  if line = [] then .blank
  else
    match matchInclude line with
    | some name => .file name
    | none =>
      if line.head? = some '-' || hasUrl line then .option
      else
        match matchPin line with
        | some (name, version) => .pin name version
        | none => if isNamed line then .named line else .other

/-! ## One file and what it includes -/

/-- A directory: the names of its files, the path that a text resolves to from it, and what can be
read at a path. The paths of the directory itself are inside it. -/
structure Directory (P : Type) where
  names : List String
  nodup : names.Nodup
  resolve : String → P
  inside : P → Bool
  fileName : P → String
  text : P → Option String
  files : List P
  mem_files : ∀ p t, text p = some t → p ∈ files

/-- What `parse_requirements` has gathered. `filesRead` is kept for the proofs. -/
structure Reading (P : Type) where
  out : List LockedPackage := []
  unpinned : List String := []
  notes : List String := []
  seenPins : List (String × String) := []
  visited : List P := []
  claimed : Dict P String := []
  filesRead : List P := []

section Parse

variable {P : Type} [DecidableEq P] (dir : Directory P)

/-- The lines of a file, read. -/
def linesOf (text : String) : List Line := (splitLines text.toList).map readLine

/-- `pin.group("name").lower()`. -/
def lowerName (name : List Char) : String := String.ofList (name.map Char.toLower)

/-- A pin is listed once. -/
def Reading.addPin (s : Reading P) (name version : List Char) : Reading P :=
  let key := (lowerName name, String.ofList version)
  if key ∈ s.seenPins then s
  else
    { s with
      seenPins := key :: s.seenPins
      out := s.out ++ [{ name := String.ofList name, version := String.ofList version }] }

/-- A file that is left to another one is noted the first time. -/
def Reading.leave (s : Reading P) (target : P) (note : String) : Reading P :=
  if target ∈ s.visited then s
  else { s with visited := target :: s.visited, notes := s.notes ++ [note] }

/-- The file that is audited, and those that are audited on their own. -/
structure Audited (P : Type) where
  name : String
  standalone : List P

/-- `path.resolve()`. -/
def Audited.root (dir : Directory P) (path : Audited P) : P := dir.resolve path.name

/-- The notes about a file that is not read here. -/
def notFollowed (file : String) : String :=
  "not following -r " ++ file ++ ": only files in the same directory are read"

def onItsOwn (fileName : String) : String := "includes " ++ fileName ++ " (audited on its own)"

def countedUnder (fileName other : String) : String :=
  "includes " ++ fileName ++ " (counted under " ++ other ++ ")"

/-- An include line. -/
def includeFile (path : Audited P) (read : P → Reading P → Option (Reading P))
    (name : List Char) (s : Reading P) : Option (Reading P) :=
  let file := String.ofList name
  let target := dir.resolve file
  if !dir.inside target then some { s with notes := s.notes ++ [notFollowed file] }
  else if target ∈ path.standalone ∧ target ≠ path.root dir then
    some (s.leave target (onItsOwn (dir.fileName target)))
  else
    match s.claimed.get? target with
    | some other =>
      if other = path.name then read target s
      else some (s.leave target (countedUnder (dir.fileName target) other))
    | none =>
      read target
        (if target = path.root dir then s else { s with claimed := s.claimed.set target path.name })

/-- One turn of the loop over the lines. -/
def readItem (path : Audited P) (read : P → Reading P → Option (Reading P)) (s : Reading P) :
    Line → Option (Reading P)
  | .blank | .option | .other => some s
  | .file name => includeFile dir path read name s
  | .pin name version => some (s.addPin name version)
  | .named line => some { s with unpinned := s.unpinned ++ [String.ofList line] }

/-- `read`, to a depth of includes. -/
def readFile (path : Audited P) : Nat → P → Reading P → Option (Reading P)
  | 0, _, _ => none
  | depth + 1, current, s =>
    if current ∈ s.visited then some s
    else
      let s := { s with visited := current :: s.visited }
      match dir.text current with
      | none =>
        some (if current = path.root dir then s
          else { s with notes := s.notes ++ ["could not read included " ++ dir.fileName current] })
      | some text =>
        (linesOf text).foldlM (readItem dir path (readFile path depth))
          { s with filesRead := current :: s.filesRead }

/-- `parse_requirements`. No chain of includes is longer than there are files. -/
def parseRequirements (name : String) (standalone : List P) (claimed : Dict P String) :
    Option (Reading P) :=
  let path : Audited P :=
    { name := name, standalone := if standalone = [] then [dir.resolve name] else standalone }
  readFile dir path (dir.files.length + 1) (path.root dir) { claimed := claimed }

/-! ## A directory -/

/-- How a recognised file is read. -/
inductive Parser where
  | requirements
  | lockfile
  deriving DecidableEq

/-- `LOCKFILES`. -/
def lockfiles : List (String × String × Parser) :=
  [("package-lock.json", "npm", .lockfile), ("npm-shrinkwrap.json", "npm", .lockfile),
    ("poetry.lock", "pypi", .lockfile), ("uv.lock", "pypi", .lockfile),
    ("Pipfile.lock", "pypi", .lockfile), ("Cargo.lock", "cargo", .lockfile),
    ("requirements.lock", "pypi", .requirements), ("requirements-lock.txt", "pypi", .requirements),
    ("requirements.txt", "pypi", .requirements)]

/-- `requirements*.txt` or `requirements*.lock`. -/
def isRequirementsName (name : String) : Bool :=
  name.startsWith "requirements" && (name.endsWith ".txt" || name.endsWith ".lock")

/-- The fixed names, then every other requirements file in a stable order. -/
def entries : List (String × String × Parser) :=
  let extra := (dir.names.filter fun name =>
    isRequirementsName name && name ∉ lockfiles.map Prod.fst).insertionSort (· ≤ ·)
  lockfiles ++ extra.map fun name => (name, "pypi", .requirements)

/-- A file of the directory, and what was read from it. -/
structure Found (P : Type) where
  path : String
  ecosystem : String
  packages : List LockedPackage
  unpinned : List String
  notes : List String
  filesRead : List P

/-- The requirements files that are audited. -/
def auditedNames : List String :=
  ((entries dir).filter fun e => e.2.2 = .requirements ∧ e.1 ∈ dir.names).map Prod.fst

/-- One turn of the loop over the entries. -/
def discoverEntry (lockPackages : String → List LockedPackage) (standalone : List P)
    (acc : List (Found P) × Dict P String) (entry : String × String × Parser) :
    Option (List (Found P) × Dict P String) :=
  if entry.1 ∉ dir.names then some acc
  else
    match entry.2.2 with
    | .lockfile =>
      some (acc.1 ++ [{ path := entry.1, ecosystem := entry.2.1, packages := lockPackages entry.1,
                        unpinned := [], notes := [], filesRead := [] }], acc.2)
    | .requirements =>
      (parseRequirements dir entry.1 standalone acc.2).map fun s =>
        (acc.1 ++ [{ path := entry.1, ecosystem := entry.2.1, packages := s.out,
                     unpinned := s.unpinned, notes := s.notes, filesRead := s.filesRead }],
          s.claimed)

/-- `discover`. The parsers of the other lockfiles are given. -/
def discover (lockPackages : String → List LockedPackage) : Option (List (Found P)) :=
  ((entries dir).foldlM (discoverEntry dir lockPackages ((auditedNames dir).map dir.resolve))
    ([], [])).map Prod.fst

end Parse

end Minireg.Cli
