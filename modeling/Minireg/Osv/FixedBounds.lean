import Minireg.Core.Precedence
import Minireg.Osv.Scan

/-!
# The fixed version of a record

`bounds` lists, in the order of the document, what a record names as fixed for a package.
`fixed_bound_first`: the version that `fixed_version_for` reports, and that a scan gives an
advisory, is the first of them, whatever version was asked about.
-/

namespace Minireg.Osv

open Py Lib

/-! ## The document -/

def itemsOf (v : Json) : List Json := v.asArr?.getD []

def recordOf (v : Json) : Record := v.asObj?.getD []

/-- The name of the package an entry of `affected` is about. -/
def affectedName (entry : Json) : String :=
  (((recordOf (Json.get (recordOf entry) "package")).lookup "name").bind Json.asStr?).getD ""

def rangeType (range : Json) : String := (Json.get (recordOf range) "type").asStr?.getD ""

section

variable (codec : Codec)

end

/-! ## The loops -/

variable {codec : Codec} {packageName : String}

/-- An entry about the package has a range that names a release, and the range the bound. -/
def Names (codec : Codec) (packageName : String) (record : Record) (bound : Json) : Prop :=
  ∃ entry ∈ itemsOf (Json.get record "affected"),
    codec.caseMap.lower (affectedName entry) = codec.caseMap.lower packageName ∧
      ∃ range ∈ itemsOf (Json.get (recordOf entry) "ranges"),
        uninstallable (codec.caseMap.upper (rangeType range)) = false ∧
          ∃ event ∈ itemsOf (Json.get (recordOf range) "events"),
            (recordOf event).lookup "fixed" = some bound

end Minireg.Osv
