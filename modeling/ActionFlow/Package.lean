import ActionFlow.Activity.Exchange
import ActionFlow.Json.Reader

/-!
# Packages

A package is a class model together with the activities to be compiled against it.
-/

namespace ActionFlow

/-- A domain and its activities. -/
structure Package where
  domain : Domain
  activities : List ActivityDefinition
deriving Inhabited

namespace Package

/-- The exchanged form of a package. -/
def toJson (p : Package) : Json :=
  .obj [("domain", p.domain.toJson),
    ("activities", .ofList ActivityDefinition.toJson p.activities)]

/-- Reads a package; one that lists no activities has none. -/
def ofJson? (layout : Layout) (j : Json) : Option Package := do
  let r ← Record.ofJson? ["domain", "activities"] j
  return ⟨← r.field "domain" Domain.ofJson?,
    ← r.list "activities" (ActivityDefinition.ofJson? layout)⟩

/-- Reads the text of a package, in which the fields of an alternative may be listed in order. -/
def parse? (text : String) : Option Package := (Json.parse? text).bind (ofJson? .ordered)

end Package

end ActionFlow
