import ChartSchema.Document.Parser

/-!
# Registered schemas

Schemas under names, for others to build on. A schema registered under a name that is taken
replaces the earlier one.
-/

namespace ChartSchema

/-- Schemas by name. -/
abbrev Registry := Fields Schema

namespace Registry

def register (name : String) (schema : Schema) (registry : Registry) : Registry :=
  Fields.insert name schema registry

/-- Registers the schema of a document, as far as it could be parsed within a number of tokens,
and gives the errors. -/
def registerDocument (limit : Nat) (name source : String) (registry : Registry) :
    Registry × List ParseError :=
  let parsed := parseWithLimit limit source
  (register name parsed.schema registry, parsed.errors)

end Registry

end ChartSchema
