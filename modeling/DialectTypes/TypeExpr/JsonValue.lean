import DialectTypes.TypeExpr.Basic

/-!
# The type of a JSON value

A JSON value is a primitive, an array of JSON values or a record of JSON values.
The definitions here name these shapes and refer to each other, and to builtins,
only.
-/

namespace DialectTypes

namespace TypeExpr

def jsonDefinitions : List (String × TypeExpr) :=
  [("Json", identifier "JsonValue"),
    ("JsonArray", array (identifier "JsonValue")),
    ("JsonObject", record (identifier "JsonValue")),
    ("JsonPrimitive",
      union [identifier "boolean", identifier "number", identifier "string", identifier "null"]),
    ("JsonValue",
      union [identifier "JsonArray", identifier "JsonObject", identifier "JsonPrimitive"])]

/-- The names to which the definitions refer are defined or builtin. -/
theorem jsonDefinitions_closed :
    ∀ d ∈ jsonDefinitions, ∀ n ∈ d.2.names,
      n ∈ jsonDefinitions.map Prod.fst ∨ n ∈ builtins := by
  decide

end TypeExpr

end DialectTypes
