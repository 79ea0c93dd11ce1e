import DialectTypes.Adapter.Basic
import DialectTypes.Options.Basic

/-!
# SQLite

A column reports whatever type name it was declared with, and values arrive by
storage class. Only the affinity names are mapped.
-/

namespace DialectTypes

namespace Sqlite

open TypeExpr

def changes : List Adapter.Change :=
  [.defaultScalar (identifier "string"),
    .scalar "any" (identifier "unknown"),
    .scalar "blob" (identifier "Buffer"),
    .scalarsAs ["boolean", "integer", "numeric", "real"] "number",
    .scalar "text" (identifier "string")]

def adapter : Traced Adapter :=
  Adapter.build .sqlite changes

end Sqlite

/-- An SQLite run: the introspector's options and the adapter. -/
structure SqliteDialect where
  introspector : IntrospectorOptions
  adapter : Adapter
deriving DecidableEq

namespace SqliteDialect

def ofOptions (o : IntrospectorOptions) : Traced SqliteDialect :=
  ⟨⟨o, Sqlite.adapter.value⟩, Sqlite.adapter.events⟩

/-- The schemas to read. -/
def schemas (d : SqliteDialect) : List String :=
  d.introspector.schemasOr d.adapter.defaultSchemas

end SqliteDialect

end DialectTypes
