import DialectTypes.Postgres
import DialectTypes.Sqlite

/-!
# The adapter of a dialect

Each dialect has one adapter that serves where nothing is configured.
-/

namespace DialectTypes

def Dialect.defaultAdapter : Dialect → Traced Adapter
  | postgresql => Postgres.adapter {}
  | sqlite => Sqlite.adapter

end DialectTypes
