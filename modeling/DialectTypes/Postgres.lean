import DialectTypes.Adapter.Basic
import DialectTypes.Options.Basic
import DialectTypes.TypeExpr.Construction

/-!
# PostgreSQL

Values for which the driver has no parser arrive as strings, and every value can
be sent as a string. Three entries of the adapter hang on how the driver is
configured: the scalar `date` and the definitions `Numeric` and `Timestamp`.
-/

namespace DialectTypes

namespace Postgres

open TypeExpr

def dateScalar : DateParser → TypeExpr
  | .timestamp => identifier "Timestamp"
  | .string => identifier "string"

def numericDefinition : NumericParser → TypeExpr
  | .string => readWrite (identifier "string") written
  | .number => readWrite (identifier "number") written
  | .numberOrString => selectOnly written
where
  written := unionWith (identifier "number") [identifier "string"]

def timestampDefinition : TimestampParser → TypeExpr
  | .timestamp => readWrite (identifier "Date") written
  | .string => readWrite (identifier "string") written
where
  written := unionWith (identifier "Date") [identifier "string"]

def circleDefinition : TypeExpr :=
  object [("x", identifier "number"), ("y", identifier "number"), ("radius", identifier "number")]

def int8Definition : TypeExpr :=
  readWrite (identifier "string")
    (unionWith (identifier "string") [identifier "number", identifier "bigint"])

def intervalDefinition : TypeExpr :=
  readWrite (identifier "IPostgresInterval")
    (unionWith (identifier "IPostgresInterval") [identifier "number", identifier "string"])

def pointDefinition : TypeExpr :=
  object [("x", identifier "number"), ("y", identifier "number")]

/-- Native types that arrive as strings. -/
def textTypes : List String :=
  ["bit", "bpchar", "box", "cidr", "inet", "line", "lseg", "macaddr", "money", "path", "polygon",
    "text", "time", "tsquery", "tsvector", "txid_snapshot", "uuid", "varbit", "varchar", "xml"]

/-- Native types that arrive as numbers. -/
def numberTypes : List String :=
  ["float4", "float8", "int2", "int4", "oid"]

/-- The adapter of a driver that is not configured. -/
def defaults : List Adapter.Change :=
  [.defaultScalar (identifier "string"),
    .defaultSchemas ["public"],
    .definition "Circle" circleDefinition,
    .definition "Int8" int8Definition,
    .definition "Interval" intervalDefinition,
    .jsonDefinitions,
    .definition "Numeric" (numericDefinition (Choice.initial)),
    .definition "Point" pointDefinition,
    .definition "Timestamp" (timestampDefinition (Choice.initial)),
    .imported "IPostgresInterval" "postgres-interval",
    .scalarsAs textTypes "string",
    .scalarsAs numberTypes "number",
    .scalar "bool" (identifier "boolean"),
    .scalar "bytea" (identifier "Buffer"),
    .scalar "circle" (identifier "Circle"),
    .scalar "date" (dateScalar (Choice.initial)),
    .scalar "int8" (identifier "Int8"),
    .scalar "interval" (identifier "Interval"),
    .scalarsAs ["json", "jsonb"] "Json",
    .scalar "numeric" (identifier "Numeric"),
    .scalar "point" (identifier "Point"),
    .scalarsAs ["timestamp", "timestamptz"] "Timestamp"]

/-- A choice that departs from the driver's own habit. -/
def departure? {α : Type} [Choice α] [DecidableEq α] (choice : Option α) : Option α :=
  choice.filter (· ≠ Choice.initial)

/-- The changes that a configured driver needs, each with what is reported of it. -/
def overrides (o : PostgresAdapterOptions) : List (Event × Adapter.Change) :=
  ((departure? o.dateParser).map fun p =>
      (.overridden "scalars.date" (Choice.name p), .scalar "date" (dateScalar p))).toList ++
    ((departure? o.numericParser).map fun p =>
      (.overridden "definitions.Numeric" (Choice.name p),
        .definition "Numeric" (numericDefinition p))).toList ++
    ((departure? o.timestampParser).map fun p =>
      (.overridden "definitions.Timestamp" (Choice.name p),
        .definition "Timestamp" (timestampDefinition p))).toList

/-- The adapter of a driver that is configured in the given way. -/
def adapter (o : PostgresAdapterOptions) : Traced Adapter :=
  let built := Adapter.build .postgresql (defaults ++ (overrides o).map Prod.snd)
  ⟨built.value, (overrides o).map Prod.fst ++ built.events⟩

end Postgres

/-- A PostgreSQL run: the introspector's options, the options with which the
driver has to be configured, and the adapter that goes with them. -/
structure PostgresDialect where
  introspector : IntrospectorOptions
  parsers : PostgresAdapterOptions
  adapter : Adapter
deriving DecidableEq

namespace PostgresDialect

def ofOptions (o : PostgresOptions) : Traced PostgresDialect :=
  let built := Postgres.adapter o.adapter
  ⟨⟨o.introspector, o.adapter, built.value⟩, built.events⟩

/-- The schemas to read. -/
def schemas (d : PostgresDialect) : List String :=
  d.introspector.schemasOr d.adapter.defaultSchemas

end PostgresDialect

end DialectTypes
