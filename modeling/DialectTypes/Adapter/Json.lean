import DialectTypes.Adapter.Basic
import DialectTypes.TypeExpr.Json

/-!
# Adapters as JSON

A written adapter is an object with one member for each of its parts. Registries
are objects whose members are in ascending order of their names.
-/

namespace DialectTypes

open Json (Value)

def Dialect.read : Reader Dialect :=
  Reader.variant ofName? listed

namespace Registry

variable {α : Type}

def toJson (valueToJson : α → Value) (r : Registry α) : Value :=
  .object (r.entries.map fun e => (e.1, valueToJson e.2))

end Registry

namespace Adapter

def toJson (a : Adapter) : Value :=
  .object
    [("dialect", .string a.dialect.name),
      ("defaultScalar", a.defaultScalar.toJson),
      ("defaultSchemas", .array (a.defaultSchemas.map .string)),
      ("scalars", a.scalars.toJson TypeExpr.toJson),
      ("definitions", a.definitions.toJson TypeExpr.toJson),
      ("imports", a.imports.toJson ModuleRef.toJson)]

/-- The text of an adapter. -/
def text (a : Adapter) : String :=
  a.toJson.text

/-- What is read of an adapter so far. -/
structure Parts where
  dialect : Option Dialect := none
  defaultScalar : Option TypeExpr := none
  defaultSchemas : Option (List String) := none
  scalars : Option (Registry TypeExpr) := none
  definitions : Option (Registry TypeExpr) := none
  imports : Option (Registry ModuleRef) := none

/-- The types of a registry stand below the adapter and the registry. -/
def readTypes : Reader (Registry TypeExpr) :=
  Reader.registry (TypeExpr.read .text (maxNesting - 2))

def Parts.take (p : Parts) (key : String) : Reader Parts := fun d =>
  if key = "dialect" then do
    return { p with dialect := ← Reader.once key p.dialect Dialect.read d }
  else if key = "defaultScalar" then do
    return { p with
      defaultScalar := ← Reader.once key p.defaultScalar (TypeExpr.read .text (maxNesting - 1)) d }
  else if key = "defaultSchemas" then do
    return { p with
      defaultSchemas := ← Reader.once key p.defaultSchemas (Reader.list Reader.string) d }
  else if key = "scalars" then do
    return { p with scalars := ← Reader.once key p.scalars readTypes d }
  else if key = "definitions" then do
    return { p with definitions := ← Reader.once key p.definitions readTypes d }
  else if key = "imports" then do
    return { p with imports := ← Reader.once key p.imports (Reader.registry ModuleRef.read) d }
  else Reader.skip d p

def form : Form where
  title := "Adapter"
  fields := ["dialect", "defaultScalar", "defaultSchemas", "scalars", "definitions", "imports"]

def read : Reader Adapter := fun d => do
  let p ← Reader.fields .text form Parts.take {} d
  return {
    dialect := ← Reader.required (form.missing "dialect" d) p.dialect
    defaultScalar := ← Reader.required (form.missing "defaultScalar" d) p.defaultScalar
    defaultSchemas := ← Reader.required (form.missing "defaultSchemas" d) p.defaultSchemas
    scalars := ← Reader.required (form.missing "scalars" d) p.scalars
    definitions := ← Reader.required (form.missing "definitions" d) p.definitions
    imports := ← Reader.required (form.missing "imports" d) p.imports }

/-- The adapter of a text. -/
def ofText (text : String) : Except ReadError Adapter :=
  Reader.whole read (Json.source text)

end Adapter

end DialectTypes
