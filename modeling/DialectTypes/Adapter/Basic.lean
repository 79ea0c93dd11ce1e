import DialectTypes.Event
import DialectTypes.Registry
import DialectTypes.TypeExpr.JsonValue

/-!
# Adapters

An adapter maps the native column types of one dialect to type expressions. It
also holds the named definitions to which those expressions refer and the
modules from which the remaining names are imported. An adapter is made by a
log of changes to an empty one, in which the last change of an entry counts.
-/

namespace DialectTypes

structure Adapter where
  dialect : Dialect
  /-- The type of a column whose native type is not in `scalars`. -/
  defaultScalar : TypeExpr
  defaultSchemas : List String
  scalars : Registry TypeExpr
  definitions : Registry TypeExpr
  imports : Registry ModuleRef
deriving DecidableEq

namespace Adapter

/-- One step in the making of an adapter. -/
inductive Change where
  | defaultScalar (type : TypeExpr)
  | defaultSchemas (schemas : List String)
  | scalar (native : String) (type : TypeExpr)
  /-- The listed native types all get the type of one name. -/
  | scalarsAs (natives : List String) (target : String)
  | definition (name : String) (type : TypeExpr)
  /-- The definitions of `TypeExpr.jsonDefinitions`. -/
  | jsonDefinitions
  | imported (name specifier : String)
deriving DecidableEq

/-- The adapter with empty registries, for which every column is unknown. -/
def blank (dialect : Dialect) : Adapter where
  dialect
  defaultScalar := .identifier "unknown"
  defaultSchemas := []
  scalars := .empty
  definitions := .empty
  imports := .empty

def setScalar (a : Adapter) (native : String) (type : TypeExpr) : Adapter :=
  { a with scalars := a.scalars.insert native type }

def setDefinition (a : Adapter) (name : String) (type : TypeExpr) : Adapter :=
  { a with definitions := a.definitions.insert name type }

def apply (a : Adapter) : Change → Adapter
  | .defaultScalar type => { a with defaultScalar := type }
  | .defaultSchemas schemas => { a with defaultSchemas := schemas }
  | .scalar native type => a.setScalar native type
  | .scalarsAs natives target =>
    natives.foldl (fun a native => a.setScalar native (.identifier target)) a
  | .definition name type => a.setDefinition name type
  | .jsonDefinitions =>
    TypeExpr.jsonDefinitions.foldl (fun a d => a.setDefinition d.1 d.2) a
  | .imported name specifier => { a with imports := a.imports.insert name ⟨specifier⟩ }

/-- The adapter that a log of changes makes of the blank one. -/
def ofChanges (dialect : Dialect) (log : List Change) : Adapter :=
  log.foldl apply (blank dialect)

/-- What is reported when an adapter is finished. -/
def builtEvent (a : Adapter) : Event :=
  .built a.dialect a.scalars.size a.definitions.size a.imports.size

def build (dialect : Dialect) (log : List Change) : Traced Adapter :=
  let a := ofChanges dialect log
  ⟨a, [a.builtEvent]⟩

/-- The type of a column of the given native type. -/
def scalarFor (a : Adapter) (native : String) : TypeExpr :=
  (a.scalars.get? native).getD a.defaultScalar

end Adapter

end DialectTypes
