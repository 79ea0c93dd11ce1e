import DialectTypes.Dialect

/-!
# Trace events

Reading options and building adapters report what they did that a user may not
expect. A computation that reports is a value together with its events, first
event first.
-/

namespace DialectTypes

inductive Event where
  /-- An option replaced what an adapter has under `entry`. -/
  | overridden (entry choice : String)
  /-- A value of an option was not recognized. -/
  | ignored (option value : String)
  /-- An adapter was built with this many entries in its registries. -/
  | built (dialect : Dialect) (scalars definitions imports : Nat)
deriving DecidableEq

namespace Event

inductive Level where
  | debug
  | warn
deriving DecidableEq

def level : Event → Level
  | overridden _ _ => .debug
  | ignored _ _ => .warn
  | built _ _ _ _ => .debug

def message : Event → String
  | overridden _ _ => "schemagen.adapter.override"
  | ignored _ _ => "schemagen.options.ignored"
  | built _ _ _ _ => "schemagen.adapter.built"

end Event

/-- A value and the events that were reported on the way to it. -/
structure Traced (α : Type) where
  value : α
  events : List Event
deriving DecidableEq

end DialectTypes
