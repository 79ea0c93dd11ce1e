import DialectTypes.Adapter.Basic

/-!
# What a name means

Within an adapter a name is a definition, an import or a builtin, in this order
of precedence. An expression that is nothing but the name of a definition is an
alias, and aliases are followed until something else turns up.
-/

namespace DialectTypes

namespace Adapter

/-- What a name stands for. -/
inductive Binding where
  | definition (type : TypeExpr)
  | imported (source : ModuleRef)
  | builtin
deriving DecidableEq

def lookup? (a : Adapter) (name : String) : Option Binding :=
  match a.definitions.get? name with
  | some type => some (.definition type)
  | none =>
    match a.imports.get? name with
    | some source => some (.imported source)
    | none => if TypeExpr.isBuiltin name then some .builtin else none

/-- Whether a name is a definition, an import or a builtin. -/
def knows (a : Adapter) (name : String) : Bool :=
  a.definitions.contains name || a.imports.contains name || TypeExpr.isBuiltin name

theorem knows_iff_lookup?_isSome {a : Adapter} {name : String} :
    a.knows name = true ↔ (a.lookup? name).isSome = true := by
  unfold knows lookup? Registry.contains
  cases a.definitions.get? name with
  | some type => simp
  | none =>
    cases a.imports.get? name with
    | some source => simp
    | none => by_cases h : TypeExpr.isBuiltin name = true <;> simp [h]

/-- The definition of which an expression is an alias. -/
def target? (a : Adapter) (e : TypeExpr) : Option TypeExpr :=
  e.name?.bind a.definitions.get?

@[simp] theorem target?_identifier (a : Adapter) (name : String) :
    a.target? (.identifier name) = a.definitions.get? name := rfl

/-- The expression reached by at most the given number of hops from alias to
definition. -/
def follow (a : Adapter) : Nat → TypeExpr → TypeExpr
  | 0, e => e
  | hops + 1, e =>
    match a.target? e with
    | some next => a.follow hops next
    | none => e

@[simp] theorem follow_zero (a : Adapter) (e : TypeExpr) : a.follow 0 e = e := rfl

theorem follow_succ (a : Adapter) (hops : Nat) (e : TypeExpr) :
    a.follow (hops + 1) e = ((a.target? e).map (a.follow hops)).getD e := by
  unfold follow
  cases a.target? e <;> rfl

/-- What an expression stands for once its aliases are followed. A chain that
does not come to an end is left after as many hops as there are definitions. -/
def resolve (a : Adapter) (e : TypeExpr) : TypeExpr :=
  a.follow a.definitions.size e

end Adapter

end DialectTypes
