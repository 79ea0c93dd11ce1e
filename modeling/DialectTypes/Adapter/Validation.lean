import DialectTypes.Adapter.Lookup

/-!
# Defects of an adapter

An adapter has a defect if a name is both a definition and an import, if a type
refers to a name that nothing explains, or if a definition is an alias of
nothing but further aliases. Validation reports the first defect, where the
three sorts are searched in this order and each in ascending order of the names.
-/

namespace DialectTypes

namespace Adapter

inductive Defect where
  | danglingReference (entry name : String)
  | aliasCycle (name : String)
  | ambiguousName (name : String)
deriving DecidableEq

def Defect.message : Defect → String
  | danglingReference entry name => "Dangling reference in " ++ entry ++ ": " ++ name
  | aliasCycle name => "Alias cycle through definition: " ++ name
  | ambiguousName name => "Name is both a definition and an import: " ++ name

/-- The least name that is both a definition and an import. -/
def ambiguousName? (a : Adapter) : Option String :=
  a.definitions.keys.find? a.imports.contains

/-- Every type that an adapter holds, under the name that messages give its place. -/
def places (a : Adapter) : List (String × TypeExpr) :=
  ("defaultScalar", a.defaultScalar) ::
    (a.scalars.entries.map (fun p => ("scalars." ++ p.1, p.2)) ++
      a.definitions.entries.map fun p => ("definitions." ++ p.1, p.2))

/-- The first name in an expression that nothing explains. -/
def unknownName? (a : Adapter) (e : TypeExpr) : Option String :=
  e.names.find? fun n => !a.knows n

/-- The first place that refers to a name that nothing explains, and that name. -/
def danglingReference? (a : Adapter) : Option (String × String) :=
  a.places.findSome? fun p => (a.unknownName? p.2).map fun n => (p.1, n)

/-- The name of which the definition of `name` is an alias. -/
def aliasOf? (a : Adapter) (name : String) : Option String :=
  (a.definitions.get? name).bind TypeExpr.name?

/-- How many definitions are not in the list. -/
def unseen (a : Adapter) (seen : List String) : Nat :=
  a.definitions.keys.countP fun k => k ∉ seen

theorem unseen_cons_lt {a : Adapter} {seen : List String} {name next : String}
    (h : a.aliasOf? name = some next) (hs : name ∉ seen) :
    a.unseen (name :: seen) < a.unseen seen := by
  have hk : name ∈ a.definitions.keys := by
    rw [← Registry.contains_iff, Registry.contains]
    cases hd : a.definitions.get? name <;> simp_all [aliasOf?]
  have := a.definitions.countP_keys_erase (p := fun k => k ∉ seen) hk (by simpa using hs)
  have same : ∀ k, decide (k ∉ name :: seen) = (decide (k ≠ name) && decide (k ∉ seen)) := by
    simp
  simp only [unseen, same]
  omega

/-- Whether the chain of aliases from `name` comes to a name that it has passed
already, where `seen` lists the names passed. -/
def repeatsFrom (a : Adapter) (seen : List String) (name : String) : Bool :=
  match _h : a.aliasOf? name with
  | none => false
  | some next => if name ∈ seen then true else a.repeatsFrom (name :: seen) next
termination_by a.unseen seen
decreasing_by exact unseen_cons_lt _h ‹_›

/-- The least definition whose chain of aliases never comes to an end. -/
def aliasCycle? (a : Adapter) : Option String :=
  a.definitions.keys.find? (a.repeatsFrom [])

def defect? (a : Adapter) : Option Defect :=
  match a.ambiguousName? with
  | some name => some (.ambiguousName name)
  | none =>
    match a.danglingReference? with
    | some (entry, name) => some (.danglingReference entry name)
    | none => a.aliasCycle?.map .aliasCycle

/-- Success, or the first defect. -/
def validate (a : Adapter) : Except Defect Unit :=
  match a.defect? with
  | some d => .error d
  | none => .ok ()

theorem validate_eq_ok_iff {a : Adapter} : a.validate = .ok () ↔ a.defect? = none := by
  unfold validate
  cases a.defect? <;> simp

end Adapter

end DialectTypes
