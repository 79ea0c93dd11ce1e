import DialectTypes.TypeExpr.Basic

/-!
# Building type expressions

Unions must have a member and the properties of an object must have distinct
names. The functions of this module are the ways to build an expression, and
each refuses exactly what would break one of these two rules at the root.
-/

namespace DialectTypes

/-- Why an expression cannot be built. -/
inductive ConstructionError where
  | emptyUnion
  | duplicateProperty (name : String)
deriving DecidableEq

def ConstructionError.message : ConstructionError → String
  | emptyUnion => "Union expression must have at least one member"
  | duplicateProperty name => "Duplicate property in object expression: " ++ name

/-- The first entry of the list that is in `seen` or equals an earlier entry. -/
def firstRepeat (seen : List String) : List String → Option String
  | [] => none
  | n :: ns => if n ∈ seen then some n else firstRepeat (n :: seen) ns

theorem firstRepeat_eq_none_iff {seen ns : List String} :
    firstRepeat seen ns = none ↔ ns.Nodup ∧ ∀ n ∈ ns, n ∉ seen := by
  induction ns generalizing seen with
  | nil => simp [firstRepeat]
  | cons n ns ih =>
    by_cases h : n ∈ seen
    · simp [firstRepeat, h]
    · simp only [firstRepeat, if_neg h, ih, List.nodup_cons, List.mem_cons, not_or]
      grind

/-- The properties of an object, in the order in which they were added. -/
structure ObjectExpr where
  properties : List (String × TypeExpr)
deriving DecidableEq

namespace ObjectExpr

def empty : ObjectExpr := ⟨[]⟩

/-- The object with the listed properties, if their names are distinct. -/
def ofList? (properties : List (String × TypeExpr)) : Except ConstructionError ObjectExpr :=
  match firstRepeat [] (properties.map Prod.fst) with
  | some name => .error (.duplicateProperty name)
  | none => .ok ⟨properties⟩

/-- The list with `type` in the place of the property called `name`, or at the
end if there is none. -/
def setProperty (name : String) (type : TypeExpr) :
    List (String × TypeExpr) → List (String × TypeExpr)
  | [] => [(name, type)]
  | (n, t) :: ps => if n = name then (name, type) :: ps else (n, t) :: setProperty name type ps

/-- The object in which `name` has the given type. -/
def set (o : ObjectExpr) (name : String) (type : TypeExpr) : ObjectExpr :=
  ⟨setProperty name type o.properties⟩

def get? (o : ObjectExpr) (name : String) : Option TypeExpr :=
  o.properties.lookup name

def size (o : ObjectExpr) : Nat :=
  o.properties.length

def toTypeExpr (o : ObjectExpr) : TypeExpr :=
  .object o.properties

@[simp] theorem properties_empty : empty.properties = [] := rfl

theorem ofList?_eq_ok_iff {ps : List (String × TypeExpr)} {o : ObjectExpr} :
    ofList? ps = .ok o ↔ (ps.map Prod.fst).Nodup ∧ o.properties = ps := by
  have h := @firstRepeat_eq_none_iff [] (ps.map Prod.fst)
  unfold ofList?
  split
  · next name hr => simp_all
  · next hr =>
      rw [hr] at h
      cases o
      simp_all [eq_comm]

theorem lookup_setProperty (name : String) (type : TypeExpr) (ps : List (String × TypeExpr))
    (n : String) :
    (setProperty name type ps).lookup n = if n = name then some type else ps.lookup n := by
  induction ps with
  | nil => grind [setProperty]
  | cons p ps ih => grind [setProperty]

theorem get?_set (o : ObjectExpr) (name : String) (type : TypeExpr) (n : String) :
    (o.set name type).get? n = if n = name then some type else o.get? n :=
  lookup_setProperty name type o.properties n

end ObjectExpr

namespace TypeExpr

/-- The union of the listed expressions, if there is one. -/
def union? : List TypeExpr → Except ConstructionError TypeExpr
  | [] => .error .emptyUnion
  | m :: ms => .ok (.union (m :: ms))

theorem union?_eq_ok_iff {ms : List TypeExpr} {e : TypeExpr} :
    union? ms = .ok e ↔ ms ≠ [] ∧ e = .union ms := by
  cases ms <;> simp [union?, eq_comm]

/-- The union of an expression and any number of others. -/
def unionWith (first : TypeExpr) (rest : List TypeExpr) : TypeExpr :=
  .union (first :: rest)

/-- The object with the listed properties, if their names are distinct. -/
def object? (properties : List (String × TypeExpr)) : Except ConstructionError TypeExpr :=
  ObjectExpr.toTypeExpr <$> ObjectExpr.ofList? properties

/-- A column type; a missing insert type is the select type, and a missing
update type is the insert type. -/
def column (select : TypeExpr) (insert update : Option TypeExpr) : TypeExpr :=
  .columnType select (insert.getD select) (update.getD (insert.getD select))

/-- A column with one type in every direction. -/
def selectOnly (select : TypeExpr) : TypeExpr :=
  column select none none

/-- A column with one type when it is read and another when it is written. -/
def readWrite (select write : TypeExpr) : TypeExpr :=
  column select (some write) none

@[simp] theorem selectOnly_eq (e : TypeExpr) : selectOnly e = .columnType e e e := rfl

@[simp] theorem readWrite_eq (r w : TypeExpr) : readWrite r w = .columnType r w w := rfl

mutual

/-- Whether every union has a member and every object has distinct property
names, at every depth. -/
def WellFormed : TypeExpr → Prop
  | identifier _ => True
  | moduleReference _ => True
  | object ps => (ps.map Prod.fst).Nodup ∧ WellFormedProperties ps
  | union ms => ms ≠ [] ∧ WellFormedMembers ms
  | array t => WellFormed t
  | record t => WellFormed t
  | columnType s i u => WellFormed s ∧ WellFormed i ∧ WellFormed u

def WellFormedMembers : List TypeExpr → Prop
  | [] => True
  | m :: ms => WellFormed m ∧ WellFormedMembers ms

def WellFormedProperties : List (String × TypeExpr) → Prop
  | [] => True
  | (_, t) :: ps => WellFormed t ∧ WellFormedProperties ps

end

theorem wellFormedMembers_iff {ms : List TypeExpr} :
    WellFormedMembers ms ↔ ∀ m ∈ ms, WellFormed m := by
  induction ms with
  | nil => simp [WellFormedMembers]
  | cons m ms ih => simp [WellFormedMembers, ih]

theorem wellFormedProperties_iff {ps : List (String × TypeExpr)} :
    WellFormedProperties ps ↔ ∀ p ∈ ps, WellFormed p.2 := by
  induction ps with
  | nil => simp [WellFormedProperties]
  | cons p ps ih => simp [WellFormedProperties, ih]

end TypeExpr

/-- Whether the property names are distinct and every property is well formed. -/
def ObjectExpr.WellFormed (o : ObjectExpr) : Prop :=
  o.toTypeExpr.WellFormed

end DialectTypes
