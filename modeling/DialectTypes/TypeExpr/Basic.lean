/-!
# Type expressions

A type expression says which values a database column holds in generated code.
It is a tree: names and module references are its leaves, and objects, unions,
arrays, records and column types are its inner nodes. A column type has one
expression for each direction in which a value travels.
-/

namespace DialectTypes

/-- The specifier under which generated code imports a name. -/
structure ModuleRef where
  specifier : String
deriving DecidableEq

inductive TypeExpr where
  | identifier (name : String)
  | moduleReference (source : ModuleRef)
  | object (properties : List (String × TypeExpr))
  | union (members : List TypeExpr)
  | array (element : TypeExpr)
  | record (value : TypeExpr)
  | columnType (select insert update : TypeExpr)

namespace TypeExpr

/-- What the root of an expression is. -/
inductive Kind where
  | identifier
  | moduleReference
  | object
  | union
  | array
  | record
  | columnType
deriving DecidableEq

namespace Kind

/-- Every kind, in the order in which messages list them. -/
def all : List Kind :=
  [identifier, moduleReference, object, union, array, record, columnType]

/-- The name by which written text marks the kind of a node. -/
def tag : Kind → String
  | identifier => "identifier"
  | moduleReference => "moduleReference"
  | object => "object"
  | union => "union"
  | array => "array"
  | record => "record"
  | columnType => "columnType"

def ofTag? (s : String) : Option Kind :=
  all.find? fun k => k.tag = s

@[simp] theorem ofTag?_tag (k : Kind) : ofTag? k.tag = some k := by
  cases k <;> decide

theorem ofTag?_eq_some_iff {s : String} {k : Kind} : ofTag? s = some k ↔ k.tag = s := by
  constructor
  · intro h
    simpa using List.find?_some h
  · rintro rfl
    exact ofTag?_tag k

end Kind

def kind : TypeExpr → Kind
  | identifier _ => .identifier
  | moduleReference _ => .moduleReference
  | object _ => .object
  | union _ => .union
  | array _ => .array
  | record _ => .record
  | columnType _ _ _ => .columnType

mutual

/-- Whether two expressions are the same tree. -/
def same : TypeExpr → TypeExpr → Bool
  | identifier a, identifier b => a = b
  | moduleReference a, moduleReference b => a = b
  | object a, object b => sameProperties a b
  | union a, union b => sameMembers a b
  | array a, array b => same a b
  | record a, record b => same a b
  | columnType s i u, columnType s' i' u' => same s s' && same i i' && same u u'
  | _, _ => false

def sameMembers : List TypeExpr → List TypeExpr → Bool
  | [], [] => true
  | a :: as, b :: bs => same a b && sameMembers as bs
  | _, _ => false

def sameProperties : List (String × TypeExpr) → List (String × TypeExpr) → Bool
  | [], [] => true
  | (n, a) :: as, (m, b) :: bs => n = m && same a b && sameProperties as bs
  | _, _ => false

end

mutual

theorem same_iff : ∀ a b : TypeExpr, same a b = true ↔ a = b
  | identifier _, b | moduleReference _, b => by cases b <;> simp [same]
  | object ps, b => by cases b <;> simp [same, sameProperties_iff ps]
  | union ms, b => by cases b <;> simp [same, sameMembers_iff ms]
  | array t, b | record t, b => by cases b <;> simp [same, same_iff t]
  | columnType s i u, b => by
      cases b <;> simp [same, same_iff s, same_iff i, same_iff u, and_assoc]

theorem sameMembers_iff : ∀ as bs : List TypeExpr, sameMembers as bs = true ↔ as = bs
  | [], bs => by cases bs <;> simp [sameMembers]
  | a :: as, bs => by cases bs <;> simp [sameMembers, same_iff a, sameMembers_iff as]

theorem sameProperties_iff :
    ∀ as bs : List (String × TypeExpr), sameProperties as bs = true ↔ as = bs
  | [], bs => by cases bs <;> simp [sameProperties]
  | (n, a) :: as, bs => by
      cases bs <;> simp [sameProperties, same_iff a, sameProperties_iff as, Prod.ext_iff]

end

instance : DecidableEq TypeExpr := fun a b =>
  decidable_of_iff _ (same_iff a b)

mutual

/-- The nodes of an expression, parents first: properties and members in their
order, and a column type's expressions as select, insert, update. -/
def nodes : TypeExpr → List TypeExpr
  | identifier n => [identifier n]
  | moduleReference m => [moduleReference m]
  | object ps => object ps :: nodesOfProperties ps
  | union ms => union ms :: nodesOfMembers ms
  | array t => array t :: nodes t
  | record t => record t :: nodes t
  | columnType s i u => columnType s i u :: (nodes s ++ nodes i ++ nodes u)

def nodesOfMembers : List TypeExpr → List TypeExpr
  | [] => []
  | m :: ms => nodes m ++ nodesOfMembers ms

def nodesOfProperties : List (String × TypeExpr) → List TypeExpr
  | [] => []
  | (_, t) :: ps => nodes t ++ nodesOfProperties ps

end

theorem nodesOfMembers_eq (ms : List TypeExpr) : nodesOfMembers ms = ms.flatMap nodes := by
  induction ms with
  | nil => rfl
  | cons m ms ih => simp [nodesOfMembers, ih]

theorem nodesOfProperties_eq (ps : List (String × TypeExpr)) :
    nodesOfProperties ps = ps.flatMap fun p => nodes p.2 := by
  induction ps with
  | nil => rfl
  | cons p ps ih => simp [nodesOfProperties, ih]

/-- The name of an expression that is nothing but a name. -/
def name? : TypeExpr → Option String
  | identifier n => some n
  | _ => none

theorem name?_eq_some_iff {e : TypeExpr} {n : String} : e.name? = some n ↔ e = identifier n := by
  cases e <;> simp [name?]

/-- The names that occur in an expression, once for each occurrence, parents first. -/
def names (e : TypeExpr) : List String :=
  e.nodes.filterMap name?

/-- The expressions directly below the root. -/
def children : TypeExpr → List TypeExpr
  | identifier _ => []
  | moduleReference _ => []
  | object ps => ps.map Prod.snd
  | union ms => ms
  | array t => [t]
  | record t => [t]
  | columnType s i u => [s, i, u]

theorem nodes_eq_cons (e : TypeExpr) : e.nodes = e :: e.children.flatMap nodes := by
  cases e <;> simp [nodes, children, nodesOfMembers_eq, nodesOfProperties_eq, List.flatMap_map]

theorem names_eq (e : TypeExpr) : e.names = e.name?.toList ++ e.children.flatMap names := by
  rw [names, nodes_eq_cons, List.filterMap_cons, List.filterMap_flatMap]
  cases e.name? <;> rfl

@[simp] theorem names_identifier (n : String) : (identifier n).names = [n] := rfl

/-- The names that every generated program already knows. -/
def builtins : List String :=
  ["bigint", "boolean", "Buffer", "Date", "null", "number", "string", "unknown"]

def isBuiltin (n : String) : Bool :=
  n ∈ builtins

/-- Whether every name in an expression is a builtin. -/
def isClosed (e : TypeExpr) : Bool :=
  e.names.all isBuiltin

theorem isClosed_iff {e : TypeExpr} : e.isClosed = true ↔ ∀ n ∈ e.names, n ∈ builtins := by
  simp [isClosed, isBuiltin]

/-- The direction in which a column's value travels. -/
inductive Slot where
  | select
  | insert
  | update
deriving DecidableEq

/-- The expression for one direction; what is not a column type serves all three. -/
def slot : TypeExpr → Slot → TypeExpr
  | columnType s _ _, .select => s
  | columnType _ i _, .insert => i
  | columnType _ _ u, .update => u
  | e, _ => e

def isColumnType (e : TypeExpr) : Bool :=
  e.kind = .columnType

end TypeExpr

end DialectTypes
