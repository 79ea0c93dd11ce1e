import DialectTypes.Json.Document
import DialectTypes.Json.Value
import DialectTypes.Reading

/-!
# Type expressions as JSON

A written expression is an object that has the kind of its root under `kind` and
its parts under names that hang on the kind. Reading takes the members in any
order. What it does not know it passes over, and a direction that a column type
leaves out is taken from the direction before. It also takes an array that starts
with the kind and goes on with the parts.

The parts hang on a kind that may stand last. So what stands beside the kind is kept
until the kind is known, and everything below an expression is read from what was kept.
-/

namespace DialectTypes

open Json (Value)

def ModuleRef.toJson (m : ModuleRef) : Value :=
  .object [("specifier", .string m.specifier)]

def ModuleRef.form : Form where
  title := "ModuleReference"
  fields := ["specifier"]

def ModuleRef.read : Reader ModuleRef := fun d =>
  return ⟨← Reader.field .text form "specifier" Reader.string d⟩

def ModuleRef.text (m : ModuleRef) : String :=
  m.toJson.text

def ModuleRef.ofText (text : String) : Except ReadError ModuleRef :=
  Reader.whole read (Json.source text)

namespace TypeExpr

/-- An object with a kind and the parts that belong to it. -/
def tagged (k : Kind) (parts : List (String × Value)) : Value :=
  .object (("kind", .string k.tag) :: parts)

mutual

def toJson : TypeExpr → Value
  | identifier n => tagged .identifier [("name", .string n)]
  | moduleReference m => tagged .moduleReference [("specifier", .string m.specifier)]
  | object ps => tagged .object [("properties", .array (propertiesToJson ps))]
  | union ms => tagged .union [("members", .array (membersToJson ms))]
  | array t => tagged .array [("element", toJson t)]
  | record t => tagged .record [("value", toJson t)]
  | columnType s i u =>
    tagged .columnType [("selectType", toJson s), ("insertType", toJson i), ("updateType", toJson u)]

def membersToJson : List TypeExpr → List Value
  | [] => []
  | m :: ms => toJson m :: membersToJson ms

def propertiesToJson : List (String × TypeExpr) → List Value
  | [] => []
  | (n, t) :: ps => .object [("name", .string n), ("type", toJson t)] :: propertiesToJson ps

end

/-- The text of an expression. -/
def text (e : TypeExpr) : String :=
  e.toJson.text

theorem membersToJson_eq (ms : List TypeExpr) : membersToJson ms = ms.map toJson := by
  induction ms with
  | nil => rfl
  | cons m ms ih => simp [membersToJson, ih]

theorem propertiesToJson_eq (ps : List (String × TypeExpr)) :
    propertiesToJson ps =
      ps.map fun p => .object [("name", .string p.1), ("type", toJson p.2)] := by
  induction ps with
  | nil => rfl
  | cons p ps ih => simp [propertiesToJson, ih]

/-- A kind by its name. In what was kept it may also be given by its number. -/
def readKind : Access → Reader Kind
  | _, .string (some s) => Reader.oneOf Kind.ofTag? (Kind.all.map Kind.tag) s
  | .kept, .number (some (.integer (.ofNat i))) =>
    match Kind.all[i]? with
    | some k => .ok k
    | none => .error (.invalidValue (.number (.integer i)) (.kindNumber Kind.all.length))
  | _, d => Reader.mismatch .kind d

/-- The kind of an object; its other members are read later, but they must be
readable. -/
def takeKind (m : Access) (room : Nat) (kind : Option Kind) (key : String) :
    Reader (Option Kind) := fun d =>
  if key = "kind" then Reader.once "kind" kind (readKind m) d
  else if d.readable room then .ok kind
  else .error .malformed

/-- The kind of an expression, where the rest of it is readable. -/
def readMark (m : Access) (room : Nat) : Reader Kind
  | .array [] closed => if closed then .error (.missingField "kind") else .error .malformed
  | .array (d :: ds) closed => do
    let k ← readKind m d
    if closed && Document.readableItems room ds then .ok k else .error .malformed
  | d => do
    let kind ← Reader.table (Reader.mismatch .typeExpr) (takeKind m room) none d
    Reader.required (.missingField "kind") kind

/-- The form of the parts of an expression of the kind. -/
def Kind.form : Kind → Form
  | identifier => ⟨"Identifier", ["name"]⟩
  | moduleReference => ModuleRef.form
  | object => ⟨"RawObjectExpression", ["properties"]⟩
  | union => ⟨"RawUnionExpression", ["members"]⟩
  | array => ⟨"ArrayExpression", ["element"]⟩
  | record => ⟨"RecordExpression", ["value"]⟩
  | columnType => ⟨"RawColumnType", ["selectType", "insertType", "updateType"]⟩

def propertyForm : Form where
  title := "Property"
  fields := ["name", "type"]

/-- What is read of a property so far. -/
structure PropertyParts where
  name : Option String := none
  type : Option TypeExpr := none

def PropertyParts.take (readType : Reader TypeExpr) (p : PropertyParts) (key : String) :
    Reader PropertyParts := fun d =>
  if key = "name" then do return { p with name := ← Reader.once "name" p.name Reader.string d }
  else if key = "type" then do return { p with type := ← Reader.once "type" p.type readType d }
  else Reader.skip d p

/-- A property, where its type is read in the given way. -/
def readProperty (m : Access) (readType : Reader TypeExpr) : Reader (String × TypeExpr) :=
  fun d => do
    let p ← Reader.fields m propertyForm (PropertyParts.take readType) {} d
    let name ← Reader.required (propertyForm.missing "name" d) p.name
    return (name, ← Reader.required (propertyForm.missing "type" d) p.type)

/-- What is read of a column type so far; a direction may be present and null. -/
structure ColumnParts where
  select : Option TypeExpr := none
  insert : Option (Option TypeExpr) := none
  update : Option (Option TypeExpr) := none

def ColumnParts.take (readType : Reader TypeExpr) (c : ColumnParts) (key : String) :
    Reader ColumnParts := fun d =>
  if key = "selectType" then do
    return { c with select := ← Reader.once "selectType" c.select readType d }
  else if key = "insertType" then do
    return { c with insert := ← Reader.once "insertType" c.insert (Reader.optional readType) d }
  else if key = "updateType" then do
    return { c with update := ← Reader.once "updateType" c.update (Reader.optional readType) d }
  else Reader.skip d c

def readColumn (readType : Reader TypeExpr) : Reader TypeExpr := fun d => do
  let c ← Reader.fields .kept (Kind.form .columnType) (ColumnParts.take readType) {} d
  let select ← Reader.required ((Kind.form .columnType).missing "selectType" d) c.select
  return column select c.insert.join c.update.join

/-- One part of an expression of the kind. -/
def readPart {α : Type} (k : Kind) (name : String) (read : Reader α) : Reader α :=
  Reader.field .kept k.form name read

/-- The parts of an expression of a known kind, where the expressions below it
are read in the given way. -/
def readParts (readType : Reader TypeExpr) : Kind → Reader TypeExpr
  | .identifier => fun d => identifier <$> readPart .identifier "name" Reader.string d
  | .moduleReference => fun d =>
    (moduleReference ⟨·⟩) <$> readPart .moduleReference "specifier" Reader.string d
  | .object => fun d => do
    let ps ← readPart .object "properties" (Reader.list (readProperty .kept readType)) d
    Reader.built (object? ps)
  | .union => fun d => do
    let ms ← readPart .union "members" (Reader.list readType) d
    Reader.built (union? ms)
  | .array => fun d => array <$> readPart .array "element" readType d
  | .record => fun d => record <$> readPart .record "value" readType d
  | .columnType => readColumn readType

/-- An expression that is nested at most as deep as there is room. -/
def read (m : Access) : Nat → Reader TypeExpr
  | 0, .object _ _ | 0, .array _ _ => .error .malformed
  | 0, d => Reader.mismatch .typeExpr d
  | room + 1, d => do
    let k ← readMark m room d
    readParts (read .kept room) k d.tail

/-- The expression of a text. -/
def ofText (text : String) : Except ReadError TypeExpr :=
  Reader.whole (read .text maxNesting) (Json.source text)

end TypeExpr

namespace ObjectExpr

def toJson (o : ObjectExpr) : Value :=
  .object [("properties", .array (TypeExpr.propertiesToJson o.properties))]

def text (o : ObjectExpr) : String :=
  o.toJson.text

/-- An object by itself: its types stand below the object, the list and the property. -/
def read : Reader ObjectExpr := fun d => do
  let readType := TypeExpr.read .text (maxNesting - 3)
  let ps ← Reader.field .text (TypeExpr.Kind.form .object) "properties"
    (Reader.list (TypeExpr.readProperty .text readType)) d
  Reader.built (ofList? ps)

def ofText (text : String) : Except ReadError ObjectExpr :=
  Reader.whole read (Json.source text)

end ObjectExpr

end DialectTypes
