/-!
# How a driver represents values

A database driver can be told in which form it hands over dates, numerics and
timestamps. Each of the three is an option with a name and a short list of
values, of which one is the driver's own habit. A value is recognized by its
name, but it is written as its label is spelled in lower case.
-/

namespace DialectTypes

/-- An option whose value is one of a short list of names. -/
class Choice (α : Type) where
  option : String
  values : List α
  initial : α
  name : α → String
  /-- The words of a value, each of which starts with a capital letter. -/
  label : α → String

/-- Words with capital letters in lower case, with hyphens between them. -/
def hyphenated (label : String) : String :=
  match label.toList with
  | [] => ""
  | c :: cs =>
    String.ofList
      (c.toLower :: cs.flatMap fun c => if c.isUpper then ['-', c.toLower] else [c.toLower])

/-- How a value is written. -/
def Choice.spelled {α : Type} [Choice α] (a : α) : String :=
  hyphenated (label a)

/-- A choice whose names tell its values apart and are what is written. -/
class LawfulChoice (α : Type) [Choice α] : Prop where
  mem_values : ∀ a : α, a ∈ Choice.values
  name_injective : ∀ a b : α, Choice.name a = Choice.name b → a = b
  spelled_eq_name : ∀ a : α, Choice.spelled a = Choice.name a

namespace Choice

variable {α : Type} [Choice α]

/-- The value of exactly this name. -/
def ofName? (s : String) : Option α :=
  values.find? fun a => name a = s

/-- The value that is written exactly like this. -/
def ofSpelled? (s : String) : Option α :=
  values.find? fun a => spelled a = s

theorem ofName?_eq_some_iff [LawfulChoice α] {s : String} {a : α} :
    ofName? s = some a ↔ name a = s := by
  constructor
  · intro h
    simpa using List.find?_some h
  · rintro rfl
    unfold ofName?
    cases h : (values : List α).find? fun b => name b = name a with
    | none =>
      rw [List.find?_eq_none] at h
      simpa using h a (LawfulChoice.mem_values a)
    | some b =>
      have := List.find?_some h
      rw [LawfulChoice.name_injective b a (by simpa using this)]

@[simp] theorem ofName?_name [LawfulChoice α] (a : α) : ofName? (name a) = some a :=
  ofName?_eq_some_iff.2 rfl

/-- How the values are written, in the order in which messages list them. -/
def listed (α : Type) [Choice α] : List String :=
  (values : List α).map spelled

end Choice

/-- Text that is not among the values of the option called `option`. -/
structure ChoiceError where
  option : String
deriving DecidableEq

def ChoiceError.message (e : ChoiceError) : String :=
  "unknown " ++ e.option ++ " value"

def Choice.parse {α : Type} [Choice α] (s : String) : Except ChoiceError α :=
  match ofName? s with
  | some a => .ok a
  | none => .error ⟨option α⟩

/-- How the driver hands over a date. -/
inductive DateParser where
  | timestamp
  | string
deriving DecidableEq

instance : Choice DateParser where
  option := "dateParser"
  values := [.timestamp, .string]
  initial := .timestamp
  name
    | .timestamp => "timestamp"
    | .string => "string"
  label
    | .timestamp => "Timestamp"
    | .string => "String"

instance : LawfulChoice DateParser where
  mem_values a := by cases a <;> decide
  name_injective a b := by cases a <;> cases b <;> decide
  spelled_eq_name a := by cases a <;> decide

/-- How the driver hands over a number of arbitrary precision. -/
inductive NumericParser where
  | string
  | number
  | numberOrString
deriving DecidableEq

instance : Choice NumericParser where
  option := "numericParser"
  values := [.string, .number, .numberOrString]
  initial := .string
  name
    | .string => "string"
    | .number => "number"
    | .numberOrString => "number-or-string"
  label
    | .string => "String"
    | .number => "Number"
    | .numberOrString => "NumberOrString"

instance : LawfulChoice NumericParser where
  mem_values a := by cases a <;> decide
  name_injective a b := by cases a <;> cases b <;> decide
  spelled_eq_name a := by cases a <;> decide

/-- How the driver hands over a point in time. -/
inductive TimestampParser where
  | timestamp
  | string
deriving DecidableEq

instance : Choice TimestampParser where
  option := "timestampParser"
  values := [.timestamp, .string]
  initial := .timestamp
  name
    | .timestamp => "timestamp"
    | .string => "string"
  label
    | .timestamp => "Timestamp"
    | .string => "String"

instance : LawfulChoice TimestampParser where
  mem_values a := by cases a <;> decide
  name_injective a b := by cases a <;> cases b <;> decide
  spelled_eq_name a := by cases a <;> decide

end DialectTypes
