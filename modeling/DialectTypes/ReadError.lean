import DialectTypes.Document
import DialectTypes.Text.Position
import DialectTypes.Text.Quoted
import DialectTypes.TypeExpr.Construction

/-!
# Why a text cannot be read

A text may denote nothing, or it may denote something else than what is read.
In the second case the error names what is missing, repeated, unknown or of a
wrong sort, or it is the error of building a type expression.
-/

namespace DialectTypes

/-- What stands where something else is expected. -/
inductive Found where
  | null
  | bool (value : Bool)
  | number (value : Number)
  | string (value : String)
  | sequence
  | map
deriving DecidableEq

/-- What is expected at a place. -/
inductive Expected where
  | string
  | boolean
  | sequence
  | map
  | unit
  | kind
  /-- The number of a kind, of as many as there are. -/
  | kindNumber (count : Nat)
  | typeExpr
  | record (title : String)
  /-- A record as a sequence of the values of its fields. -/
  | recordOf (title : String) (count : Nat)
  /-- A sequence that ends with its last field. -/
  | sequenceOf (count : Nat)
deriving DecidableEq

inductive ReadError where
  /-- The text denotes nothing. -/
  | malformed
  | missingField (name : String)
  | duplicateField (name : String)
  | unknownVariant (name : String) (known : List String)
  | invalidType (found : Found) (expected : Expected)
  | invalidValue (found : Found) (expected : Expected)
  | invalidLength (length : Nat) (expected : Expected)
  | construction (error : ConstructionError)
deriving DecidableEq

/-- A whole number is shown with the width that it needs, if that is more than 64 bits. -/
def Number.shown : Number → String
  | integer n =>
    let width :=
      if -(Nat.pow 2 63 : Int) ≤ n ∧ n < Nat.pow 2 64 then ""
      else if -(Nat.pow 2 127 : Int) ≤ n ∧ n < Nat.pow 2 127 then " as i128"
      else " as u128"
    "integer `" ++ toString n ++ "`" ++ width
  | float text => "floating point `" ++ text ++ "`"

def Found.shown : Found → String
  | null => "null"
  | bool b => if b then "boolean `true`" else "boolean `false`"
  | number n => n.shown
  | string s => "string " ++ Text.quoted s
  | sequence => "sequence"
  | map => "map"

/-- A number of elements. -/
def elements (count : Nat) : String :=
  toString count ++ if count = 1 then " element" else " elements"

def Expected.shown : Expected → String
  | string => "a string"
  | boolean => "a boolean"
  | sequence => "a sequence"
  | map => "a map"
  | unit => "unit"
  | kind => "variant identifier"
  | kindNumber count => "variant index 0 <= i < " ++ toString count
  | typeExpr => "internally tagged enum TypeNode"
  | record title => "struct " ++ title
  | recordOf title count => "struct " ++ title ++ " with " ++ elements count
  | sequenceOf count => elements count ++ " in sequence"

/-- The list of the names that may stand at a place. -/
def alternatives (names : List String) : String :=
  match names.map fun n => "`" ++ n ++ "`" with
  | [a, b] => a ++ " or " ++ b
  | [a] => a
  | all => "one of " ++ ", ".intercalate all

/-- The text of an error, and the position that is read off its end: an error of
building may end with a name that ends like a position. A text that denotes nothing
has no such text. -/
def ReadError.split? : ReadError → Option (String × Option Text.Position)
  | malformed => none
  | missingField name => some ("missing field `" ++ name ++ "`", none)
  | duplicateField name => some ("duplicate field `" ++ name ++ "`", none)
  | unknownVariant name known =>
    some ("unknown variant `" ++ name ++ "`, expected " ++ alternatives known, none)
  | invalidType found expected =>
    some ("invalid type: " ++ found.shown ++ ", expected " ++ expected.shown, none)
  | invalidValue found expected =>
    some ("invalid value: " ++ found.shown ++ ", expected " ++ expected.shown, none)
  | invalidLength length expected =>
    some ("invalid length " ++ toString length ++ ", expected " ++ expected.shown, none)
  | construction error => some (Text.splitPosition error.message)

/-- The text of an error without a position. -/
def ReadError.message? (e : ReadError) : Option String :=
  e.split?.map Prod.fst

/-- The text of an error as it is printed, where `stopped` is the place at which reading
stopped for it, if it was met while reading. A position that was read off the text is
printed in its stead, unless it is in line 0, which is no line of a text. -/
def ReadError.printed? (stopped : Option Text.Position) (e : ReadError) : Option String :=
  e.split?.map fun (text, position) =>
    text ++ Text.shownPlace (position.filter (0 < ·.line) <|> stopped)

end DialectTypes
