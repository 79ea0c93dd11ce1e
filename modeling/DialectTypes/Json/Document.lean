import DialectTypes.Json.Token

/-!
# The document of a JSON text

Tokens are taken one by one. The arrays and objects that are open are kept, the
innermost first, and each token is either one that may stand at its place or the
end of what can be followed. There the open parts are closed as they are, so the
document holds everything before the fault.
-/

namespace DialectTypes

namespace Json

/-- An open array or object with what it holds so far, last first; an object
waits for the value of a key. -/
inductive Frame where
  | array (items : List Document)
  | object (members : List (Option String × Document)) (key : Option String)

/-- What is expected next, and the frames around it. -/
inductive State where
  | value (outer : List Frame)
  | firstItem (outer : List Frame)
  | firstKey (outer : List Frame)
  | key (members : List (Option String × Document)) (outer : List Frame)
  | colon (members : List (Option String × Document)) (key : Option String) (outer : List Frame)
  | afterItem (items : List Document) (outer : List Frame)
  | afterMember (members : List (Option String × Document)) (outer : List Frame)
  | done (document : Document)

namespace State

/-- What is expected once a value is complete. -/
def resume (d : Document) : List Frame → State
  | [] => done d
  | .array items :: outer => afterItem (d :: items) outer
  | .object members name :: outer => afterMember ((name, d) :: members) outer

/-- Take a token where a value may start. -/
def startValue (outer : List Frame) : Token → Option State
  | .null => some (resume .null outer)
  | .bool b => some (resume (.bool b) outer)
  | .number n => some (resume (.number n) outer)
  | .string s => some (resume (.string s) outer)
  | .openArray => some (firstItem outer)
  | .openObject => some (firstKey outer)
  | _ => none

/-- Take a token, if it may stand here. -/
def step? : State → Token → Option State
  | value outer, t => startValue outer t
  | firstItem outer, .closeArray => some (resume (.array [] true) outer)
  | firstItem outer, t => startValue (.array [] :: outer) t
  | firstKey outer, .closeObject => some (resume (.object [] true) outer)
  | firstKey outer, .string s => some (colon [] s outer)
  | key members outer, .string s => some (colon members s outer)
  | colon members name outer, .colon => some (value (.object members name :: outer))
  | afterItem items outer, .comma => some (value (.array items :: outer))
  | afterItem items outer, .closeArray => some (resume (.array items.reverse true) outer)
  | afterMember members outer, .comma => some (key members outer)
  | afterMember members outer, .closeObject => some (resume (.object members.reverse true) outer)
  | _, _ => none

/-- A document within frames whose text is not followed any further. -/
def close (d : Document) : List Frame → Document
  | [] => d
  | .array items :: outer => close (.array (d :: items).reverse false) outer
  | .object members name :: outer => close (.object ((name, d) :: members).reverse false) outer

/-- The document if no further token can be taken. -/
def stop : State → Document
  | value outer => close .broken outer
  | firstItem outer => close (.array [] false) outer
  | firstKey outer => close (.object [] false) outer
  | key members outer => close (.object members.reverse false) outer
  | colon members name outer => close (.object ((name, .broken) :: members).reverse false) outer
  | afterItem items outer => close (.array items.reverse false) outer
  | afterMember members outer => close (.object members.reverse false) outer
  | done d => d

/-- Take tokens as long as they may stand where they are. -/
def run (s : State) : List Token → Source
  | [] => ⟨s.stop, true⟩
  | t :: ts =>
    match s.step? t with
    | some s' => run s' ts
    | none => ⟨s.stop, false⟩

end State

/-- The document of a text, and whether the text ends with it. -/
def source (text : String) : Source :=
  State.run (.value []) (lex text.toList)

end Json

end DialectTypes
