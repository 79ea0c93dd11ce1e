/-!
# JSON that is written

The library writes strings, switches, arrays and objects. The text has no blanks
between its parts, and within a string it escapes only what JSON requires.
-/

namespace DialectTypes

namespace Json

inductive Value where
  | bool (value : Bool)
  | string (value : String)
  | array (items : List Value)
  | object (members : List (String × Value))

def hexDigit (n : Nat) : Char :=
  if n < 10 then Char.ofNat ('0'.toNat + n) else Char.ofNat ('a'.toNat + (n - 10))

/-- The text of a character within a string. -/
def escape (c : Char) : List Char :=
  if c = '"' then ['\\', '"']
  else if c = '\\' then ['\\', '\\']
  else if c = '\x08' then ['\\', 'b']
  else if c = '\t' then ['\\', 't']
  else if c = '\n' then ['\\', 'n']
  else if c = '\x0c' then ['\\', 'f']
  else if c = '\r' then ['\\', 'r']
  else if c.toNat < 0x20 then ['\\', 'u', '0', '0', hexDigit (c.toNat / 16), hexDigit (c.toNat % 16)]
  else [c]

def quote (s : String) : List Char :=
  '"' :: (s.toList.flatMap escape ++ ['"'])

namespace Value

mutual

/-- The characters of the text of a value. -/
def chars : Value → List Char
  | bool true => ['t', 'r', 'u', 'e']
  | bool false => ['f', 'a', 'l', 's', 'e']
  | string s => quote s
  | array [] => ['[', ']']
  | array (v :: vs) => '[' :: (chars v ++ itemChars vs)
  | object [] => ['{', '}']
  | object ((k, v) :: ms) => '{' :: (quote k ++ ':' :: (chars v ++ memberChars ms))

/-- The rest of an array after an item. -/
def itemChars : List Value → List Char
  | [] => [']']
  | v :: vs => ',' :: (chars v ++ itemChars vs)

/-- The rest of an object after a member. -/
def memberChars : List (String × Value) → List Char
  | [] => ['}']
  | (k, v) :: ms => ',' :: (quote k ++ ':' :: (chars v ++ memberChars ms))

end

def text (v : Value) : String :=
  String.ofList v.chars

end Value

end Json

end DialectTypes
