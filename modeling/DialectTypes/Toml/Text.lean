import DialectTypes.Text.Scan

/-!
# Blanks, strings and keys of TOML

Each scan takes what it is named for from the start of a text. Control
characters stand in none of them but as line ends, apart from the tab.
-/

namespace DialectTypes

namespace Toml

open Text

/-- A control character, which may stand in no string and in no comment. -/
def isControl (c : Char) : Bool :=
  (c.toNat < 0x20 && c ≠ '\t') || c.toNat = 0x7f

def isBlank (c : Char) : Bool :=
  c = ' ' || c = '\t'

/-- The text after its blanks. -/
def skipBlanks (text : List Char) : List Char :=
  text.dropWhile isBlank

/-- The text after its blanks, line ends and comments, where `comment` says
whether the text starts within a comment. -/
def skipLines (comment : Bool) : List Char → Option (List Char)
  | [] => some []
  | '\n' :: rest => skipLines false rest
  | '\r' :: '\n' :: rest => skipLines false rest
  | c :: rest =>
    if comment then if isControl c then none else skipLines true rest
    else if isBlank c then skipLines false rest
    else if c = '#' then skipLines true rest
    else some (c :: rest)

/-- The text after the comment in which it starts, from the line end on. -/
def skipComment : List Char → Option (List Char)
  | [] => some []
  | '\n' :: rest => some ('\n' :: rest)
  | '\r' :: '\n' :: rest => some ('\r' :: '\n' :: rest)
  | c :: rest => if isControl c then none else skipComment rest

/-- The text after a line end, before which blanks and a comment may stand. -/
def endLine (text : List Char) : Option (List Char) := do
  let rest ← match skipBlanks text with
    | '#' :: comment => skipComment comment
    | rest => some rest
  match rest with
  | [] => some []
  | '\n' :: rest => some rest
  | '\r' :: '\n' :: rest => some rest
  | _ => none

/-- The character whose code point has the given digits. -/
def codePoint? (digits : List Char) : Option Char := do
  let n ← hexNumber? digits
  if n.isValidChar then some (Char.ofNat n) else none

/-- The character that an escape of one letter denotes. -/
def escaped? : Char → Option Char
  | '"' => some '"'
  | '\\' => some '\\'
  | 'b' => some '\x08'
  | 'e' => some '\x1b'
  | 'f' => some '\x0c'
  | 'n' => some '\n'
  | 'r' => some '\r'
  | 't' => some '\t'
  | _ => none

/-- A string with escapes on one line, after its opening quote. -/
def scanBasic : Scan (List Char)
  | [] => none
  | '"' :: rest => some ([], rest)
  | '\\' :: 'x' :: a :: b :: rest => before (codePoint? [a, b]) (scanBasic rest)
  | '\\' :: 'u' :: a :: b :: c :: d :: rest => before (codePoint? [a, b, c, d]) (scanBasic rest)
  | '\\' :: 'U' :: a :: b :: c :: d :: e :: f :: g :: h :: rest =>
    before (codePoint? [a, b, c, d, e, f, g, h]) (scanBasic rest)
  | '\\' :: c :: rest => before (escaped? c) (scanBasic rest)
  | c :: rest => if isControl c ∨ c = '\\' then none else before (some c) (scanBasic rest)

/-- A string without escapes on one line, after its opening quote. -/
def scanLiteral : Scan (List Char)
  | [] => none
  | '\'' :: rest => some ([], rest)
  | c :: rest => if isControl c then none else before (some c) (scanLiteral rest)

/-- The text after a line end at its start, if there is one. -/
def dropLineEnd : List Char → List Char
  | '\n' :: rest => rest
  | '\r' :: '\n' :: rest => rest
  | rest => rest

/-- Whether nothing but blanks stands before the end of the line. -/
def isLineEnd (text : List Char) : Bool :=
  match skipBlanks text with
  | '\n' :: _ => true
  | '\r' :: '\n' :: _ => true
  | _ => false

/-- A string with escapes on many lines, after its opening quotes. A line end is
kept as it is spelled, but where `joining` holds, blanks and line ends are passed
over. -/
def scanBasicLines (joining : Bool) : Scan (List Char)
  | [] => none
  | '"' :: '"' :: '"' :: '"' :: '"' :: rest => some (['"', '"'], rest)
  | '"' :: '"' :: '"' :: '"' :: rest => some (['"'], rest)
  | '"' :: '"' :: '"' :: rest => some ([], rest)
  | '\n' :: rest =>
    if joining then scanBasicLines true rest else before (some '\n') (scanBasicLines false rest)
  | '\r' :: '\n' :: rest =>
    if joining then scanBasicLines true rest
    else before (some '\r') (before (some '\n') (scanBasicLines false rest))
  | '\\' :: 'x' :: a :: b :: rest => before (codePoint? [a, b]) (scanBasicLines false rest)
  | '\\' :: 'u' :: a :: b :: c :: d :: rest =>
    before (codePoint? [a, b, c, d]) (scanBasicLines false rest)
  | '\\' :: 'U' :: a :: b :: c :: d :: e :: f :: g :: h :: rest =>
    before (codePoint? [a, b, c, d, e, f, g, h]) (scanBasicLines false rest)
  | '\\' :: c :: rest =>
    if isLineEnd (c :: rest) then scanBasicLines true (c :: rest)
    else before (escaped? c) (scanBasicLines false rest)
  | c :: rest =>
    if joining ∧ isBlank c then scanBasicLines true rest
    else if isControl c ∨ c = '\\' then none
    else before (some c) (scanBasicLines false rest)

/-- A string without escapes on many lines, after its opening quotes. A line end
is kept as it is spelled. -/
def scanLiteralLines : Scan (List Char)
  | [] => none
  | '\'' :: '\'' :: '\'' :: '\'' :: '\'' :: rest => some (['\'', '\''], rest)
  | '\'' :: '\'' :: '\'' :: '\'' :: rest => some (['\''], rest)
  | '\'' :: '\'' :: '\'' :: rest => some ([], rest)
  | '\n' :: rest => before (some '\n') (scanLiteralLines rest)
  | '\r' :: '\n' :: rest =>
    before (some '\r') (before (some '\n') (scanLiteralLines rest))
  | c :: rest => if isControl c then none else before (some c) (scanLiteralLines rest)

/-- A string of any of the four sorts. -/
def scanString : Scan String := fun text => do
  let (cs, rest) ← match text with
    | '"' :: '"' :: '"' :: rest => scanBasicLines false (dropLineEnd rest)
    | '"' :: rest => scanBasic rest
    | '\'' :: '\'' :: '\'' :: rest => scanLiteralLines (dropLineEnd rest)
    | '\'' :: rest => scanLiteral rest
    | _ => none
  return (String.ofList cs, rest)

/-- A character of a key without quotes. -/
def isBare (c : Char) : Bool :=
  c.isAlphanum || c = '_' || c = '-'

/-- One part of a key. -/
def scanPart : Scan String
  | '"' :: rest => do
    let (cs, rest) ← scanBasic rest
    return (String.ofList cs, rest)
  | '\'' :: rest => do
    let (cs, rest) ← scanLiteral rest
    return (String.ofList cs, rest)
  | text => do
    let (cs, rest) ← takeSome isBare text
    return (String.ofList cs, rest)

/-- A key as its last part and the parts before it. -/
structure Key where
  path : List String
  last : String

/-- The number of parts that a key may have. -/
def maxParts : Nat := 80

/-- A key of at most the given number of parts, which are separated by points
with blanks around each. -/
def scanKey : Nat → Text.Scan Key
  | 0, _ => none
  | parts + 1, text => do
    let (part, rest) ← scanPart (skipBlanks text)
    match skipBlanks rest with
    | '.' :: after => do
      let (key, rest) ← scanKey parts after
      return (⟨part :: key.path, key.last⟩, rest)
    | rest => return (⟨[], part⟩, rest)

end Toml

end DialectTypes
