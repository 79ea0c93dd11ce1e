import DialectTypes.Toml.Scalar
import DialectTypes.Toml.Table

/-!
# The document of a TOML text

A text is a list of values and headers, each on a line of its own. Its document
is a table whose members are in ascending order of their keys. A text with a
fault anywhere has no document.
-/

namespace DialectTypes

namespace Toml

open Text

/-- The number of levels to which arrays and inline tables may be nested. -/
def maxNesting : Nat := 80

/-- The items of an array after its bracket. An item that takes nothing from the
text ends the scan. -/
def scanItems (scanItem : Scan Document) (text : List Char) :
    Option (List Document × List Char) := do
  match ← skipLines false text with
  | ']' :: rest => return ([], rest)
  | start =>
    let (d, rest) ← scanItem start
    match ← skipLines false rest with
    | ',' :: after =>
      if after.length < text.length then
        let (ds, rest) ← scanItems scanItem after
        return (d :: ds, rest)
      else none
    | ']' :: rest => return ([d], rest)
    | _ => none
termination_by text.length

/-- A key with its value, where `skip` passes over what may stand around the
equals sign. -/
def scanPair (skip : List Char → Option (List Char)) (scanItem : Scan Document)
    (text : List Char) : Option ((Key × Document) × List Char) := do
  let (key, rest) ← scanKey maxParts text
  match ← skip rest with
  | '=' :: rest =>
    let (d, rest) ← scanItem (← skip rest)
    return ((key, d), rest)
  | _ => none

/-- The values of an inline table after its bracket, added to those before. -/
def scanPairs (scanItem : Scan Document) (entries : Entries) (text : List Char) :
    Option (Entries × List Char) := do
  match ← skipLines false text with
  | '\x7d' :: rest => return (entries, rest)
  | start =>
    let ((key, d), rest) ← scanPair (skipLines false) scanItem start
    let entries ← addValue key d .header entries
    match ← skipLines false rest with
    | ',' :: after =>
      if after.length < text.length then scanPairs scanItem entries after else none
    | '\x7d' :: rest => return (entries, rest)
    | _ => none
termination_by text.length

/-- A value, with arrays and inline tables nested as deep as there is room. -/
def scanValue (room : Nat) : Scan Document
  | '[' :: rest =>
    match room with
    | 0 => none
    | room + 1 => do
      let (ds, rest) ← scanItems (scanValue room) rest
      return (.array ds true, rest)
  | '\x7b' :: rest =>
    match room with
    | 0 => none
    | room + 1 => do
      let (entries, rest) ← scanPairs (scanValue room) [] rest
      return (.object (entryDocuments entries) true, rest)
  | '"' :: rest => do
    let (s, rest) ← scanString ('"' :: rest)
    return (.string (some s), rest)
  | '\'' :: rest => do
    let (s, rest) ← scanString ('\'' :: rest)
    return (.string (some s), rest)
  | text => scanScalar text

/-- What is read so far: the table of the document and the path of the header
that was read last. -/
structure Progress where
  entries : Entries := []
  header : List String := []

/-- The key of a header and the text after its closing bracket. -/
def scanHeader (text : List Char) : Option (Key × List Char) := do
  let (key, rest) ← scanKey maxParts text
  match rest with
  | ']' :: rest => return (key, rest)
  | _ => none

/-- One line that is not blank. -/
def scanLine (p : Progress) : Scan Progress
  | '[' :: '[' :: rest => do
    let (key, rest) ← scanHeader rest
    match rest with
    | ']' :: rest =>
      return ({ entries := ← addElement key p.entries, header := key.path ++ [key.last] }, rest)
    | _ => none
  | '[' :: rest => do
    let (key, rest) ← scanHeader rest
    return ({ entries := ← addHeader key p.entries, header := key.path ++ [key.last] }, rest)
  | text => do
    let ((key, d), rest) ← scanPair (some ∘ skipBlanks) (scanValue maxNesting) text
    return ({ p with entries := ← addBelow p.header key d p.entries }, rest)

/-- All lines of a text. A line that takes nothing from the text ends the scan. -/
def scanLines (p : Progress) (text : List Char) : Option Progress := do
  match ← skipLines false text with
  | [] => return p
  | start =>
    let (p, rest) ← scanLine p start
    let after ← endLine rest
    if after.length < text.length then scanLines p after else none
termination_by text.length

/-- The document of a text, unless the text has a fault. A mark of the byte order
at its start means nothing. -/
def document? (text : String) : Option Document := do
  let chars := match text.toList with
    | '\uFEFF' :: rest => rest
    | chars => chars
  let p ← scanLines {} chars
  return .object (entryDocuments p.entries) true

end Toml

end DialectTypes
