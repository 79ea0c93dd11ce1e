import DialectTypes.Document
import DialectTypes.Registry
import DialectTypes.Toml.Text

/-!
# Tables in the making

Headers and dotted keys add to tables. A table may be opened by a header once,
a table that dotted keys made takes no header, and a value takes nothing more.
-/

namespace DialectTypes

namespace Toml

/-- How a table came to be. -/
inductive Origin where
  /-- A header names the table. -/
  | header
  /-- A longer header passes through the table. -/
  | passed
  /-- A dotted key passes through the table. -/
  | dotted
deriving DecidableEq

/-- What a key has. -/
inductive Node where
  | value (d : Document)
  | table (origin : Origin) (entries : List (String × Node))
  /-- The tables of an array, last first. -/
  | tables (elements : List (List (String × Node)))

/-- The entries of a table, in ascending order of their keys. -/
abbrev Entries := List (String × Node)

/-- Change a table that a path leads to, starting at a table of the given
origin. Tables that are missing on the way are made, and of an array of tables
the last one is entered. -/
def changeAt (dotted : Bool) (change : Origin → Entries → Option Entries) :
    List String → Origin → Entries → Option Entries
  | [], origin, entries => change origin entries
  | key :: path, _, entries => do
    let node ← match entries.lookup key with
      | none =>
        let origin := if dotted then Origin.dotted else Origin.passed
        Node.table origin <$> changeAt dotted change path origin []
      | some (.table origin inner) =>
        if dotted = true ∧ origin = .header then none
        else Node.table origin <$> changeAt dotted change path origin inner
      | some (.tables (last :: before)) =>
        (fun last => Node.tables (last :: before)) <$> changeAt dotted change path .header last
      | some (.tables []) => none
      | some (.value _) => none
    return Registry.insertEntry key node entries

/-- A table with one more entry. -/
def addEntry (key : String) (node : Node) (entries : Entries) : Option Entries :=
  if (entries.lookup key).isSome then none else some (Registry.insertEntry key node entries)

/-- A table with the value of a key; every table that the key passes through was
made by dotted keys. -/
def addValue (key : Key) (d : Document) (origin : Origin) (entries : Entries) : Option Entries :=
  changeAt true
    (fun origin inner =>
      if key.path ≠ [] ∧ origin ≠ .dotted then none else addEntry key.last (.value d) inner)
    key.path origin entries

/-- The document after a header. -/
def addHeader (key : Key) (entries : Entries) : Option Entries :=
  changeAt false
    (fun _ inner =>
      match inner.lookup key.last with
      | none => some (Registry.insertEntry key.last (.table .header []) inner)
      | some (.table .passed below) =>
        some (Registry.insertEntry key.last (.table .header below) inner)
      | some _ => none)
    key.path .header entries

/-- The document after the header of an element of an array of tables. -/
def addElement (key : Key) (entries : Entries) : Option Entries :=
  changeAt false
    (fun _ inner =>
      match inner.lookup key.last with
      | none => some (Registry.insertEntry key.last (.tables [[]]) inner)
      | some (.tables elements) =>
        some (Registry.insertEntry key.last (.tables ([] :: elements)) inner)
      | some _ => none)
    key.path .header entries

/-- The document after a value below the header that was read last. -/
def addBelow (header : List String) (key : Key) (d : Document) (entries : Entries) :
    Option Entries :=
  changeAt false (addValue key d) header .header entries

mutual

def Node.document : Node → Document
  | .value d => d
  | .table _ entries => .object (entryDocuments entries) true
  | .tables elements => .array (elementDocuments [] elements) true

def entryDocuments : List (String × Node) → List (Option String × Document)
  | [] => []
  | (key, node) :: entries => (some key, node.document) :: entryDocuments entries

/-- The tables of an array in text order, in front of those that are done. -/
def elementDocuments (done : List Document) : List (List (String × Node)) → List Document
  | [] => done
  | entries :: elements =>
    elementDocuments (.object (entryDocuments entries) true :: done) elements

end

end Toml

end DialectTypes
