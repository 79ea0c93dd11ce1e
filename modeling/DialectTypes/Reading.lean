import DialectTypes.ReadError
import DialectTypes.Registry

/-!
# Reading documents

A reader turns a document into a value or into the first error that it meets,
where everything is met in text order. Members of a table that a reader does not
know are passed over. A record is read from a table, or from a sequence that has
the values of its fields in their order.
-/

namespace DialectTypes

/-- Where a document is read from: from the text itself, or from what was kept of the
text to be read later. -/
inductive Access where
  | text
  | kept
deriving DecidableEq

/-- What is known of the form of a record. -/
structure Form where
  /-- What messages call a record of the form. -/
  title : String
  /-- The names of the fields, in the order in which a sequence has their values. -/
  fields : List String

namespace Form

/-- The error for a field that a record lacks; what a sequence lacks is said by its number. -/
def missing (f : Form) (name : String) : Document → ReadError
  | .array _ _ => .invalidLength (f.fields.idxOf name) (.recordOf f.title f.fields.length)
  | _ => .missingField name

/-- The error for a sequence with more items than there are fields. A text is not looked
at beyond the last field, where the sequence should end. -/
def tooLong (f : Form) (length : Nat) : Access → ReadError
  | .text => .malformed
  | .kept => .invalidLength length (.sequenceOf f.fields.length)

end Form

/-- A way to read a value of a type. -/
abbrev Reader (α : Type) := Document → Except ReadError α

namespace Reader

variable {α σ : Type}

/-- What a document is, as far as a message tells. -/
def found : Reader Found
  | .null => .ok .null
  | .bool b => .ok (.bool b)
  | .number (some n) => .ok (.number n)
  | .string (some s) => .ok (.string s)
  | .array _ _ => .ok .sequence
  | .object _ _ => .ok .map
  | .number none | .string none | .broken => .error .malformed

/-- The error for a document that is not what is expected. -/
def mismatch (expected : Expected) : Reader α := fun d =>
  match found d with
  | .ok f => .error (.invalidType f expected)
  | .error e => .error e

def string : Reader String
  | .string (some s) => .ok s
  | d => mismatch .string d

def bool : Reader Bool
  | .bool b => .ok b
  | d => mismatch .boolean d

/-- A value, or nothing where the document is null. -/
def optional (read : Reader α) : Reader (Option α)
  | .null => .ok none
  | d => some <$> read d

/-- Success if the text of a part is followed to its end. -/
def ended (closed : Bool) (value : α) : Except ReadError α :=
  if closed then .ok value else .error .malformed

def items (read : Reader α) : List Document → Except ReadError (List α)
  | [] => .ok []
  | d :: ds => do
    let a ← read d
    let as ← items read ds
    return a :: as

def list (read : Reader α) : Reader (List α)
  | .array ds closed => do
    let as ← items read ds
    ended closed as
  | d => mismatch .sequence d

/-- Pass over a value that is not looked at. -/
def skip (d : Document) (value : α) : Except ReadError α :=
  ended d.intact value

/-- Take the members of a table one by one. -/
def members (take : σ → String → Reader σ) :
    List (Option String × Document) → σ → Except ReadError σ
  | [], s => .ok s
  | (none, _) :: _, _ => .error .malformed
  | (some key, d) :: ms, s => do
    let s ← take s key d
    members take ms s

/-- Read a table by taking its members one by one, where `other` is the error
for anything else. -/
def table (other : Reader σ) (take : σ → String → Reader σ) (start : σ) : Reader σ
  | .object ms closed => do
    let s ← members take ms start
    ended closed s
  | d => other d

/-- Read a record by taking its members one by one. A sequence has them under the names
of the fields, one after another. -/
def fields (m : Access) (f : Form) (take : σ → String → Reader σ) (start : σ) : Reader σ
  | .array ds closed => do
    let s ← members take ((f.fields.map some).zip ds) start
    if ds.length ≤ f.fields.length then ended closed s
    else .error (f.tooLong ds.length m)
  | d => table (mismatch (.record f.title)) take start d

/-- The value of a field that may stand once in a table, where `old` is the one
that was read before. -/
def once (name : String) (old : Option α) (read : Reader α) : Reader (Option α) := fun d =>
  match old with
  | some _ => .error (.duplicateField name)
  | none => some <$> read d

/-- A value that must have been read, where `missing` is the error if it was not. -/
def required (missing : ReadError) : Option α → Except ReadError α
  | some a => .ok a
  | none => .error missing

/-- The value of one field of a record. -/
def field (m : Access) (f : Form) (name : String) (read : Reader α) : Reader α := fun d => do
  let value ← fields m f
    (fun old key d => if key = name then once name old read d else skip d old) none d
  required (f.missing name d) value

/-- A table that gives each of its keys a value; the last member of a key counts. -/
def registry (read : Reader α) : Reader (Registry α) :=
  table (mismatch .map) (fun r key d => do return r.insert key (← read d)) .empty

/-- One of a list of names. -/
def oneOf (ofName? : String → Option α) (known : List String) (s : String) : Except ReadError α :=
  match ofName? s with
  | some a => .ok a
  | none => .error (.unknownVariant s known)

/-- A name by itself, or as the only key of a table that gives it null. -/
def variant (ofName? : String → Option α) (known : List String) : Reader α
  | .string (some s) => oneOf ofName? known s
  | .object ((some s, d) :: ms) closed => do
    let a ← oneOf ofName? known s
    match d with
    | .null => ended (closed && ms.isEmpty) a
    | d => mismatch .unit d
  | _ => .error .malformed

/-- A value that building may refuse. -/
def built : Except ConstructionError α → Except ReadError α
  | .ok a => .ok a
  | .error e => .error (.construction e)

/-- Read a whole text. -/
def whole (read : Reader α) (s : Source) : Except ReadError α := do
  let a ← read s.document
  ended s.ended a

end Reader

/-- The number of levels to which sequences and tables may be nested. -/
def maxNesting : Nat := 127

end DialectTypes
