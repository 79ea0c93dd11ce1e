/-!
# Documents

A document is what is found in a text that denotes data: scalars, sequences and
tables with their members in text order. A text that breaks off, or goes on in a
way that denotes nothing, still has a document. It says how far the text can be
followed, so that a reader meets a wrong value before a later fault of the text.
-/

namespace DialectTypes

/-- A number as it is shown in messages. -/
inductive Number where
  | integer (value : Int)
  /-- A number with a fraction or an exponent, or beyond the integers. -/
  | float (text : String)
deriving DecidableEq

inductive Document where
  | null
  | bool (value : Bool)
  /-- `none` is a number that is too large for its format. -/
  | number (value : Option Number)
  /-- `none` is a string that escapes half of a surrogate pair. -/
  | string (value : Option String)
  /-- The sequence is `closed` if its text goes on to its end. -/
  | array (items : List Document) (closed : Bool)
  | object (members : List (Option String × Document)) (closed : Bool)
  /-- What stands here denotes nothing, or the text breaks off before a value is complete. -/
  | broken

namespace Document

mutual

/-- Whether the text is followed to its end, with no part that is broken. -/
def intact : Document → Bool
  | null | bool _ | number _ | string _ => true
  | array items closed => closed && intactItems items
  | object members closed => closed && intactMembers members
  | broken => false

def intactItems : List Document → Bool
  | [] => true
  | d :: ds => intact d && intactItems ds

def intactMembers : List (Option String × Document) → Bool
  | [] => true
  | (_, d) :: ms => intact d && intactMembers ms

end

mutual

/-- Whether the text is followed to its end, every scalar in it has a value, and
sequences and tables are nested at most as deep as there is room. -/
def readable (room : Nat) : Document → Bool
  | null | bool _ => true
  | number value => value.isSome
  | string value => value.isSome
  | array items closed =>
    match room with
    | 0 => false
    | room + 1 => closed && readableItems room items
  | object members closed =>
    match room with
    | 0 => false
    | room + 1 => closed && readableMembers room members
  | broken => false

def readableItems (room : Nat) : List Document → Bool
  | [] => true
  | d :: ds => readable room d && readableItems room ds

def readableMembers (room : Nat) : List (Option String × Document) → Bool
  | [] => true
  | (key, d) :: ms => key.isSome && readable room d && readableMembers room ms

end

/-- A document without its first item, if it is a sequence. -/
def tail : Document → Document
  | array (_ :: ds) closed => array ds closed
  | d => d

theorem intactItems_iff {ds : List Document} :
    intactItems ds = true ↔ ∀ d ∈ ds, d.intact = true := by
  induction ds with
  | nil => simp [intactItems]
  | cons d ds ih => simp [intactItems, ih]

theorem intactMembers_iff {ms : List (Option String × Document)} :
    intactMembers ms = true ↔ ∀ m ∈ ms, m.2.intact = true := by
  induction ms with
  | nil => simp [intactMembers]
  | cons m ms ih => simp [intactMembers, ih]

theorem readableItems_iff {room : Nat} {ds : List Document} :
    readableItems room ds = true ↔ ∀ d ∈ ds, d.readable room = true := by
  induction ds with
  | nil => simp [readableItems]
  | cons d ds ih => simp [readableItems, ih]

theorem readableMembers_iff {room : Nat} {ms : List (Option String × Document)} :
    readableMembers room ms = true ↔
      ∀ m ∈ ms, m.1.isSome = true ∧ m.2.readable room = true := by
  induction ms with
  | nil => simp [readableMembers]
  | cons m ms ih => simp [readableMembers, ih, and_assoc]

mutual

/-- Whether two documents are the same. -/
def same : Document → Document → Bool
  | null, null | broken, broken => true
  | bool a, bool b => a == b
  | number a, number b => a == b
  | string a, string b => a == b
  | array ds closed, array es closed' => closed == closed' && sameItems ds es
  | object ms closed, object ns closed' => closed == closed' && sameMembers ms ns
  | _, _ => false

def sameItems : List Document → List Document → Bool
  | [], [] => true
  | d :: ds, e :: es => same d e && sameItems ds es
  | _, _ => false

def sameMembers : List (Option String × Document) → List (Option String × Document) → Bool
  | [], [] => true
  | (k, d) :: ms, (l, e) :: ns => k == l && same d e && sameMembers ms ns
  | _, _ => false

end

mutual

theorem same_iff : ∀ (d e : Document), same d e = true ↔ d = e
  | null, e | bool _, e | number _, e | string _, e | broken, e => by cases e <;> simp [same]
  | array ds _, e => by
      cases e with
      | array es _ => simp [same, sameItems_iff ds es, and_comm]
      | _ => simp [same]
  | object ms _, e => by
      cases e with
      | object ns _ => simp [same, sameMembers_iff ms ns, and_comm]
      | _ => simp [same]

theorem sameItems_iff : ∀ (ds es : List Document), sameItems ds es = true ↔ ds = es
  | [], es => by cases es <;> simp [sameItems]
  | d :: ds, [] => by simp [sameItems]
  | d :: ds, e :: es => by simp [sameItems, same_iff d e, sameItems_iff ds es]

theorem sameMembers_iff : ∀ (ms ns : List (Option String × Document)),
    sameMembers ms ns = true ↔ ms = ns
  | [], ns => by cases ns <;> simp [sameMembers]
  | (_, _) :: _, [] => by simp [sameMembers]
  | (_, d) :: ms, (_, e) :: ns => by simp [sameMembers, same_iff d e, sameMembers_iff ms ns]

end

instance : DecidableEq Document := fun d e => decidable_of_iff _ (same_iff d e)

end Document

/-- A document and whether nothing but blanks comes after it. -/
structure Source where
  document : Document
  ended : Bool
deriving DecidableEq

end DialectTypes
