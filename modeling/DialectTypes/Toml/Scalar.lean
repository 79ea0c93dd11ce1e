import DialectTypes.Document
import DialectTypes.Numeral.Shortest
import DialectTypes.Toml.Text

/-!
# Numbers, switches and times of TOML

A scalar without quotes goes on to a sign of the format, a comment or the end of
its line. What it denotes is decided from its whole text. Some texts have the
form of a number but denote nothing: a number that is out of range, a base
without digits, and groups that hold more than digits. They are no fault of the
document around them. A point in time reads as a table with one entry.
-/

namespace DialectTypes

namespace Toml

/-- A character of a scalar: any but blanks, line ends and the signs of the format. -/
def isScalarChar (c : Char) : Bool :=
  !isBlank c && c ∉ ['=', ',', '[', ']', '\x7b', '\x7d', '#', '\r', '\n']

/-- How messages show numbers. -/
def layout : Numeral.Layout where
  positional _ := true
  tieToEven := false

/-- Digits in groups: each underscore stands between two digits. -/
def ungroup (isDigit : Char → Bool) : List Char → Option (List Char)
  | [] => none
  | [c] => if isDigit c then some [c] else none
  | c :: '_' :: rest => if isDigit c then (c :: ·) <$> ungroup isDigit rest else none
  | c :: rest => if isDigit c then (c :: ·) <$> ungroup isDigit rest else none

def digitValue (c : Char) : Nat :=
  if c.isDigit then c.toNat - '0'.toNat else c.toLower.toNat - 'a'.toNat + 10

def digitsValue (base : Nat) (digits : List Char) : Nat :=
  digits.foldl (fun n c => n * base + digitValue c) 0

/-- What a number denotes: nothing, if it is out of range. -/
def inRange : Option Number → Document
  | some n => .number (some n)
  | none => .broken

/-- A whole number that is not wider than 128 bits. -/
def integer? (negative : Bool) (n : Nat) : Option Number :=
  if negative then if n ≤ Nat.pow 2 127 then some (.integer (-n)) else none
  else if n < Nat.pow 2 128 then some (.integer n) else none

def isHexDigit (c : Char) : Bool :=
  c.isDigit || ('a' ≤ c && c ≤ 'f') || ('A' ≤ c && c ≤ 'F')

/-- A whole number whose first characters name its base. Without digits it
denotes nothing. -/
def radix? : List Char → Option (Option Document)
  | '0' :: 'x' :: digits => some (radixValue 16 isHexDigit digits)
  | '0' :: 'o' :: digits => some (radixValue 8 (fun c => '0' ≤ c && c ≤ '7') digits)
  | '0' :: 'b' :: digits => some (radixValue 2 (fun c => c = '0' || c = '1') digits)
  | _ => none
where
  radixValue (base : Nat) (isDigit : Char → Bool) : List Char → Option Document
    | [] => some .broken
    | digits => do
      return inRange (integer? false (digitsValue base (← ungroup isDigit digits)))

/-- Whether a digit, of whatever base, stands after each underscore, and before
it if it is not in front. -/
def isSeparated : List Char → Bool
  | [] => true
  | '_' :: rest => rest.head?.any isHexDigit && isSeparated rest
  | c :: rest => (isHexDigit c || rest.head? ≠ some '_') && isSeparated rest

/-- What a whole number denotes whose digits stand in groups. Groups that hold
more than digits denote nothing. -/
def grouped? (negative : Bool) (text : List Char) : Option Document :=
  if isSeparated text then
    let digits := text.filter (· ≠ '_')
    if digits.all Char.isDigit then
      some (inRange (integer? negative (digitsValue 10 digits)))
    else some .broken
  else none

/-- A whole number in base ten, which has no zero in front of other characters.
Its first group has digits, and nothing else. -/
def decimal? (negative : Bool) : List Char → Option Document
  | [] => none
  | ['0'] => some (inRange (integer? negative 0))
  | '0' :: _ => none
  | '_' :: _ => none
  | text =>
    match text.dropWhile Char.isDigit with
    | [] => grouped? negative text
    | '_' :: _ => grouped? negative text
    | _ => none

/-- The digits of a whole part, which has no zero in front of other digits. -/
def whole? (text : List Char) : Option (List Char) := do
  match ← ungroup Char.isDigit text with
  | '0' :: _ :: _ => none
  | digits => some digits

def splitSign : List Char → Bool × List Char
  | '-' :: rest => (true, rest)
  | '+' :: rest => (false, rest)
  | rest => (false, rest)

def isGrouped (c : Char) : Bool :=
  c.isDigit || c = '_'

/-- The exponent at the end of a number, or zero if there is none. -/
def exponent? : List Char → Option Int
  | [] => some 0
  | c :: rest =>
    if c = 'e' ∨ c = 'E' then do
      let (negative, digits) := splitSign rest
      let n := digitsValue 10 (← ungroup Char.isDigit digits)
      return if negative then -n else n
    else none

/-- A character that gives a number in base ten a fraction or an exponent. -/
def isFloatMark (c : Char) : Bool :=
  c = '.' || c = 'e' || c = 'E'

/-- A number with a fraction, an exponent or both. -/
def float? (negative : Bool) (text : List Char) : Option Document := do
  let digits ← whole? (text.takeWhile isGrouped)
  let (fraction, rest) ← match text.dropWhile isGrouped with
    | '.' :: rest =>
      let fraction ← ungroup Char.isDigit (rest.takeWhile isGrouped)
      some (fraction, rest.dropWhile isGrouped)
    | rest => some ([], rest)
  let exponent ← exponent? rest
  let x := Numeral.Binary64.ofDecimal? (digitsValue 10 (digits ++ fraction))
    (exponent - fraction.length)
  return inRange (x.map fun x => .float (layout.text negative x))

/-- What a text denotes that has the form of a number. -/
def number? (text : List Char) : Option Document :=
  match radix? text with
  | some n => n
  | none =>
    let (negative, body) := splitSign text
    if body = ['i', 'n', 'f'] then
      some (.number (some (.float (if negative then "-inf" else "inf"))))
    else if body = ['n', 'a', 'n'] then some (.number (some (.float "NaN")))
    else if body.any isFloatMark then float? negative body
    else decimal? negative body

/-- A number of two digits. -/
def twoDigits? (a b : Char) : Option Nat :=
  if a.isDigit && b.isDigit then some (digitsValue 10 [a, b]) else none

def daysInMonth (year month : Nat) : Nat :=
  if month = 2 then
    if year % 4 = 0 ∧ (year % 100 ≠ 0 ∨ year % 400 = 0) then 29 else 28
  else if month ∈ [4, 6, 9, 11] then 30
  else 31

/-- The text after a date. -/
def afterDate? : List Char → Option (List Char)
  | y₁ :: y₂ :: y₃ :: y₄ :: '-' :: m₁ :: m₂ :: '-' :: d₁ :: d₂ :: rest => do
    let year := (← twoDigits? y₁ y₂) * 100 + (← twoDigits? y₃ y₄)
    let month ← twoDigits? m₁ m₂
    let day ← twoDigits? d₁ d₂
    if 1 ≤ month ∧ month ≤ 12 ∧ 1 ≤ day ∧ day ≤ daysInMonth year month then some rest else none
  | _ => none

/-- The text after the seconds of a time of day, which may be left out. A second
may be a leap second, and a fraction may follow it. -/
def afterSeconds? : List Char → Option (List Char)
  | ':' :: s₁ :: s₂ :: rest => do
    if 60 < (← twoDigits? s₁ s₂) then none
    else
      match rest with
      | '.' :: fraction =>
        let (_, rest) ← Text.takeSome Char.isDigit fraction
        some rest
      | rest => some rest
  | ':' :: _ => none
  | rest => some rest

/-- The text after a time of day. -/
def afterTime? : List Char → Option (List Char)
  | h₁ :: h₂ :: ':' :: m₁ :: m₂ :: rest => do
    let hour ← twoDigits? h₁ h₂
    let minute ← twoDigits? m₁ m₂
    if hour < 24 ∧ minute < 60 then afterSeconds? rest else none
  | _ => none

/-- Whether a text is nothing or an offset from universal time. -/
def isOffset : List Char → Bool
  | [] => true
  | ['Z'] => true
  | ['z'] => true
  | [sign, h₁, h₂, ':', m₁, m₂] =>
    (sign = '+' || sign = '-') && (twoDigits? h₁ h₂).any (· < 24) && (twoDigits? m₁ m₂).any (· < 60)
  | _ => false

/-- Whether a text is a date, a time of day, or both with or without an offset. -/
def isTime (text : List Char) : Bool :=
  match afterDate? text with
  | some [] => true
  | some (separator :: rest) =>
    (separator = 'T' || separator = 't' || separator = ' ') && (afterTime? rest).any isOffset
  | none => afterTime? text = some []

/-- What a text denotes that ends with its scalar. Only a time has a blank in it. -/
def scalar? (text : List Char) : Option Document :=
  if text = ['t', 'r', 'u', 'e'] then some (.bool true)
  else if text = ['f', 'a', 'l', 's', 'e'] then some (.bool false)
  else if isTime text then
    some (.object [(some "time", .string (some (String.ofList text)))] true)
  else if ' ' ∈ text then none
  else number? text

/-- Whether a scalar goes on after the blanks at the start of a text. Neither a
point nor a quote goes on with it. -/
def goesOn : List Char → Bool
  | [] => false
  | c :: rest => if isBlank c then goesOn rest else isScalarChar c && c ∉ ['.', '"', '\'']

/-- The text of a scalar, of which the part before is given in reverse, and the
rest. -/
def splitScalar (before : List Char) : List Char → List Char × List Char
  | [] => (before.reverse, [])
  | c :: rest =>
    if isScalarChar c || (isBlank c && goesOn rest) then splitScalar (c :: before) rest
    else (before.reverse, c :: rest)

/-- A scalar without quotes. -/
def scanScalar : Text.Scan Document := fun text => do
  let (scalar, rest) := splitScalar [] text
  return (← scalar? scalar, rest)

end Toml

end DialectTypes
