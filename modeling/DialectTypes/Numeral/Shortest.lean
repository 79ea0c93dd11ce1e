import DialectTypes.Numeral.Binary64

/-!
# Shortest decimals

A binary number is written with the fewest decimal digits that are nearer to it
than to any other number of its format, and of those decimals with the nearest
one. The search compares exact quotients only.
-/

namespace DialectTypes

namespace Numeral

/-- The number `digits * 10 ^ exponent`. -/
structure Decimal where
  digits : Nat
  exponent : Int
deriving DecidableEq

namespace Decimal

/-- The same number without zeros at the end of its digits; it is enough to try
as many times as there may be zeros. -/
def strip : Nat → Decimal → Decimal
  | 0, d => d
  | tries + 1, d =>
    if d.digits ≠ 0 ∧ d.digits % 10 = 0 then strip tries ⟨d.digits / 10, d.exponent + 1⟩ else d

/-- The position of the decimal point, counted from the first digit. -/
def point (d : Decimal) : Int :=
  (Nat.toDigits 10 d.digits).length + d.exponent

end Decimal

namespace Binary64

/-- The position of the decimal point of a number other than zero: `p` such that
the number is at least `10 ^ (p - 1)` and less than `10 ^ p`. -/
def pointOf (r : Ratio) : Int :=
  if r.den ≤ r.num then (Nat.toDigits 10 (r.num / r.den)).length
  else 1 - (Nat.toDigits 10 ((r.den + r.num - 1) / r.num - 1)).length

/-- Whether a decimal is read back as this number: it lies between the middles
to the two neighbours, which themselves are read back if the mantissa is even. -/
def readsBack (x : Binary64) (d : Decimal) : Bool :=
  let quarter := Ratio.scale ⟨1, 1⟩ 2 (x.exponent - 2)
  let below := if x.mantissa = Nat.pow 2 52 ∧ -1074 < x.exponent then 1 else 2
  let value := Ratio.scale ⟨d.digits, 1⟩ 10 d.exponent
  let scaled := value.num * quarter.den
  let unit := quarter.num * value.den
  let low := (4 * x.mantissa - below) * unit
  let high := (4 * x.mantissa + 2) * unit
  if x.mantissa % 2 = 0 then low ≤ scaled ∧ scaled ≤ high else low < scaled ∧ scaled < high

/-- The nearer of the decimals with the given number of digits that are read back. -/
def candidate? (x : Binary64) (tieToEven : Bool) (count : Nat) : Option Decimal :=
  let value := x.toRatio
  let exponent := pointOf value - count
  let grid := value.scale 10 (-exponent)
  let lower := grid.num / grid.den
  let twice := 2 * (grid.num % grid.den)
  let down : Decimal := ⟨lower, exponent⟩
  let up : Decimal := ⟨lower + 1, exponent⟩
  match x.readsBack down, x.readsBack up with
  | true, true =>
    if twice < grid.den ∨ (twice = grid.den ∧ tieToEven ∧ lower % 2 = 0) then some down
    else some up
  | true, false => some down
  | false, true => some up
  | false, false => none

/-- The shortest decimal that is read back; seventeen digits always suffice. -/
def shortest (x : Binary64) (tieToEven : Bool) : Decimal :=
  if x.mantissa = 0 then ⟨0, 0⟩
  else
    match (List.range 17).findSome? fun n => x.candidate? tieToEven (n + 1) with
    | some d => d.strip 17
    | none => ⟨x.toRatio.round, 0⟩

end Binary64

/-- How the text of a number is laid out. -/
structure Layout where
  /-- A point at this position is written among the digits, others by an exponent. -/
  positional : Int → Bool
  tieToEven : Bool

namespace Layout

def zeros (n : Nat) : String :=
  String.ofList (List.replicate n '0')

/-- The text of an exponent, which always has a sign. -/
def exponent (n : Int) : String :=
  if 0 ≤ n then "e+" ++ toString n else "e" ++ toString n

/-- The text of a decimal, which always has a point or an exponent. -/
def decimal (l : Layout) (d : Decimal) : String :=
  let digits := Nat.toDigits 10 d.digits
  let point := d.point
  if l.positional point then
    if 0 ≤ d.exponent then String.ofList digits ++ zeros d.exponent.toNat ++ ".0"
    else if 0 < point then
      String.ofList (digits.take point.toNat) ++ "." ++ String.ofList (digits.drop point.toNat)
    else "0." ++ zeros (-point).toNat ++ String.ofList digits
  else
    match digits with
    | [] => "0.0"
    | [first] => first.toString ++ exponent (point - 1)
    | first :: rest => first.toString ++ "." ++ String.ofList rest ++ exponent (point - 1)

/-- The text of a number with a sign. -/
def text (l : Layout) (negative : Bool) (x : Binary64) : String :=
  (if negative then "-" else "") ++ l.decimal (x.shortest l.tieToEven)

end Layout

end Numeral

end DialectTypes
