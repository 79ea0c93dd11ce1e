import DialectTypes.Document
import DialectTypes.Numeral.Shortest
import DialectTypes.Text.Scan

/-!
# JSON numbers

A number without fraction and exponent is an integer if it fits into 64 bits.
Any other number is rounded: its digits are taken as long as they fit into 64
bits, and the result is multiplied or divided by a power of ten. Messages show
the shortest decimal of what comes out.
-/

namespace DialectTypes

namespace Json

open Text

/-- The parts of the text of a number. -/
structure NumberText where
  negative : Bool
  whole : List Char
  fraction : List Char
  /-- The sign and the digits of the exponent, if there is one. -/
  exponent : Option (Bool × List Char)

def NumberText.isInteger (n : NumberText) : Bool :=
  n.fraction.isEmpty && n.exponent.isNone

/-- The digits before the point: a zero alone, or digits that do not start with one. -/
def scanWhole : Scan (List Char)
  | ['0'] => some (['0'], [])
  | '0' :: c :: rest => if c.isDigit then none else some (['0'], c :: rest)
  | text => takeSome Char.isDigit text

/-- The digits after the point, if there is a point. -/
def scanFraction : Scan (List Char)
  | '.' :: rest => takeSome Char.isDigit rest
  | text => some ([], text)

/-- The digits of an exponent, whose sign is passed already. -/
def scanExponentDigits (negative : Bool) : Scan (Option (Bool × List Char)) := fun text => do
  let (digits, rest) ← takeSome Char.isDigit text
  return (some (negative, digits), rest)

/-- The exponent, if there is one. -/
def scanExponent : Scan (Option (Bool × List Char))
  | [] => some (none, [])
  | c :: rest =>
    if c = 'e' ∨ c = 'E' then
      match rest with
      | '-' :: digits => scanExponentDigits true digits
      | '+' :: digits => scanExponentDigits false digits
      | digits => scanExponentDigits false digits
    else some (none, c :: rest)

/-- A number whose sign is passed already. -/
def scanUnsigned (negative : Bool) : Scan NumberText := fun text => do
  let (whole, rest) ← scanWhole text
  let (fraction, rest) ← scanFraction rest
  let (exponent, rest) ← scanExponent rest
  return (⟨negative, whole, fraction, exponent⟩, rest)

def scanNumber : Scan NumberText
  | '-' :: rest => scanUnsigned true rest
  | text => scanUnsigned false text

theorem length_scanWhole {text digits rest : List Char}
    (h : scanWhole text = some (digits, rest)) : rest.length < text.length := by
  unfold scanWhole at h
  split at h
  · cases h
    exact Nat.zero_lt_succ _
  · split at h
    · cases h
    · cases h
      exact Nat.lt_succ_self _
  · exact length_takeSome h

theorem length_scanFraction {text digits rest : List Char}
    (h : scanFraction text = some (digits, rest)) : rest.length ≤ text.length := by
  unfold scanFraction at h
  split at h
  · exact Nat.le_of_lt (Nat.lt_succ_of_lt (length_takeSome h))
  · cases h
    exact Nat.le_refl _

theorem length_scanExponentDigits {negative : Bool} {text rest : List Char}
    {exponent : Option (Bool × List Char)}
    (h : scanExponentDigits negative text = some (exponent, rest)) :
    rest.length < text.length := by
  simp only [scanExponentDigits, Option.bind_eq_bind, Option.bind_eq_some_iff, Option.pure_def,
    Option.some.injEq, Prod.mk.injEq, Prod.exists] at h
  obtain ⟨_, _, ht, _, rfl⟩ := h
  exact length_takeSome ht

theorem length_scanExponent {text rest : List Char} {exponent : Option (Bool × List Char)}
    (h : scanExponent text = some (exponent, rest)) : rest.length ≤ text.length := by
  unfold scanExponent at h
  split at h
  · cases h
    exact Nat.le_refl _
  · split at h
    · split at h
      all_goals
        have := length_scanExponentDigits h
        simp only [List.length_cons]
        omega
    · cases h
      exact Nat.le_refl _

theorem length_scanUnsigned {negative : Bool} {text rest : List Char} {n : NumberText}
    (h : scanUnsigned negative text = some (n, rest)) : rest.length < text.length := by
  simp only [scanUnsigned, Option.bind_eq_bind, Option.bind_eq_some_iff, Option.pure_def,
    Option.some.injEq, Prod.mk.injEq, Prod.exists] at h
  obtain ⟨_, _, hw, _, _, hf, _, _, he, _, rfl⟩ := h
  have := length_scanWhole hw
  have := length_scanFraction hf
  have := length_scanExponent he
  omega

/-- A number takes at least one character. -/
theorem length_scanNumber {text rest : List Char} {n : NumberText}
    (h : scanNumber text = some (n, rest)) : rest.length < text.length := by
  unfold scanNumber at h
  split at h
  · exact Nat.lt_succ_of_lt (length_scanUnsigned h)
  · exact length_scanUnsigned h

/-- The greatest natural number of 64 bits. -/
def maxUnsigned : Nat := Nat.pow 2 64 - 1

/-- The greatest exponent of ten that is taken from a text. -/
def maxExponent : Nat := Nat.pow 2 31 - 1

/-- A number and the digits appended to it, as long as it stays within a limit;
with the digits that are left. -/
def appendDigits (limit n : Nat) : List Char → Nat × List Char
  | [] => (n, [])
  | c :: cs =>
    let next := n * 10 + (c.toNat - '0'.toNat)
    if next ≤ limit then appendDigits limit next cs else (n, c :: cs)

/-- The rounded power of ten. -/
def powerOfTen (exponent : Nat) : Numeral.Binary64 :=
  (Numeral.Binary64.ofDecimal? 1 exponent).getD .zero

open Numeral in
/-- A number divided by a power of ten and rounded. -/
def lower? (x : Binary64) (exponent : Nat) : Option Binary64 :=
  Binary64.ofRatio? (x.toRatio.div (powerOfTen exponent).toRatio)

open Numeral in
/-- A number multiplied by a power of ten and rounded, or nothing if it is too large. -/
def raise? (x : Binary64) (exponent : Nat) : Option Binary64 :=
  Binary64.ofRatio? (x.toRatio.mul (powerOfTen exponent).toRatio)

/-- The greatest exponent of a power of ten that the format can hold. -/
def maxPower : Nat := 308

/-- A number times a power of ten. It is rounded after each multiplication or
division by a power that the format can hold. -/
def scale? (x : Numeral.Binary64) (exponent : Int) : Option Numeral.Binary64 :=
  if exponent.natAbs ≤ maxPower then
    if 0 ≤ exponent then raise? x exponent.natAbs else lower? x exponent.natAbs
  else if x.mantissa = 0 then some x
  else if 0 ≤ exponent then none
  else (lower? x maxPower).bind fun y => scale? y (exponent + maxPower)
termination_by (-exponent).toNat
decreasing_by
  have : 0 < maxPower := by decide
  omega

namespace NumberText

/-- How messages show numbers. -/
def layout : Numeral.Layout where
  positional point := -5 < point && point ≤ 16
  tieToEven := true

/-- The rounded absolute value, or nothing if it is too large. -/
def rounded? (n : NumberText) : Option Numeral.Binary64 :=
  let (whole, extra) := appendDigits maxUnsigned 0 n.whole
  let (significand, left) := appendDigits maxUnsigned whole n.fraction
  let shift : Int := extra.length - (n.fraction.length - left.length : Nat)
  let start := Numeral.Binary64.ofDecimal? significand 0
  match n.exponent with
  | none => start.bind fun x => scale? x shift
  | some (negative, digits) =>
    match appendDigits maxExponent 0 digits with
    | (exponent, []) =>
      start.bind fun x => scale? x (if negative then shift - exponent else shift + exponent)
    | (_, _ :: _) => if significand ≠ 0 ∧ negative = false then none else some .zero

/-- The number that a text denotes, or nothing if it is too large. -/
def number? (n : NumberText) : Option Number :=
  match n.isInteger, appendDigits maxUnsigned 0 n.whole with
  | true, (value, []) =>
    if n.negative = false then some (.integer value)
    else if 0 < value ∧ value ≤ Nat.pow 2 63 then some (.integer (-value))
    else n.rounded?.map fun x => .float (layout.text true x)
  | _, _ => n.rounded?.map fun x => .float (layout.text n.negative x)

end NumberText

end Json

end DialectTypes
