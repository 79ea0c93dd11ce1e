/-!
# Rounding to 53 bits

A nonnegative finite number of the 64-bit binary format is a mantissa of at most
53 bits times a power of two that is at least `2 ^ -1074`. A quotient of natural
numbers is rounded to the nearest such number, a tie to the even mantissa, in
exact arithmetic.
-/

namespace DialectTypes

namespace Numeral

/-- The number `mantissa * 2 ^ exponent`. -/
structure Binary64 where
  mantissa : Nat
  exponent : Int
deriving DecidableEq

/-- A quotient of natural numbers. -/
structure Ratio where
  num : Nat
  den : Nat

namespace Ratio

/-- The quotient times a power of a base. -/
def scale (r : Ratio) (base : Nat) (exponent : Int) : Ratio :=
  if 0 ≤ exponent then ⟨r.num * base.pow exponent.toNat, r.den⟩
  else ⟨r.num, r.den * base.pow (-exponent).toNat⟩

def mul (r s : Ratio) : Ratio := ⟨r.num * s.num, r.den * s.den⟩

def div (r s : Ratio) : Ratio := ⟨r.num * s.den, r.den * s.num⟩

/-- The nearest natural number, and of two the even one. -/
def round (r : Ratio) : Nat :=
  let q := r.num / r.den
  let twice := 2 * (r.num % r.den)
  if twice < r.den then q
  else if r.den < twice then q + 1
  else if q % 2 = 0 then q else q + 1

end Ratio

namespace Binary64

def zero : Binary64 := ⟨0, 0⟩

def toRatio (x : Binary64) : Ratio :=
  Ratio.scale ⟨x.mantissa, 1⟩ 2 x.exponent

/-- The exponent with which a quotient other than zero is rounded to 53 bits. -/
def exponentFor (r : Ratio) : Int :=
  let guess : Int := (Nat.log2 r.num : Int) - Nat.log2 r.den - 52
  let scaled := r.scale 2 (-guess)
  max (if scaled.num < Nat.pow 2 52 * scaled.den then guess - 1 else guess) (-1074)

/-- The nearest number of the format, or nothing if that is beyond its range. -/
def ofRatio? (r : Ratio) : Option Binary64 :=
  if r.num = 0 then some zero
  else
    let exponent := exponentFor r
    let mantissa := (r.scale 2 (-exponent)).round
    let x : Binary64 :=
      if mantissa < Nat.pow 2 53 then ⟨mantissa, exponent⟩ else ⟨Nat.pow 2 52, exponent + 1⟩
    if x.exponent ≤ 971 then some x else none

/-- The number nearest to `significand * 10 ^ exponent`, or nothing if that is
beyond the range. Exponents that are out of the range by far are not computed. -/
def ofDecimal? (significand : Nat) (exponent : Int) : Option Binary64 :=
  let digits := (Nat.toDigits 10 significand).length
  if significand = 0 then some zero
  else if 310 < digits + exponent then none
  else if digits + exponent < -330 then some zero
  else ofRatio? (Ratio.scale ⟨significand, 1⟩ 10 exponent)

end Binary64

end Numeral

end DialectTypes
