/-!
# Exact values of binary floating-point numbers

A finite double is `significand * 2 ^ exponent` with a sign. Everything that is printed from or
rounded out of a double goes through this exact value: rounding a quotient is one integer
division, and a tie goes to the even neighbour.
-/

namespace OctreeWorld.Decimal

/-- A signed significand and a power of two. `narrowBelow` marks a significand whose lower
neighbour is half as far away as its upper one. -/
structure Dyadic where
  negative : Bool
  significand : Nat
  exponent : Int
  narrowBelow : Bool
deriving DecidableEq

/-- The nearest integer to `num / den`; a tie goes to the even neighbour. -/
def roundToEven (num den : Nat) : Nat :=
  let q := num / den
  let r := num % den
  if 2 * r < den then q
  else if den < 2 * r then q + 1
  else if q % 2 = 0 then q else q + 1

namespace Dyadic

/-- How many fractions a double can store, which is also the least significand of full length. -/
def fractionCount : Nat := Nat.pow 2 52

/-- The exact value of a double, absent for infinities and not-a-number. -/
def ofFloat? (x : Float) : Option Dyadic :=
  let bits := x.toBits.toNat
  let negative := decide (9223372036854775808 ≤ bits)
  let biased := bits / fractionCount % 2048
  let fraction := bits % fractionCount
  if biased = 2047 then none
  else if biased = 0 then some ⟨negative, fraction, -1074, false⟩
  else
    some ⟨negative, fraction + fractionCount, (biased : Int) - 1075,
      fraction == 0 && decide (1 < biased)⟩

/-- The factor by which a positive exponent multiplies. -/
def numerator (d : Dyadic) : Nat := d.significand * Nat.pow 2 d.exponent.toNat

/-- The factor by which a negative exponent divides. -/
def denominator (d : Dyadic) : Nat := Nat.pow 2 (-d.exponent).toNat

/-- The nearest integer to the magnitude times `factor`, ties to even. -/
def scaled (d : Dyadic) (factor : Nat) : Nat := roundToEven (d.numerator * factor) d.denominator

end Dyadic

/-- The power of two at or below a positive quotient, as its exponent. -/
def log2Ratio (num den : Nat) : Int :=
  let guess : Int := (Nat.log2 num : Int) - Nat.log2 den
  if num * Nat.pow 2 (-guess).toNat < den * Nat.pow 2 guess.toNat then guess - 1 else guess

/-- The word of the double nearest to a quotient, ties to even; infinity beyond the range. The
significand has 53 binary digits, fewer only where the exponent has reached its least value, and
a significand that rounds up to 54 digits carries into the exponent. -/
def nearestWord (num den : Nat) : Nat :=
  if num = 0 then 0
  else
    let unit := max (log2Ratio num den - 52) (-1074)
    let significand := roundToEven (num * Nat.pow 2 (-unit).toNat) (den * Nat.pow 2 unit.toNat)
    let unbounded := (unit + 1074).toNat * Dyadic.fractionCount + significand
    min unbounded (2047 * Dyadic.fractionCount)

/-- The double nearest to a quotient. -/
def nearestFloat (num den : Nat) : Float := Float.ofBits (UInt64.ofNat (nearestWord num den))

/-- Pad with zeros on the left up to a width. -/
def padLeft (width : Nat) (s : String) : String :=
  "".pushn '0' (width - s.length) ++ s

/-- The magnitude with a fixed number of decimal places, a tie going to the even digit. -/
def Dyadic.fixed (d : Dyadic) (places : Nat) : String :=
  let n := d.scaled (Nat.pow 10 places)
  let whole := toString (n / Nat.pow 10 places)
  let sign := if d.negative then "-" else ""
  if places = 0 then sign ++ whole
  else sign ++ whole ++ "." ++ padLeft places (toString (n % Nat.pow 10 places))

end OctreeWorld.Decimal
