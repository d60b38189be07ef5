import OctreeWorld.Decimal.Dyadic

/-!
# Reading decimals

A decimal number is digits with a point among or beside them and a power of ten behind. Its double
is the nearest one; numbers beyond the range of doubles become zero or infinity without computing
their powers.
-/

namespace OctreeWorld.Decimal

/-- A number as it is written: digits before and after the point, and an exponent. -/
structure Literal where
  negative : Bool
  whole : List Char
  fraction : List Char
  exponent : Int
deriving DecidableEq

/-- The number that digits write. -/
def number (digits : List Char) : Nat := digits.foldl (fun n d => 10 * n + (d.toNat - 48)) 0

/-- Digits, and what stands behind them. -/
def digits (cs : List Char) : List Char × List Char :=
  (cs.takeWhile Char.isDigit, cs.dropWhile Char.isDigit)

/-- A sign, and what stands behind it. -/
def sign (cs : List Char) : Bool × List Char :=
  match cs with
  | '-' :: rest => (true, rest)
  | '+' :: rest => (false, rest)
  | _ => (false, cs)

/-- An exponent that ends the text, or nothing. -/
def exponent? (cs : List Char) : Option Int :=
  match cs with
  | [] => some 0
  | c :: rest =>
    if c = 'e' ∨ c = 'E' then
      let (minus, rest) := sign rest
      let (ds, rest) := digits rest
      if ds.isEmpty || !rest.isEmpty then none
      else some (if minus then -(number ds : Int) else number ds)
    else none

namespace Literal

/-- A sign, digits with at most one point and an exponent; all but some digit may be missing. -/
def read? (cs : List Char) : Option Literal := do
  let (negative, rest) := sign cs
  let (whole, rest) := digits rest
  let (fraction, rest) := match rest with
    | '.' :: rest => digits rest
    | _ => ([], rest)
  if whole.isEmpty && fraction.isEmpty then failure
  return { negative, whole, fraction, exponent := ← exponent? rest }

/-- The nearest double. -/
def toFloat (l : Literal) : Float :=
  let significand := number (l.whole ++ l.fraction)
  let exponent := l.exponent - l.fraction.length
  let leading : Int := exponent + (toString significand).length
  let magnitude : Float :=
    if significand = 0 || leading < -400 then 0
    else if 400 < leading then 1 / 0
    else nearestFloat (significand * Nat.pow 10 exponent.toNat) (Nat.pow 10 (-exponent).toNat)
  if l.negative then -magnitude else magnitude

end Literal

end OctreeWorld.Decimal
