import OctreeWorld.Decimal.Dyadic

/-!
# Shortest decimal text of a double

The digits are the fewest that read back as the same double and, among those, the nearest to its
exact value. Decimal grids are tried from coarse to fine; on each grid only the two neighbours of
the value can be the nearest point, so the first grid with a neighbour inside the interval of
numbers that round to the double gives the digits.

`Notation` says how digits and exponent are laid out; the layouts of the configuration text, of
JSON and of the diagnostic listings differ in two places only.
-/

namespace OctreeWorld.Decimal

/-- A positive decimal number `digits * 10 ^ exponent`. -/
structure Scientific where
  digits : Nat
  exponent : Int
deriving DecidableEq

/-- Whether `candidate * 10 ^ k` rounds to the double of magnitude `d`. The interval is closed
exactly when the significand is even. All sides are multiplied out to integers, in quarters of a
unit in the last place. -/
def readsBack (d : Dyadic) (k : Int) (candidate : Nat) : Bool :=
  let point := 4 * candidate * Nat.pow 10 k.toNat * d.denominator
  let unit := Nat.pow 2 d.exponent.toNat * Nat.pow 10 (-k).toNat
  let upper := (4 * d.significand + 2) * unit
  let lower := (4 * d.significand - if d.narrowBelow then 1 else 2) * unit
  if d.significand % 2 = 0 then decide (lower ≤ point) && decide (point ≤ upper)
  else decide (lower < point) && decide (point < upper)

/-- The nearest point of the grid `10 ^ k`, or its other neighbour, if one reads back. -/
def onGrid? (d : Dyadic) (k : Int) : Option Nat :=
  let num := d.numerator * Nat.pow 10 (-k).toNat
  let den := d.denominator * Nat.pow 10 k.toNat
  let nearest := roundToEven num den
  let other := if nearest * den ≤ num then nearest + 1 else nearest - 1
  if readsBack d k nearest then some nearest
  else if readsBack d k other then some other
  else none

/-- Search finer and finer grids, starting at `k`. -/
def search (d : Dyadic) : Nat → Int → Scientific
  | 0, k =>
    let num := d.numerator * Nat.pow 10 (-k).toNat
    ⟨roundToEven num (d.denominator * Nat.pow 10 k.toNat), k⟩
  | fuel + 1, k =>
    match onGrid? d k with
    | some digits => ⟨digits, k⟩
    | none => search d fuel (k - 1)

/-- The shortest decimal of a positive magnitude. A double needs at most 17 digits, and the first
grid lies at most three places above its leading digit. -/
def shortest (d : Dyadic) : Scientific :=
  let binary : Int := (Nat.log2 d.significand : Int) + d.exponent
  search d 24 (binary * 30103 / 100000 + 2)

/-- Where positional notation ends, and how an exponent is signed. -/
structure Notation where
  /-- Least exponent of the leading digit that is written positionally. -/
  least : Int
  /-- Greatest exponent of the leading digit that is written positionally. -/
  greatest : Int
  /-- Whether a non-negative exponent carries a plus sign. -/
  plus : Bool
  infinity : String
  notANumber : String

/-- Lay out digits: positional text keeps at least one decimal place, scientific text puts the
point behind the first digit when there are more. -/
def Scientific.layout (s : Scientific) (style : Notation) : String :=
  let text := toString s.digits
  let count := text.length
  let leading : Int := s.exponent + count - 1
  if style.least ≤ leading && leading ≤ style.greatest then
    if 0 ≤ s.exponent then text.pushn '0' s.exponent.toNat ++ ".0"
    else if 0 ≤ leading then
      (text.take (leading.toNat + 1)).toString ++ "." ++ (text.drop (leading.toNat + 1)).toString
    else "0." ++ "".pushn '0' ((-leading).toNat - 1) ++ text
  else
    let mantissa :=
      if count = 1 then text else (text.take 1).toString ++ "." ++ (text.drop 1).toString
    let sign := if leading < 0 then "-" else if style.plus then "+" else ""
    mantissa ++ "e" ++ sign ++ toString leading.natAbs

/-- The shortest text of a double in a notation. -/
def floatText (style : Notation) (x : Float) : String :=
  match Dyadic.ofFloat? x with
  | none =>
    if x.isNaN then style.notANumber
    else if x < 0 then "-" ++ style.infinity
    else style.infinity
  | some d =>
    let sign := if d.negative then "-" else ""
    if d.significand = 0 then sign ++ "0.0" else sign ++ (shortest d).layout style

end OctreeWorld.Decimal
