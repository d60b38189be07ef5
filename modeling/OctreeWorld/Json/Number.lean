import OctreeWorld.Decimal.Shortest
import OctreeWorld.Json.Reader

/-!
# The worth of a JSON number

A literal without fraction and exponent is an integer as long as it fits 64 bits, unsigned or, with
a minus sign, signed; minus zero is a double. Every other literal is a double. The digits of a
double are gathered into a 64-bit significand, further digits only move the decimal exponent, and
the significand is then scaled by one power of ten at a time; so the last place may differ from
the nearest double. A literal too great for a double has no worth.

Written doubles have the fewest digits that read back.
-/

namespace OctreeWorld.Json

/-- The worth of a number. -/
inductive Numeric where
  | natural (n : UInt64)
  /-- A negative integer, by its magnitude. -/
  | negative (magnitude : Nat)
  | float (x : Float)

namespace Numeric

/-- Gather digits into a significand as long as it fits 64 bits. Answers the significand, how many
digits it took, and the digits left over. -/
def gather : List Char → Nat → Nat → Nat × Nat × List Char
  | [], significand, taken => (significand, taken, [])
  | c :: cs, significand, taken =>
    let next := 10 * significand + (c.toNat - 48)
    if next < UInt64.size then gather cs next (taken + 1) else (significand, taken, c :: cs)

/-- The double nearest to a power of ten. -/
def powerOfTen (n : Nat) : Float := Decimal.nearestFloat (Nat.pow 10 n) 1

/-- Scale by a power of ten, at most 308 places at a time. Absent when the result leaves the range
of doubles upwards. -/
def scale? : Nat → Float → Int → Option Float
  | 0, x, _ => some x
  | fuel + 1, x, exponent =>
    if exponent.natAbs ≤ 308 then
      let power := powerOfTen exponent.natAbs
      if 0 ≤ exponent then
        let y := x * power
        if y.isInf then none else some y
      else some (x / power)
    else if x == 0 then some x
    else if 0 ≤ exponent then none
    else scale? fuel (x / powerOfTen 308) (exponent + 308)

/-- A significand times a power of ten, with a sign. -/
def compose? (negative : Bool) (significand : Nat) (exponent : Int) : Option Float :=
  let x := (UInt64.ofNat significand).toFloat
  (scale? (exponent.natAbs / 308 + 2) x exponent).map fun y => if negative then -y else y

/-- The greatest exponent that is taken at its word. -/
def greatestExponent : Nat := 2147483647

/-- Apply a written exponent to a significand that already has one. An exponent that no 32-bit word
holds makes the number zero, or too great. -/
def withExponent? (negative : Bool) (significand : Nat) (exponent : Int) (minus : Bool)
    (ds : List Char) : Option Float :=
  let written := ds.foldl (fun n c => 10 * n + (c.toNat - 48)) 0
  if greatestExponent < written then
    if significand ≠ 0 ∧ !minus then none
    else some (if negative then -0.0 else 0.0)
  else
    let total := if minus then exponent - written else exponent + written
    compose? negative significand (max (-2147483648) (min total 2147483647))

/-- A literal taken apart: sign, whole digits, fraction digits, and sign and digits of the
exponent. -/
structure Parts where
  negative : Bool
  whole : List Char
  fraction : Option (List Char)
  exponent : Option (Bool × List Char)

def parts (literal : String) : Parts :=
  let cs := literal.toList
  let negative := cs.head? == some '-'
  let cs := if negative then cs.drop 1 else cs
  let (whole, cs) := takeDigits cs
  let (fraction, cs) := match cs with
    | '.' :: rest =>
      let (ds, rest) := takeDigits rest
      (some ds, rest)
    | _ => (none, cs)
  let exponent := match cs with
    | _ :: '-' :: ds => some (true, ds)
    | _ :: '+' :: ds => some (false, ds)
    | _ :: ds => some (false, ds)
    | [] => none
  { negative, whole, fraction, exponent }

/-- The worth of a literal taken apart. -/
def ofParts? (p : Parts) : Option Numeric :=
  let (significand, _, rest) := gather p.whole 0 0
  if rest.isEmpty && p.fraction.isNone && p.exponent.isNone then
    if !p.negative then some (.natural (UInt64.ofNat significand))
    else if 0 < significand ∧ significand ≤ 9223372036854775808 then some (.negative significand)
    else some (.float (-(UInt64.ofNat significand).toFloat))
  else
    let (significand, taken, _) := gather (p.fraction.getD []) significand 0
    let exponent : Int := rest.length - taken
    let x := match p.exponent with
      | none => compose? p.negative significand exponent
      | some (minus, ds) => withExponent? p.negative significand exponent minus ds
    x.map .float

/-- The worth of a literal. -/
def ofLiteral? (literal : String) : Option Numeric := ofParts? (parts literal)

end Numeric

/-- The worth of a value that is a number. -/
def numeric? : Json → Option Numeric
  | number literal => Numeric.ofLiteral? literal
  | _ => none

/-- An integer from zero up to a bound. -/
def natural? (bound : Nat) (v : Json) : Option Nat :=
  match v.numeric? with
  | some (.natural n) => if n.toNat ≤ bound then some n.toNat else none
  | _ => none

/-- An integer between two bounds. -/
def integer? (lower upper : Int) (v : Json) : Option Int :=
  let bounded (n : Int) := if lower ≤ n ∧ n ≤ upper then some n else none
  match v.numeric? with
  | some (.natural n) => bounded n.toNat
  | some (.negative m) => bounded (-(m : Int))
  | _ => none

/-- A double. Integers count as doubles. -/
def float? (v : Json) : Option Float :=
  match v.numeric? with
  | some (.natural n) => some n.toFloat
  | some (.negative m) => some (-(UInt64.ofNat m).toFloat)
  | some (.float x) => some x
  | none => none

/-- How JSON writes a double: an exponent always carries its sign. -/
def floats : Decimal.Notation :=
  { least := -5, greatest := 15, plus := true, infinity := "null", notANumber := "null" }

/-- A double, or `null` when it is not finite. -/
def ofFloat (x : Float) : Json :=
  if x.isFinite then number (Decimal.floatText floats x) else null

end OctreeWorld.Json
