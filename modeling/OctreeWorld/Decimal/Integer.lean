/-!
# Integers in decimal digits

An integer is written as digits behind an optional sign, and nothing else.
-/

namespace OctreeWorld.Decimal

/-- The number that decimal digits write, if there is any digit. -/
def digits? (cs : List Char) : Option Nat :=
  if cs.isEmpty || !cs.all Char.isDigit then none
  else some (cs.foldl (fun n d => 10 * n + (d.toNat - 48)) 0)

/-- A natural number up to a bound. A plus sign may stand in front. -/
def natural? (bound : Nat) (word : String) : Option Nat :=
  let digits := match word.toList with
    | '+' :: rest => rest
    | cs => cs
  (digits? digits).filter (· ≤ bound)

/-- An integer between two bounds. A sign may stand in front. -/
def integer? (lower upper : Int) (word : String) : Option Int :=
  let value := match word.toList with
    | '+' :: rest => (digits? rest).map Int.ofNat
    | '-' :: rest => (digits? rest).map fun n => -(n : Int)
    | cs => (digits? cs).map Int.ofNat
  value.filter fun n => decide (lower ≤ n) && decide (n ≤ upper)

end OctreeWorld.Decimal
