/-!
# Hexadecimal digits

Digits are written in lower case and read in either.
-/

namespace OctreeWorld.Hex

/-- The digit of a value below sixteen. -/
def digit (n : Nat) : Char := if n < 10 then Char.ofNat (48 + n) else Char.ofNat (87 + n)

/-- The value of a digit. -/
def value? (c : Char) : Option Nat :=
  if '0' ≤ c ∧ c ≤ '9' then some (c.toNat - 48)
  else if 'a' ≤ c ∧ c ≤ 'f' then some (c.toNat - 87)
  else if 'A' ≤ c ∧ c ≤ 'F' then some (c.toNat - 55)
  else none

/-- `width` digits of a number, most significant first. -/
def digits : Nat → Nat → List Char
  | 0, _ => []
  | width + 1, n => digits width (n / 16) ++ [digit (n % 16)]

/-- The number that a list of digits writes. -/
def number? (cs : List Char) : Option Nat :=
  cs.foldlM (fun n c => (value? c).map (16 * n + ·)) 0

/-- Two digits per byte. -/
def ofBytes (bs : List UInt8) : String := String.ofList (bs.flatMap fun b => digits 2 b.toNat)

/-- The bytes that pairs of digits write. -/
def bytes? : List Char → Option (List UInt8)
  | [] => some []
  | [_] => none
  | a :: b :: rest => do
    let high ← value? a
    let low ← value? b
    let more ← bytes? rest
    return UInt8.ofNat (16 * high + low) :: more

theorem value_digit : ∀ n : Fin 16, value? (digit n.val) = some n.val := by decide

end OctreeWorld.Hex
