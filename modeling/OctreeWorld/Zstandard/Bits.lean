import OctreeWorld.Bytes

/-!
# Bits of a byte string

The lowest bit of a byte is its first. Headers of tables are read from the front; coded symbols are
read from the back, where the highest set bit of the last byte marks the end.
-/

namespace OctreeWorld.Zstandard

/-- The byte at a place, zero behind the end. -/
def byteAt (bs : Array UInt8) (i : Nat) : Nat := (bs[i]?.getD 0).toNat

/-- The number that a count of bits from a place on writes, lowest bit first. Bits behind the end
are zero. -/
def bitsAt (bs : Array UInt8) (start count : Nat) : Nat :=
  let bytes := List.range' (start / 8) ((start % 8 + count + 7) / 8)
  bytes.foldr (fun i n => byteAt bs i + 256 * n) 0 / Nat.pow 2 (start % 8) % Nat.pow 2 count

/-- Bits that are read from the back. -/
structure BackBits where
  bytes : Array UInt8
  /-- How many bits are left, all of them at the front. -/
  left : Nat

namespace BackBits

/-- The bits in front of the end mark. -/
def ofBytes? (bs : Array UInt8) : Option BackBits := do
  let last ← bs.back?
  if last = 0 then failure
  return { bytes := bs, left := 8 * (bs.size - 1) + Nat.log2 last.toNat }

/-- The next bits as a number, the last bit lowest. Bits in front of the first are zero. -/
def peek (b : BackBits) (count : Nat) : Nat :=
  if count ≤ b.left then bitsAt b.bytes (b.left - count) count
  else bitsAt b.bytes 0 b.left * Nat.pow 2 (count - b.left)

/-- Pass over bits that are left. -/
def skip? (b : BackBits) (count : Nat) : Option BackBits :=
  if count ≤ b.left then some { b with left := b.left - count } else none

/-- Read bits that are left. -/
def read? (b : BackBits) (count : Nat) : Option (Nat × BackBits) :=
  (b.skip? count).map fun rest => (b.peek count, rest)

end BackBits

end OctreeWorld.Zstandard
