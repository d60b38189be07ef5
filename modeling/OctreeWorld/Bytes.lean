/-!
# Byte strings

Readings from the front of a byte string. A reading answers with what it found and the bytes behind
it, or with nothing when there are too few.
-/

namespace OctreeWorld

/-- A string of bytes. -/
abbrev Bytes := List UInt8

namespace Bytes

/-- The number that bytes write, least significant first. -/
def littleEndian (bs : Bytes) : Nat := bs.foldr (fun b n => b.toNat + 256 * n) 0

/-- The number that bytes write, most significant first. -/
def bigEndian (bs : Bytes) : Nat := bs.foldl (fun n b => 256 * n + b.toNat) 0

/-- A number in a count of bytes, least significant first. -/
def ofLittleEndian : Nat → Nat → Bytes
  | 0, _ => []
  | count + 1, n => UInt8.ofNat (n % 256) :: ofLittleEndian count (n / 256)

/-- A number in a count of bytes, most significant first. -/
def ofBigEndian : Nat → Nat → Bytes
  | 0, _ => []
  | count + 1, n => ofBigEndian count (n / 256) ++ [UInt8.ofNat (n % 256)]

/-- A count of bytes from the front. -/
def take? (count : Nat) (bs : Bytes) : Option (Bytes × Bytes) :=
  let front := bs.take count
  if front.length = count then some (front, bs.drop count) else none

/-- A number of a count of bytes, least significant first. -/
def littleEndian? (count : Nat) (bs : Bytes) : Option (Nat × Bytes) :=
  (take? count bs).map fun (front, rest) => (littleEndian front, rest)

/-- A number of a count of bytes, most significant first. -/
def bigEndian? (count : Nat) (bs : Bytes) : Option (Nat × Bytes) :=
  (take? count bs).map fun (front, rest) => (bigEndian front, rest)

/-- The characters that bytes write, if they are characters. -/
def characters? (bs : Bytes) : Option String := String.fromUTF8? (ByteArray.mk bs.toArray)

theorem length_ofLittleEndian (count n : Nat) : (ofLittleEndian count n).length = count := by
  induction count generalizing n with
  | zero => rfl
  | succ count ih => simp [ofLittleEndian, ih]

theorem littleEndian_ofLittleEndian (count n : Nat) :
    littleEndian (ofLittleEndian count n) = n % Nat.pow 256 count := by
  induction count generalizing n with
  | zero => simp [ofLittleEndian, littleEndian, Nat.mod_one]
  | succ count ih =>
    have h := ih (n / 256)
    simp only [littleEndian] at h
    simp only [ofLittleEndian, littleEndian, List.foldr_cons, h, UInt8.toNat_ofNat']
    have split : n % Nat.pow 256 (count + 1) = n % 256 + 256 * (n / 256 % Nat.pow 256 count) := by
      rw [show Nat.pow 256 (count + 1) = 256 * Nat.pow 256 count from Nat.mul_comm _ _, Nat.mod_mul]
    rw [split]
    omega

theorem take?_append (front rest : Bytes) :
    take? front.length (front ++ rest) = some (front, rest) := by
  simp [take?]

/-- A number is read back from the bytes that write it, if it fits them. -/
theorem littleEndian?_ofLittleEndian {count n : Nat} (fits : n < Nat.pow 256 count) (rest : Bytes) :
    littleEndian? count (ofLittleEndian count n ++ rest) = some (n, rest) := by
  have front := take?_append (ofLittleEndian count n) rest
  rw [length_ofLittleEndian] at front
  simp only [littleEndian?, front, Option.map_some, littleEndian_ofLittleEndian,
    Nat.mod_eq_of_lt fits]

end Bytes

end OctreeWorld
