import OctreeWorld.Tally
import OctreeWorld.Zstandard.StateTable

/-!
# Huffman codes

Bytes coded by bits, a code of few bits for a frequent byte. A code is written as the weights of its
bytes: a byte of weight `w` holds `2 ^ (w - 1)` of the words that are as long as the longest code.
The weight of the last byte is not written, for it fills up what is left.
-/

namespace OctreeWorld.Zstandard

/-- For each word of the length of the longest code, the byte at its front and the length of its
code. -/
structure HuffmanTable where
  log : Nat
  cells : Array (UInt8 × Nat)

namespace HuffmanTable

/-- The length of the longest code that is read. -/
def maxLog : Nat := 12

/-- How many words a weight holds. -/
def words (weight : Nat) : Nat := if weight = 0 then 0 else Nat.pow 2 (weight - 1)

/-- The weights with the one of the last byte, and the length of the longest code. The words that
are left for the last byte are a power of two, and the longest codes come in pairs. -/
def complete? (weights : List Nat) : Option (List Nat × Nat) := do
  let total := tally (weights.map words)
  if total = 0 || weights.any (maxLog < ·) then failure
  let log := Nat.log2 total + 1
  let left := Nat.pow 2 log - total
  if maxLog < log || left ≠ Nat.pow 2 (Nat.log2 left) then failure
  let weights := weights ++ [Nat.log2 left + 1]
  let longest := weights.count 1
  if longest < 2 || longest % 2 = 1 || 256 < weights.length then failure
  return (weights, log)

/-- The table of weights: by weight, and then by byte. -/
def ofWeights? (weights : List Nat) : Option HuffmanTable :=
  (complete? weights).map fun (weights, log) =>
    let numbered := weights.zipIdx
    let cells := (List.range' 1 log).flatMap fun weight =>
      (numbered.filter (·.1 == weight)).flatMap fun (_, byte) =>
        List.replicate (words weight) (UInt8.ofNat byte, log + 1 - weight)
    ⟨log, cells.toArray⟩

/-! ### Reading a table -/

/-- Weights in turns of two states, up to the state that finds too few bits. The other state then
names the last weight. -/
def readWeights? (t : StateTable) : Nat → Nat → Nat → BackBits → Option (List Nat)
  | 0, _, _, _ => none
  | fuel + 1, state, other, b =>
    let weight := (t.cell state).symbol
    match t.next? state b with
    | none => some [weight, (t.cell other).symbol]
    | some (state, b) => (readWeights? t fuel other state b).map (weight :: ·)

/-- Weights of four bits each. -/
def plainWeights (bs : Array UInt8) (start count : Nat) : List Nat :=
  (List.range count).map fun i =>
    let byte := byteAt bs (start + i / 2)
    if i % 2 = 0 then byte / 16 else byte % 16

/-- A table at a byte, with the place of the byte behind it. -/
def read? (bs : Array UInt8) (start : Nat) : Option (HuffmanTable × Nat) := do
  let head := (← bs[start]?).toNat
  let start := start + 1
  if 128 ≤ head then
    let count := head - 127
    let stop := start + (count + 1) / 2
    if bs.size < stop then failure
    return (← ofWeights? (plainWeights bs start count), stop)
  else
    let stop := start + head
    if bs.size < stop then failure
    let (states, coded) ← StateTable.read? 6 256 (bs.extract 0 stop) start
    let b ← BackBits.ofBytes? (bs.extract coded stop)
    let (state, b) ← states.first? b
    let (other, b) ← states.first? b
    return (← ofWeights? (← readWeights? states 255 state other b), stop)

/-! ### Decoding -/

/-- A count of bytes, behind those already decoded. No bits may be left. -/
def decodeFrom? (t : HuffmanTable) : Nat → BackBits → Array UInt8 → Option (Array UInt8)
  | 0, b, done => if b.left = 0 then some done else none
  | count + 1, b, done => do
    let (byte, bits) ← t.cells[b.peek t.log]?
    decodeFrom? t count (← b.skip? bits) (done.push byte)

/-- The bytes of one stream of bits, behind those already decoded. -/
def decode? (t : HuffmanTable) (count : Nat) (bs done : Array UInt8) : Option (Array UInt8) := do
  decodeFrom? t count (← BackBits.ofBytes? bs) done

end HuffmanTable

end OctreeWorld.Zstandard
