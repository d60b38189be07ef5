import OctreeWorld.Zstandard.Bits

/-!
# Tables of states

Symbols coded by states. A table has a power of two of cells, and each symbol holds a share of them.
The cell of a state names the symbol, how many bits to read and the base to which they are added for
the next state. A table is written as the shares of its symbols.
-/

namespace OctreeWorld.Zstandard

/-- A cell of a table of states. -/
structure StateCell where
  symbol : Nat
  bits : Nat
  base : Nat
deriving DecidableEq, Inhabited

/-- A table with the logarithm of its size. -/
structure StateTable where
  log : Nat
  cells : Array StateCell
deriving DecidableEq, Inhabited

/-- How many cells a symbol holds; a rare symbol holds one at the end of the table. -/
inductive Share where
  | rare
  | cells (count : Nat)
deriving DecidableEq, Inhabited

namespace Share

def count : Share → Nat
  | rare => 1
  | cells count => count

end Share

namespace StateTable

/-- The table with one state, which reads no bits. -/
def single (symbol : Nat) : StateTable := ⟨0, #[⟨symbol, 0, 0⟩]⟩

/-- The places of common symbols: all but the rare ones at the end, in leaps over the table. -/
def places (size rare : Nat) : List Nat :=
  let leap := size / 2 + size / 8 + 3
  ((List.range size).map fun k => k * leap % size).filter (· < size - rare)

/-- The symbol of each cell. -/
def symbols (log : Nat) (shares : List Share) : Array Nat :=
  let size := Nat.pow 2 log
  let numbered := shares.zipIdx
  let rare := (numbered.filter (·.1 == .rare)).map (·.2)
  let common := numbered.flatMap fun (share, symbol) =>
    if share == .rare then [] else List.replicate share.count symbol
  let blank := Array.replicate size 0
  let put (a : Array Nat) (cell : Nat × Nat) := a.setIfInBounds cell.1 cell.2
  let withRare := (rare.zipIdx.map fun (symbol, k) => (size - 1 - k, symbol)).foldl put blank
  ((places size rare.length).zip common).foldl put withRare

/-- Cells in the order of the table. The states of a symbol divide all states among them: the first
take a bit more than the others. `next` holds the number of the next state of each symbol. -/
def cellsFrom (log : Nat) : List Nat → Array Nat → List StateCell
  | [], _ => []
  | symbol :: rest, next =>
    let n := next[symbol]?.getD 1
    let bits := log - Nat.log2 n
    ⟨symbol, bits, n * Nat.pow 2 bits - Nat.pow 2 log⟩ ::
      cellsFrom log rest (next.setIfInBounds symbol (n + 1))

/-- The table of a size in which symbols hold the given shares. -/
def ofShares (log : Nat) (shares : List Share) : StateTable :=
  let next := (shares.map Share.count).toArray
  ⟨log, (cellsFrom log (symbols log shares).toList next).toArray⟩

/-! ### Reading a table -/

/-- How many more symbols without cells follow: two bits at a time, as long as they say three. -/
def readEmpty (bs : Array UInt8) : Nat → Nat → Nat × Nat
  | 0, start => (0, start)
  | fuel + 1, start =>
    let n := bitsAt bs start 2
    if n = 3 then
      let (more, start) := readEmpty bs fuel (start + 2)
      (3 + more, start)
    else (n, start + 2)

/-- The shares of the symbols from a place on, until no cells are left. A share is written in as few
bits as the cells that are left allow, one more than its count; zero is written for a rare symbol.
-/
def readShares? (bs : Array UInt8) : Nat → Nat → Nat → Option (List Share × Nat)
  | _, 0, start => some ([], start)
  | 0, _, _ => none
  | fuel + 1, left, start =>
    let bits := Nat.log2 (left + 1) + 1
    let half := Nat.pow 2 (bits - 1)
    let short := 2 * half - 2 - left
    let word := bitsAt bs start bits
    let (value, start) :=
      if word % half < short then (word % half, start + bits - 1)
      else if half ≤ word then (word - short, start + bits)
      else (word, start + bits)
    let share : Share := if value = 0 then .rare else .cells (value - 1)
    let (empty, start) := if value = 1 then readEmpty bs (8 * bs.size + 1) start else (0, start)
    (readShares? bs fuel (left - share.count) start).map fun (shares, stop) =>
      (share :: List.replicate empty (.cells 0) ++ shares, stop)

/-- A table at a byte, up to a size and a count of symbols, with the place of the byte behind it. -/
def read? (maxLog maxSymbols : Nat) (bs : Array UInt8) (start : Nat) :
    Option (StateTable × Nat) := do
  let log := bitsAt bs (8 * start) 4 + 5
  if maxLog < log then failure
  let (shares, stop) ← readShares? bs (maxSymbols + 1) (Nat.pow 2 log) (8 * start + 4)
  let stop := (stop + 7) / 8
  if maxSymbols < shares.length || bs.size < stop then failure
  return (ofShares log shares, stop)

/-! ### Walking through states -/

/-- The first state. -/
def first? (t : StateTable) (b : BackBits) : Option (Nat × BackBits) := b.read? t.log

def cell (t : StateTable) (state : Nat) : StateCell := t.cells[state]?.getD default

/-- The state after a state. -/
def next? (t : StateTable) (state : Nat) (b : BackBits) : Option (Nat × BackBits) :=
  let c := t.cell state
  (b.read? c.bits).map fun (n, b) => (c.base + n, b)

end StateTable

end OctreeWorld.Zstandard
