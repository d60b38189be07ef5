import OctreeWorld.Zstandard.Literals

/-!
# Sequences of a block

A block interleaves its literals with copies of what the frame holds so far. A sequence says how
many literals come first, how far back the copy starts and how long it is. The three numbers are
codes of ranges, each code with a table of states, and extra bits that choose from the range.
-/

namespace OctreeWorld.Zstandard

/-- A kind of codes: the ranges that they stand for, each by its least number and the logarithm of
its length, and the table that needs no description. -/
structure CodeKind where
  ranges : Array (Nat × Nat)
  /-- The logarithm of the greatest size of a table. -/
  maxLog : Nat
  standard : StateTable

namespace CodeKind

/-- Ranges of given lengths, one behind the other. -/
def rangesFrom (least : Nat) : List Nat → List (Nat × Nat)
  | [] => []
  | bits :: rest => (least, bits) :: rangesFrom (least + Nat.pow 2 bits) rest

/-- A share for each symbol in a list of runs of equal shares, and some rare symbols behind. -/
def shares (runs : List (Nat × Nat)) (rare : Nat) : List Share :=
  (runs.flatMap fun (length, count) => List.replicate length (.cells count)) ++
    List.replicate rare .rare

/-- Codes of counts of literals. -/
def literalLength : CodeKind where
  ranges := (rangesFrom 0 (List.replicate 16 0 ++ [1, 1, 1, 1, 2, 2, 3, 3, 4] ++
    List.range' 6 11)).toArray
  maxLog := 9
  standard := .ofShares 6 <| shares
    [(1, 4), (1, 3), (11, 2), (3, 1), (9, 2), (1, 3), (1, 2), (5, 1)] 4

/-- Codes of lengths of copies. -/
def matchLength : CodeKind where
  ranges := (rangesFrom 3 (List.replicate 32 0 ++ [1, 1, 1, 1, 2, 2, 3, 3, 4, 4, 5] ++
    List.range' 7 10)).toArray
  maxLog := 9
  standard := .ofShares 6 <| shares [(1, 1), (1, 4), (1, 3), (6, 2), (37, 1)] 7

/-- Codes of distances. -/
def distance : CodeKind where
  ranges := (rangesFrom 1 (List.range 32)).toArray
  maxLog := 8
  standard := .ofShares 5 <| shares [(6, 1), (3, 2), (15, 1)] 5

/-- The table that two bits of a block choose: the standard one, one of a single code, one that is
written at a place, or the latest one. Answers also the place of the byte behind it. -/
def table? (k : CodeKind) (choice : Nat) (latest : Option StateTable) (bs : Array UInt8)
    (start : Nat) : Option (StateTable × Nat) :=
  match choice with
  | 0 => some (k.standard, start)
  | 1 => do
    let code := (← bs[start]?).toNat
    if k.ranges.size ≤ code then failure
    return (.single code, start + 1)
  | 2 => StateTable.read? k.maxLog k.ranges.size bs start
  | _ => latest.map fun t => (t, start)

/-- A number in the range of a code. -/
def number? (k : CodeKind) (code : Nat) (b : BackBits) : Option (Nat × BackBits) := do
  let (least, bits) ← k.ranges[code]?
  let (extra, b) ← b.read? bits
  return (least + extra, b)

end CodeKind

/-- Three latest distances, the newest first. -/
structure RecentDistances where
  first : Nat := 1
  second : Nat := 4
  third : Nat := 8
deriving DecidableEq

namespace RecentDistances

def push (r : RecentDistances) (d : Nat) : RecentDistances := ⟨d, r.first, r.second⟩

/-- The distance that a number stands for: up to three it names a recent one, counted from the
second if no literals come first, with one less than the newest at the end. -/
def resolve (r : RecentDistances) (n literals : Nat) : Nat × RecentDistances :=
  if 3 < n then (n - 3, r.push (n - 3))
  else
    match if literals = 0 then n + 1 else n with
    | 1 => (r.first, r)
    | 2 => (r.second, ⟨r.second, r.first, r.third⟩)
    | 3 => (r.third, r.push r.third)
    | _ => (r.first - 1, r.push (r.first - 1))

end RecentDistances

/-- Append a copy of what stands a distance back; it may run into itself. -/
def copyFrom (distance : Nat) : Nat → Array UInt8 → Array UInt8
  | 0, content => content
  | length + 1, content =>
    copyFrom distance length (content.push (content[content.size - distance]?.getD 0))

/-- The three tables of a block. -/
structure SequenceTables where
  literalLengths : StateTable
  distances : StateTable
  matchLengths : StateTable

/-- A state of each of the three tables. -/
structure SequenceStates where
  literalLength : Nat
  distance : Nat
  matchLength : Nat

namespace SequenceTables

def first? (t : SequenceTables) (b : BackBits) : Option (SequenceStates × BackBits) := do
  let (literalLength, b) ← t.literalLengths.first? b
  let (distance, b) ← t.distances.first? b
  let (matchLength, b) ← t.matchLengths.first? b
  return ({ literalLength, distance, matchLength }, b)

def next? (t : SequenceTables) (s : SequenceStates) (b : BackBits) :
    Option (SequenceStates × BackBits) := do
  let (literalLength, b) ← t.literalLengths.next? s.literalLength b
  let (matchLength, b) ← t.matchLengths.next? s.matchLength b
  let (distance, b) ← t.distances.next? s.distance b
  return ({ literalLength, distance, matchLength }, b)

/-- A count of sequences with the literals from a place on, and then the rest of the literals,
behind the content so far. No bits may be left. -/
def run? (t : SequenceTables) (lits : Array UInt8) :
    Nat → Nat → SequenceStates → BackBits → RecentDistances → Array UInt8 →
      Option (RecentDistances × Array UInt8)
  | 0, start, _, b, recent, content =>
    if b.left = 0 then some (recent, content ++ lits.extract start lits.size) else none
  | count + 1, start, s, b, recent, content => do
    let (number, b) ← CodeKind.distance.number? (t.distances.cell s.distance).symbol b
    let (length, b) ← CodeKind.matchLength.number? (t.matchLengths.cell s.matchLength).symbol b
    let (first, b) ← CodeKind.literalLength.number? (t.literalLengths.cell s.literalLength).symbol b
    let (distance, recent) := recent.resolve number first
    if lits.size < start + first then failure
    let content := content ++ lits.extract start (start + first)
    if distance = 0 || content.size < distance then failure
    let content := copyFrom distance length content
    let (s, b) ← if count = 0 then pure (s, b) else t.next? s b
    run? t lits count (start + first) s b recent content

end SequenceTables

/-- What a frame holds so far and what its blocks hand on. -/
structure FrameState where
  content : Array UInt8 := #[]
  literals : Option HuffmanTable := none
  tables : Option SequenceTables := none
  recent : RecentDistances := {}

/-- A count at a byte, in one to three bytes, with the place of the byte behind it. -/
def readCount? (bs : Array UInt8) (start : Nat) : Option (Nat × Nat) := do
  let head := (← bs[start]?).toNat
  let (count, stop) :=
    if head < 128 then (head, start + 1)
    else if head < 255 then (256 * (head - 128) + byteAt bs (start + 1), start + 2)
    else (bitsAt bs (8 * (start + 1)) 16 + 0x7f00, start + 3)
  if bs.size < stop then none else some (count, stop)

/-- The tables at a byte, chosen by the byte, with the place of the byte behind them. -/
def readTables? (latest : Option SequenceTables) (bs : Array UInt8) (start : Nat) :
    Option (SequenceTables × Nat) := do
  let choices := (← bs[start]?).toNat
  if choices % 4 ≠ 0 then failure
  let (literalLengths, start) ←
    CodeKind.literalLength.table? (choices / 64) (latest.map (·.literalLengths)) bs (start + 1)
  let (distances, start) ←
    CodeKind.distance.table? (choices / 16 % 4) (latest.map (·.distances)) bs start
  let (matchLengths, start) ←
    CodeKind.matchLength.table? (choices / 4 % 4) (latest.map (·.matchLengths)) bs start
  return ({ literalLengths, distances, matchLengths }, start)

/-- The content of a coded block behind its head. -/
def FrameState.readBlock? (s : FrameState) (bs : Array UInt8) : Option FrameState := do
  let (lits, literals, start) ← readLiterals? s.literals bs
  let (count, start) ← readCount? bs start
  if count = 0 then
    if start ≠ bs.size then failure
    return { s with literals, content := s.content ++ lits }
  let (tables, start) ← readTables? s.tables bs start
  let (states, b) ← tables.first? (← BackBits.ofBytes? (bs.extract start bs.size))
  let (recent, content) ← tables.run? lits count 0 states b s.recent s.content
  return { content, literals, tables := some tables, recent }

end OctreeWorld.Zstandard
