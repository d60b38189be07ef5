import OctreeWorld.Zstandard.Huffman

/-!
# Literals of a block

The bytes of a block that are no copies of earlier ones. They stand as they are, as one byte
repeated, or coded in one stream of bits or in four.
-/

namespace OctreeWorld.Zstandard

/-- The kinds of literals. -/
inductive LiteralsKind where
  | plain
  | repeated
  | coded
  /-- Coded by the latest table. -/
  | codedAgain
deriving DecidableEq, Inhabited

/-- What stands in front of the literals of a block. -/
structure LiteralsHeader where
  kind : LiteralsKind
  /-- How many literals there are. -/
  count : Nat
  /-- How many bytes they take, the table included. -/
  width : Nat
  fourStreams : Bool
  /-- The place of the byte behind the header. -/
  stop : Nat

/-- The header at the front of a block. -/
def LiteralsHeader.read (bs : Array UInt8) : LiteralsHeader :=
  let form := bitsAt bs 2 2
  let sized (kind : LiteralsKind) : LiteralsHeader :=
    let (count, stop) :=
      if form = 1 then (bitsAt bs 4 12, 2)
      else if form = 3 then (bitsAt bs 4 20, 3)
      else (bitsAt bs 3 5, 1)
    { kind, count, width := if kind = .plain then count else 1, fourStreams := false, stop }
  let coded (kind : LiteralsKind) : LiteralsHeader :=
    let bits := if form ≤ 1 then 10 else if form = 2 then 14 else 18
    { kind, count := bitsAt bs 4 bits, width := bitsAt bs (4 + bits) bits, fourStreams := form ≠ 0
      stop := (2 * bits + 4) / 8 }
  match bitsAt bs 0 2 with
  | 0 => sized .plain
  | 1 => sized .repeated
  | 2 => coded .coded
  | _ => coded .codedAgain

/-- Bytes in four streams of bits, behind the sizes of the first three. All but the last give the
same count of bytes. -/
def decodeFour? (t : HuffmanTable) (count : Nat) (bs : Array UInt8) : Option (Array UInt8) := do
  let size (i : Nat) := bitsAt bs (16 * i) 16
  let second := 6 + size 0
  let third := second + size 1
  let fourth := third + size 2
  let share := (count + 3) / 4
  if bs.size < fourth || count < 3 * share then failure
  let done ← t.decode? share (bs.extract 6 second) #[]
  let done ← t.decode? share (bs.extract second third) done
  let done ← t.decode? share (bs.extract third fourth) done
  t.decode? (count - 3 * share) (bs.extract fourth bs.size) done

/-- The literals at the front of a block, the latest table and the place of the byte behind. -/
def readLiterals? (latest : Option HuffmanTable) (bs : Array UInt8) :
    Option (Array UInt8 × Option HuffmanTable × Nat) := do
  let head := LiteralsHeader.read bs
  let stop := head.stop + head.width
  if bs.size < stop then failure
  let decode (t : HuffmanTable) (start : Nat) :=
    let coded := bs.extract start stop
    if head.fourStreams then decodeFour? t head.count coded else t.decode? head.count coded #[]
  match head.kind with
  | .plain => return (bs.extract head.stop stop, latest, stop)
  | .repeated => return (Array.replicate head.count (← bs[head.stop]?), latest, stop)
  | .coded =>
    let (t, start) ← HuffmanTable.read? (bs.extract 0 stop) head.stop
    return (← decode t start, some t, stop)
  | .codedAgain => return (← decode (← latest) head.stop, latest, stop)

end OctreeWorld.Zstandard
