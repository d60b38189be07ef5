import OctreeWorld.Bytes

/-!
# Checksums of frames

A hash of 64 bits over words of eight bytes. Four lanes take turns over full stripes of 32 bytes;
what is left is added in words, in a half word and in bytes, and the bits are mixed at the end.
-/

namespace OctreeWorld.Zstandard.Checksum

def prime1 : UInt64 := 0x9e3779b185ebca87

def prime2 : UInt64 := 0xc2b2ae3d27d4eb4f

def prime3 : UInt64 := 0x165667b19e3779f9

def prime4 : UInt64 := 0x85ebca77c2b2ae63

def prime5 : UInt64 := 0x27d4eb2f165667c5

/-- Turn a word to the left. -/
def turn (w : UInt64) (bits : UInt64) : UInt64 := (w <<< bits) ||| (w >>> (64 - bits))

/-- The word that bytes write. -/
def word (bs : Bytes) : UInt64 := UInt64.ofNat bs.littleEndian

def round (lane input : UInt64) : UInt64 := turn (lane + input * prime2) 31 * prime1

/-- The four lanes. -/
structure Lanes where
  a : UInt64 := prime1 + prime2
  b : UInt64 := prime2
  c : UInt64 := 0
  d : UInt64 := 0 - prime1

namespace Lanes

def addStripe (l : Lanes) (stripe : Bytes) : Lanes where
  a := round l.a (word (stripe.take 8))
  b := round l.b (word ((stripe.drop 8).take 8))
  c := round l.c (word ((stripe.drop 16).take 8))
  d := round l.d (word ((stripe.drop 24).take 8))

def merge (hash lane : UInt64) : UInt64 := (hash ^^^ round 0 lane) * prime1 + prime4

def joined (l : Lanes) : UInt64 :=
  let hash := turn l.a 1 + turn l.b 7 + turn l.c 12 + turn l.d 18
  [l.a, l.b, l.c, l.d].foldl merge hash

end Lanes

/-- The lanes after a count of stripes, and the bytes behind them. -/
def addStripes : Nat → Lanes → Bytes → Lanes × Bytes
  | 0, l, bs => (l, bs)
  | count + 1, l, bs => addStripes count (l.addStripe (bs.take 32)) (bs.drop 32)

/-- Add a count of words. -/
def addWords : Nat → UInt64 → Bytes → UInt64 × Bytes
  | 0, hash, bs => (hash, bs)
  | count + 1, hash, bs =>
    addWords count (turn (hash ^^^ round 0 (word (bs.take 8))) 27 * prime1 + prime4) (bs.drop 8)

/-- Add a half word if there is one. -/
def addHalf (hash : UInt64) (bs : Bytes) : UInt64 × Bytes :=
  if bs.length < 4 then (hash, bs)
  else (turn (hash ^^^ word (bs.take 4) * prime1) 23 * prime2 + prime3, bs.drop 4)

def addByte (hash : UInt64) (b : UInt8) : UInt64 :=
  turn (hash ^^^ b.toUInt64 * prime5) 11 * prime1

def mix (hash : UInt64) : UInt64 :=
  let hash := (hash ^^^ (hash >>> 33)) * prime2
  let hash := (hash ^^^ (hash >>> 29)) * prime3
  hash ^^^ (hash >>> 32)

/-- The hash of some bytes. -/
def hash (bs : Bytes) : UInt64 :=
  let size := bs.length
  let (lanes, rest) := addStripes (size / 32) {} bs
  let start := if size < 32 then prime5 else lanes.joined
  let (h, rest) := addWords (size % 32 / 8) (start + UInt64.ofNat size) rest
  let (h, rest) := addHalf h rest
  mix (rest.foldl addByte h)

/-- The number behind the blocks of a frame: the lower half of the hash of its content. -/
def ofContent (content : Bytes) : Nat := (hash content).toNat % UInt32.size

end OctreeWorld.Zstandard.Checksum
