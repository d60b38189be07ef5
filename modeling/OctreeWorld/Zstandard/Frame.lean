import OctreeWorld.Zstandard.Checksum
import OctreeWorld.Zstandard.Sequences

/-!
# Compressed frames

The frame format of Zstandard. A compressed text is one or more frames, one after the other; each
carries a header and blocks, and frames of other kinds may stand between them and are skipped. This
module writes blocks that hold their content as it is.
-/

namespace OctreeWorld.Zstandard

/-- The most content of one block. -/
def blockLimit : Nat := 131072

/-- The mark at the start of a frame. -/
def mark : Bytes := [0x28, 0xb5, 0x2f, 0xfd]

/-! ### Writing -/

/-- A block that holds its content as it is, with the bit that marks the last block. -/
def rawBlock (last : Bool) (content : Bytes) : Bytes :=
  Bytes.ofLittleEndian 3 (8 * content.length + last.toNat) ++ content

/-- Blocks for a content, all full but the last one. -/
def rawBlocks : Nat → Bytes → Bytes
  | 0, content => rawBlock true content
  | full + 1, content =>
    rawBlock false (content.take blockLimit) ++ rawBlocks full (content.drop blockLimit)

/-- The header of a frame that does not say how much content it has: a window of two mebibytes, no
checksum and no dictionary. -/
def header : Bytes := [0x00, 0x58]

/-- One frame with a content. -/
def compress (content : Bytes) : Bytes :=
  mark ++ header ++ rawBlocks ((content.length - 1) / blockLimit) content

/-! ### Reading -/

/-- What a frame's header says about the blocks behind it. -/
structure FrameHeader where
  /-- The most content of one block. -/
  blockMax : Nat
  /-- The content of the whole frame, if the header says. -/
  contentSize : Option Nat
  checksum : Bool
deriving DecidableEq

/-- The greatest window that a reader makes room for. -/
def windowLimit : Nat := 134217728

/-- The size that a window byte writes: a power of two and some eighths of it. -/
def windowSize (b : Nat) : Nat :=
  let whole := Nat.pow 2 (10 + b / 8)
  whole + whole / 8 * (b % 8)

/-- The content size of a header, in as many bytes as its two-bit mark says. -/
def readContentSize? (sizeMark : Nat) (oneSegment : Bool) (bs : Bytes) :
    Option (Option Nat × Bytes) :=
  let sized (count offset : Nat) :=
    (bs.littleEndian? count).map fun (n, rest) => (some (n + offset), rest)
  match sizeMark with
  | 0 => if oneSegment then sized 1 0 else some (none, bs)
  | 1 => sized 2 256
  | 2 => sized 4 0
  | _ => sized 8 0

/-- The header behind the mark of a frame. A frame that needs a dictionary or too great a window is
refused. -/
def readHeader? (bs : Bytes) : Option (FrameHeader × Bytes) := do
  let (descriptor, rest) ← bs.littleEndian? 1
  let oneSegment := descriptor / 32 % 2 == 1
  if descriptor / 8 % 2 = 1 then failure
  let (window, rest) ←
    if oneSegment then pure (none, rest)
    else (rest.littleEndian? 1).map fun (b, rest) => (some (windowSize b), rest)
  let dictionaryBytes := if descriptor % 4 = 3 then 4 else descriptor % 4
  let (dictionary, rest) ← rest.littleEndian? dictionaryBytes
  if dictionary ≠ 0 then failure
  let (contentSize, rest) ← readContentSize? (descriptor / 64) oneSegment rest
  let window := window.getD (contentSize.getD 0)
  if windowLimit < window then failure
  return ({ blockMax := min window blockLimit, contentSize, checksum := descriptor / 4 % 2 == 1 },
    rest)

/-- Append the content of one block of a kind and a size to a frame: content as it is, one byte
repeated, or content in codes. Answers also the bytes behind the block. -/
def readBlock? (blockMax kind size : Nat) (s : FrameState) (bs : Bytes) :
    Option (FrameState × Bytes) :=
  match kind with
  | 0 => (bs.take? size).map fun (content, rest) =>
    ({ s with content := s.content.appendList content }, rest)
  | 1 => (bs.take? 1).map fun (byte, rest) =>
    ({ s with content := s.content.appendList (List.replicate size byte).flatten }, rest)
  | 2 => do
    let (block, rest) ← bs.take? size
    let size := s.content.size
    let s ← s.readBlock? block.toArray
    if size + blockMax < s.content.size then failure
    return (s, rest)
  | _ => none

/-- The blocks of a frame, up to the last one, behind what it holds so far. -/
def readBlocks? (blockMax : Nat) : Nat → FrameState → Bytes → Option (FrameState × Bytes)
  | 0, _, _ => none
  | fuel + 1, s, bs => do
    let (head, rest) ← bs.littleEndian? 3
    if blockMax < head / 8 then failure
    let (s, rest) ← readBlock? blockMax (head / 2 % 4) (head / 8) s rest
    if head % 2 = 1 then return (s, rest)
    readBlocks? blockMax fuel s rest

/-- The checksum behind the blocks of a frame, where its header promises one. -/
def readChecksum? (promised : Bool) (content : Bytes) (bs : Bytes) : Option Bytes :=
  if promised then do
    let (sum, rest) ← bs.littleEndian? 4
    if sum = Checksum.ofContent content then some rest else none
  else some bs

/-- One frame behind its mark. -/
def readFrame? (bs : Bytes) : Option (Bytes × Bytes) := do
  let (head, rest) ← readHeader? bs
  let (s, rest) ← readBlocks? head.blockMax (rest.length + 1) {} rest
  let content := s.content.toList
  if head.contentSize.any (· != content.length) then failure
  let rest ← readChecksum? head.checksum content rest
  return (content, rest)

/-- A frame of another kind behind its mark: a size and as many bytes. -/
def skipFrame? (bs : Bytes) : Option Bytes := do
  let (size, rest) ← bs.littleEndian? 4
  let (_, rest) ← rest.take? size
  return rest

/-- Frames up to the end of the bytes, at least one. -/
def readFrames? : Nat → Bytes → Option Bytes
  | 0, _ => none
  | fuel + 1, bs => do
    let (start, rest) ← bs.take? 4
    let (content, rest) ←
      if start = mark then readFrame? rest
      else if start.littleEndian / 16 = 0x184d2a5 then (skipFrame? rest).map fun rest => ([], rest)
      else none
    if rest.isEmpty then return content
    return content ++ (← readFrames? fuel rest)

/-- The content of a compressed text. -/
def decompress? (bs : Bytes) : Option Bytes := readFrames? (bs.length + 1) bs

end OctreeWorld.Zstandard
