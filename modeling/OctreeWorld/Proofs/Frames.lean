import OctreeWorld.Archive.Standard

/-!
# Frames are read as they were written

A block that holds its content as it is says how long it is, and one bit of it marks the last block
of a frame. So the blocks of a frame give back their contents one after the other, and the frame
ends where the last of them does.
-/

namespace OctreeWorld.Zstandard

/-- A frame with more content. -/
def FrameState.extend (s : FrameState) (content : Bytes) : FrameState :=
  { s with content := s.content.appendList content }

theorem FrameState.extend_extend (s : FrameState) (front back : Bytes) :
    (s.extend front).extend back = s.extend (front ++ back) := by
  have joined : (s.content.appendList front).appendList back =
      s.content.appendList (front ++ back) := by
    apply Array.ext'
    simp [Array.appendList_eq_append]
  simp only [extend, joined]

/-- A block that holds its content as it is adds it to the frame. -/
theorem readBlocks?_rawBlock (last : Bool) {content : Bytes} (fits : content.length ≤ blockLimit)
    (fuel : Nat) (s : FrameState) (rest : Bytes) :
    readBlocks? blockLimit (fuel + 1) s (rawBlock last content ++ rest) =
      if last then some (s.extend content, rest)
      else readBlocks? blockLimit fuel (s.extend content) rest := by
  rw [blockLimit] at fits
  have flag : last.toNat < 2 := Bool.toNat_lt last
  have small : 8 * content.length + last.toNat < Nat.pow 256 3 := by
    rw [show Nat.pow 256 3 = 16777216 from rfl]
    omega
  have size : (8 * content.length + last.toNat) / 8 = content.length := by omega
  have kind : (8 * content.length + last.toNat) / 2 % 4 = 0 := by omega
  have mark : (8 * content.length + last.toNat) % 2 = last.toNat := by omega
  have block : readBlock? blockLimit 0 content.length s (content ++ rest) =
      some (s.extend content, rest) := by
    rw [readBlock?, Bytes.take?_append]
    rfl
  rw [readBlocks?, rawBlock, List.append_assoc, Bytes.littleEndian?_ofLittleEndian small]
  simp only [Option.bind_eq_bind, Option.bind_some, size, kind, mark, block]
  rw [if_neg (by rw [blockLimit]; omega)]
  cases last <;> rfl

/-- The blocks of a frame, all full but the last one, add the whole content to it. -/
theorem readBlocks?_rawBlocks {full fuel : Nat} (enough : full < fuel) {content : Bytes}
    (whole : full * blockLimit ≤ content.length) (fits : content.length ≤ (full + 1) * blockLimit)
    (s : FrameState) (rest : Bytes) :
    readBlocks? blockLimit fuel s (rawBlocks full content ++ rest) =
      some (s.extend content, rest) := by
  induction full generalizing fuel content s with
  | zero =>
    obtain ⟨fuel, rfl⟩ := Nat.exists_eq_succ_of_ne_zero (Nat.ne_of_gt enough)
    rw [rawBlocks, readBlocks?_rawBlock true (by omega), if_pos rfl]
  | succ full ih =>
    obtain ⟨fuel, rfl⟩ := Nat.exists_eq_succ_of_ne_zero (Nat.ne_of_gt (Nat.zero_lt_of_lt enough))
    have front : (content.take blockLimit).length = blockLimit := by
      rw [List.length_take]
      exact Nat.min_eq_left (Nat.le_trans (Nat.le_mul_of_pos_left _ full.succ_pos) whole)
    have behind : (content.drop blockLimit).length = content.length - blockLimit :=
      List.length_drop
    have whole' : full * blockLimit ≤ (content.drop blockLimit).length := by
      rw [behind]
      exact Nat.le_sub_of_add_le (Nat.succ_mul full blockLimit ▸ whole)
    have fits' : (content.drop blockLimit).length ≤ (full + 1) * blockLimit := by
      rw [behind]
      exact Nat.sub_le_of_le_add (Nat.succ_mul (full + 1) blockLimit ▸ fits)
    rw [rawBlocks, List.append_assoc, readBlocks?_rawBlock false (Nat.le_of_eq front), if_neg nofun,
      ih (Nat.lt_of_succ_lt_succ enough) whole' fits', FrameState.extend_extend,
      List.take_append_drop]

theorem length_rawBlock (last : Bool) (content : Bytes) :
    (rawBlock last content).length = 3 + content.length := by
  rw [rawBlock, List.length_append, Bytes.length_ofLittleEndian]

theorem lt_length_rawBlocks (full : Nat) (content : Bytes) :
    full < (rawBlocks full content).length := by
  induction full generalizing content with
  | zero =>
    rw [rawBlocks, length_rawBlock]
    omega
  | succ full ih =>
    have rest := ih (content.drop blockLimit)
    rw [rawBlocks, List.length_append, length_rawBlock]
    omega

theorem readHeader?_header (rest : Bytes) : readHeader? (header ++ rest) =
    some ({ blockMax := blockLimit, contentSize := none, checksum := false }, rest) := by
  have byte (b : UInt8) (bs : Bytes) : Bytes.littleEndian? 1 (b :: bs) = some (b.toNat, bs) := by
    simp [Bytes.littleEndian?, Bytes.take?, Bytes.littleEndian]
  have nothing (bs : Bytes) : Bytes.littleEndian? 0 bs = some (0, bs) := by
    simp [Bytes.littleEndian?, Bytes.take?, Bytes.littleEndian]
  have window : windowSize 88 = 2097152 := rfl
  have room : ¬ windowLimit < 2097152 := by decide
  have block : min 2097152 blockLimit = blockLimit := rfl
  simp [readHeader?, header, byte, nothing, readContentSize?, window, room, block]

/-- What is compressed is decompressed to what it was. -/
theorem decompress?_compress (content : Bytes) : decompress? (compress content) = some content := by
  let full := (content.length - 1) / blockLimit
  let blocks := rawBlocks full content
  have whole : full * blockLimit ≤ content.length :=
    Nat.le_trans (Nat.div_mul_le_self _ _) (Nat.sub_le _ _)
  have fits : content.length ≤ (full + 1) * blockLimit := by
    have past := Nat.lt_mul_div_succ (content.length - 1) (show 0 < blockLimit by decide)
    rw [Nat.mul_comm] at past
    exact Nat.le_of_pred_lt past
  have read : readBlocks? blockLimit (blocks.length + 1) {} blocks =
      some (({} : FrameState).extend content, []) := by
    have enough := Nat.lt_succ_of_lt (lt_length_rawBlocks full content)
    have read := readBlocks?_rawBlocks enough whole fits {} []
    rwa [List.append_nil] at read
  have frame : readFrame? (header ++ blocks) = some (content, []) := by
    rw [readFrame?, readHeader?_header]
    simp only [Option.bind_eq_bind, Option.bind_some, read]
    simp [FrameState.extend, readChecksum?, Array.appendList_eq_append]
  have start : Bytes.take? 4 (mark ++ (header ++ blocks)) = some (mark, header ++ blocks) :=
    Bytes.take?_append mark _
  rw [decompress?, compress, List.append_assoc, readFrames?, start]
  simp only [Option.bind_eq_bind, Option.bind_some, if_pos]
  rw [show rawBlocks _ content = blocks from rfl, frame]
  rfl

theorem encoding_lossless : encoding.Lossless := by
  intro content
  simp only [Encoding.Keeps, encoding, decompress?_compress]

end OctreeWorld.Zstandard
