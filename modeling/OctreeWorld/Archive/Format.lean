import OctreeWorld.Bytes
import OctreeWorld.Coord
import OctreeWorld.Time

/-!
# The format of archives

How payloads, records and manifests are written is not the archive's affair: it is given a
compression, a digest and encodings, and relies on no more than that values are read back as they
were written. All of these are functions, so that equal values are always written alike.
-/

namespace OctreeWorld

/-- A way of writing values and of reading them back. What was not written by it may not be
readable. -/
structure Encoding (α β : Type) where
  write : α → β
  read? : β → Option α

namespace Encoding

variable {α β : Type}

/-- A value is read as it was written. -/
def Keeps (e : Encoding α β) (x : α) : Prop := e.read? (e.write x) = some x

/-- Every value is read as it was written. -/
def Lossless (e : Encoding α β) : Prop := ∀ x, e.Keeps x

end Encoding

/-- One archived payload. -/
structure ArchiveRecord where
  /-- The version of the node when it was stored. -/
  version : UInt32
  savedAt : SimTime
  /-- The recorded digest of the payload. -/
  digest : String
  /-- The compressed encoding of the payload. -/
  payload : Bytes
deriving DecidableEq, Inhabited

/-- What a saved archive says about itself. -/
structure ArchiveManifest where
  schemaVersion : UInt32
  recordCount : UInt64
  digest : String
deriving DecidableEq, Inhabited

/-- How archives are written. -/
class ArchiveFormat where
  compression : Encoding Bytes Bytes
  digest : Bytes → String
  /-- The records of a saved archive, each with its cell. -/
  records : Encoding (List (Coord × ArchiveRecord)) Bytes
  manifest : Encoding ArchiveManifest String

end OctreeWorld
