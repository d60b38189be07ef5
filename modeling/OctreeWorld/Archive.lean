import OctreeWorld.Archive.Format
import OctreeWorld.Region

/-!
# The node archive

An archive keeps the payloads of nodes that left memory, one record for each cell. A record never
gives way to a lower version, and a payload is handed out only if its digest is the recorded one.

Two processors tie an archive to the life of nodes: one restores payloads as nodes load, the other
stores them as nodes unload.
-/

namespace OctreeWorld

/-- Why an archive could not be read. -/
inductive ArchiveError where
  /-- A file is missing, or cannot be decompressed. -/
  | unreadable
  /-- The bytes are no value of the expected type. -/
  | notDecoded
  /-- The manifest is no manifest. -/
  | badManifest
  | integrityMismatch (what expected actual : String)
  | schemaMismatch (found : UInt32)
deriving DecidableEq

/-- Payloads by cell, listed by level and then by position. -/
structure Archive where
  records : Std.ExtTreeMap Coord ArchiveRecord := ∅

namespace ArchiveError

/-- The layout of archives that this library writes and reads. -/
def schemaVersion : UInt32 := 1

def message : ArchiveError → String
  | unreadable => "IO error"
  | notDecoded => "CBOR deserialization error"
  | badManifest => "JSON error"
  | integrityMismatch what expected actual =>
    "integrity check failed for " ++ what ++ ": expected " ++ expected ++ ", got " ++ actual
  | schemaMismatch found =>
    s!"schema version mismatch: file has v{found.toNat}, expected v{schemaVersion.toNat}"

end ArchiveError

namespace Archive

variable {α : Type}

def empty : Archive := {}

def size (a : Archive) : Nat := a.records.size

def isEmpty (a : Archive) : Bool := a.records.isEmpty

def contains (a : Archive) (c : Coord) : Bool := a.records.contains c

def record? (a : Archive) (c : Coord) : Option ArchiveRecord := a.records[c]?

def version? (a : Archive) (c : Coord) : Option UInt32 := (a.record? c).map (·.version)

/-- The archived cells, by level and then by position. -/
def coords (a : Archive) : List Coord := a.records.keys

def remove (a : Archive) (c : Coord) : Archive := { a with records := a.records.erase c }

section Payloads

variable [ArchiveFormat]

/-- The compressed encoding of a payload. -/
def pack (encoding : Encoding α Bytes) (payload : α) : Bytes :=
  ArchiveFormat.compression.write (encoding.write payload)

/-- Store a payload, unless the archive holds a higher version. Answers whether it was stored. -/
def store (a : Archive) (encoding : Encoding α Bytes) (c : Coord) (version : UInt32)
    (savedAt : SimTime) (payload : α) : Bool × Archive :=
  if (a.version? c).any fun held => version < held then (false, a)
  else
    let packed := pack encoding payload
    let digest := ArchiveFormat.digest packed
    let record : ArchiveRecord := { version, savedAt, digest, payload := packed }
    (true, { a with records := a.records.insert c record })

/-- Refuse bytes whose digest is not the recorded one. -/
def verify (what expected : String) (bs : Bytes) : Except ArchiveError Unit :=
  let actual := ArchiveFormat.digest bs
  if actual = expected then .ok () else .error (.integrityMismatch what expected actual)

/-- The value whose compressed encoding some bytes are. -/
def unpack (encoding : Encoding α Bytes) (packed : Bytes) : Except ArchiveError α :=
  match ArchiveFormat.compression.read? packed with
  | none => .error .unreadable
  | some bs =>
    match encoding.read? bs with
    | some payload => .ok payload
    | none => .error .notDecoded

/-- The payload of a cell with its version, if the archive holds one of at least the given
version. -/
def restore (a : Archive) (encoding : Encoding α Bytes) (c : Coord) (least : UInt32) :
    Except ArchiveError (Option (UInt32 × α)) :=
  match a.record? c with
  | none => .ok none
  | some r =>
    if r.version < least then .ok none
    else do
      verify ("node " ++ c.text) r.digest r.payload
      let payload ← unpack encoding r.payload
      return some (r.version, payload)

end Payloads

variable [ArchiveFormat] {σ N L : Type}

/-- Restores archived payloads into nodes as they load. A node adopts the payload and the version
of a record that is not older than the node; a record that cannot be read changes nothing. -/
def loadProcessor (slot : Slot σ Archive) (encoding : Encoding N Bytes) : NodeProcessor σ N L :=
  .plain "archive-load" fun _ view s =>
    match (slot.get s).restore encoding view.node.coord view.node.version with
    | .ok (some (version, payload)) => ([.setData payload, .raiseVersion version], s)
    | _ => ([], s)

/-- Stores payloads of nodes as they unload, under the nodes' versions. -/
def unloadProcessor (slot : Slot σ Archive) (encoding : Encoding N Bytes) : NodeProcessor σ N L :=
  .plain "archive-unload" fun ctx view s =>
    let n := view.node
    let (_, a) := (slot.get s).store encoding n.coord n.version ctx.now n.data
    ([], slot.set s a)

end Archive

end OctreeWorld
