import OctreeWorld.Archive.Format
import OctreeWorld.Cbor.Codec
import OctreeWorld.Document
import OctreeWorld.Sha256
import OctreeWorld.Zstandard.Frame

/-!
# The standard format of archives

Payloads and records are CBOR items in Zstandard frames, digests are those of SHA-256 in hexadecimal
digits, and a manifest is a JSON object with a member on each line.
-/

namespace OctreeWorld

namespace Codec

variable {α : Type}

/-- Values as the bytes of their items. -/
def encoding (c : Codec α) : Encoding α Bytes where
  write := c.bytes
  read? := c.ofBytes?

instance : Coe (Codec α) (Encoding α Bytes) := ⟨encoding⟩

def position : Codec Position where
  encode p := (list int32).encode [p.x, p.y, p.z]
  decode? item := match (list int32).decode? item with
    | some [x, y, z] => some ⟨x, y, z⟩
    | _ => none

def coord : Codec Coord where
  encode c := .ofMembers [("pos", position.encode c.pos), ("level", uint8.encode c.level)]
  decode? item := do
    let fs ← item.fields? ["pos", "level"]
    let pos ← position.decode? (← fs.lookup "pos")
    let level ← uint8.decode? (← fs.lookup "level")
    return ⟨pos, level⟩

/-- Archive records with their cells. -/
def archiveEntry : Codec (Coord × ArchiveRecord) where
  encode := fun (c, r) =>
    .ofMembers
      [("coord", coord.encode c), ("version", uint32.encode r.version),
        ("saved_at", uint64.encode r.savedAt.micros), ("sha256", text.encode r.digest),
        ("payload", (list uint8).encode r.payload)]
  decode? item := do
    let fs ← item.fields? ["coord", "version", "saved_at", "sha256", "payload"]
    let c ← coord.decode? (← fs.lookup "coord")
    let version ← uint32.decode? (← fs.lookup "version")
    let savedAt ← uint64.decode? (← fs.lookup "saved_at")
    let digest ← text.decode? (← fs.lookup "sha256")
    let payload ← (list uint8).decode? (← fs.lookup "payload")
    return (c, { version, savedAt := ⟨savedAt⟩, digest, payload })

end Codec

namespace ArchiveManifest

def fieldNames : List String := ["schema_version", "record_count", "sha256"]

/-- The manifest with a member on each line. -/
def text (m : ArchiveManifest) : String :=
  "\x7b\n  \"schema_version\": " ++ toString m.schemaVersion.toNat ++
    ",\n  \"record_count\": " ++ toString m.recordCount.toNat ++
    ",\n  \"sha256\": " ++ Json.quoted m.digest ++ "\n\x7d"

def ofJson? (v : Json) : Option ArchiveManifest := do
  let fs ← v.fields? fieldNames
  let schemaVersion ← Json.format.uint32? (← fs.lookup "schema_version")
  let recordCount ← Json.format.uint64? (← fs.lookup "record_count")
  let digest ← match fs.lookup "sha256" with
    | some (.string s) => some s
    | _ => none
  return { schemaVersion, recordCount, digest }

def read? (s : String) : Option ArchiveManifest := (Json.read? s).bind ofJson?

def encoding : Encoding ArchiveManifest String := ⟨text, read?⟩

end ArchiveManifest

def Zstandard.encoding : Encoding Bytes Bytes := ⟨compress, decompress?⟩

instance ArchiveFormat.standard : ArchiveFormat where
  compression := Zstandard.encoding
  digest := Sha256.text
  records := Codec.archiveEntry.list
  manifest := ArchiveManifest.encoding

end OctreeWorld
