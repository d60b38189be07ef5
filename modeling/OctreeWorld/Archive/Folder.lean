import OctreeWorld.Archive
import OctreeWorld.FileTree

/-!
# Saved archives

A saved archive is a folder of two files: the records as one compressed list, ordered by level and
position, and a manifest with the layout's version, the number of records and the digest of the
first file. Opening checks the version first, then the digest, and only then reads the records.
-/

namespace OctreeWorld

/-- The files of a saved archive, each of which may be missing. -/
structure ArchiveFolder where
  manifest : Option String := none
  nodes : Option Bytes := none
deriving DecidableEq, Inhabited

namespace ArchiveFolder

/-- The names of the two files. -/
def manifestName : String := "manifest.json"

def nodesName : String := "nodes.cbor.zst"

/-- Where the manifest of a folder is. -/
def manifestPath (folder : FilePath) : FilePath := folder ++ [manifestName]

/-- Where the records of a folder are. -/
def nodesPath (folder : FilePath) : FilePath := folder ++ [nodesName]

/-- The files of a saved archive in a tree. A manifest that is no text is read as an empty one. -/
def ofTree (t : FileTree) (folder : FilePath) : ArchiveFolder :=
  { manifest := (t.read? (manifestPath folder)).map fun bs => (Bytes.characters? bs).getD ""
    nodes := t.read? (nodesPath folder) }

/-- Write the files of a saved archive into a tree, making the folder if needed. -/
def write? (files : ArchiveFolder) (t : FileTree) (folder : FilePath) : Option FileTree := do
  let t ← t.makeFolder? folder
  let t ← match files.nodes with
    | some nodes => t.write? (nodesPath folder) nodes
    | none => some t
  match files.manifest with
  | some manifest => t.write? (manifestPath folder) manifest.toUTF8.toList
  | none => some t

end ArchiveFolder

namespace Archive

/-- The records with their cells, by level and then by position. -/
def entries (a : Archive) : List (Coord × ArchiveRecord) := a.records.toList

/-- The archive of a list of records. Of several records of one cell, the last counts. -/
def ofEntries (entries : List (Coord × ArchiveRecord)) : Archive :=
  ⟨(∅ : Std.ExtTreeMap Coord ArchiveRecord).insertMany entries⟩

variable [ArchiveFormat]

/-- The manifest and the folder that hold a list of records. -/
def folderOf (entries : List (Coord × ArchiveRecord)) : ArchiveManifest × ArchiveFolder :=
  let nodes := pack ArchiveFormat.records entries
  let manifest : ArchiveManifest :=
    { schemaVersion := ArchiveError.schemaVersion
      recordCount := UInt64.ofNat entries.length
      digest := ArchiveFormat.digest nodes }
  (manifest, { manifest := some (ArchiveFormat.manifest.write manifest), nodes := some nodes })

/-- Save an archive. -/
def save (a : Archive) : ArchiveManifest × ArchiveFolder := folderOf a.entries

/-- Open a saved archive. -/
def load (folder : ArchiveFolder) : Except ArchiveError Archive :=
  match folder.manifest with
  | none => .error .unreadable
  | some text =>
    match ArchiveFormat.manifest.read? text with
    | none => .error .badManifest
    | some manifest =>
      if manifest.schemaVersion ≠ ArchiveError.schemaVersion then
        .error (.schemaMismatch manifest.schemaVersion)
      else
        match folder.nodes with
        | none => .error .unreadable
        | some nodes => do
          verify ArchiveFolder.nodesName manifest.digest nodes
          let entries ← unpack ArchiveFormat.records nodes
          return ofEntries entries

end Archive

end OctreeWorld
