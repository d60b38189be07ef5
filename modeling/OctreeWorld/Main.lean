import OctreeWorld.CommandLine.Run

/-!
# The program

The command line on a real machine. A tick runs on one thread.
-/

namespace OctreeWorld.CommandLine

/-- The content of a file, or nothing when it cannot be read. -/
def readFileBytes (path : String) : IO (Option Bytes) := do
  try
    let content ← IO.FS.readBinFile path
    return some content.toList
  catch _ => return none

/-- Whether an error says that a file is there but cannot be read as one. -/
def isThere : IO.Error → Bool
  | .permissionDenied .. => true
  | .inappropriateType .. => true
  | _ => false

/-- The files of a saved archive, or nothing when the folder holds no manifest. -/
def readArchiveFolder (folder : String) : IO (Option ArchiveFolder) := do
  let nodes ← readFileBytes (folder ++ "/" ++ ArchiveFolder.nodesName)
  try
    let content ← IO.FS.readBinFile (folder ++ "/" ++ ArchiveFolder.manifestName)
    return some { manifest := some ((String.fromUTF8? content).getD ""), nodes }
  catch e => return if isThere e then some { nodes } else none

/-- Write a saved archive and answer whether that worked. -/
def writeArchiveFolder (folder : String) (files : ArchiveFolder) : IO Bool := do
  try
    IO.FS.createDirAll folder
    if let some nodes := files.nodes then
      IO.FS.writeBinFile (folder ++ "/" ++ ArchiveFolder.nodesName) (ByteArray.mk nodes.toArray)
    if let some manifest := files.manifest then
      IO.FS.writeFile (folder ++ "/" ++ ArchiveFolder.manifestName) manifest
    return true
  catch _ => return false

/-- The machine that the program runs on. -/
def machine : Host IO where
  print := IO.println
  complain := IO.eprintln
  readFile := readFileBytes
  readArchive := readArchiveFolder
  writeArchive := writeArchiveFolder
  clock := IO.monoNanosNow
  freshIdentifier := do
    let bytes ← IO.getRandomBytes 16
    return .ofNat (Bytes.bigEndian bytes.toList)
  processors := return 1

end OctreeWorld.CommandLine

def main (args : List String) : IO UInt32 :=
  OctreeWorld.CommandLine.run OctreeWorld.CommandLine.machine args
