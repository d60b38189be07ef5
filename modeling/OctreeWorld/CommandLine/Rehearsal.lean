import OctreeWorld.CommandLine.Run

/-!
# Rehearsals

The host on which commands run without a machine: its files are a tree, its clock stands still, and
its identifiers follow each other. So the run of a command is a function of the words and the files.
-/

namespace OctreeWorld.CommandLine

/-- The state of a rehearsal. -/
structure Rehearsal where
  files : FileTree
  /-- The lines printed, newest first. -/
  lines : List String := []
  /-- Identifiers handed out. -/
  identifiers : Nat := 0

namespace Rehearsal

/-- Whether a folder holds something under the name of a manifest. -/
def holdsManifest (t : FileTree) (folder : FilePath) : Bool :=
  let p := ArchiveFolder.manifestPath folder
  t.isFile p || t.isFolder p

def host : Host (StateM Rehearsal) where
  print line := modify fun r => { r with lines := line :: r.lines }
  complain _ := pure ()
  readFile path := do return (← get).files.read? (.ofText path)
  readArchive path := do
    let t := (← get).files
    let folder := FilePath.ofText path
    return if holdsManifest t folder then some (.ofTree t folder) else none
  writeArchive path files := do
    let r ← get
    match files.write? r.files (.ofText path) with
    | none => return false
    | some t =>
      set { r with files := t }
      return true
  clock := pure 0
  freshIdentifier := modifyGet fun r =>
    (.ofNat r.identifiers, { r with identifiers := r.identifiers + 1 })
  processors := pure 1

/-- Run the command that words write: its code, the lines it printed, and the files it left. -/
def run (words : List String) (files : FileTree) : UInt32 × List String × FileTree :=
  let (code, r) := (CommandLine.run host words).run { files }
  (code, r.lines.reverse, r.files)

end Rehearsal

end OctreeWorld.CommandLine
