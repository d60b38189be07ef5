import OctreeWorld.Bytes

/-!
# File trees

Files and folders as a value. A file can only be written into a folder that is there, and a name is
either a file or a folder.
-/

namespace OctreeWorld

/-- The parts of a path, outermost first. -/
abbrev FilePath := List String

/-- The path that a text writes. Empty parts and single points stay in place, and two points lead
out of a folder. -/
def FilePath.ofText (s : String) : FilePath :=
  (s.splitOn "/").foldl
    (fun p part =>
      if part == "" || part == "." then p else if part == ".." then p.dropLast else p ++ [part])
    []

/-- Files with their contents, and folders. The outermost folder is always there. -/
structure FileTree where
  files : List (FilePath × Bytes) := []
  folders : List FilePath := []
deriving DecidableEq, Inhabited

namespace FileTree

def read? (t : FileTree) (p : FilePath) : Option Bytes := t.files.lookup p

def isFile (t : FileTree) (p : FilePath) : Bool := (t.read? p).isSome

def isFolder (t : FileTree) (p : FilePath) : Bool := p.isEmpty || t.folders.contains p

/-- Take a file out. -/
def erase (t : FileTree) (p : FilePath) : FileTree :=
  { t with files := t.files.filter fun f => f.1 != p }

/-- Remove a file that is there. -/
def remove? (t : FileTree) (p : FilePath) : Option FileTree :=
  if t.isFile p then some (t.erase p) else none

/-- Write a file, in place of one of the same path. -/
def write? (t : FileTree) (p : FilePath) (content : Bytes) : Option FileTree :=
  if t.isFolder p || !t.isFolder p.dropLast then none
  else
    let t := t.erase p
    some { t with files := (p, content) :: t.files }

/-- Make a folder and those around it, unless a file is in the way. -/
def makeFolder? (t : FileTree) (p : FilePath) : Option FileTree :=
  (List.range p.length).foldlM
    (fun t depth =>
      let q := p.take (depth + 1)
      if t.isFile q then none
      else if t.isFolder q then some t
      else some { t with folders := q :: t.folders })
    t

end FileTree

end OctreeWorld
