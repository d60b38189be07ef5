import OctreeWorld.Level
import OctreeWorld.OctreeError

/-!
# The hierarchy of levels

The hierarchy owns the levels, finest first, and is the only place where links are written. A node
enters with its parent resident, or on the coarsest level, and leaves without children. Inserting
links it both ways with its resident neighbours and its parent; removing takes those links back,
so that at all times

* a neighbour bit is set exactly when that neighbour is resident,
* a node below the coarsest level has a resident parent, knows its own octant, and is known to the
  parent by its child bit.

`Hierarchy.check` tests these statements bit by bit and names the first that fails.
-/

namespace OctreeWorld

/-- Makes the payloads of nodes and levels. -/
structure PayloadFactory (N L : Type) where
  node : Coord → N
  level : UInt8 → L

namespace PayloadFactory

/-- Payloads for worlds that carry none. -/
def plain : PayloadFactory Unit Unit := ⟨fun _ => (), fun _ => ()⟩

end PayloadFactory

/-- The levels of a world or a region, finest first. -/
structure Hierarchy (N L : Type) where
  levels : List (Level N L)

namespace Hierarchy

variable {N L : Type}

/-- `count` levels without nodes. -/
def empty (factory : PayloadFactory N L) (count : UInt8) : Hierarchy N L :=
  ⟨(List.range count.toNat).map fun i =>
    Level.empty (UInt8.ofNat i) (factory.level (UInt8.ofNat i))⟩

def levelCount (h : Hierarchy N L) : UInt8 := UInt8.ofNat h.levels.length

/-- The index of the coarsest level, zero when there is no level. -/
def coarsest (h : Hierarchy N L) : UInt8 := if h.levelCount = 0 then 0 else h.levelCount - 1

def level? (h : Hierarchy N L) (index : UInt8) : Option (Level N L) := h.levels[index.toNat]?

/-- Change the level at an index; an index out of range changes nothing. -/
def modifyLevel (h : Hierarchy N L) (index : UInt8) (f : Level N L → Level N L) :
    Hierarchy N L :=
  ⟨h.levels.modify index.toNat f⟩

/-- Change the node at a coordinate; an absent one changes nothing. -/
def modify (h : Hierarchy N L) (c : Coord) (f : Node N → Node N) : Hierarchy N L :=
  h.modifyLevel c.level fun l => l.modify c f

def nodeCount (h : Hierarchy N L) : Nat := tally (h.levels.map Level.size)

def get? (h : Hierarchy N L) (c : Coord) : Option (Node N) :=
  (h.level? c.level).bind fun l => l.get? c

def contains (h : Hierarchy N L) (c : Coord) : Bool := (h.get? c).isSome

/-- Every resident node, finest level first and ordered by position. -/
def nodeList (h : Hierarchy N L) : List (Node N) := h.levels.flatMap Level.nodeList

/-- Refuse a level that the hierarchy does not have. -/
def checkLevel (h : Hierarchy N L) (level : UInt8) : Except OctreeError Unit :=
  if level < h.levelCount then .ok () else .error (.levelOutOfRange level h.levelCount)

/-! ### Linking -/

/-- The faces of a cell across which a node is stored. -/
def residentFaces (l : Level N L) (c : Coord) : List Direction :=
  Direction.all.filter fun d => l.nodes.contains (c.neighbour d).pos

/-- Set the bits that look back at a cell across some of its faces. -/
def linkBack (l : Level N L) (c : Coord) (faces : List Direction) : Level N L :=
  faces.foldl (fun l d => l.modifyAt (c.neighbour d).pos (·.linkNeighbour d.opposite)) l

/-- Clear the bits that look back at a cell across some of its faces. -/
def unlinkBack (l : Level N L) (c : Coord) (faces : List Direction) : Level N L :=
  faces.foldl (fun l d => l.modifyAt (c.neighbour d).pos (·.unlinkNeighbour d.opposite)) l

/-- Why a node cannot enter, if it cannot: its level, then its cell, then its parent. -/
def insertError? (h : Hierarchy N L) (c : Coord) : Option OctreeError :=
  if h.levelCount ≤ c.level then some (.levelOutOfRange c.level h.levelCount)
  else if h.contains c then some (.nodeExists c)
  else if c.level < h.coarsest && !h.contains c.parent then some (.parentMissing c c.parent)
  else none

/-- The node with its bits for the resident neighbours and the parent, and no others. -/
def linked (h : Hierarchy N L) (n : Node N) : Node N :=
  let faces := match h.level? n.coord.level with
    | some l => residentFaces l n.coord
    | none => []
  let n := faces.foldl (fun n d => n.linkNeighbour d) n.clearLinks
  if n.coord.level < h.coarsest then { n with parentIndex := some n.coord.octant.index } else n

/-- Insert a node and link it both ways with its resident neighbours and its parent. Link bits
that the node brings along are discarded. -/
def insert (h : Hierarchy N L) (n : Node N) : Except OctreeError (Hierarchy N L) :=
  let c := n.coord
  match h.insertError? c with
  | some e => .error e
  | none =>
    let node := h.linked n
    let h := h.modifyLevel c.level fun l => linkBack l c (residentFaces l c)
    let h := if c.level < h.coarsest then h.modify c.parent (·.linkChild c.octant) else h
    .ok (h.modifyLevel c.level fun l => { l with nodes := l.nodes.insertIfNew c.pos node })

/-- Unlink and remove a leaf. -/
def remove (h : Hierarchy N L) (c : Coord) : Except OctreeError (Hierarchy N L) := do
  h.checkLevel c.level
  match h.get? c with
  | none => .error (.nodeMissing c)
  | some n =>
    if !n.isLeaf then .error (.hasChildren c)
    else
      let h := h.modifyLevel c.level fun l =>
        let l := unlinkBack l c (Direction.all.filter n.hasNeighbour)
        { l with nodes := l.nodes.erase c.pos }
      match n.parentIndex with
      | some i => .ok (h.modify c.parent (·.unlinkChild (.ofIndex i)))
      | none => .ok h

/-! ### Walks

A walk goes down one level with every step, so it takes at most as many steps as there are level
indices. -/

/-- Steps that lead from the coarsest possible level below the finest. -/
def walkFuel : Nat := 256

/-- The subtree of a cell, children before their parent and the cell last. -/
def postOrderFrom (h : Hierarchy N L) : Nat → Coord → List Coord
  | 0, _ => []
  | fuel + 1, c =>
    (match h.get? c with
      | some n => n.childCoords.flatMap (postOrderFrom h fuel)
      | none => []) ++ [c]

/-- The resident descendants of a cell, every node before its own descendants. -/
def preOrderFrom (h : Hierarchy N L) : Nat → Coord → List Coord
  | 0, _ => []
  | fuel + 1, c =>
    match h.get? c with
    | some n => n.childCoords.flatMap fun child =>
        match h.get? child with
        | some m => m.coord :: preOrderFrom h fuel child
        | none => []
    | none => []

/-- The subtree of a resident cell, children before their parent and the cell last. -/
def subtree (h : Hierarchy N L) (root : Coord) : Except OctreeError (List Coord) := do
  h.checkLevel root.level
  if h.contains root then .ok (h.postOrderFrom walkFuel root) else .error (.nodeMissing root)

/-- The resident descendants of a cell in walking order, without the cell itself. -/
def descendants (h : Hierarchy N L) (root : Coord) : List Coord := h.preOrderFrom walkFuel root

/-! ### Checking the links -/

/-- The first fault across one face of a node. -/
def faceFault? (h : Hierarchy N L) (n : Node N) (d : Direction) : Option LinkFault :=
  match n.hasNeighbour d, h.get? (n.coord.neighbour d) with
  | true, none => some (.neighbourAbsent d)
  | false, some _ => some (.neighbourUnlinked d)
  | true, some other =>
    if other.hasNeighbour d.opposite then none else some (.neighbourOneSided d)
  | false, none => none

/-- The first fault between a node and its parent. -/
def parentFault? (h : Hierarchy N L) (n : Node N) : Option LinkFault :=
  if n.coord.level < h.coarsest then
    if n.parentIndex ≠ some n.coord.octant.index then
      some (.parentIndex n.parentIndex n.coord.octant)
    else
      match h.get? n.coord.parent with
      | none => some .parentAbsent
      | some p => if p.hasChild n.coord.octant then none else some .parentOneSided
  else if n.parentIndex.isSome then some .parentOnTop
  else none

/-- The fault of one child bit. -/
def childFault? (h : Hierarchy N L) (n : Node N) (o : Octant) : Option LinkFault :=
  let resident := ((n.coord.child? o).bind h.get?).isSome
  if n.hasChild o = resident then none else some (.childBit o)

/-- The first fault of the node stored under a position of a level. -/
def nodeFault? (h : Hierarchy N L) (l : Level N L) (pos : Position) (n : Node N) :
    Option LinkFault :=
  if n.coord.pos ≠ pos ∨ n.coord.level ≠ l.index then some (.misplaced pos l.index)
  else
    (Direction.all.findSome? (h.faceFault? n)).or <|
      (h.parentFault? n).or (Octant.all.findSome? (h.childFault? n))

/-- The first fault of a level. -/
def levelError? (h : Hierarchy N L) (l : Level N L) : Option OctreeError :=
  l.nodes.toList.findSome? fun (pos, n) => (h.nodeFault? l pos n).map (.brokenLink n.coord)

/-- Check every link, reporting the first that is broken. -/
def check (h : Hierarchy N L) : Except OctreeError Unit :=
  match h.levels.findSome? h.levelError? with
  | some e => .error e
  | none => .ok ()

end Hierarchy

end OctreeWorld
