import OctreeWorld.Coord
import OctreeWorld.Time

/-!
# Nodes

A node is a resident cell. Its links to parent, children and neighbours are presence bits: the
linked coordinates follow from the node's own coordinate, so a node never refers to another one.
Only the hierarchy writes link bits.
-/

namespace OctreeWorld

/-- Where a resident node is in its life. -/
inductive NodeState where
  | unloaded
  | loading
  | loaded
  | unloading
  | deleting
deriving DecidableEq, Inhabited

namespace NodeState

def all : List NodeState := [unloaded, loading, loaded, unloading, deleting]

def text : NodeState → String
  | unloaded => "unloaded"
  | loading => "loading"
  | loaded => "loaded"
  | unloading => "unloading"
  | deleting => "deleting"

/-- The name under which data formats know the state. -/
def identifier : NodeState → String
  | unloaded => "Unloaded"
  | loading => "Loading"
  | loaded => "Loaded"
  | unloading => "Unloading"
  | deleting => "Deleting"

end NodeState

/-- Bits of an eight-child mask. -/
abbrev ChildMask := BitVec 8

/-- Bits of a six-neighbour mask. -/
abbrev NeighbourMask := BitVec 6

/-- A resident cell with a payload. -/
structure Node (N : Type) where
  coord : Coord
  state : NodeState := .unloaded
  /-- The number of the octant inside the parent, absent without a parent. -/
  parentIndex : Option UInt8 := none
  childMask : ChildMask := 0
  neighbourMask : NeighbourMask := 0
  observers : UInt32 := 0
  version : UInt32 := 0
  lastUpdate : SimTime := SimTime.zero
  data : N

namespace Node

variable {N : Type}

/-- A node that has just been made: unloaded and unlinked. -/
def fresh (coord : Coord) (data : N) : Node N := { coord, data }

/-- The linked parent. -/
def parentCoord? (n : Node N) : Option Coord := n.parentIndex.map fun _ => n.coord.parent

def hasChild (n : Node N) (o : Octant) : Bool := n.childMask.getLsbD o.val

def isLeaf (n : Node N) : Bool := n.childMask == 0

/-- The linked children in octant order. -/
def childCoords (n : Node N) : List Coord :=
  (Octant.all.filter n.hasChild).filterMap n.coord.child?

def hasNeighbour (n : Node N) (d : Direction) : Bool := n.neighbourMask.getLsbD d.index

/-- The linked neighbours, with their faces, in link order. -/
def neighbourCoords (n : Node N) : List (Direction × Coord) :=
  (Direction.all.filter n.hasNeighbour).map fun d => (d, n.coord.neighbour d)

def withState (n : Node N) (s : NodeState) : Node N := { n with state := s }

/-- Count one change of the payload. The count sticks at its greatest value. -/
def bumpVersion (n : Node N) : Node N :=
  { n with version := if n.version = 4294967295 then n.version else n.version + 1 }

/-- Adopt a version seen elsewhere, unless the node's own is higher. -/
def raiseVersion (n : Node N) (v : UInt32) : Node N := { n with version := max n.version v }

/-- Stamp the node as needed at a time. The stamp never moves back. -/
def touch (n : Node N) (now : SimTime) : Node N :=
  { n with lastUpdate := n.lastUpdate.latest now }

/-- Whether nothing has touched the node for longer than a span. -/
def isExpired (n : Node N) (now : SimTime) (timeout : Duration) : Bool :=
  decide (timeout.nanos < (now.since n.lastUpdate).nanos)

/-- A loaded leaf that nobody observes and that nothing has touched for longer than a span. -/
def isUnused (n : Node N) (now : SimTime) (timeout : Duration) : Bool :=
  n.isLeaf && n.observers == 0 && n.state == .loaded && n.isExpired now timeout

/-- Count sums of observers stick at the greatest value. -/
def addCounts (a b : UInt32) : UInt32 := UInt32.ofNat (min (a.toNat + b.toNat) 4294967295)

def addObserver (n : Node N) : Node N := { n with observers := addCounts n.observers 1 }

/-- Release one observer, absent when there is none. -/
def removeObserver? (n : Node N) : Option (Node N) :=
  if n.observers = 0 then none else some { n with observers := n.observers - 1 }

def clearLinks (n : Node N) : Node N :=
  { n with parentIndex := none, childMask := 0, neighbourMask := 0 }

def linkChild (n : Node N) (o : Octant) : Node N :=
  { n with childMask := n.childMask ||| BitVec.twoPow 8 o.val }

def unlinkChild (n : Node N) (o : Octant) : Node N :=
  { n with childMask := n.childMask &&& ~~~ BitVec.twoPow 8 o.val }

def linkNeighbour (n : Node N) (d : Direction) : Node N :=
  { n with neighbourMask := n.neighbourMask ||| BitVec.twoPow 6 d.index }

def unlinkNeighbour (n : Node N) (d : Direction) : Node N :=
  { n with neighbourMask := n.neighbourMask &&& ~~~ BitVec.twoPow 6 d.index }

/-- Fold another copy of the same cell into this node. The copy with the higher version gives
payload, state and version, this node on a tie; observers add up, the later stamp stays, and the
links are left alone. -/
def absorb (n other : Node N) : Node N :=
  let newer := if n.version < other.version
    then { n with data := other.data, state := other.state, version := other.version } else n
  { newer with observers := addCounts n.observers other.observers }.touch other.lastUpdate

end Node

end OctreeWorld
