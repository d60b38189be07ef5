import OctreeWorld.Node
import OctreeWorld.Tally
import Std.Data.ExtTreeMap
import Std.Data.ExtTreeSet

/-!
# Levels and their queues

A level holds the resident nodes of one grid, the level's payload and its pending commands. The
nodes form a map from positions, so two levels with the same nodes are equal whatever their
history. A queue is a list of coordinates in the order of their requests; draining one turns it
into a set, so order and repetition of requests do not matter.
-/

namespace OctreeWorld

/-- A set of coordinates, listed by level and then by position. -/
abbrev CoordSet := Std.ExtTreeSet Coord

namespace CoordSet

/-- Add every coordinate of a list. -/
def addAll (s : CoordSet) (cs : List Coord) : CoordSet := s.insertMany cs

/-- Take every coordinate of a list out. -/
def removeAll (s : CoordSet) (cs : List Coord) : CoordSet := cs.foldl (fun s c => s.erase c) s

/-- Each coordinate of a list once, in order. -/
def sorted (cs : List Coord) : List Coord := (Std.ExtTreeSet.ofList cs : CoordSet).toList

end CoordSet

/-- The commands a level can have pending. A destroy command waits for nodes whose unload has
already run. -/
inductive Queue where
  | create
  | load
  | unload
  | tick
  | destroy
deriving DecidableEq, Inhabited

namespace Queue

def all : List Queue := [create, load, unload, tick, destroy]

def text : Queue → String
  | create => "create"
  | load => "load"
  | unload => "unload"
  | tick => "tick"
  | destroy => "destroy"

end Queue

/-- The pending commands of one level, oldest first. -/
structure Queues where
  create : List Coord := []
  load : List Coord := []
  unload : List Coord := []
  tick : List Coord := []
  destroy : List Coord := []
deriving DecidableEq, Inhabited

namespace Queues

def get (qs : Queues) : Queue → List Coord
  | .create => qs.create
  | .load => qs.load
  | .unload => qs.unload
  | .tick => qs.tick
  | .destroy => qs.destroy

def set (qs : Queues) (q : Queue) (cs : List Coord) : Queues :=
  match q with
  | .create => { qs with create := cs }
  | .load => { qs with load := cs }
  | .unload => { qs with unload := cs }
  | .tick => { qs with tick := cs }
  | .destroy => { qs with destroy := cs }

/-- Put commands behind those already pending. -/
def append (qs : Queues) (q : Queue) (cs : List Coord) : Queues := qs.set q (qs.get q ++ cs)

/-- Put every command of other queues behind those already pending. -/
def appendAll (qs others : Queues) : Queues :=
  ⟨qs.create ++ others.create, qs.load ++ others.load, qs.unload ++ others.unload,
    qs.tick ++ others.tick, qs.destroy ++ others.destroy⟩

/-- Commands pending in all queues together. -/
def total (qs : Queues) : Nat := tally (Queue.all.map fun q => (qs.get q).length)

theorem get_set (qs : Queues) (q p : Queue) (cs : List Coord) :
    (qs.set q cs).get p = if q = p then cs else qs.get p := by
  cases q <;> cases p <;> rfl

theorem get_append (qs : Queues) (q p : Queue) (cs : List Coord) :
    (qs.append q cs).get p = if q = p then qs.get p ++ cs else qs.get p := by
  cases q <;> cases p <;> rfl

theorem get_appendAll (qs others : Queues) (q : Queue) :
    (qs.appendAll others).get q = qs.get q ++ others.get q := by
  cases q <;> rfl

end Queues

/-- One grid of the world: resident nodes, payload and pending commands. -/
structure Level (N L : Type) where
  index : UInt8
  nodes : Std.ExtTreeMap Position (Node N) := ∅
  queues : Queues := {}
  data : L

namespace Level

variable {N L : Type}

/-- A level without nodes or commands. -/
def empty (index : UInt8) (data : L) : Level N L := { index, data }

/-- Resident nodes. -/
def size (l : Level N L) : Nat := l.nodes.size

/-- The node at a coordinate, absent when the coordinate belongs to another level. -/
def get? (l : Level N L) (c : Coord) : Option (Node N) :=
  if c.level = l.index then l.nodes[c.pos]? else none

def contains (l : Level N L) (c : Coord) : Bool := (l.get? c).isSome

/-- The resident nodes ordered by position. -/
def nodeList (l : Level N L) : List (Node N) := l.nodes.values

/-- Change the node stored at a position. -/
def modifyAt (l : Level N L) (p : Position) (f : Node N → Node N) : Level N L :=
  { l with nodes := l.nodes.modify p f }

/-- Change the node at a coordinate; a coordinate of another level changes nothing. -/
def modify (l : Level N L) (c : Coord) (f : Node N → Node N) : Level N L :=
  if c.level = l.index then l.modifyAt c.pos f else l

/-- Change every node of a list of coordinates. -/
def modifyAll (l : Level N L) (cs : List Coord) (f : Node N → Node N) : Level N L :=
  cs.foldl (fun l c => l.modify c f) l

/-- Change every resident node. -/
def mapNodes (l : Level N L) (f : Node N → Node N) : Level N L :=
  { l with nodes := l.nodes.map fun _ n => f n }

/-- The coordinates of a list that belong to this level. -/
def own (l : Level N L) (cs : List Coord) : List Coord := cs.filter fun c => c.level == l.index

/-- Queue commands. Coordinates of other levels are dropped. -/
def pushAll (l : Level N L) (q : Queue) (cs : List Coord) : Level N L :=
  { l with queues := l.queues.append q (l.own cs) }

/-- Queue one command. A coordinate of another level is dropped. -/
def push (l : Level N L) (q : Queue) (c : Coord) : Level N L := l.pushAll q [c]

/-- Whether a command for the coordinate can be queued here. -/
def accepts (l : Level N L) (c : Coord) : Bool := c.level == l.index

def pending (l : Level N L) (q : Queue) : List Coord := l.queues.get q

def pendingTotal (l : Level N L) : Nat := l.queues.total

/-- Forget the pending commands of a queue. -/
def clear (l : Level N L) (q : Queue) : Level N L := { l with queues := l.queues.set q [] }

/-- The pending commands of a queue, each once and in order. -/
def drained (l : Level N L) (q : Queue) : List Coord := CoordSet.sorted (l.pending q)

end Level

end OctreeWorld
