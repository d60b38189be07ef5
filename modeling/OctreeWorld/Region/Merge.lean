import OctreeWorld.Region

/-!
# Merging regions

A merge moves every node and every pending command of a source region into a destination, coarsest
level first, so that parents arrive before their children and every node is relinked with what is
resident already. Two copies of one cell are folded into one.
-/

namespace OctreeWorld

/-- What a merge did. -/
structure MergeStats where
  /-- Nodes moved into empty cells. -/
  moved : Nat := 0
  /-- Nodes folded into a resident copy. -/
  collisions : Nat := 0
  /-- Pending commands carried over. -/
  commands : Nat := 0
deriving DecidableEq, Inhabited

namespace MergeStats

instance : Add MergeStats where
  add a b := ⟨a.moved + b.moved, a.collisions + b.collisions, a.commands + b.commands⟩

end MergeStats

namespace Hierarchy

variable {N L : Type}

/-- Take in nodes one by one, stopping at the first that is refused. -/
def receive : List (Node N) → Hierarchy N L → Except OctreeError MergeStats × Hierarchy N L
  | [], h => (.ok {}, h)
  | n :: ns, h =>
    if h.contains n.coord then
      let (r, h) := receive ns (h.modify n.coord (·.absorb n))
      (r.map (· + { collisions := 1 }), h)
    else
      match h.insert n with
      | .error e => (.error e, h)
      | .ok h =>
        let (r, h) := receive ns h
        (r.map (· + { moved := 1 }), h)

/-- Move one level's nodes and commands from a source to a destination. -/
def mergeLevel (index : UInt8) (source destination : Hierarchy N L) :
    Except OctreeError MergeStats × Hierarchy N L × Hierarchy N L :=
  match source.level? index with
  | none => (.ok {}, source, destination)
  | some l =>
    let source := source.modifyLevel index fun l => { l with nodes := ∅, queues := {} }
    let (r, destination) := receive l.nodeList destination
    match r with
    | .error e => (.error e, source, destination)
    | .ok stats =>
      (.ok (stats + { commands := l.pendingTotal }), source,
        destination.modifyLevel index fun d => { d with queues := d.queues.appendAll l.queues })

/-- Move the nodes and commands of several levels in turn, stopping at the first refusal. -/
def mergeLevels : List UInt8 → Hierarchy N L → Hierarchy N L →
    Except OctreeError MergeStats × Hierarchy N L × Hierarchy N L
  | [], source, destination => (.ok {}, source, destination)
  | index :: rest, source, destination =>
    match mergeLevel index source destination with
    | (.error e, source, destination) => (.error e, source, destination)
    | (.ok stats, source, destination) =>
      let (r, source, destination) := mergeLevels rest source destination
      (r.map (stats + ·), source, destination)

/-- The resident coordinates that nobody observes. -/
def unobservedCoords (h : Hierarchy N L) : CoordSet :=
  CoordSet.addAll ∅ ((h.nodeList.filter (·.observers == 0)).map (·.coord))

end Hierarchy

namespace Region

variable {N L : Type}

/-- Move every node, command and loader of a source into a destination. The source is left empty.
Answers the counts, then the source and the destination. -/
def merge (source destination : Region N L) :
    Except OctreeError MergeStats × Region N L × Region N L :=
  let from_ := source.hierarchy
  let into := destination.hierarchy
  if source.id = destination.id then (.error (.selfMerge source.id), source, destination)
  else if from_.levelCount ≠ into.levelCount then
    (.error (.levelCountMismatch from_.levelCount into.levelCount), source, destination)
  else
    match Hierarchy.mergeLevels from_.indices.reverse from_ into with
    | (.error e, from_, into) =>
      (.error e, { source with hierarchy := from_ }, { destination with hierarchy := into })
    | (.ok stats, from_, into) =>
      (.ok stats,
        { source with hierarchy := from_, loaders := ∅, changed := ∅, unobserved := ∅ },
        { destination with
          hierarchy := into
          loaders := destination.loaders.insertMany source.loaders.toList
          changed := destination.changed.addAll source.changed.toList
          unobserved := into.unobservedCoords
          box := destination.box.union source.box })

end Region

end OctreeWorld
