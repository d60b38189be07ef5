import OctreeWorld.Identifier
import OctreeWorld.Node

/-!
# Errors of the octree

Every way in which an operation on a hierarchy, a world or a region can be refused, and every way
in which links can be found broken, with the text of each.
-/

namespace OctreeWorld

/-- What is wrong with the links of a node. -/
inductive LinkFault where
  /-- The node lies under a position or on a level that is not its own. -/
  | misplaced (pos : Position) (level : UInt8)
  | neighbourAbsent (d : Direction)
  | neighbourUnlinked (d : Direction)
  | neighbourOneSided (d : Direction)
  | parentIndex (found : Option UInt8) (expected : Octant)
  | parentAbsent
  | parentOneSided
  | parentOnTop
  | childBit (o : Octant)
deriving DecidableEq

namespace LinkFault

/-- The number of the octant that a node names as its own, as the messages write it. -/
def indexText : Option UInt8 → String
  | none => "None"
  | some i => s!"Some({i.toNat})"

def message : LinkFault → String
  | misplaced pos level => "stored under " ++ pos.text ++ s!" at level {level.toNat}"
  | neighbourAbsent d => s!"neighbour {d.index} is not resident"
  | neighbourUnlinked d => s!"neighbour {d.index} is resident but unlinked"
  | neighbourOneSided d => s!"neighbour {d.index} does not link back"
  | parentIndex found expected =>
    "parent index is " ++ indexText found ++ s!", expected {expected.val}"
  | parentAbsent => "parent is not resident"
  | parentOneSided => "parent does not link back"
  | parentOnTop => "coarsest node has a parent"
  | childBit o => s!"child bit {o.val} disagrees with residency"

end LinkFault

/-- Why an operation was refused. -/
inductive OctreeError where
  | levelOutOfRange (level levelCount : UInt8)
  | nodeExists (c : Coord)
  | nodeMissing (c : Coord)
  | parentMissing (c parent : Coord)
  | hasChildren (c : Coord)
  | noObservers (c : Coord)
  | regionNotFound (id : RegionId)
  | selfMerge (id : RegionId)
  | levelCountMismatch (source destination : UInt8)
  | brokenLink (c : Coord) (fault : LinkFault)
deriving DecidableEq

namespace OctreeError

def message : OctreeError → String
  | levelOutOfRange level count =>
    s!"level {level.toNat} is outside the configured range 0..{count.toNat}"
  | nodeExists c => "a node already exists at " ++ c.text
  | nodeMissing c => "no node resident at " ++ c.text
  | parentMissing c parent =>
    "cannot create " ++ c.text ++ ": parent " ++ parent.text ++ " is not resident"
  | hasChildren c => "cannot remove " ++ c.text ++ " while it still has children"
  | noObservers c => "node " ++ c.text ++ " has no observers to release"
  | regionNotFound id => "region not found: " ++ id.short
  | selfMerge id => "cannot merge region " ++ id.short ++ " into itself"
  | levelCountMismatch source destination =>
    s!"level count mismatch: {source.toNat} vs {destination.toNat}"
  | brokenLink c fault => "broken link at " ++ c.text ++ ": " ++ fault.message

end OctreeError

end OctreeWorld
