import OctreeWorld.Position
import OctreeWorld.Saturating

/-!
# Coordinates of the octree

A coordinate is a position together with a level of detail, level 0 being the finest. Going one
level coarser halves each axis, rounding up from an even level and down from an odd one, so that
coarse cells stay roughly centred on the origin and no world extent has to be declared. A cell of
an even level `L ≥ 1` therefore has the children `2p` and `2p + 1` on each axis, a cell of an odd
level the children `2p - 1` and `2p`.

`Coord.origin` and `Coord.tileSize` measure a cell's footprint in level-0 cells.
-/

namespace OctreeWorld

/-- A cell position at a level of detail. -/
structure Coord where
  pos : Position
  level : UInt8
deriving DecidableEq, Inhabited

/-- One of the eight children of a cell: bit 0 is the `x` axis, bit 1 `y`, bit 2 `z`. -/
abbrev Octant := Fin 8

namespace Octant

def all : List Octant := [0, 1, 2, 3, 4, 5, 6, 7]

/-- The octant on the given side of each axis. -/
def ofSides (x y z : Bool) : Octant :=
  ⟨x.toNat + 2 * y.toNat + 4 * z.toNat, by
    cases x <;> cases y <;> cases z <;> decide⟩

/-- The number of an octant, in a byte. -/
def index (o : Octant) : UInt8 := UInt8.ofNat o.val

/-- The octant that the lowest bits of a byte number. -/
def ofIndex (i : UInt8) : Octant := Fin.ofNat 8 i.toNat

@[simp] theorem ofIndex_index (o : Octant) : ofIndex o.index = o := by
  revert o
  decide

/-- Displacement of an octant from octant 0. -/
def offset (o : Octant) : Position :=
  ⟨Int32.ofNat (o.val % 2), Int32.ofNat (o.val / 2 % 2), Int32.ofNat (o.val / 4)⟩

end Octant

/-- A face of a cell, named by the axis it crosses and the side it lies on. -/
inductive Direction where
  | negX
  | negY
  | negZ
  | posZ
  | posY
  | posX
deriving DecidableEq, Inhabited

namespace Direction

/-- The faces in link order. -/
def all : List Direction := [negX, negY, negZ, posZ, posY, posX]

/-- The place of a face in link order, which is also its bit in a neighbour mask. -/
def index : Direction → Nat
  | negX => 0
  | negY => 1
  | negZ => 2
  | posZ => 3
  | posY => 4
  | posX => 5

/-- The face at a place in link order. -/
def ofIndex? (i : Nat) : Option Direction := all[i]?

/-- The face that looks back across this one. In link order it stands as far from the end as this one
from the start. -/
def opposite : Direction → Direction
  | negX => posX
  | negY => posY
  | negZ => posZ
  | posZ => negZ
  | posY => negY
  | posX => negX

/-- One step across a face. -/
def offset : Direction → Position
  | negX => ⟨-1, 0, 0⟩
  | negY => ⟨0, -1, 0⟩
  | negZ => ⟨0, 0, -1⟩
  | posZ => ⟨0, 0, 1⟩
  | posY => ⟨0, 1, 0⟩
  | posX => ⟨1, 0, 0⟩

theorem opposite_opposite (d : Direction) : d.opposite.opposite = d := by cases d <;> rfl

theorem index_lt (d : Direction) : d.index < 6 := by cases d <;> decide

end Direction

namespace Coord

/-- Ordered by level, then by position: the order of commands and listings. -/
instance : Ord Coord where
  compare a b := (compare a.level b.level).then (compare a.pos b.pos)

theorem compare_def (a b : Coord) :
    compare a b = (compare a.level b.level).then (compare a.pos b.pos) := rfl

instance : Std.TransOrd Coord :=
  inferInstanceAs (Std.TransCmp (compareLex (compareOn level) (compareOn pos)))

instance : Std.LawfulEqOrd Coord where
  eq_of_compare {a b} h := by
    simp only [compare_def, Ordering.then_eq_eq, Std.compare_eq_iff_eq] at h
    cases a; cases b; simp_all

/-- Whether a level rounds up on the way to its parent level. -/
def roundsUp (level : UInt8) : Bool := level % 2 == 0

/-- One axis of the parent: half the count, rounded up or down by the level's parity. -/
def parentAxis (level : UInt8) (p : Int32) : Int32 :=
  if roundsUp level then Int32.ofInt ((p.toInt + 1) / 2) else Int32.ofInt (p.toInt / 2)

/-- The cell one level coarser that contains this one. Level 255 has no coarser level and is
its own parent. -/
def parent (c : Coord) : Coord :=
  if c.level = 255 then c else ⟨c.pos.map (parentAxis c.level), c.level + 1⟩

/-- `n` steps towards coarser levels. -/
def climb : Nat → Coord → Coord
  | 0, c => c
  | n + 1, c => climb n c.parent

/-- The containing cell at `level`, or the cell itself when `level` is not coarser. -/
def ancestor (c : Coord) (level : UInt8) : Coord :=
  climb (level.toNat - c.level.toNat) c

/-- One axis of the child at octant 0. Counts past the end of the word wrap. -/
def childAxis (level : UInt8) (p : Int32) : Int32 :=
  if roundsUp level then 2 * p else 2 * p - 1

/-- The child at octant 0, absent at the finest level. -/
def firstChild? (c : Coord) : Option Coord :=
  if c.level = 0 then none else some ⟨c.pos.map (childAxis c.level), c.level - 1⟩

/-- The child at an octant, absent at the finest level. -/
def child? (c : Coord) (o : Octant) : Option Coord :=
  c.firstChild?.map fun first => ⟨first.pos + o.offset, first.level⟩

/-- The children in octant order, none at the finest level. -/
def children (c : Coord) : List Coord := Octant.all.filterMap c.child?

/-- Whether a cell lies on the upper side of its parent along one axis: an even level anchors its
cells at `2P - 1`, an odd one at `2P`. -/
def upperSide (level : UInt8) (p : Int32) : Bool :=
  (p.toInt % 2 == 1) != roundsUp level

/-- The octant of a cell inside its parent. -/
def octant (c : Coord) : Octant :=
  Octant.ofSides (upperSide c.level c.pos.x) (upperSide c.level c.pos.y) (upperSide c.level c.pos.z)

/-- The cell across a face, at the same level. Counts past the end of the word wrap. -/
def neighbour (c : Coord) (d : Direction) : Coord := ⟨c.pos + d.offset, c.level⟩

/-- Edge length of the footprint in level-0 cells, which stops at the greatest word. -/
def tileSize (c : Coord) : Int32 :=
  if c.level.toNat < 31 then Int32.ofNat (Nat.pow 2 c.level.toNat) else 2147483647

/-- How far below its exact multiple of the tile a level's grid starts: the sum of the powers of
four below `2 * ⌈level / 2⌉`, while that sum fits a word. -/
def gridShift (level : UInt8) : Int :=
  Saturating.twoPow (2 * ((level.toNat + 1) / 2)) / 3

/-- One axis of the footprint's origin, in level-0 cells and clamped to the word. -/
def originAxis (level : UInt8) (p : Int32) : Int32 :=
  Saturating.toWord32
    (Saturating.sub (Saturating.mul p.toInt (Saturating.twoPow level.toNat)) (gridShift level))

/-- The least level-0 cell of the footprint. -/
def origin (c : Coord) : Position := c.pos.map (originAxis c.level)

/-- Apply a rule to every axis and keep the level. -/
def mapAxes (f : Int32 → Int32) (c : Coord) : Coord := ⟨c.pos.map f, c.level⟩

/-- Displace every axis by the same amount. -/
def shift (c : Coord) (n : Int32) : Coord := c.mapAxes (· + n)

/-- Displace every axis back by the same amount. -/
def unshift (c : Coord) (n : Int32) : Coord := c.mapAxes (· - n)

/-- Multiply every axis by the same factor. -/
def scale (c : Coord) (n : Int32) : Coord := c.mapAxes (· * n)

/-- Divide every axis, towards zero. A zero divisor gives the zero position. -/
def quotient (c : Coord) (n : Int32) : Coord := c.mapAxes fun p => if n = 0 then 0 else p / n

/-- Remainder of every axis, with the sign of the axis. A zero divisor gives the zero position. -/
def remainder (c : Coord) (n : Int32) : Coord := c.mapAxes fun p => if n = 0 then 0 else p % n

/-- Position in parentheses, then the level: `(1, -2, 3)@L4`. -/
def text (c : Coord) : String :=
  s!"({c.pos.x.toInt}, {c.pos.y.toInt}, {c.pos.z.toInt})@L{c.level.toNat}"

end Coord

end OctreeWorld
