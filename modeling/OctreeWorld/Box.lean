import OctreeWorld.Coord

/-!
# Boxes of level-0 cells

A box is half-open: it holds the cells from `lo` up to, and without, `hi`. A box whose `lo` does
not lie below its `hi` on every axis holds no cell; such a box is still a value and joins as the
neutral element of `union`.
-/

namespace OctreeWorld

/-- The level-0 cells from `lo` up to, and without, `hi`. -/
structure Box where
  lo : Position
  hi : Position
deriving DecidableEq, Inhabited

namespace Box

/-- From the least to the greatest count on every axis. -/
def everything : Box := ⟨Position.splat (-2147483648), Position.splat 2147483647⟩

/-- The box between two corners given in any order. -/
def ofCorners (a b : Position) : Box := ⟨a.zipWith min b, a.zipWith max b⟩

/-- The footprint of a cell. -/
def ofCoord (c : Coord) : Box := ⟨c.origin, c.origin + Position.splat c.tileSize⟩

/-- Whether the box holds no cell. -/
def isEmpty (b : Box) : Bool := b.lo.anyAxis (fun l h => decide (h ≤ l)) b.hi

def contains (b : Box) (p : Position) : Bool :=
  b.lo.allAxes (fun l q => decide (l ≤ q)) p && p.allAxes (fun q h => decide (q < h)) b.hi

def intersects (a b : Box) : Bool :=
  a.lo.allAxes (fun l h => decide (l < h)) b.hi && b.lo.allAxes (fun l h => decide (l < h)) a.hi

/-- Whether some part of the cell's footprint lies in the box. -/
def intersectsCoord (b : Box) (c : Coord) : Bool := b.intersects (ofCoord c)

/-- The smallest box that holds both. An empty box adds nothing. -/
def union (a b : Box) : Box :=
  if a.isEmpty then b
  else if b.isEmpty then a
  else ⟨a.lo.zipWith min b.lo, a.hi.zipWith max b.hi⟩

/-- Cells along each axis, zero on an axis that holds none. -/
def size (b : Box) : Position := (b.hi - b.lo).map (max 0)

/-- Both corners, with the bracket of each end: `[[0, 0, 0] .. [2, 2, 2])`. -/
def text (b : Box) : String := "[" ++ b.lo.text ++ " .. " ++ b.hi.text ++ ")"

/-- The box as the diagnostic listings write it. -/
def diagnostic (b : Box) : String :=
  "Aabb \x7b min: " ++ b.lo.diagnostic ++ ", max: " ++ b.hi.diagnostic ++ " \x7d"

end Box

end OctreeWorld
