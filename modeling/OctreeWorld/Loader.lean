import OctreeWorld.Coord

/-!
# Loaders and their spheres

A loader keeps the cells around a position resident, on the levels it covers and with the same
radius in cells on each. A cell lies in the sphere when it comes closer than the radius to the
centre of the centre cell. Twice the gap between cell and centre is an integer, so the test runs
on doubled lengths and never leaves the integers.
-/

namespace OctreeWorld

namespace Sphere

/-- The integers from `-r` to `r`, in order. -/
def span (r : Nat) : List Int := (List.range (2 * r + 1)).map fun i : Nat => (i : Int) - (r : Int)

/-- Square of twice the gap along one axis between a cell `d` cells away and the centre. -/
def gapSquared (d : Int) : Int :=
  let gap := max (2 * (d.natAbs : Int) - 1) 0
  Saturating.mul gap gap

/-- The radius in use: no sphere reaches further than a position can differ. -/
def reach (radius : UInt32) : Nat := min radius.toNat 2147483647

/-- Square of twice the radius, which a cell's squared gap has to stay below. -/
def limit (radius : UInt32) : Int :=
  Saturating.mul 4 (Saturating.mul (reach radius) (reach radius))

/-- Step along one axis, absent when the word ends first. -/
def step? (p : Int32) (d : Int) : Option Int32 :=
  let q := p.toInt + d
  if -2147483648 ≤ q ∧ q ≤ 2147483647 then some (Int32.ofInt q) else none

/-- The cells of one row of a sphere, `used` being the square already taken by the other axes. -/
def row (center : Coord) (r : Nat) (bound : Int) (y z : Int32) (used : Int) : List Coord :=
  (span r).filterMap fun dx =>
    if Saturating.add used (gapSquared dx) < bound then
      (step? center.pos.x dx).map fun x => ⟨⟨x, y, z⟩, center.level⟩
    else none

/-- The cells of one layer of a sphere. -/
def layer (center : Coord) (r : Nat) (bound : Int) (z : Int32) (used : Int) : List Coord :=
  (span r).flatMap fun dy =>
    let total := Saturating.add used (gapSquared dy)
    if total < bound then
      match step? center.pos.y dy with
      | some y => row center r bound y z total
      | none => []
    else []

/-- The cells of the sphere around a cell, ordered by `z`, then `y`, then `x`. Cells beyond the
end of the word are left out; a zero radius holds none. -/
def cells (center : Coord) (radius : UInt32) : List Coord :=
  if radius = 0 then []
  else
    let r := reach radius
    let bound := limit radius
    (span r).flatMap fun dz =>
      let used := gapSquared dz
      if used < bound then
        match step? center.pos.z dz with
        | some z => layer center r bound z used
        | none => []
      else []

end Sphere

/-- An observer of the world that keeps its surroundings resident. -/
structure Loader where
  /-- Where the loader is, in level-0 cells. -/
  position : Position := Position.zero
  /-- Radius of the sphere on each covered level, in cells of that level. -/
  radius : UInt32 := 1
  /-- The finest covered level. -/
  minLevel : UInt8 := 0
  /-- The level at which coverage ends; it is not covered itself. -/
  maxLevel : UInt8 := 1
  /-- Load requests are issued on ticks divisible by the cadence. -/
  cadence : UInt32 := 1
deriving DecidableEq, Inhabited

namespace Loader

/-- Whether a level lies in the loader's range. -/
def covers (l : Loader) (level : UInt8) : Bool :=
  decide (l.minLevel ≤ level) && decide (level < l.maxLevel)

/-- Whether the loader requests loads on a tick. A cadence of zero means every tick, as one. -/
def isActive (l : Loader) (tick : UInt64) : Bool :=
  decide (l.cadence ≤ 1) || tick % l.cadence.toUInt64 == 0

/-- The cell of a level that holds the loader. -/
def center (l : Loader) (level : UInt8) : Coord := (Coord.mk l.position 0).ancestor level

/-- The cells of a level that the loader keeps resident, none on a level outside its range. -/
def cells (l : Loader) (level : UInt8) : List Coord :=
  if l.covers level then Sphere.cells (l.center level) l.radius else []

end Loader

end OctreeWorld
