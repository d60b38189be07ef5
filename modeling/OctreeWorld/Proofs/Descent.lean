import Mathlib.Logic.Basic
import OctreeWorld.Proofs.Family

/-!
# Going down and back up

Going up never wraps, so a cell comes back from its parent at its own octant wherever it lies. Going
down wraps for cells near the end of the word: the child at an octant is then another parent's cell.
As long as the exact position of the child fits the word, going down and back up leads back as well.
-/

namespace OctreeWorld

/-- The number fits a signed 32-bit word. -/
def InWord (n : Int) : Prop := -2147483648 ≤ n ∧ n ≤ 2147483647

instance (n : Int) : Decidable (InWord n) :=
  inferInstanceAs (Decidable (-2147483648 ≤ n ∧ n ≤ 2147483647))

namespace InWord

theorem toInt_ofInt {n : Int} (fits : InWord n) : (Int32.ofInt n).toInt = n := by
  obtain ⟨lower, upper⟩ := fits
  exact Int32.toInt_ofInt_of_le (by omega) (by omega)

theorem of_toInt (p : Int32) : InWord p.toInt := by
  have lower := p.le_toInt
  have upper := p.toInt_lt
  exact ⟨by omega, by omega⟩

end InWord

namespace Position

/-- The counts that make up a position. -/
def axes : List (Position → Int32) := [x, y, z]

theorem forall_mem_axes {P : (Position → Int32) → Prop} :
    (∀ axis ∈ axes, P axis) ↔ P x ∧ P y ∧ P z := by
  simp [axes]

theorem allAxes_iff {r : Int32 → Int32 → Bool} {p q : Position} :
    p.allAxes r q = true ↔ ∀ axis ∈ axes, r (axis p) (axis q) = true := by
  rw [forall_mem_axes, allAxes, Bool.and_eq_true, Bool.and_eq_true, and_assoc]

theorem anyAxis_eq_false_iff {r : Int32 → Int32 → Bool} {p q : Position} :
    p.anyAxis r q = false ↔ ∀ axis ∈ axes, r (axis p) (axis q) = false := by
  rw [forall_mem_axes, anyAxis, Bool.or_eq_false_iff, Bool.or_eq_false_iff, and_assoc]

theorem axis_map (f : Int32 → Int32) (p : Position) :
    ∀ axis ∈ axes, axis (p.map f) = f (axis p) :=
  forall_mem_axes.mpr ⟨rfl, rfl, rfl⟩

theorem axis_zipWith (f : Int32 → Int32 → Int32) (p q : Position) :
    ∀ axis ∈ axes, axis (p.zipWith f q) = f (axis p) (axis q) :=
  forall_mem_axes.mpr ⟨rfl, rfl, rfl⟩

theorem axis_add (p q : Position) : ∀ axis ∈ axes, axis (p + q) = axis p + axis q :=
  forall_mem_axes.mpr ⟨rfl, rfl, rfl⟩

theorem axis_splat (n : Int32) : ∀ axis ∈ axes, axis (splat n) = n :=
  forall_mem_axes.mpr ⟨rfl, rfl, rfl⟩

theorem ext_axes {p q : Position} (same : ∀ axis ∈ axes, axis p = axis q) : p = q := by
  obtain ⟨hx, hy, hz⟩ := forall_mem_axes.mp same
  obtain ⟨px, py, pz⟩ := p
  exact congr (congrArg₂ mk hx hy) hz

end Position

namespace Octant

/-- Along each axis an octant is displaced by nothing or by one cell. -/
theorem toInt_offset (o : Octant) :
    ∀ axis ∈ Position.axes, (axis o.offset).toInt = 0 ∨ (axis o.offset).toInt = 1 := by
  revert o
  decide

theorem getElem?_all (o : Octant) : all[o.val]? = some o := by
  revert o
  decide

end Octant

namespace Coord

/-- One axis of a child in exact integers, on the side that is displaced by `bit`: `2p` or `2p + 1`
below an even level, `2p - 1` or `2p` below an odd one. -/
def exactChildAxis (level : UInt8) (p bit : Int32) : Int :=
  (if roundsUp level then 2 * p.toInt else 2 * p.toInt - 1) + bit.toInt

/-- The exact position of the child at an octant fits the word. -/
def ChildFits (c : Coord) (o : Octant) : Prop :=
  ∀ axis ∈ Position.axes, InWord (exactChildAxis c.level (axis c.pos) (axis o.offset))

instance (c : Coord) (o : Octant) : Decidable (c.ChildFits o) :=
  List.decidableBAll (fun axis : Position → Int32 =>
    InWord (exactChildAxis c.level (axis c.pos) (axis o.offset))) Position.axes

theorem roundsUp_pred (level : UInt8) : roundsUp (level - 1) = !roundsUp level := by
  have up := roundsUp_succ (level - 1)
  rw [UInt8.sub_add_cancel] at up
  rw [up, Bool.not_not]

/-! ### One axis -/

/-- A child's position is the exact one, wrapped to the word. -/
theorem childAxis_add (level : UInt8) (p bit : Int32) :
    childAxis level p + bit = Int32.ofInt (exactChildAxis level p bit) := by
  have twice : 2 * p = Int32.ofInt (2 * p.toInt) := by
    rw [Int32.ofInt_mul, Int32.ofInt_toInt]
    rfl
  rw [exactChildAxis, Int32.ofInt_add, Int32.ofInt_toInt, childAxis, twice]
  congr 1
  split
  · rfl
  · exact (Int32.ofInt_sub _ 1).symm

theorem toInt_childAxis_add {level : UInt8} {p bit : Int32}
    (fits : InWord (exactChildAxis level p bit)) :
    (childAxis level p + bit).toInt = exactChildAxis level p bit := by
  rw [childAxis_add, fits.toInt_ofInt]

/-- Half of a word, rounded either way, fits the word. -/
theorem toInt_parentAxis (level : UInt8) (p : Int32) :
    (parentAxis level p).toInt = if roundsUp level then (p.toInt + 1) / 2 else p.toInt / 2 := by
  obtain ⟨lower, upper⟩ := InWord.of_toInt p
  unfold parentAxis
  split
  · exact InWord.toInt_ofInt ⟨by omega, by omega⟩
  · exact InWord.toInt_ofInt ⟨by omega, by omega⟩

/-- Along one axis, going down on either side and back up leads back, unless the count wraps. -/
theorem parentAxis_childAxis {level : UInt8} {p bit : Int32} (side : bit.toInt = 0 ∨ bit.toInt = 1)
    (fits : InWord (exactChildAxis level p bit)) :
    parentAxis (level - 1) (childAxis level p + bit) = p := by
  rw [← Int32.toInt_inj, toInt_parentAxis, roundsUp_pred, toInt_childAxis_add fits, exactChildAxis]
  cases roundsUp level with
  | true => simp only [Bool.not_true, Bool.false_eq_true, if_true, if_false]; omega
  | false => simp only [Bool.not_false, Bool.false_eq_true, if_true, if_false]; omega

/-! ### Children -/

theorem level_ne_of_le {c : Coord} (above : 1 ≤ c.level) : c.level ≠ 0 := by
  intro finest
  rw [finest] at above
  exact absurd above (by decide)

theorem child?_eq_some {c : Coord} (above : c.level ≠ 0) (o : Octant) :
    c.child? o = some ⟨c.pos.map (childAxis c.level) + o.offset, c.level - 1⟩ := by
  rw [child?, firstChild?, if_neg above, Option.map_some]

theorem level_ne_of_child? {c e : Coord} {o : Octant} (down : c.child? o = some e) :
    c.level ≠ 0 := by
  intro finest
  rw [child?, firstChild?, if_pos finest] at down
  cases down

theorem eq_of_child? {c e : Coord} {o : Octant} (down : c.child? o = some e) :
    e = ⟨c.pos.map (childAxis c.level) + o.offset, c.level - 1⟩ := by
  rw [child?_eq_some (level_ne_of_child? down)] at down
  exact (Option.some.inj down).symm

theorem toNat_level_of_child? {c e : Coord} {o : Octant} (down : c.child? o = some e) :
    e.level.toNat + 1 = c.level.toNat := by
  have above : c.level.toNat ≠ 0 := fun finest =>
    level_ne_of_child? down (UInt8.toNat_inj.mp finest)
  have bound := c.level.toNat_lt
  rw [eq_of_child? down, UInt8.toNat_sub, UInt8.toNat_one]
  omega

theorem level_ne_top_of_child? {c e : Coord} {o : Octant} (down : c.child? o = some e) :
    e.level ≠ 255 := by
  have level := toNat_level_of_child? down
  exact level_ne_of_lt (UInt8.lt_iff_toNat_lt.mpr (show e.level.toNat < c.level.toNat by omega))

/-- The children are listed in octant order. -/
theorem getElem?_children {c : Coord} (above : c.level ≠ 0) (o : Octant) :
    c.children[o.val]? = c.child? o := by
  have total : c.child? =
      some ∘ fun o : Octant => ⟨c.pos.map (childAxis c.level) + o.offset, c.level - 1⟩ :=
    funext (child?_eq_some above)
  rw [children, total, List.filterMap_eq_map, List.getElem?_map, Octant.getElem?_all]
  rfl

section Fits

variable {c e : Coord} {o : Octant} (fits : c.ChildFits o) (down : c.child? o = some e)

include fits down

/-- A child that fits lies where the exact integers say. -/
theorem exact_of_child? : ∀ axis ∈ Position.axes,
    (axis e.pos).toInt = exactChildAxis c.level (axis c.pos) (axis o.offset) := by
  intro axis listed
  rw [eq_of_child? down, Position.axis_add _ _ axis listed, Position.axis_map _ _ axis listed,
    toInt_childAxis_add (fits axis listed)]

theorem parent_of_child? : e.parent = c := by
  have below := level_ne_top_of_child? down
  have up : e.pos.map (parentAxis e.level) = c.pos := by
    refine Position.ext_axes fun axis listed => ?_
    rw [Position.axis_map _ _ axis listed, eq_of_child? down, Position.axis_add _ _ axis listed,
      Position.axis_map _ _ axis listed,
      parentAxis_childAxis (o.toInt_offset axis listed) (fits axis listed)]
  have level : e.level + 1 = c.level := by
    rw [eq_of_child? down]
    exact UInt8.sub_add_cancel c.level 1
  rw [parent, if_neg below, up, level]

theorem octant_of_childFits : e.octant = o :=
  octant_of_child? (level_ne_top_of_child? down) (parent_of_child? fits down) down

end Fits

/-- Every cell below the coarsest level is the child of its parent at its own octant and at no other,
wherever it lies; and the child of a cell at an octant has that parent and that octant, and stands
at the octant's place in the list of children, whenever its exact position fits the word. -/
theorem parent_child_inverse :
    (∀ c : Coord, c.level < 255 → c.octant.val < 8 ∧ c.parent.child? c.octant = some c ∧
      ∀ o, c.parent.child? o = some c → o = c.octant) ∧
    ∀ (p : Coord) (o : Octant), 1 ≤ p.level → p.ChildFits o →
      ∃ c, p.child? o = some c ∧ p.children[o.val]? = some c ∧ c.parent = p ∧ c.octant = o ∧
        ∀ axis ∈ Position.axes,
          (axis c.pos).toInt = exactChildAxis p.level (axis p.pos) (axis o.offset) := by
  constructor
  · intro c below
    have down := child?_parent_octant (level_ne_of_lt below)
    exact ⟨c.octant.isLt, down, fun o other => child?_injective other down⟩
  · intro p o above fits
    have down := child?_eq_some (level_ne_of_le above) o
    have listed := (getElem?_children (level_ne_of_le above) o).trans down
    exact ⟨_, down, listed, parent_of_child? fits down, octant_of_childFits fits down,
      exact_of_child? fits down⟩

/-- A cell in the corner of the word, and the child that is reached from its parent without leaving
the word. -/
theorem parent_child_inverse_in_corner :
    let corner : Coord := ⟨⟨2147483647, -2147483648, -1⟩, 0⟩
    let p : Coord := ⟨⟨1073741824, -1073741824, 0⟩, 1⟩
    corner.level < 255 ∧ 1 ≤ p.level ∧ p.ChildFits 2 ∧ corner.parent = p ∧ corner.octant = 2 ∧
      corner.parent.child? corner.octant = some corner ∧ p.children[2]? = some corner := by
  intro corner p
  have fits : p.ChildFits 2 := by decide
  obtain ⟨-, down, -⟩ := parent_child_inverse.1 corner (by decide)
  obtain ⟨c, child, listed, up, octant, -⟩ := parent_child_inverse.2 p 2 (by decide) fits
  have same : p.child? 2 = some corner := by decide
  obtain rfl : c = corner := Option.some.inj (child.symm.trans same)
  exact ⟨by decide, by decide, fits, up, octant, down, listed⟩

end Coord

end OctreeWorld
