import OctreeWorld.Box
import OctreeWorld.Proofs.Origins

/-!
# Footprints tile space

On the way up a cell is halved, rounding up from every second level. Along one axis that amounts to
one division: the ancestor on a level is found by adding the level's offset, the sum of the powers of
four below it, and dividing by the tile. The footprint of a cell, which is measured and not climbed
to, is thereby the set of the level-0 cells that have it for their ancestor. So the footprints of a
level do not overlap, and those of the children share the footprint of their parent among them.
-/

namespace OctreeWorld

namespace Box

theorem contains_iff {b : Box} {p : Position} : b.contains p = true ↔
    ∀ axis ∈ Position.axes, axis b.lo ≤ axis p ∧ axis p < axis b.hi := by
  simp only [contains, Bool.and_eq_true, Position.allAxes_iff, decide_eq_true_eq, forall₂_and]

theorem isEmpty_eq_false_iff {b : Box} :
    b.isEmpty = false ↔ ∀ axis ∈ Position.axes, axis b.lo < axis b.hi := by
  simp only [isEmpty, Position.anyAxis_eq_false_iff, decide_eq_false_iff_not, Int32.not_le]

end Box

namespace Coord

/-- The footprint begins and ends within the word. -/
def FootprintFits (c : Coord) : Prop :=
  ∀ axis ∈ Position.axes, InWord (exactOrigin c.level (axis c.pos)) ∧
    InWord (exactOrigin c.level (axis c.pos) + 2 ^ c.level.toNat)

instance (c : Coord) : Decidable c.FootprintFits :=
  List.decidableBAll (fun axis : Position → Int32 =>
    InWord (exactOrigin c.level (axis c.pos)) ∧
      InWord (exactOrigin c.level (axis c.pos) + 2 ^ c.level.toNat)) Position.axes

/-! ### Ancestors -/

/-- Halving on the way up from a level, rounded as the level says, is one more halving of the tile. -/
theorem tile_succ (n : Nat) (q : Int) : (q + gridOffset (n + 1)) / 2 ^ (n + 1) =
    if n % 2 = 0 then ((q + gridOffset n) / 2 ^ n + 1) / 2 else (q + gridOffset n) / 2 ^ n / 2 := by
  have pos := two_pow_pos n
  rw [gridOffset_succ, Int.pow_succ, ← Int.ediv_ediv_of_nonneg pos.le]
  split
  · rw [← Int.add_assoc, Int.add_ediv_of_dvd_right (dvd_refl _), Int.ediv_self pos.ne']
  · rw [Int.add_zero]

/-- Climbing from a level-0 cell arrives in the tile that holds it. -/
theorem toInt_climb (p : Position) {n : Nat} (small : n < 256) : ∀ axis ∈ Position.axes,
    (axis (climb n ⟨p, 0⟩).pos).toInt = ((axis p).toInt + gridOffset n) / 2 ^ n := by
  induction n with
  | zero =>
    intro axis _
    simp [climb, gridOffset]
  | succ n ih =>
    intro axis listed
    have level : (climb n ⟨p, 0⟩).level.toNat = n := by
      rw [toNat_climb_level] <;> simp
      omega
    have below : (climb n ⟨p, 0⟩).level < 255 := by
      rw [UInt8.lt_iff_toNat_lt, level]
      exact Nat.lt_of_succ_lt_succ small
    have up : roundsUp (climb n ⟨p, 0⟩).level = true ↔ n % 2 = 0 := by rw [roundsUp_iff, level]
    rw [climb_succ, parent, if_neg (level_ne_of_lt below), Position.axis_map _ _ axis listed,
      toInt_parentAxis, ih (by omega) axis listed, tile_succ]
    simp only [up]

theorem toInt_ancestor (p : Position) (level : UInt8) : ∀ axis ∈ Position.axes,
    (axis ((Coord.mk p 0).ancestor level).pos).toInt =
      ((axis p).toInt + gridOffset level.toNat) / 2 ^ level.toNat :=
  toInt_climb p level.toNat_lt

/-- The ancestor of a level-0 cell is known by its axes. -/
theorem ancestor_eq_iff {p : Position} {c : Coord} : (Coord.mk p 0).ancestor c.level = c ↔
    ∀ axis ∈ Position.axes,
      ((axis p).toInt + gridOffset c.level.toNat) / 2 ^ c.level.toNat = (axis c.pos).toInt := by
  have climbed := toInt_ancestor p c.level
  constructor
  · intro same axis listed
    rw [← climbed axis listed, same]
  · intro same
    have pos : ((Coord.mk p 0).ancestor c.level).pos = c.pos :=
      Position.ext_axes fun axis listed =>
        Int32.toInt_inj.mp ((climbed axis listed).trans (same axis listed))
    have level := (under_ancestor (c := ⟨p, 0⟩) (UInt8.zero_le (a := c.level))).2
    exact congrArg₂ Coord.mk pos level

/-! ### Boxes -/

section Shallow

variable {c : Coord} (shallow : c.level ≤ 30)

include shallow

theorem toNat_level_le : c.level.toNat ≤ 30 := UInt8.le_iff_toNat_le.mp shallow

theorem tile_le : (2 : Int) ^ c.level.toNat ≤ 1073741824 := by
  have le : 2 ^ c.level.toNat ≤ 2 ^ 30 := Nat.pow_le_pow_right (by decide) (toNat_level_le shallow)
  exact_mod_cast le

theorem toInt_tileSize : c.tileSize.toInt = 2 ^ c.level.toNat := by
  have le := tile_le shallow
  have small : 2 ^ c.level.toNat < 2 ^ 31 := by
    have : ((2 ^ c.level.toNat : Nat) : Int) ≤ 1073741824 := by exact_mod_cast le
    omega
  rw [tileSize, if_pos (by have := toNat_level_le shallow; omega), Nat.pow_eq,
    Int32.toInt_ofNat_of_lt small]
  exact Nat.cast_pow 2 _

section Fits

variable (fits : c.FootprintFits)

include fits

theorem toInt_footprint : ∀ axis ∈ Position.axes,
    (axis (Box.ofCoord c).lo).toInt = exactOrigin c.level (axis c.pos) ∧
      (axis (Box.ofCoord c).hi).toInt = exactOrigin c.level (axis c.pos) + 2 ^ c.level.toNat := by
  intro axis listed
  obtain ⟨first, last⟩ := fits axis listed
  have origin : (axis (Box.ofCoord c).lo).toInt = exactOrigin c.level (axis c.pos) := by
    obtain ⟨lower, upper⟩ := first
    have clamped := toInt_origin c axis listed
    rw [min_eq_left upper, max_eq_right lower] at clamped
    exact clamped
  refine ⟨origin, ?_⟩
  have tile : axis (Position.splat c.tileSize) = c.tileSize := Position.axis_splat _ axis listed
  have sum : axis (Box.ofCoord c).hi =
      Int32.ofInt (exactOrigin c.level (axis c.pos) + 2 ^ c.level.toNat) := by
    rw [Int32.ofInt_add, ← origin, ← toInt_tileSize shallow, Int32.ofInt_toInt, Int32.ofInt_toInt]
    exact (Position.axis_add _ _ axis listed).trans (congrArg _ tile)
  rw [sum, last.toInt_ofInt]

/-- A footprint holds the level-0 cells that have the cell for their ancestor. -/
theorem contains_footprint_iff {p : Position} : (Box.ofCoord c).contains p = true ↔
    (Coord.mk p 0).ancestor c.level = c := by
  rw [Box.contains_iff, ancestor_eq_iff]
  refine forall₂_congr fun axis listed => ?_
  obtain ⟨first, last⟩ := toInt_footprint shallow fits axis listed
  rw [Int32.le_iff_toInt_le, Int32.lt_iff_toInt_lt, first, last,
    Int.ediv_eq_iff_of_pos (two_pow_pos _), exactOrigin]
  omega

/-- Distinct cells of one level have no level-0 cell in common. -/
theorem footprints_disjoint {d : Coord} (level : d.level = c.level) (fits' : d.FootprintFits)
    (differ : d ≠ c) (p : Position) :
    ¬ ((Box.ofCoord c).contains p = true ∧ (Box.ofCoord d).contains p = true) := by
  rintro ⟨here, there⟩
  have up := (contains_footprint_iff shallow fits).mp here
  have other := (contains_footprint_iff (level.symm ▸ shallow) fits').mp there
  rw [level] at other
  exact differ (other.symm.trans up)

end Fits

end Shallow

/-! ### Children -/

section Child

variable {c e : Coord} {o : Octant} (down : c.child? o = some e)

include down

theorem child_tile_within (fits : c.FootprintFits) : ∀ axis ∈ Position.axes,
    ∀ q, q = exactChildAxis c.level (axis c.pos) (axis o.offset) →
      InWord (q * 2 ^ e.level.toNat - gridOffset e.level.toNat) ∧
        InWord (q * 2 ^ e.level.toNat - gridOffset e.level.toNat + 2 ^ e.level.toNat) := by
  rintro axis listed _ rfl
  obtain ⟨⟨lower, -⟩, -, upper⟩ := fits axis listed
  have pos := two_pow_pos e.level.toNat
  rw [← toNat_level_of_child? down, Int.pow_succ] at upper
  rw [exactChildAxis_tile down]
  rcases o.toInt_offset axis listed with bit | bit <;> rw [bit] <;>
    exact ⟨⟨by omega, by omega⟩, by omega, by omega⟩

/-- The children of a cell whose footprint fits do not wrap. -/
theorem FootprintFits.childFits (fits : c.FootprintFits) : c.ChildFits o := fun axis listed =>
  inWord_of_tile (child_tile_within down fits axis listed _ rfl).1

theorem FootprintFits.child (fits : c.FootprintFits) : e.FootprintFits := by
  intro axis listed
  exact child_tile_within down fits axis listed _
    (exact_of_child? (fits.childFits down) down axis listed)

end Child

section Children

variable {c : Coord} (shallow : c.level ≤ 30) (fits : c.FootprintFits)

include shallow fits

/-- A level-0 cell lies under the cells whose footprints hold it. -/
theorem contains_footprint_iff_under {p : Position} :
    (Box.ofCoord c).contains p = true ↔ (Coord.mk p 0).Under c := by
  rw [contains_footprint_iff shallow fits, under_iff]
  exact (and_iff_right UInt8.zero_le).symm

theorem contains_child_iff {e : Coord} {o : Octant} (down : c.child? o = some e) {p : Position} :
    (Box.ofCoord e).contains p = true ↔ (Coord.mk p 0).Under e := by
  have level := toNat_level_of_child? down
  have le := toNat_level_le shallow
  exact contains_footprint_iff_under (UInt8.le_iff_toNat_le.mpr (by simp; omega)) (fits.child down)

/-- The footprint of a child lies in that of its parent. -/
theorem contains_of_child {e : Coord} {o : Octant} (down : c.child? o = some e) {p : Position}
    (inside : (Box.ofCoord e).contains p = true) : (Box.ofCoord c).contains p = true := by
  have under := (contains_child_iff shallow fits down).mp inside
  have up := Under.parent (level_ne_top_of_child? down)
  rw [parent_of_child? (fits.childFits down) down] at up
  exact (contains_footprint_iff_under shallow fits).mpr (under.trans up)

/-- A level-0 cell of a footprint lies in the footprint of exactly one child. -/
theorem existsUnique_child (above : c.level ≠ 0) {p : Position}
    (inside : (Box.ofCoord c).contains p = true) :
    ∃! o : Octant, ∃ e, c.children[o.val]? = some e ∧ (Box.ofCoord e).contains p = true := by
  simp only [getElem?_children above]
  rcases ((contains_footprint_iff_under shallow fits).mp inside).cases with
    rfl | ⟨d, below, rfl, under⟩
  · exact absurd rfl above
  · have down := child?_parent_octant below
    refine ⟨d.octant, ⟨d, down, (contains_child_iff shallow fits down).mpr under⟩, ?_⟩
    rintro o ⟨e, other, holds⟩
    have level : e.level = d.level := UInt8.toNat_inj.mp (by
      have one := toNat_level_of_child? other
      have two := toNat_level_of_child? down
      omega)
    obtain rfl := ((contains_child_iff shallow fits other).mp holds).eq_of_level under level
    exact child?_injective other down

end Children

/-- Along each axis the ancestor of a level-0 cell is one division away, on every level. So as far as
tiles and footprints fit the word, a footprint holds exactly the level-0 cells that have the cell for
their ancestor; the children of a cell partition its footprint; and distinct cells of one level have
no level-0 cell in common. -/
theorem footprints_tile :
    (∀ (p : Position) (level : UInt8), ∀ axis ∈ Position.axes,
      (axis ((Coord.mk p 0).ancestor level).pos).toInt =
        ((axis p).toInt + gridOffset level.toNat) / 2 ^ level.toNat) ∧
    ∀ c : Coord, c.level ≤ 30 → c.FootprintFits →
      (∀ p, (Box.ofCoord c).contains p = true ↔ (Coord.mk p 0).ancestor c.level = c) ∧
      (1 ≤ c.level →
        (∀ p, (Box.ofCoord c).contains p = true →
          ∃! o : Octant, ∃ e, c.children[o.val]? = some e ∧ (Box.ofCoord e).contains p = true) ∧
        ∀ e ∈ c.children, ∀ p, (Box.ofCoord e).contains p = true →
          (Box.ofCoord c).contains p = true) ∧
      ∀ d : Coord, d.level = c.level → d.FootprintFits → d ≠ c →
        ∀ p, ¬ ((Box.ofCoord c).contains p = true ∧ (Box.ofCoord d).contains p = true) := by
  refine ⟨toInt_ancestor, fun c shallow fits => ⟨fun p => contains_footprint_iff shallow fits,
    fun above => ⟨fun p inside => ?_, fun e listed p inside => ?_⟩,
    fun d level fits' differ p => footprints_disjoint shallow fits level fits' differ p⟩⟩
  · exact existsUnique_child shallow fits (level_ne_of_le above) inside
  · obtain ⟨o, -, down⟩ := List.mem_filterMap.mp listed
    exact contains_of_child shallow fits down inside

/-- The last cell of a footprint near the end of the word, on the coarsest level whose tiles fit. -/
theorem footprints_tile_near_end :
    let c : Coord := ⟨⟨-1, 0, 1⟩, 30⟩
    let d : Coord := ⟨⟨-1, 0, 0⟩, 30⟩
    let p : Position := ⟨-357913942, 0, 1789569706⟩
    c.level ≤ 30 ∧ c.FootprintFits ∧ d.FootprintFits ∧ 1 ≤ c.level ∧
      (Box.ofCoord c).contains p = true ∧ (Coord.mk p 0).ancestor c.level = c ∧
      (∃! o : Octant, ∃ e, c.children[o.val]? = some e ∧ (Box.ofCoord e).contains p = true) ∧
      (Box.ofCoord d).contains p = false := by
  intro c d p
  have fits : c.FootprintFits := by decide +kernel
  have fits' : d.FootprintFits := by decide +kernel
  have inside : (Box.ofCoord c).contains p = true := by decide +kernel
  obtain ⟨holds, parts, apart⟩ := footprints_tile.2 c (by decide) fits
  have away := apart d rfl fits' (by decide) p
  exact ⟨by decide, fits, fits', by decide, inside, (holds p).mp inside,
    (parts (by decide)).1 p inside, Bool.eq_false_iff.mpr fun there => away ⟨inside, there⟩⟩

end Coord

end OctreeWorld
