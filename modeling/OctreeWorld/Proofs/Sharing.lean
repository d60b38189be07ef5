import OctreeWorld.Region
import OctreeWorld.Proofs.Footprints

/-!
# Boxes and the cells they share

A region covers a cell when its box meets the footprint of the cell. Two half-open boxes that hold
cells have one in common if and only if on every axis each begins before the other ends. For boxes that
hold none this says something else: a box without extent lies strictly inside a footprint around it,
on every axis it begins before the footprint ends and ends after the footprint begins, and so it
covers cells although it holds none.
-/

namespace OctreeWorld

variable {N L : Type}

theorem Position.exists_of_axes {P : (Position → Int32) → Int32 → Prop}
    (each : ∀ axis ∈ axes, ∃ n, P axis n) : ∃ p : Position, ∀ axis ∈ axes, P axis (axis p) := by
  obtain ⟨⟨x, hx⟩, ⟨y, hy⟩, z, hz⟩ := forall_mem_axes.mp each
  exact ⟨⟨x, y, z⟩, forall_mem_axes.mpr ⟨hx, hy, hz⟩⟩

namespace Box

theorem intersects_iff {a b : Box} : a.intersects b = true ↔
    ∀ axis ∈ Position.axes, axis a.lo < axis b.hi ∧ axis b.lo < axis a.hi := by
  simp only [intersects, Bool.and_eq_true, Position.allAxes_iff, decide_eq_true_eq, forall₂_and]

/-- Two boxes have a cell in common if and only if they meet and neither is empty. -/
theorem exists_common_iff {a b : Box} : (∃ p, a.contains p = true ∧ b.contains p = true) ↔
    a.isEmpty = false ∧ b.isEmpty = false ∧ a.intersects b = true := by
  simp only [contains_iff, isEmpty_eq_false_iff, intersects_iff, Int32.le_iff_toInt_le,
    Int32.lt_iff_toInt_lt]
  constructor
  · rintro ⟨p, here, there⟩
    refine ⟨fun axis listed => ?_, fun axis listed => ?_, fun axis listed => ?_⟩ <;>
      (have one := here axis listed; have other := there axis listed; omega)
  · rintro ⟨here, there, meet⟩
    have each : ∀ axis ∈ Position.axes, ∃ n : Int32,
        ((axis a.lo).toInt ≤ n.toInt ∧ n.toInt < (axis a.hi).toInt) ∧
          (axis b.lo).toInt ≤ n.toInt ∧ n.toInt < (axis b.hi).toInt := by
      intro axis listed
      have one := here axis listed
      have other := there axis listed
      have both := meet axis listed
      -- The box that begins later begins inside the other.
      rcases Int.le_total (axis a.lo).toInt (axis b.lo).toInt with later | later
      · exact ⟨axis b.lo, by omega, by omega⟩
      · exact ⟨axis a.lo, by omega, by omega⟩
    obtain ⟨p, inside⟩ := Position.exists_of_axes each
    exact ⟨p, fun axis listed => (inside axis listed).1, fun axis listed => (inside axis listed).2⟩

/-- The box holds a level-0 cell that has the cell for its ancestor. -/
def Shares (b : Box) (c : Coord) : Prop :=
  ∃ p, b.contains p = true ∧ (Coord.mk p 0).ancestor c.level = c

/-- On every axis the box begins before the footprint ends, and ends after the footprint begins. -/
def Meets (b : Box) (c : Coord) : Prop :=
  ∀ axis ∈ Position.axes,
    (axis b.lo).toInt < Coord.exactOrigin c.level (axis c.pos) + 2 ^ c.level.toNat ∧
      Coord.exactOrigin c.level (axis c.pos) < (axis b.hi).toInt

theorem Shares.nonempty {b : Box} {c : Coord} (shares : b.Shares c) : b.isEmpty = false := by
  obtain ⟨p, inside, -⟩ := shares
  exact (exists_common_iff.mp ⟨p, inside, inside⟩).1

section Footprint

variable {c : Coord} (shallow : c.level ≤ 30) (fits : c.FootprintFits)

include shallow fits

theorem isEmpty_ofCoord : (ofCoord c).isEmpty = false := by
  rw [isEmpty_eq_false_iff]
  intro axis listed
  obtain ⟨first, last⟩ := Coord.toInt_footprint shallow fits axis listed
  have pos := Coord.two_pow_pos c.level.toNat
  rw [Int32.lt_iff_toInt_lt, first, last]
  omega

theorem intersectsCoord_iff_meets {b : Box} : b.intersectsCoord c = true ↔ b.Meets c := by
  rw [intersectsCoord, intersects_iff]
  refine forall₂_congr fun axis listed => ?_
  obtain ⟨first, last⟩ := Coord.toInt_footprint shallow fits axis listed
  rw [Int32.lt_iff_toInt_lt, Int32.lt_iff_toInt_lt, first, last]

theorem shares_iff {b : Box} : b.Shares c ↔ b.isEmpty = false ∧ b.intersectsCoord c = true := by
  unfold Shares
  simp only [← Coord.contains_footprint_iff shallow fits]
  rw [exists_common_iff, and_iff_right (isEmpty_ofCoord shallow fits), intersectsCoord]

/-- As far as the footprint fits the word, a box that holds cells covers the cell if and only if it
shares a level-0 cell with it, and so does a region of that box. An empty box shares no cell, and covers
those that it meets all the same. -/
theorem covers_iff_shares (b : Box) :
    (b.intersectsCoord c = true ↔ b.Shares c ∨ b.isEmpty = true ∧ b.Meets c) ∧
      (b.Shares c → b.isEmpty = false) ∧
      ∀ r : Region N L, r.box = b → b.isEmpty = false → (r.covers c = true ↔ b.Shares c) := by
  refine ⟨?_, Shares.nonempty, ?_⟩
  · rw [shares_iff shallow fits, ← intersectsCoord_iff_meets shallow fits]
    cases b.isEmpty <;> simp
  · rintro r rfl nonempty
    rw [shares_iff shallow fits, and_iff_right nonempty, Region.covers]

end Footprint

/-- A box of one cell at the end of a footprint on the coarsest level whose tiles fit, and the cell next
to it. -/
theorem covers_iff_shares_at_edge :
    let c : Coord := ⟨⟨-1, 0, 1⟩, 30⟩
    let b : Box := ⟨⟨-357913942, 0, 1789569706⟩, ⟨-357913941, 1, 1789569707⟩⟩
    let next : Box := ⟨⟨-357913941, 0, 1789569706⟩, ⟨-357913940, 1, 1789569707⟩⟩
    let r : Region Unit Unit := Region.empty default default b PayloadFactory.plain 31
    c.level ≤ 30 ∧ c.FootprintFits ∧ r.box = b ∧ b.isEmpty = false ∧ r.covers c = true ∧
      b.Shares c ∧ next.isEmpty = false ∧ ¬ next.Shares c := by
  intro c b next r
  have fits : c.FootprintFits := by decide +kernel
  obtain ⟨-, -, region⟩ := covers_iff_shares (N := Unit) (L := Unit) (by decide) fits b
  obtain ⟨meets, -, -⟩ := covers_iff_shares (N := Unit) (L := Unit) (by decide) fits next
  have covers : r.covers c = true := by decide +kernel
  have away : next.intersectsCoord c = false := by decide +kernel
  refine ⟨by decide, fits, rfl, by decide, covers, (region r rfl (by decide)).mp covers, by decide,
    fun shares => ?_⟩
  rw [meets.mpr (Or.inl shares)] at away
  cases away

/-- The box between two equal corners is empty. It shares no cell with the cell of the next level
around them, and covers it; and so does a region of that box. -/
theorem empty_box_covers :
    let c : Coord := ⟨⟨0, 0, 0⟩, 1⟩
    let b : Box := ofCorners Position.zero Position.zero
    let r : Region Unit Unit := Region.empty default default b PayloadFactory.plain 2
    c.level ≤ 30 ∧ c.FootprintFits ∧ b.isEmpty = true ∧ ¬ b.Shares c ∧
      b.intersectsCoord c = true ∧ r.covers c = true := by
  refine ⟨by decide, by decide +kernel, by decide, fun shares => ?_, by decide +kernel,
    by decide +kernel⟩
  cases shares.nonempty

end Box

end OctreeWorld
