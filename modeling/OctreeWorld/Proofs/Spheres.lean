import Mathlib.Algebra.Order.Ring.Abs
import Mathlib.Tactic.Linarith
import Mathlib.Tactic.Ring
import OctreeWorld.Loader
import OctreeWorld.Proofs.Descent

/-!
# Spheres

The sphere around a cell is enumerated layer by layer and row by row over the cube that holds it, on
words that stop at their ends. What comes of it is a ball of exact integers: the cells whose distance
from the centre of the centre cell is less than the radius, as far as they lie in the word. A square
that no longer fits counts as the greatest word, and no limit is greater than that, so stopping there
decides no comparison.
-/

namespace OctreeWorld

namespace Saturating

/-- The number fits a signed 64-bit word. -/
def InLongWord (n : Int) : Prop := minWord ≤ n ∧ n ≤ maxWord

theorem InLongWord.of_nonneg {n : Int} (nonneg : 0 ≤ n) (upper : n ≤ maxWord) : InLongWord n :=
  ⟨by unfold minWord; omega, upper⟩

/-- Twice a 32-bit number fits, and so does its neighbour below. -/
theorem InLongWord.of_twice {n : Int} (lower : -4294967296 ≤ n) (upper : n ≤ 4294967296) :
    InLongWord n :=
  ⟨by unfold minWord; omega, by unfold maxWord; omega⟩

theorem clamp_of_nonneg {n : Int} (nonneg : 0 ≤ n) : clamp n = min n maxWord := by
  simp only [clamp, minWord, maxWord]
  omega

/-- Numbers that have stopped at the end of the word add up as if they had not, stopping there. -/
theorem add_min_min {a b : Int} (ha : 0 ≤ a) (hb : 0 ≤ b) :
    add (min a maxWord) (min b maxWord) = min (a + b) maxWord := by
  simp only [add, clamp, minWord, maxWord]
  omega

end Saturating

namespace Sphere

open Saturating

/-- Twice the gap along one axis between the centre of a cell and the cell `d` cells away. -/
def gap (d : Int) : Int := max 0 (2 * (d.natAbs : Int) - 1)

/-- Square of twice the distance between the centre of one cell and another cell. -/
def separation (c e : Coord) : Int :=
  gap (e.pos.x.toInt - c.pos.x.toInt) ^ 2 + gap (e.pos.y.toInt - c.pos.y.toInt) ^ 2 +
    gap (e.pos.z.toInt - c.pos.z.toInt) ^ 2

/-- The order of the visits: by `z`, then by `y`, then by `x`. -/
def Before (a b : Coord) : Prop :=
  a.pos.z < b.pos.z ∨ a.pos.z = b.pos.z ∧
    (a.pos.y < b.pos.y ∨ a.pos.y = b.pos.y ∧ a.pos.x < b.pos.x)

/-! ### Gaps -/

theorem gap_nonneg (d : Int) : 0 ≤ gap d := by
  unfold gap
  omega

theorem gap_neg (d : Int) : gap (-d) = gap d := by
  rw [gap, gap, Int.natAbs_neg]

theorem sq_gap_nonneg (d : Int) : 0 ≤ gap d ^ 2 := Int.pow_nonneg (gap_nonneg d)

theorem separation_comm (c e : Coord) : separation c e = separation e c := by
  have swap (a b : Int) : gap (a - b) = gap (b - a) := by
    rw [← gap_neg, Int.neg_sub]
  rw [separation, separation, swap e.pos.x.toInt, swap e.pos.y.toInt, swap e.pos.z.toInt]

/-- Beyond the radius the gap is larger than the radius. -/
theorem reach_of_sq_gap_lt {d : Int} {r : Nat} (near : gap d ^ 2 < 4 * (r : Int) ^ 2) :
    -(r : Int) ≤ d ∧ d ≤ r := by
  by_contra far
  have beyond : 2 * (r : Int) ≤ gap d := by
    unfold gap
    omega
  nlinarith

/-! ### The arithmetic of the enumeration -/

theorem gapSquared_eq_min (d : Int) : gapSquared d = min (gap d ^ 2) maxWord := by
  have same : max (2 * (d.natAbs : Int) - 1) 0 = gap d := Int.max_comm _ _
  rw [gapSquared, same, mul, ← pow_two, clamp_of_nonneg (sq_gap_nonneg d)]

theorem add_gapSquared {a : Int} (nonneg : 0 ≤ a) (d : Int) :
    add (min a maxWord) (gapSquared d) = min (a + gap d ^ 2) maxWord := by
  rw [gapSquared_eq_min, add_min_min nonneg (sq_gap_nonneg d)]

theorem limit_eq_min (radius : UInt32) :
    limit radius = min (4 * (reach radius : Int) ^ 2) maxWord := by
  have small : reach radius ≤ 2147483647 := Nat.min_le_right _ _
  have le : (reach radius : Int) ^ 2 ≤ 2147483647 ^ 2 :=
    pow_le_pow_left₀ (Int.natCast_nonneg _) (by exact_mod_cast small) 2
  have nonneg : 0 ≤ (reach radius : Int) ^ 2 := sq_nonneg _
  have square : mul (reach radius) (reach radius) = (reach radius : Int) ^ 2 := by
    rw [mul, ← pow_two]
    exact clamp_of_mem (by unfold minWord; omega) (by unfold maxWord; omega)
  rw [limit, square, mul, clamp_of_nonneg (by omega)]

theorem mem_span {r : Nat} {d : Int} : d ∈ span r ↔ -(r : Int) ≤ d ∧ d ≤ r := by
  simp only [span, List.mem_map, List.mem_range]
  constructor
  · rintro ⟨i, lower, rfl⟩
    omega
  · rintro ⟨lower, upper⟩
    exact ⟨(d + r).toNat, by omega, by omega⟩

theorem span_sorted (r : Nat) : (span r).Pairwise (· < ·) :=
  List.pairwise_map.mpr (List.pairwise_lt_range.imp fun lower => by omega)

theorem step?_eq_some_iff {p q : Int32} {d : Int} :
    step? p d = some q ↔ q.toInt = p.toInt + d := by
  unfold step?
  dsimp only
  split
  · rename_i fits
    rw [Option.some.injEq, ← Int32.toInt_inj, InWord.toInt_ofInt fits, eq_comm]
  · rename_i outside
    refine ⟨nofun, fun same => ?_⟩
    rw [← same] at outside
    exact absurd (InWord.of_toInt q) outside

/-! ### Members -/

/-- What is visited in a slice is visited when the slice is near enough and lies in the word. -/
theorem mem_slice {c : Coord} {near : Prop} [Decidable near] {at_ : Option Int32}
    {visits : Int32 → List Coord} :
    (c ∈ if near then match at_ with | some q => visits q | none => [] else []) ↔
      near ∧ ∃ q, at_ = some q ∧ c ∈ visits q := by
  by_cases close : near
  · rw [if_pos close]
    cases at_ <;> simp [close]
  · simp [close]

section Members

variable {center c : Coord} {r : Nat} {bound used : Int}

theorem mem_row {y z : Int32} : c ∈ row center r bound y z used ↔
    c.level = center.level ∧ c.pos.z = z ∧ c.pos.y = y ∧
      c.pos.x.toInt - center.pos.x.toInt ∈ span r ∧
        add used (gapSquared (c.pos.x.toInt - center.pos.x.toInt)) < bound := by
  rw [row, List.mem_filterMap]
  constructor
  · rintro ⟨dx, listed, visit⟩
    split at visit
    · rename_i near
      obtain ⟨x, step, rfl⟩ := Option.map_eq_some_iff.mp visit
      have at_ : x.toInt - center.pos.x.toInt = dx := by
        have := step?_eq_some_iff.mp step
        omega
      refine ⟨rfl, rfl, rfl, ?_⟩
      dsimp only
      rw [at_]
      exact ⟨listed, near⟩
    · cases visit
  · rintro ⟨level, rfl, rfl, listed, near⟩
    refine ⟨_, listed, ?_⟩
    rw [if_pos near, step?_eq_some_iff.mpr (show c.pos.x.toInt = _ by omega), ← level]
    rfl

theorem mem_layer {z : Int32} : c ∈ layer center r bound z used ↔
    c.level = center.level ∧ c.pos.z = z ∧
      c.pos.y.toInt - center.pos.y.toInt ∈ span r ∧
        add used (gapSquared (c.pos.y.toInt - center.pos.y.toInt)) < bound ∧
      c.pos.x.toInt - center.pos.x.toInt ∈ span r ∧
        add (add used (gapSquared (c.pos.y.toInt - center.pos.y.toInt)))
          (gapSquared (c.pos.x.toInt - center.pos.x.toInt)) < bound := by
  rw [layer, List.mem_flatMap]
  constructor
  · rintro ⟨dy, listed, visit⟩
    obtain ⟨near, y, step, visit⟩ := mem_slice.mp visit
    obtain ⟨level, hz, hy, rest⟩ := mem_row.mp visit
    rw [← hy, step?_eq_some_iff] at step
    obtain rfl : c.pos.y.toInt - center.pos.y.toInt = dy := by omega
    exact ⟨level, hz, listed, near, rest⟩
  · rintro ⟨level, hz, listed, near, rest⟩
    have step : step? center.pos.y (c.pos.y.toInt - center.pos.y.toInt) = some c.pos.y :=
      step?_eq_some_iff.mpr (by omega)
    exact ⟨_, listed, mem_slice.mpr ⟨near, _, step, mem_row.mpr ⟨level, hz, rfl, rest⟩⟩⟩

end Members
theorem mem_cells {center c : Coord} {radius : UInt32} (positive : radius ≠ 0) :
    c ∈ cells center radius ↔ c.level = center.level ∧
      c.pos.z.toInt - center.pos.z.toInt ∈ span (reach radius) ∧
        gapSquared (c.pos.z.toInt - center.pos.z.toInt) < limit radius ∧
      c.pos.y.toInt - center.pos.y.toInt ∈ span (reach radius) ∧
        add (gapSquared (c.pos.z.toInt - center.pos.z.toInt))
          (gapSquared (c.pos.y.toInt - center.pos.y.toInt)) < limit radius ∧
      c.pos.x.toInt - center.pos.x.toInt ∈ span (reach radius) ∧
        add (add (gapSquared (c.pos.z.toInt - center.pos.z.toInt))
          (gapSquared (c.pos.y.toInt - center.pos.y.toInt)))
            (gapSquared (c.pos.x.toInt - center.pos.x.toInt)) < limit radius := by
  rw [cells, if_neg positive]
  dsimp only
  rw [List.mem_flatMap]
  constructor
  · rintro ⟨dz, listed, visit⟩
    obtain ⟨near, z, step, visit⟩ := mem_slice.mp visit
    obtain ⟨level, hz, rest⟩ := mem_layer.mp visit
    rw [← hz, step?_eq_some_iff] at step
    obtain rfl : c.pos.z.toInt - center.pos.z.toInt = dz := by omega
    exact ⟨level, listed, near, rest⟩
  · rintro ⟨level, listed, near, rest⟩
    have step : step? center.pos.z (c.pos.z.toInt - center.pos.z.toInt) = some c.pos.z :=
      step?_eq_some_iff.mpr (by omega)
    exact ⟨_, listed, mem_slice.mpr ⟨near, _, step, mem_layer.mpr ⟨level, rfl, rest⟩⟩⟩

/-- The visited cells are those whose separation stays below the limit, whatever the radius. -/
theorem mem_cells_iff {center c : Coord} {radius : UInt32} : c ∈ cells center radius ↔
    c.level = center.level ∧ separation center c < limit radius := by
  let dz := c.pos.z.toInt - center.pos.z.toInt
  let dy := c.pos.y.toInt - center.pos.y.toInt
  let dx := c.pos.x.toInt - center.pos.x.toInt
  have hz := sq_gap_nonneg dz
  have hy := sq_gap_nonneg dy
  have hx := sq_gap_nonneg dx
  have total : separation center c = gap dx ^ 2 + gap dy ^ 2 + gap dz ^ 2 := rfl
  have bound := limit_eq_min radius
  by_cases zero : radius = 0
  · subst zero
    have none_ : limit 0 = 0 := by decide
    rw [total, none_]
    refine ⟨fun mem => absurd mem List.not_mem_nil, fun near => ?_⟩
    omega
  · rw [mem_cells zero]
    change c.level = center.level ∧ dz ∈ span _ ∧ gapSquared dz < limit radius ∧
      dy ∈ span _ ∧ add (gapSquared dz) (gapSquared dy) < limit radius ∧
      dx ∈ span _ ∧ add (add (gapSquared dz) (gapSquared dy)) (gapSquared dx) < limit radius ↔ _
    rw [gapSquared_eq_min dz, add_gapSquared hz, add_gapSquared (by omega), total]
    constructor
    · rintro ⟨level, -, -, -, -, -, near⟩
      exact ⟨level, by omega⟩
    · -- The cube holds the ball, and what is left out early would be left out in the end.
      rintro ⟨level, near⟩
      have inside : ∀ d, gap d ^ 2 ≤ gap dx ^ 2 + gap dy ^ 2 + gap dz ^ 2 →
          d ∈ span (reach radius) := fun d le =>
        mem_span.mpr (reach_of_sq_gap_lt (by omega))
      exact ⟨level, inside dz (by omega), by omega, inside dy (by omega), by omega,
        inside dx (by omega), by omega⟩

/-! ### Order -/

theorem step?_lt {p q q' : Int32} {d d' : Int} (step : step? p d = some q)
    (step' : step? p d' = some q') (lower : d < d') : q < q' := by
  rw [Int32.lt_iff_toInt_lt, step?_eq_some_iff.mp step, step?_eq_some_iff.mp step']
  omega

theorem row_sorted (center : Coord) (r : Nat) (bound : Int) (y z : Int32) (used : Int) :
    (row center r bound y z used).Pairwise Before := by
  refine List.pairwise_filterMap.mpr ((span_sorted r).imp fun {d d'} lower a here b there => ?_)
  split at here
  · split at there
    · obtain ⟨x, step, rfl⟩ := Option.map_eq_some_iff.mp here
      obtain ⟨x', step', rfl⟩ := Option.map_eq_some_iff.mp there
      exact Or.inr ⟨rfl, Or.inr ⟨rfl, step?_lt step step' lower⟩⟩
    · cases there
  · cases here

theorem slice_sorted {near : Prop} [Decidable near] {at_ : Option Int32}
    {visits : Int32 → List Coord} (sorted : ∀ q, (visits q).Pairwise Before) :
    (if near then match at_ with | some q => visits q | none => [] else []).Pairwise Before := by
  split
  · cases at_ with
    | some q => exact sorted q
    | none => exact .nil
  · exact .nil

theorem layer_sorted (center : Coord) (r : Nat) (bound : Int) (z : Int32) (used : Int) :
    (layer center r bound z used).Pairwise Before := by
  refine List.pairwise_flatMap.mpr ⟨fun d _ => slice_sorted fun y => row_sorted ..,
    (span_sorted r).imp fun lower a here b there => ?_⟩
  obtain ⟨-, y, step, here⟩ := mem_slice.mp here
  obtain ⟨-, y', step', there⟩ := mem_slice.mp there
  obtain ⟨-, hz, rfl, -⟩ := mem_row.mp here
  obtain ⟨-, hz', rfl, -⟩ := mem_row.mp there
  exact Or.inr ⟨hz.trans hz'.symm, Or.inl (step?_lt step step' lower)⟩

/-- The sphere is enumerated in order. -/
theorem cells_sorted (center : Coord) (radius : UInt32) :
    (cells center radius).Pairwise Before := by
  unfold cells
  split
  · exact .nil
  · refine List.pairwise_flatMap.mpr ⟨fun d _ => slice_sorted fun z => layer_sorted ..,
      (span_sorted _).imp fun lower a here b there => ?_⟩
    obtain ⟨-, z, step, here⟩ := mem_slice.mp here
    obtain ⟨-, z', step', there⟩ := mem_slice.mp there
    obtain ⟨-, rfl, -⟩ := mem_layer.mp here
    obtain ⟨-, rfl, -⟩ := mem_layer.mp there
    exact Or.inl (step?_lt step step' lower)

theorem Before.ne {a b : Coord} (before : Before a b) : a ≠ b := by
  rintro rfl
  rcases before with lower | ⟨-, lower | ⟨-, lower⟩⟩ <;> exact Int32.lt_irrefl lower

/-! ### Closeness -/

/-- The cell `e` comes closer than `r` cells to the centre of the cell `c`. Lengths are counted in half
cells: a cell at `p` spans from `2p` to `2p + 2`, its centre lies at `2p + 1`, and the point of a cell
that is nearest to a centre is whole. -/
def ComesWithin (r : Nat) (c e : Coord) : Prop :=
  ∃ x y z : Int, (2 * e.pos.x.toInt ≤ x ∧ x ≤ 2 * e.pos.x.toInt + 2) ∧
    (2 * e.pos.y.toInt ≤ y ∧ y ≤ 2 * e.pos.y.toInt + 2) ∧
    (2 * e.pos.z.toInt ≤ z ∧ z ≤ 2 * e.pos.z.toInt + 2) ∧
    (x - (2 * c.pos.x.toInt + 1)) ^ 2 + (y - (2 * c.pos.y.toInt + 1)) ^ 2 +
      (z - (2 * c.pos.z.toInt + 1)) ^ 2 < (2 * (r : Int)) ^ 2

theorem exists_nearest (c p : Int) :
    ∃ t, (2 * p ≤ t ∧ t ≤ 2 * p + 2) ∧ (t - (2 * c + 1)) ^ 2 = gap (p - c) ^ 2 := by
  rcases lt_trichotomy p c with below | rfl | above
  · have near : gap (p - c) = -(2 * p + 2 - (2 * c + 1)) := by
      unfold gap
      omega
    exact ⟨2 * p + 2, by omega, by rw [near, neg_sq]⟩
  · exact ⟨2 * p + 1, by omega, by simp [gap]⟩
  · have near : gap (p - c) = 2 * p - (2 * c + 1) := by
      unfold gap
      omega
    exact ⟨2 * p, by omega, by rw [near]⟩

theorem sq_gap_le {c p t : Int} (inside : 2 * p ≤ t ∧ t ≤ 2 * p + 2) :
    gap (p - c) ^ 2 ≤ (t - (2 * c + 1)) ^ 2 := by
  have near : gap (p - c) ≤ |t - (2 * c + 1)| := by
    rw [le_abs, gap]
    omega
  exact sq_le_sq.mpr ((abs_of_nonneg (gap_nonneg _)).trans_le near)

theorem comesWithin_iff {r : Nat} {c e : Coord} :
    ComesWithin r c e ↔ separation c e < 4 * (r : Int) ^ 2 := by
  have twice : (2 * (r : Int)) ^ 2 = 4 * (r : Int) ^ 2 := by ring
  rw [ComesWithin, twice, separation]
  constructor
  · rintro ⟨x, y, z, hx, hy, hz, near⟩
    have := sq_gap_le (c := c.pos.x.toInt) hx
    have := sq_gap_le (c := c.pos.y.toInt) hy
    have := sq_gap_le (c := c.pos.z.toInt) hz
    omega
  · intro near
    obtain ⟨x, hx, nx⟩ := exists_nearest c.pos.x.toInt e.pos.x.toInt
    obtain ⟨y, hy, ny⟩ := exists_nearest c.pos.y.toInt e.pos.y.toInt
    obtain ⟨z, hz, nz⟩ := exists_nearest c.pos.z.toInt e.pos.z.toInt
    exact ⟨x, y, z, hx, hy, hz, by rw [nx, ny, nz]; exact near⟩

/-! ### Radii without saturation -/

theorem four_sq_le_iff (radius : UInt32) :
    4 * (radius.toNat : Int) ^ 2 ≤ maxWord ↔ radius ≤ 1518500249 := by
  have cast : radius ≤ 1518500249 ↔ (radius.toNat : Int) ≤ 1518500249 := by
    rw [UInt32.le_iff_toNat_le]
    exact Int.ofNat_le.symm
  rw [cast, maxWord]
  constructor
  · intro fits
    by_contra large
    nlinarith
  · intro small
    nlinarith

/-- No step of a sphere's arithmetic leaves the word in which it is taken: neither the radius and the
limit, nor the gap along an axis and its square. The sums of squares may leave theirs, but no comparison
with the limit comes out otherwise for it. -/
structure Unsaturated (radius : UInt32) : Prop where
  reach : reach radius = radius.toNat ∧ InWord (-radius.toNat) ∧ InWord radius.toNat
  limit : InLongWord (radius.toNat ^ 2) ∧ InLongWord (4 * radius.toNat ^ 2) ∧
    limit radius = 4 * radius.toNat ^ 2
  gap : ∀ d ∈ span radius.toNat, InWord d ∧ InLongWord (2 * d) ∧ InLongWord (2 * d.natAbs) ∧
    InLongWord (2 * d.natAbs - 1) ∧ InLongWord (gap d ^ 2) ∧ gapSquared d = gap d ^ 2
  compare : ∀ a b c : Int,
    (gapSquared a < Sphere.limit radius ↔ Sphere.gap a ^ 2 < 4 * radius.toNat ^ 2) ∧
    (add (gapSquared a) (gapSquared b) < Sphere.limit radius ↔
      Sphere.gap a ^ 2 + Sphere.gap b ^ 2 < 4 * radius.toNat ^ 2) ∧
    (add (add (gapSquared a) (gapSquared b)) (gapSquared c) < Sphere.limit radius ↔
      Sphere.gap a ^ 2 + Sphere.gap b ^ 2 + Sphere.gap c ^ 2 < 4 * radius.toNat ^ 2)

section Small

variable {radius : UInt32} (small : radius ≤ 1518500249)

include small

theorem toNat_le_of_small : radius.toNat ≤ 1518500249 := UInt32.le_iff_toNat_le.mp small

theorem reach_of_small : reach radius = radius.toNat := by
  have le := toNat_le_of_small small
  exact Nat.min_eq_left (by omega)

theorem limit_of_small : limit radius = 4 * (radius.toNat : Int) ^ 2 := by
  rw [limit_eq_min, reach_of_small small]
  exact min_eq_left ((four_sq_le_iff radius).mpr small)

theorem unsaturated : Unsaturated radius := by
  have le := toNat_le_of_small small
  have fits := (four_sq_le_iff radius).mpr small
  have square := sq_nonneg (radius.toNat : Int)
  have bound := limit_of_small small
  have limit_ := InLongWord.of_nonneg (by omega) fits
  refine ⟨⟨reach_of_small small, ⟨by omega, by omega⟩, ⟨by omega, by omega⟩⟩,
    ⟨.of_nonneg square (by omega), limit_, bound⟩, fun d listed => ?_, fun a b c => ?_⟩
  · obtain ⟨lower, upper⟩ := mem_span.mp listed
    -- Twice the distance of a cell of the cube, less one, is below twice the radius.
    have inside : gap d ^ 2 ≤ 4 * (radius.toNat : Int) ^ 2 := by
      have near : gap d ≤ 2 * (radius.toNat : Int) := by
        unfold gap
        omega
      calc gap d ^ 2 ≤ (2 * (radius.toNat : Int)) ^ 2 := pow_le_pow_left₀ (gap_nonneg d) near 2
        _ = 4 * (radius.toNat : Int) ^ 2 := by ring
    have fits' := inside.trans fits
    refine ⟨⟨by omega, by omega⟩, .of_twice (by omega) (by omega), .of_twice (by omega) (by omega),
      .of_twice (by omega) (by omega), .of_nonneg (sq_gap_nonneg d) fits', ?_⟩
    rw [gapSquared_eq_min]
    exact min_eq_left fits'
  · have ha := sq_gap_nonneg a
    have hb := sq_gap_nonneg b
    rw [gapSquared_eq_min a, add_gapSquared ha, add_gapSquared (by omega), bound]
    exact ⟨by omega, by omega, by omega⟩

end Small

/-- Up to the radius whose limit just fits the word, a sphere is enumerated exactly: the cells that come
closer than the radius to the centre of the centre cell, each once and in order, are visited and no
others, and nothing saturates on the way but sums that are too large anyway. So a larger radius visits
no less, and two cells visit each other or do not. -/
theorem sphere_exact :
    (∀ radius : UInt32, 4 * (radius.toNat : Int) ^ 2 ≤ maxWord ↔ radius ≤ 1518500249) ∧
    ∀ (center : Coord) (radius : UInt32), radius ≤ 1518500249 →
      (∀ c, c ∈ cells center radius ↔
        c.level = center.level ∧ separation center c < 4 * (radius.toNat : Int) ^ 2) ∧
      (∀ c, c ∈ cells center radius ↔
        c.level = center.level ∧ ComesWithin radius.toNat center c) ∧
      (cells center radius).Nodup ∧ (cells center radius).Pairwise Before ∧
      Unsaturated radius ∧
      (∀ smaller ≤ radius, ∀ c ∈ cells center smaller, c ∈ cells center radius) ∧
      ∀ c, c ∈ cells center radius ↔ center ∈ cells c radius := by
  refine ⟨four_sq_le_iff, fun center radius small => ?_⟩
  have exact_ : ∀ c, c ∈ cells center radius ↔
      c.level = center.level ∧ separation center c < 4 * (radius.toNat : Int) ^ 2 := fun c => by
    rw [mem_cells_iff, limit_of_small small]
  refine ⟨exact_, fun c => by rw [exact_, comesWithin_iff],
    (cells_sorted center radius).imp Before.ne, cells_sorted center radius, unsaturated small,
    fun smaller le c mem => ?_, fun c => ?_⟩
  · obtain ⟨level, near⟩ := mem_cells_iff.mp mem
    rw [limit_of_small (UInt32.le_trans le small)] at near
    have le : (smaller.toNat : Int) ≤ radius.toNat :=
      Int.ofNat_le.mpr (UInt32.le_iff_toNat_le.mp le)
    have := pow_le_pow_left₀ (Int.natCast_nonneg _) le 2
    exact (exact_ c).mpr ⟨level, by omega⟩
  · rw [mem_cells_iff, mem_cells_iff, separation_comm, eq_comm]

/-- At the greatest such radius, which is too large for the sphere to be listed, the cell that lies as
far away along one axis is visited, and the centre is visited from there. -/
theorem sphere_exact_at_greatest_radius :
    let center : Coord := ⟨⟨0, -5, 7⟩, 3⟩
    let far : Coord := ⟨⟨1518500249, -4, 6⟩, 3⟩
    (1518500249 : UInt32) ≤ 1518500249 ∧ (1 : UInt32) ≤ 1518500249 ∧
      separation center far < 4 * 1518500249 ^ 2 ∧ far ∈ cells center 1518500249 ∧
      center ∈ cells far 1518500249 ∧ (cells center 1).length = 27 ∧
      ∀ c ∈ cells center 1, c ∈ cells center 1518500249 := by
  intro center far
  have small : (1518500249 : UInt32) ≤ 1518500249 := by decide
  obtain ⟨members, -, -, -, -, mono, symm⟩ := sphere_exact.2 center 1518500249 small
  have near : separation center far < 4 * 1518500249 ^ 2 := by decide
  have visited : far ∈ cells center 1518500249 := (members far).mpr ⟨rfl, near⟩
  exact ⟨small, by decide, near, visited, (symm far).mp visited, by decide +kernel,
    mono 1 (by decide)⟩

end Sphere

end OctreeWorld
