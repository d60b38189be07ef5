import Mathlib.Tactic.Linarith
import Mathlib.Tactic.Ring
import OctreeWorld.Proofs.Descent

/-!
# Origins of footprints

The origin of a footprint is measured on words that stop at their ends. From level 63 on neither the
tile nor the offset of the grid fits its word, and what is subtracted is not what it stands for. Still
every origin is the exact one, clamped to the word: tile and offset stop together, and far enough
beyond the positions for the difference to fall outside on the side on which the exact one does.

A footprint begins where that of its first child begins.
-/

namespace OctreeWorld

namespace Saturating

theorem toInt_toWord32 (n : Int) :
    (toWord32 n).toInt = max (-2147483648) (min n 2147483647) :=
  InWord.toInt_ofInt ⟨by omega, by omega⟩

theorem twoPow_of_lt {n : Nat} (fits : n < 63) : twoPow n = 2 ^ n := by
  rw [twoPow, if_pos fits, Nat.pow_eq]
  exact Nat.cast_pow 2 n

theorem twoPow_of_le {n : Nat} (large : 63 ≤ n) : twoPow n = maxWord := if_neg (by omega)

end Saturating

namespace Coord

/-- How far below its exact multiple of the tile the grid of a level starts. -/
def gridOffset (level : Nat) : Int := (4 ^ ((level + 1) / 2) - 1) / 3

/-- One axis of the footprint's origin in exact integers. -/
def exactOrigin (level : UInt8) (p : Int32) : Int :=
  p.toInt * 2 ^ level.toNat - gridOffset level.toNat

/-! ### Offsets -/

theorem two_pow_pos (n : Nat) : (0 : Int) < 2 ^ n := Int.pow_pos (by decide)

theorem three_mul_gridOffset (n : Nat) : 3 * gridOffset n = 4 ^ ((n + 1) / 2) - 1 := by
  have dvd (k : Nat) : (3 : Int) ∣ 4 ^ k - 1 := by
    induction k with
    | zero => decide
    | succ k ih =>
      rw [Int.pow_succ]
      omega
  exact Int.mul_ediv_cancel' (dvd _)

/-- From an even level to the next one the offset grows by a tile, from an odd level not at all. -/
theorem gridOffset_succ (n : Nat) :
    gridOffset (n + 1) = gridOffset n + if n % 2 = 0 then 2 ^ n else 0 := by
  have here := three_mul_gridOffset n
  have next := three_mul_gridOffset (n + 1)
  split
  · rename_i even
    obtain ⟨k, rfl⟩ : ∃ k, n = 2 * k := ⟨n / 2, by omega⟩
    have below : (2 * k + 1) / 2 = k := by omega
    have above : (2 * k + 1 + 1) / 2 = k + 1 := by omega
    have square : (2 : Int) ^ (2 * k) = 4 ^ k := Int.pow_mul
    rw [below] at here
    rw [above, Int.pow_succ] at next
    omega
  · have same : (n + 1 + 1) / 2 = (n + 1) / 2 := by omega
    rw [same] at next
    omega

/-- Offset and tile are of one magnitude: the offset is about a third of the tile or two thirds. -/
theorem gridOffset_near (n : Nat) :
    2 ^ n ≤ 3 * gridOffset n + 1 ∧ 3 * gridOffset n + 1 ≤ 2 * 2 ^ n := by
  have square : (2 : Int) ^ (2 * ((n + 1) / 2)) = 4 ^ ((n + 1) / 2) := Int.pow_mul
  have offset := three_mul_gridOffset n
  have lower : (2 : Int) ^ n ≤ 2 ^ (2 * ((n + 1) / 2)) := pow_le_pow_right₀ (by decide) (by omega)
  have upper : (2 : Int) ^ (2 * ((n + 1) / 2)) ≤ 2 ^ (n + 1) :=
    pow_le_pow_right₀ (by decide) (by omega)
  rw [Int.pow_succ] at upper
  omega

theorem gridOffset_nonneg_and_lt (n : Nat) : 0 ≤ gridOffset n ∧ gridOffset n < 2 ^ n := by
  have pos := two_pow_pos n
  have near := gridOffset_near n
  omega

/-! ### Saturation -/

theorem gridShift_of_lt {level : UInt8} (fits : level.toNat < 63) :
    gridShift level = gridOffset level.toNat := by
  have square : (2 : Int) ^ (2 * ((level.toNat + 1) / 2)) = 4 ^ ((level.toNat + 1) / 2) := Int.pow_mul
  have offset := three_mul_gridOffset level.toNat
  rw [gridShift, Saturating.twoPow_of_lt (by omega), square]
  omega

theorem gridShift_of_le {level : UInt8} (large : 63 ≤ level.toNat) :
    gridShift level = Saturating.maxWord / 3 := by
  rw [gridShift, Saturating.twoPow_of_le (by omega)]

/-- An origin is the exact one, clamped to the word, on every level. -/
theorem toInt_originAxis (level : UInt8) (p : Int32) : (originAxis level p).toInt =
    max (-2147483648) (min (exactOrigin level p) 2147483647) := by
  obtain ⟨nonneg, lt⟩ := gridOffset_nonneg_and_lt level.toNat
  obtain ⟨lower, upper⟩ := gridOffset_near level.toNat
  rw [originAxis, Saturating.toInt_toWord32, exactOrigin]
  unfold Saturating.sub Saturating.mul Saturating.clamp
  by_cases fits : level.toNat < 63
  · have tile : (2 : Int) ^ level.toNat ≤ 2 ^ 62 := pow_le_pow_right₀ (by decide) (by omega)
    rw [Saturating.twoPow_of_lt fits, gridShift_of_lt fits]
    unfold Saturating.minWord Saturating.maxWord
    omega
  · have tile : (2 : Int) ^ 63 ≤ 2 ^ level.toNat := pow_le_pow_right₀ (by decide) (by omega)
    rw [Saturating.twoPow_of_le (by omega), gridShift_of_le (by omega)]
    unfold Saturating.minWord Saturating.maxWord
    rcases lt_trichotomy p.toInt 0 with negative | zero | positive
    · have : p.toInt * 2 ^ level.toNat ≤ -2 ^ level.toNat := by nlinarith
      omega
    · rw [zero]
      omega
    · have : 2 ^ level.toNat ≤ p.toInt * 2 ^ level.toNat := by nlinarith
      omega

theorem toInt_origin (c : Coord) : ∀ axis ∈ Position.axes, (axis c.origin).toInt =
    max (-2147483648) (min (exactOrigin c.level (axis c.pos)) 2147483647) := by
  intro axis listed
  rw [← toInt_originAxis]
  exact congrArg Int32.toInt (Position.axis_map _ _ axis listed)

/-! ### Children -/

section Child

variable {c e : Coord} {o : Octant} (down : c.child? o = some e)

include down

/-- The tile of a child is half of its parent's tile, and begins where that begins or half a tile
later. -/
theorem exactChildAxis_tile (p bit : Int32) :
    exactChildAxis c.level p bit * 2 ^ e.level.toNat - gridOffset e.level.toNat =
      exactOrigin c.level p + bit.toInt * 2 ^ e.level.toNat := by
  have level := toNat_level_of_child? down
  have parity := roundsUp_iff c.level
  rw [← level] at parity
  rw [exactOrigin, ← level, gridOffset_succ, exactChildAxis, Int.pow_succ]
  by_cases even : e.level.toNat % 2 = 0
  · have odd : roundsUp c.level = false := by
      rw [Bool.eq_false_iff, Ne, parity]
      omega
    rw [odd, if_pos even, if_neg Bool.false_ne_true]
    ring
  · have up : roundsUp c.level = true := parity.mpr (by omega)
    rw [up, if_neg even, if_pos rfl]
    ring

end Child

/-- A position whose tile begins within the word lies in the word itself. -/
theorem inWord_of_tile {q : Int} {n : Nat} (begins : InWord (q * 2 ^ n - gridOffset n)) :
    InWord q := by
  have pos := two_pow_pos n
  obtain ⟨nonneg, lt⟩ := gridOffset_nonneg_and_lt n
  obtain ⟨lower, upper⟩ := begins
  -- A word is no smaller than a multiple of a positive number by it.
  constructor
  · by_contra low
    nlinarith
  · by_contra high
    nlinarith

theorem child?_zero (c : Coord) : c.child? 0 = c.firstChild? := by
  have still (p : Position) : p + (0 : Octant).offset = p :=
    congr (congrArg₂ Position.mk (Int32.add_zero p.x) (Int32.add_zero p.y)) (Int32.add_zero p.z)
  cases down : c.firstChild? with
  | none => rw [child?, down, Option.map_none]
  | some e => rw [child?, down, Option.map_some, still]

/-- A footprint begins where that of the first child begins, along every axis along which the child's
position does not wrap; and it does not wrap where the origin is not clamped. -/
theorem origin_firstChild {c e : Coord} (down : c.firstChild? = some e) :
    ∀ axis ∈ Position.axes, InWord (exactChildAxis c.level (axis c.pos) 0) ∨
      InWord (exactOrigin c.level (axis c.pos)) → axis c.origin = axis e.origin := by
  intro axis listed kept
  rw [← child?_zero] at down
  have tile := exactChildAxis_tile down (axis c.pos) 0
  rw [Int32.toInt_zero, Int.zero_mul, Int.add_zero] at tile
  have fits : InWord (exactChildAxis c.level (axis c.pos) 0) :=
    kept.elim id fun begins => inWord_of_tile (tile ▸ begins)
  have child : (axis e.pos).toInt = exactChildAxis c.level (axis c.pos) 0 := by
    have still : ∀ axis ∈ Position.axes, axis (0 : Octant).offset = 0 :=
      Position.forall_mem_axes.mpr ⟨rfl, rfl, rfl⟩
    rw [eq_of_child? down, Position.axis_add _ _ axis listed, Position.axis_map _ _ axis listed,
      still axis listed, toInt_childAxis_add fits]
  have same : exactOrigin e.level (axis e.pos) = exactOrigin c.level (axis c.pos) := by
    rw [← tile, ← child, exactOrigin]
  rw [← Int32.toInt_inj, toInt_origin c axis listed, toInt_origin e axis listed, same]

/-- On every level, along every axis, the origin of a footprint is the exact one clamped to the word;
and above level 0 it is that of the first child, unless the child's position wraps and the origin is
clamped. -/
theorem origin_clamped :
    (∀ c : Coord, ∀ axis ∈ Position.axes, (axis c.origin).toInt =
      max (-2147483648) (min (exactOrigin c.level (axis c.pos)) 2147483647)) ∧
    ∀ c : Coord, 1 ≤ c.level → ∃ e, c.firstChild? = some e ∧ ∀ axis ∈ Position.axes,
      InWord (exactChildAxis c.level (axis c.pos) 0) ∨ InWord (exactOrigin c.level (axis c.pos)) →
        axis c.origin = axis e.origin := by
  refine ⟨toInt_origin, fun c above => ?_⟩
  exact ⟨_, if_neg (level_ne_of_le above), origin_firstChild (if_neg (level_ne_of_le above))⟩

/-- On the coarsest level, where neither tile nor offset fits its word, the positions on either side of
zero have their origins at the ends of the word, and so have their first children. -/
theorem origin_clamped_on_coarsest_level :
    let c : Coord := ⟨⟨1, 0, -1⟩, 255⟩
    let e : Coord := ⟨⟨1, -1, -3⟩, 254⟩
    1 ≤ c.level ∧ c.firstChild? = some e ∧
      (∀ axis ∈ Position.axes, InWord (exactChildAxis c.level (axis c.pos) 0)) ∧
      c.origin = ⟨2147483647, -2147483648, -2147483648⟩ ∧ e.origin = c.origin := by
  intro c e
  obtain ⟨clamped, children⟩ := origin_clamped
  obtain ⟨d, down, same⟩ := children c (by decide)
  have fits : ∀ axis ∈ Position.axes, InWord (exactChildAxis c.level (axis c.pos) 0) := by decide
  have child : c.firstChild? = some e := by decide
  obtain rfl : d = e := Option.some.inj (down.symm.trans child)
  have origin : c.origin = ⟨2147483647, -2147483648, -2147483648⟩ := by
    refine Position.ext_axes fun axis listed => Int32.toInt_inj.mp ?_
    rw [clamped c axis listed]
    revert axis
    decide +kernel
  exact ⟨by decide, child, fits, origin,
    Position.ext_axes fun axis listed => (same axis listed (Or.inl (fits axis listed))).symm⟩

end Coord

end OctreeWorld
