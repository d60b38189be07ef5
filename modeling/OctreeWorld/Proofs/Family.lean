import OctreeWorld.Coord

/-!
# Families of cells

A cell is determined by its parent and its octant, and a neighbour leads back across the opposite
face. Both hold on the whole word, its ends included: the sums of the forward direction wrap to
the cell they started from.
-/

namespace OctreeWorld

theorem Octant.mem_all (o : Octant) : o ∈ Octant.all := by
  revert o; decide

theorem Direction.mem_all (d : Direction) : d ∈ Direction.all := by
  cases d <;> decide

theorem Direction.index_injective {d e : Direction} (same : d.index = e.index) : d = e := by
  cases d <;> cases e <;> first | rfl | (exact absurd same (by decide))

theorem Direction.exists_index {i : Nat} (face : i < 6) : ∃ d : Direction, d.index = i := by
  match i, face with
  | 0, _ => exact ⟨.negX, rfl⟩
  | 1, _ => exact ⟨.negY, rfl⟩
  | 2, _ => exact ⟨.negZ, rfl⟩
  | 3, _ => exact ⟨.posZ, rfl⟩
  | 4, _ => exact ⟨.posY, rfl⟩
  | 5, _ => exact ⟨.posX, rfl⟩

namespace Octant

/-- The side of a cell along one axis, as the displacement it stands for. -/
def sideOffset (upper : Bool) : Int32 := if upper then 1 else 0

theorem offset_ofSides (x y z : Bool) :
    (ofSides x y z).offset = ⟨sideOffset x, sideOffset y, sideOffset z⟩ := by
  cases x <;> cases y <;> cases z <;> decide

end Octant

namespace Coord

theorem parent_level {c : Coord} (below : c.level ≠ 255) : c.parent.level = c.level + 1 := by
  simp [parent, below]

theorem toNat_parent_level {c : Coord} (below : c.level ≠ 255) :
    c.parent.level.toNat = c.level.toNat + 1 := by
  have bound := c.level.toNat_lt
  have ne : c.level.toNat ≠ 255 := fun h => below (UInt8.toNat_inj.mp h)
  rw [parent_level below, UInt8.toNat_add]
  simp only [UInt8.toNat_one]
  omega

theorem level_le_parent (c : Coord) : c.level.toNat ≤ c.parent.level.toNat := by
  by_cases top : c.level = 255
  · simp [parent, top]
  · rw [toNat_parent_level top]
    exact Nat.le_succ _

theorem level_ne_of_lt {c : Coord} {bound : UInt8} (below : c.level < bound) :
    c.level ≠ 255 := by
  intro top
  have h := UInt8.lt_iff_toNat_lt.mp below
  have := bound.toNat_lt
  rw [top] at h
  simp at h
  omega

theorem roundsUp_iff (level : UInt8) : roundsUp level = true ↔ level.toNat % 2 = 0 := by
  rw [roundsUp, beq_iff_eq, ← UInt8.toNat_inj, UInt8.toNat_mod]
  rfl

theorem roundsUp_succ (level : UInt8) : roundsUp (level + 1) = !roundsUp level := by
  have here := roundsUp_iff level
  have above := roundsUp_iff (level + 1)
  rw [UInt8.toNat_add] at above
  have bound := level.toNat_lt
  simp only [UInt8.toNat_one] at above
  cases ha : roundsUp (level + 1) <;> cases hh : roundsUp level
  · simp only [ha, hh, Bool.false_eq_true, false_iff] at here above
    omega
  · rfl
  · rfl
  · simp only [ha, hh, true_iff] at here above
    omega

/-- Along one axis, going up and back down on the same side leads back, for every word. -/
theorem childAxis_parentAxis (level : UInt8) (p : Int32) :
    childAxis (level + 1) (parentAxis level p) + Octant.sideOffset (upperSide level p) = p := by
  have back : Int32.ofInt p.toInt = p := Int32.ofInt_toInt p
  have twice (n : Int) : 2 * Int32.ofInt n = Int32.ofInt (2 * n) := (Int32.ofInt_mul 2 n).symm
  have lower (n : Int) : Int32.ofInt n - 1 = Int32.ofInt (n - 1) := (Int32.ofInt_sub n 1).symm
  have upper (n : Int) : Int32.ofInt n + 1 = Int32.ofInt (n + 1) := (Int32.ofInt_add n 1).symm
  unfold childAxis parentAxis upperSide Octant.sideOffset
  rw [roundsUp_succ]
  rcases Int.emod_two_eq p.toInt with even | odd
  · cases h : roundsUp level with
    | false =>
      have whole : 2 * (p.toInt / 2) = p.toInt := by omega
      rw [even]
      change 2 * Int32.ofInt (p.toInt / 2) + 0 = p
      rw [Int32.add_zero, twice, whole, back]
    | true =>
      have whole : 2 * ((p.toInt + 1) / 2) - 1 + 1 = p.toInt := by omega
      rw [even]
      change 2 * Int32.ofInt ((p.toInt + 1) / 2) - 1 + 1 = p
      rw [twice, lower, upper, whole, back]
  · cases h : roundsUp level with
    | false =>
      have whole : 2 * (p.toInt / 2) + 1 = p.toInt := by omega
      rw [odd]
      change 2 * Int32.ofInt (p.toInt / 2) + 1 = p
      rw [twice, upper, whole, back]
    | true =>
      have whole : 2 * ((p.toInt + 1) / 2) - 1 = p.toInt := by omega
      rw [odd]
      change 2 * Int32.ofInt ((p.toInt + 1) / 2) - 1 + 0 = p
      rw [Int32.add_zero, twice, lower, whole, back]

/-- Every cell is the child of its parent at its own octant. -/
theorem child?_parent_octant {c : Coord} (below : c.level ≠ 255) :
    c.parent.child? c.octant = some c := by
  have positive : c.level + 1 ≠ 0 := by
    intro h
    have higher := toNat_parent_level below
    rw [parent_level below, h] at higher
    simp at higher
  have down : c.level + 1 - 1 = c.level := UInt8.add_sub_cancel ..
  simp only [child?, firstChild?, parent, below, if_false, positive, Option.map_some, octant,
    Octant.offset_ofSides, down, Option.some.injEq]
  obtain ⟨⟨x, y, z⟩, level⟩ := c
  simp only [Position.map]
  change Coord.mk (Position.zipWith (· + ·) _ _) _ = _
  simp only [Position.zipWith, childAxis_parentAxis]

theorem eq_of_parent_octant {c e : Coord} (below : c.level ≠ 255) (below' : e.level ≠ 255)
    (parents : c.parent = e.parent) (octants : c.octant = e.octant) : c = e := by
  have hc := child?_parent_octant below
  rw [parents, octants, child?_parent_octant below'] at hc
  exact (Option.some.inj hc).symm

theorem child?_injective {c e : Coord} {o p : Octant} (one : c.child? o = some e)
    (other : c.child? p = some e) : o = p := by
  unfold child? at one other
  cases origin : c.firstChild? with
  | none =>
    rw [origin] at one
    cases one
  | some f =>
    rw [origin, Option.map_some, Option.some.injEq] at one other
    have pos : f.pos + o.offset = f.pos + p.offset := congrArg Coord.pos (one.trans other.symm)
    have hx : f.pos.x + o.offset.x = f.pos.x + p.offset.x := congrArg Position.x pos
    have hy : f.pos.y + o.offset.y = f.pos.y + p.offset.y := congrArg Position.y pos
    have hz : f.pos.z + o.offset.z = f.pos.z + p.offset.z := congrArg Position.z pos
    rw [Int32.add_right_inj] at hx hy hz
    have apart : ∀ o p : Octant, o.offset.x = p.offset.x → o.offset.y = p.offset.y →
      o.offset.z = p.offset.z → o = p := by decide
    exact apart o p hx hy hz

theorem octant_of_child? {c e : Coord} {o : Octant} (below : e.level ≠ 255) (up : e.parent = c)
    (down : c.child? o = some e) : e.octant = o := by
  subst up
  exact child?_injective (child?_parent_octant below) down

/-! ### Ancestors -/

theorem climb_succ (n : Nat) (c : Coord) : climb (n + 1) c = (climb n c).parent := by
  induction n generalizing c with
  | zero => rfl
  | succ n ih => exact ih c.parent

theorem toNat_climb_level {n : Nat} {c : Coord} (below : c.level.toNat + n < 256) :
    (climb n c).level.toNat = c.level.toNat + n := by
  induction n with
  | zero => rfl
  | succ n ih =>
    have at_ := ih (by omega)
    have ne : (climb n c).level ≠ 255 := by
      intro top
      rw [top] at at_
      simp at at_
      omega
    rw [climb_succ, toNat_parent_level ne, at_, Nat.add_assoc]

theorem parent_ne {c : Coord} (below : c.level ≠ 255) : c.parent ≠ c := by
  intro same
  have level := toNat_parent_level below
  rw [same] at level
  omega

/-- `c` is `x` or an ancestor of it. -/
def Under (x c : Coord) : Prop := ∃ n, climb n x = c ∧ c.level.toNat = x.level.toNat + n

namespace Under

variable {x c d : Coord}

theorem refl (x : Coord) : Under x x := ⟨0, rfl, rfl⟩

theorem level_le (under : Under x c) : x.level.toNat ≤ c.level.toNat := by
  obtain ⟨n, -, level⟩ := under
  omega

theorem climb_climb (n m : Nat) (x : Coord) : climb m (climb n x) = climb (n + m) x := by
  induction m with
  | zero => rfl
  | succ m ih => rw [climb_succ, ih, ← Nat.add_assoc, climb_succ]

theorem trans (lower : Under x c) (upper : Under c d) : Under x d := by
  obtain ⟨n, rfl, level⟩ := lower
  obtain ⟨m, rfl, above⟩ := upper
  exact ⟨n + m, (climb_climb n m x).symm, by omega⟩

theorem parent (below : c.level ≠ 255) : Under c c.parent :=
  ⟨1, rfl, toNat_parent_level below⟩

/-- On one level a cell has one ancestor. -/
theorem eq_of_level (one : Under x c) (other : Under x d) (level : c.level = d.level) : c = d := by
  obtain ⟨n, rfl, hn⟩ := one
  obtain ⟨m, rfl, hm⟩ := other
  rw [level] at hn
  have same : n = m := by omega
  rw [same]

theorem antisymm (lower : Under x c) (upper : Under c x) : x = c :=
  eq_of_level (refl x) lower (UInt8.toNat_inj.mp (Nat.le_antisymm lower.level_le upper.level_le))

/-- The ancestors of a cell lie one under the other. -/
theorem chain (one : Under x c) (other : Under x d) (level : c.level.toNat ≤ d.level.toNat) :
    Under c d := by
  obtain ⟨n, rfl, hn⟩ := one
  obtain ⟨m, rfl, hm⟩ := other
  refine ⟨m - n, ?_, by omega⟩
  rw [climb_climb, Nat.add_sub_cancel' (by omega)]

/-- Of two ancestors on different levels the coarser one lies above the parent of the other. -/
theorem parent_chain (one : x.Under c) (other : x.Under d)
    (level : c.level.toNat < d.level.toNat) : c.parent.Under d := by
  have below : c.level ≠ 255 := level_ne_of_lt (UInt8.lt_iff_toNat_lt.mpr level)
  have up := toNat_parent_level below
  exact (one.trans (parent below)).chain other (by omega)

/-- What lies under a cell is the cell or lies under one of its children. -/
theorem cases (under : Under x c) :
    x = c ∨ ∃ d, d.level ≠ 255 ∧ d.parent = c ∧ Under x d := by
  obtain ⟨n, rfl, level⟩ := under
  cases n with
  | zero => exact Or.inl rfl
  | succ n =>
    have bound := (climb (n + 1) x).level.toNat_lt
    have at_ : (climb n x).level.toNat = x.level.toNat + n := toNat_climb_level (by omega)
    refine Or.inr ⟨climb n x, ?_, (climb_succ n x).symm, n, rfl, at_⟩
    intro top
    rw [top] at at_
    simp at at_
    omega

end Under

/-- What lies under a cell has it for its ancestor on the cell's level. -/
theorem under_iff {x c : Coord} : x.Under c ↔ x.level ≤ c.level ∧ x.ancestor c.level = c := by
  rw [UInt8.le_iff_toNat_le]
  constructor
  · intro under
    have level_le := under.level_le
    obtain ⟨n, rfl, level⟩ := under
    refine ⟨level_le, ?_⟩
    rw [ancestor, level, Nat.add_sub_cancel_left]
  · rintro ⟨level_le, same⟩
    exact ⟨c.level.toNat - x.level.toNat, same, by omega⟩

/-- The ancestor of a cell on a level that is not finer lies on that level. -/
theorem under_ancestor {c : Coord} {level : UInt8} (le : c.level ≤ level) :
    c.Under (c.ancestor level) ∧ (c.ancestor level).level = level := by
  have bound := level.toNat_lt
  rw [UInt8.le_iff_toNat_le] at le
  have steps : (c.ancestor level).level.toNat = c.level.toNat + (level.toNat - c.level.toNat) :=
    toNat_climb_level (by omega)
  exact ⟨⟨_, rfl, steps⟩, UInt8.toNat_inj.mp (by omega)⟩

/-- What lies under a cell and is another one has it for an ancestor on a coarser level. -/
theorem under_and_ne_iff {x c : Coord} :
    x.Under c ∧ x ≠ c ↔ x.level < c.level ∧ x.ancestor c.level = c := by
  constructor
  · rintro ⟨under, differ⟩
    obtain ⟨le, up⟩ := under_iff.mp under
    refine ⟨UInt8.lt_of_le_of_ne le fun level => differ ?_, up⟩
    exact (Under.refl x).eq_of_level under level
  · rintro ⟨lower, up⟩
    refine ⟨under_iff.mpr ⟨UInt8.le_of_lt lower, up⟩, ?_⟩
    rintro rfl
    exact UInt8.lt_irrefl _ lower

/-! ### Neighbours -/

theorem neighbour_level (c : Coord) (d : Direction) : (c.neighbour d).level = c.level := rfl

theorem neighbour_opposite (c : Coord) (d : Direction) :
    (c.neighbour d).neighbour d.opposite = c := by
  obtain ⟨⟨x, y, z⟩, level⟩ := c
  change Coord.mk (Position.zipWith (· + ·) (Position.zipWith (· + ·) _ _) _) _ = _
  cases d <;> simp [Position.zipWith, Direction.opposite, Direction.offset, Int32.add_assoc,
    neighbour_level]

theorem neighbour_eq_iff {c e : Coord} {d : Direction} :
    c.neighbour d = e ↔ e.neighbour d.opposite = c := by
  constructor
  · rintro rfl
    exact neighbour_opposite c d
  · rintro rfl
    have h := neighbour_opposite e d.opposite
    rwa [Direction.opposite_opposite] at h

theorem neighbour_injective {c : Coord} {d e : Direction}
    (same : c.neighbour d = c.neighbour e) : d = e := by
  obtain ⟨⟨x, y, z⟩, level⟩ := c
  have hx : x + d.offset.x = x + e.offset.x := congrArg (fun c => c.pos.x) same
  have hy : y + d.offset.y = y + e.offset.y := congrArg (fun c => c.pos.y) same
  have hz : z + d.offset.z = z + e.offset.z := congrArg (fun c => c.pos.z) same
  rw [Int32.add_right_inj] at hx hy hz
  cases d <;> cases e <;> first | rfl | (exact absurd hx (by decide)) |
    (exact absurd hy (by decide)) | (exact absurd hz (by decide))

theorem neighbour_ne (c : Coord) (d : Direction) : c.neighbour d ≠ c := by
  intro same
  have twice : (c.neighbour d).neighbour d.opposite = c.neighbour d := by
    rw [neighbour_opposite, same]
  rw [same] at twice
  have h := neighbour_injective (twice.trans same.symm)
  cases d <;> exact absurd h (by decide)

end Coord

end OctreeWorld
