import Mathlib.Data.List.Perm.Basic
import OctreeWorld.Proofs.Reached

/-!
# Walks over a subtree

`Hierarchy.descendants` goes down from a cell along child bits. It comes to every resident cell
below its root and to no other, to each of them once, and it keeps to an order that can be read off
two coordinates alone: a cell comes before what lies in it, and what lies in one of two siblings
comes before what lies in the sibling at the higher octant. Every step down leads to a finer level,
so the walk ends by itself and its fuel is never spent.
-/

namespace OctreeWorld

variable {N L : Type}

/-! ### The order of a walk -/

namespace Coord

/-- Which of two cells a walk comes to first: the one that contains the other, and of two cells
inside siblings the one inside the sibling at the lower octant. -/
inductive Precedes (x y : Coord) : Prop
  | above (under : y.Under x) (differ : y ≠ x)
  | beside {a b : Coord} (level : a.level = b.level) (parents : a.parent = b.parent)
      (octants : a.octant < b.octant) (first : x.Under a) (second : y.Under b)

namespace Precedes

variable {x y : Coord}

/-- Cells that lie in siblings at different octants are not one in the other. -/
theorem not_under_of_beside {a b : Coord} (level : a.level = b.level)
    (octants : a.octant < b.octant) (first : x.Under a) (second : y.Under b) :
    ¬ x.Under y ∧ ¬ y.Under x := by
  constructor
  · intro under
    rw [first.eq_of_level (under.trans second) level] at octants
    exact Fin.lt_irrefl _ octants
  · intro under
    rw [(under.trans first).eq_of_level second level] at octants
    exact Fin.lt_irrefl _ octants

/-- Above two siblings the cells inside them have all their ancestors in common, so nothing tells
those cells apart there. -/
theorem level_le_of_beside {a b a' b' : Coord} (level : a.level = b.level)
    (parents : a.parent = b.parent) (level' : a'.level = b'.level)
    (octants' : a'.octant ≠ b'.octant) (first : x.Under a) (second : y.Under b)
    (first' : x.Under a') (second' : y.Under b') : a'.level.toNat ≤ a.level.toNat := by
  by_contra coarser
  have one : a.parent.Under a' := first.parent_chain first' (by omega)
  rw [level, level'] at coarser
  have other : b.parent.Under b' := second.parent_chain second' (by omega)
  rw [← parents] at other
  exact octants' (congrArg octant (one.eq_of_level other level'))

theorem asymm (forth : x.Precedes y) : ¬ y.Precedes x := by
  intro back
  cases forth with
  | above under differ =>
    cases back with
    | above under' _ => exact differ (under.antisymm under')
    | beside level _ octants first second =>
      exact (not_under_of_beside level octants first second).1 under
  | beside level parents octants first second =>
    cases back with
    | above under' _ => exact (not_under_of_beside level octants first second).1 under'
    | beside level' parents' octants' first' second' =>
      have le := level_le_of_beside level parents level'.symm (Fin.ne_of_lt octants').symm
        first second second' first'
      have ge := level_le_of_beside level'.symm parents'.symm level (Fin.ne_of_lt octants)
        second' first' first second
      have same := UInt8.toNat_inj.mp (Nat.le_antisymm le ge)
      have one := second'.eq_of_level first same
      have other := first'.eq_of_level second (level'.trans (same.trans level))
      rw [one, other] at octants'
      exact Fin.lt_asymm octants octants'

theorem ne (forth : x.Precedes y) : x ≠ y := by
  rintro rfl
  exact forth.asymm forth

end Precedes

end Coord

namespace Hierarchy

variable {h : Hierarchy N L}

/-! ### One step of the walk -/

theorem preOrderFrom_of_absent {c : Coord} (absent : h.get? c = none) (fuel : Nat) :
    h.preOrderFrom fuel c = [] := by
  cases fuel with
  | zero => rfl
  | succ fuel => rw [preOrderFrom, absent]

namespace Linked

variable (linked : h.Linked)

include linked

/-- The children come in the order of their octants. -/
theorem childCoords_ordered {c : Coord} {n : Node N} (found : h.get? c = some n) :
    n.childCoords.Pairwise fun d e => d.octant < e.octant := by
  have octants : Octant.all.Pairwise (· < ·) := by decide
  rw [Node.childCoords, List.pairwise_filterMap, linked.placed c n found]
  refine (octants.filter n.hasChild).imp_of_mem fun {o p} ho hp lower d one e other => ?_
  have first := linked.child_of_hasChild found (List.mem_filter.mp ho).2 one
  have second := linked.child_of_hasChild found (List.mem_filter.mp hp).2 other
  rw [first.2.2, second.2.2]
  exact lower

/-- A property of all cells that a cell has if the residents directly below it do. -/
theorem descent {P : Coord → Prop}
    (step : ∀ c, (∀ d, h.contains d = true → d.parent = c → P d) → P c) (c : Coord) : P c := by
  induction level : c.level.toNat using Nat.strongRecOn generalizing c with
  | ind k ih =>
    apply step
    rintro d resident rfl
    have up := Coord.toNat_parent_level (linked.numbered.level_ne resident)
    exact ih d.level.toNat (by omega) d rfl

/-- A step down visits each child and then goes on below it. -/
theorem preOrderFrom_eq {c : Coord} {n : Node N} (found : h.get? c = some n) {fuel : Nat}
    (enough : c.level.toNat ≤ fuel) :
    h.preOrderFrom fuel c = n.childCoords.flatMap fun d => d :: h.preOrderFrom (fuel - 1) d := by
  cases fuel with
  | zero =>
    have childless : n.childCoords = [] := by
      apply List.eq_nil_iff_forall_not_mem.mpr
      intro d child
      have level := linked.level_of_child found child
      omega
    rw [childless]
    rfl
  | succ fuel =>
    rw [preOrderFrom, found]
    refine List.flatMap_congr fun d child => ?_
    obtain ⟨m, below⟩ := contains_iff.mp ((linked.mem_childCoords found).mp child).1
    simp only [below, linked.placed d m below, Nat.add_sub_cancel]

/-- A walk has fuel enough as soon as there is some for every level below its root. -/
theorem preOrderFrom_eq_descendants {c : Coord} {fuel : Nat} (enough : c.level.toNat ≤ fuel) :
    h.preOrderFrom fuel c = h.descendants c := by
  suffices same : ∀ fuel fuel', c.level.toNat ≤ fuel → c.level.toNat ≤ fuel' →
      h.preOrderFrom fuel c = h.preOrderFrom fuel' c from
    same fuel walkFuel enough (Nat.le_of_lt c.level.toNat_lt)
  clear enough
  induction c using linked.descent with
  | step c ih =>
    intro fuel fuel' enough enough'
    cases found : h.get? c with
    | none => rw [preOrderFrom_of_absent found, preOrderFrom_of_absent found]
    | some n =>
      rw [linked.preOrderFrom_eq found enough, linked.preOrderFrom_eq found enough']
      refine List.flatMap_congr fun d child => ?_
      have level := linked.level_of_child found child
      obtain ⟨resident, up⟩ := (linked.mem_childCoords found).mp child
      rw [ih d resident up (fuel - 1) (fuel' - 1) (by omega) (by omega)]

/-- The walk below a cell visits each child and then what lies below it. -/
theorem descendants_eq {c : Coord} {n : Node N} (found : h.get? c = some n) :
    h.descendants c = n.childCoords.flatMap fun d => d :: h.descendants d := by
  have enough : c.level.toNat ≤ walkFuel := Nat.le_of_lt c.level.toNat_lt
  rw [descendants, linked.preOrderFrom_eq found enough]
  refine List.flatMap_congr fun d child => ?_
  have level := linked.level_of_child found child
  rw [linked.preOrderFrom_eq_descendants (by omega)]

/-! ### What the walk visits -/

/-- Visited before its children or after them, a cell is visited once. -/
theorem perm_postOrderFrom {fuel : Nat} {c : Coord} (resident : h.contains c = true)
    (enough : c.level.toNat < fuel) : (c :: h.descendants c).Perm (h.postOrderFrom fuel c) := by
  induction fuel generalizing c with
  | zero => omega
  | succ fuel ih =>
    obtain ⟨n, found⟩ := contains_iff.mp resident
    have below : (n.childCoords.flatMap fun d => d :: h.descendants d).Perm
        (n.childCoords.flatMap (h.postOrderFrom fuel)) := by
      refine List.Perm.flatMap_left _ fun d child => ?_
      have level := linked.level_of_child found child
      exact ih ((linked.mem_childCoords found).mp child).1 (by omega)
    rw [linked.descendants_eq found, postOrderFrom, found]
    exact (below.cons c).trans (List.perm_append_singleton c _).symm

theorem nodup_descendants {c : Coord} (resident : h.contains c = true) :
    (c :: h.descendants c).Nodup :=
  (linked.perm_postOrderFrom resident c.level.toNat_lt).nodup_iff.mpr
    (linked.nodup_postOrderFrom resident c.level.toNat_lt)

theorem mem_descendants {c x : Coord} (resident : h.contains c = true) :
    x ∈ h.descendants c ↔ h.contains x = true ∧ x.Under c ∧ x ≠ c := by
  have walked : x ∈ c :: h.descendants c ↔ h.contains x = true ∧ x.Under c :=
    (linked.perm_postOrderFrom resident c.level.toNat_lt).mem_iff.trans
      (linked.mem_postOrderFrom resident c.level.toNat_lt)
  have once := (List.nodup_cons.mp (linked.nodup_descendants resident)).1
  rw [← and_assoc, ← walked, List.mem_cons]
  constructor
  · intro listed
    refine ⟨Or.inr listed, ?_⟩
    rintro rfl
    exact once listed
  · rintro ⟨visited, differ⟩
    exact visited.resolve_left differ

/-- The walk comes to its cells in the order of `Coord.Precedes`. -/
theorem descendants_ordered (c : Coord) : (h.descendants c).Pairwise Coord.Precedes := by
  induction c using linked.descent with
  | step c ih =>
    cases found : h.get? c with
    | none =>
      rw [descendants, preOrderFrom_of_absent found]
      exact .nil
    | some n =>
      have child : ∀ d ∈ n.childCoords, h.contains d = true ∧ d.parent = c :=
        fun d listed => (linked.mem_childCoords found).mp listed
      have under : ∀ d ∈ n.childCoords, ∀ x ∈ d :: h.descendants d, x.Under d := by
        intro d listed x visited
        rcases List.mem_cons.mp visited with rfl | deeper
        · exact Coord.Under.refl x
        · exact ((linked.mem_descendants (child d listed).1).mp deeper).2.1
      rw [linked.descendants_eq found]
      refine List.pairwise_flatMap.mpr ⟨fun d listed => ?_, ?_⟩
      · obtain ⟨resident, up⟩ := child d listed
        refine List.pairwise_cons.mpr ⟨fun x visited => ?_, ih d resident up⟩
        obtain ⟨-, lower, differ⟩ := (linked.mem_descendants resident).mp visited
        exact .above lower differ
      · refine (linked.childCoords_ordered found).imp_of_mem fun {d e} hd he octants x hx y hy => ?_
        have levels := (linked.level_of_child found hd).symm.trans (linked.level_of_child found he)
        exact .beside (UInt8.toNat_inj.mp (Nat.succ.inj levels))
          ((child d hd).2.trans (child e he).2.symm) octants (under d hd x hx) (under e he y hy)

end Linked

/-- The walk below a cell of a reached hierarchy ends by itself and visits each resident that lies
in the cell once, the cell itself apart. A cell comes before what lies in it, and what lies in a
sibling before what lies in the next one. Without the cell there is nothing to visit, and with it
the walk visits what the walk that comes to children first visits before the cell. -/
theorem descendants_exact {may : NodeEdit N L → Prop} (reached : h.Reached may) (root : Coord) :
    (∀ c, c ∈ h.descendants root ↔ h.contains root = true ∧ h.contains c = true ∧
        c.level < root.level ∧ c.ancestor root.level = root) ∧
      (h.descendants root).Nodup ∧
      (∀ x ∈ h.descendants root, ∀ y ∈ h.descendants root,
        [x, y].Sublist (h.descendants root) ↔ x.Precedes y) ∧
      (∀ fuel, root.level.toNat ≤ fuel → h.preOrderFrom fuel root = h.descendants root) ∧
      (h.contains root = false → h.descendants root = []) ∧
      (h.contains root = true → ∃ order, h.subtree root = .ok order ∧
        ∀ c, c ∈ h.descendants root ↔ c ∈ order ∧ c ≠ root) := by
  have linked := reached.linked
  have ordered := linked.descendants_ordered root
  have nothing : h.contains root = false → h.descendants root = [] := fun absent =>
    preOrderFrom_of_absent (contains_eq_false_iff.mp absent) walkFuel
  refine ⟨fun c => ?_, ?_, fun x hx y hy => ⟨fun first => ?_, fun precedes => ?_⟩,
    fun fuel enough => linked.preOrderFrom_eq_descendants enough, nothing, fun resident => ?_⟩
  · cases resident : h.contains root with
    | false => simp [nothing resident]
    | true =>
      rw [linked.mem_descendants resident, Coord.under_and_ne_iff, eq_self, true_and]
  · exact ordered.imp fun precedes => precedes.ne
  · exact List.pairwise_iff_forall_sublist.mp ordered first
  · exact sublist_pair_of_pairwise ordered hx hy precedes.ne precedes.asymm
  · refine ⟨h.postOrderFrom walkFuel root, ?_, fun c => ?_⟩
    · rw [subtree_eq linked.numbered, if_pos resident]
    · have enough : root.level.toNat < walkFuel := root.level.toNat_lt
      rw [linked.mem_descendants resident, linked.mem_postOrderFrom resident enough, and_assoc]

/-- Two neighbours on the finest of three levels lie in different cells of the next level and in one
of the coarsest: two steps lead from that one to all four. -/
theorem descendants_of_neighbours :
    let made (h : Hierarchy Unit Unit) (c : Coord) :=
      (h.ensure PayloadFactory.plain SimTime.zero c).2.2
    let h := made (made (empty PayloadFactory.plain 3) ⟨⟨1, 0, 0⟩, 0⟩) ⟨⟨0, 0, 0⟩, 0⟩
    let walk : List Coord :=
      [⟨⟨0, 0, 0⟩, 1⟩, ⟨⟨0, 0, 0⟩, 0⟩, ⟨⟨1, 0, 0⟩, 1⟩, ⟨⟨1, 0, 0⟩, 0⟩]
    h.Reached (fun _ => True) ∧ h.descendants ⟨⟨0, 0, 0⟩, 2⟩ = walk ∧ walk.Nodup ∧
      (⟨⟨0, 0, 0⟩, 0⟩ : Coord).Precedes ⟨⟨1, 0, 0⟩, 1⟩ ∧
      ∀ fuel, 2 ≤ fuel → h.preOrderFrom fuel ⟨⟨0, 0, 0⟩, 2⟩ = walk := by
  intro made h walk
  have made_reached : ∀ {g : Hierarchy Unit Unit} c, g.Reached (fun _ => True) →
      (made g c).Reached fun _ => True := fun c before => before.ensure _ _ c
  have reached : h.Reached fun _ => True := made_reached _ (made_reached _ (.empty _ _))
  have walked : h.descendants ⟨⟨0, 0, 0⟩, 2⟩ = walk := by decide +kernel
  obtain ⟨-, once, order, enough, -⟩ := descendants_exact reached ⟨⟨0, 0, 0⟩, 2⟩
  rw [walked] at once order enough
  exact ⟨reached, walked, once, (order _ (by decide) _ (by decide)).mp (by decide), enough⟩

end Hierarchy

end OctreeWorld
