import OctreeWorld.Proofs.Descent
import OctreeWorld.Proofs.Uniformity

/-!
# What the check of the links tells

Links are kept upwards: a node knows its parent and its octant, and the parent's bit for that octant
says that it is there. `Hierarchy.check` reads child bits downwards, through `Coord.child?`, whose
positions wrap past the end of the word. For most cells the two agree. A cell so far out that the
positions of a child wrap has another parent's cell for its child, and if that cell is resident the
check takes the links for broken although they are not.

So of a reached hierarchy the check reports nothing but such cells, and it reports one whenever
there is one. Of hierarchies without such cells, with whatever links, it accepts exactly those that
are linked.
-/

namespace OctreeWorld

variable {N L σ : Type} {may : NodeEdit N L → Prop}

/-! ### Children whose positions do not wrap -/

namespace Coord

/-- The cell lies so near the origin that the positions of its children fit the word. -/
def Inner (c : Coord) : Prop :=
  ∀ p ∈ [c.pos.x, c.pos.y, c.pos.z], -1073741824 < p.toInt ∧ p.toInt < 1073741824

instance (c : Coord) : Decidable c.Inner :=
  List.decidableBAll (fun p : Int32 => -1073741824 < p.toInt ∧ p.toInt < 1073741824) _

theorem Inner.childFits {c : Coord} (inner : c.Inner) (o : Octant) : c.ChildFits o := by
  intro axis listed
  have near : -1073741824 < (axis c.pos).toInt ∧ (axis c.pos).toInt < 1073741824 := by
    refine inner (axis c.pos) ?_
    revert axis
    exact Position.forall_mem_axes.mpr ⟨by simp, by simp, by simp⟩
  have side := o.toInt_offset axis listed
  unfold exactChildAxis
  split <;> exact ⟨by omega, by omega⟩

end Coord

/-! ### Single nodes -/

namespace Hierarchy

variable {h : Hierarchy N L}

theorem faceFault?_eq_none_iff {n : Node N} {d : Direction} :
    h.faceFault? n d = none ↔ n.hasNeighbour d = h.contains (n.coord.neighbour d) ∧
      ∀ m, h.get? (n.coord.neighbour d) = some m → m.hasNeighbour d.opposite = true := by
  rw [faceFault?, contains]
  cases bit : n.hasNeighbour d <;> cases across : h.get? (n.coord.neighbour d) <;> simp

theorem parentFault?_eq_none_iff {n : Node N} : h.parentFault? n = none ↔
    (n.coord.level < h.coarsest → n.parentIndex = some n.coord.octant.index ∧
      ∃ p, h.get? n.coord.parent = some p ∧ p.hasChild n.coord.octant = true) ∧
    (¬ n.coord.level < h.coarsest → n.parentIndex = none) := by
  rw [parentFault?]
  by_cases below : n.coord.level < h.coarsest
  · by_cases index : n.parentIndex = some n.coord.octant.index
    · cases h.get? n.coord.parent <;> simp [below, index]
    · simp [below, index]
  · simp [below]

theorem childFault?_eq_none_iff {n : Node N} {o : Octant} : h.childFault? n o = none ↔
    (n.hasChild o = true ↔ ∃ e, n.coord.child? o = some e ∧ h.contains e = true) := by
  have resident : ((n.coord.child? o).bind h.get?).isSome = true ↔
      ∃ e, n.coord.child? o = some e ∧ h.contains e = true := by
    cases n.coord.child? o <;> simp [contains]
  rw [childFault?, ← resident, ← Bool.eq_iff_iff]
  simp

theorem nodeFault?_eq_none_iff {l : Level N L} {p : Position} {n : Node N} :
    h.nodeFault? l p n = none ↔ n.coord = ⟨p, l.index⟩ ∧ (∀ d, h.faceFault? n d = none) ∧
      h.parentFault? n = none ∧ ∀ o, h.childFault? n o = none := by
  have placed : (n.coord.pos ≠ p ∨ n.coord.level ≠ l.index) ↔ n.coord ≠ ⟨p, l.index⟩ := by
    rw [← not_and_or, not_iff_not]
    exact ⟨fun both => congrArg₂ Coord.mk both.1 both.2, fun at_ => by rw [at_]; exact ⟨rfl, rfl⟩⟩
  rw [nodeFault?, if_congr placed rfl rfl]
  by_cases at_ : n.coord = ⟨p, l.index⟩
  · rw [if_neg (not_not.mpr at_)]
    simp [at_, List.findSome?_eq_none_iff, Direction.mem_all, Octant.mem_all]
  · rw [if_pos at_]
    simp [at_]

/-- Going down from a cell at an octant, positions wrap to a resident cell of another parent. -/
def Mistakes (h : Hierarchy N L) (c : Coord) (o : Octant) : Prop :=
  ∃ e, c.child? o = some e ∧ h.contains e = true ∧ e.parent ≠ c

namespace Linked

variable (linked : h.Linked) {c : Coord} {n : Node N} (found : h.get? c = some n)

include linked found

theorem faceFault?_eq_none (d : Direction) : h.faceFault? n d = none := by
  apply faceFault?_eq_none_iff.mpr
  rw [linked.placed c n found]
  refine ⟨linked.neighbour c n found d, fun m across => ?_⟩
  rw [linked.neighbour _ m across, Coord.neighbour_opposite]
  exact contains_iff.mpr ⟨n, found⟩

theorem parentFault?_eq_none : h.parentFault? n = none := by
  apply parentFault?_eq_none_iff.mpr
  rw [linked.placed c n found]
  refine ⟨fun below => ?_, linked.top c n found⟩
  obtain ⟨resident, index⟩ := linked.parent c n found below
  obtain ⟨p, above⟩ := contains_iff.mp resident
  exact ⟨index, p, above,
    (linked.child _ p above c.octant).mpr ⟨c, contains_iff.mpr ⟨n, found⟩, rfl, rfl⟩⟩

/-- A child bit is right, so the check misses it exactly when it looks at the wrong cell. -/
theorem childFault?_eq_some_iff (o : Octant) (f : LinkFault) :
    h.childFault? n o = some f ↔ f = .childBit o ∧ h.Mistakes c o := by
  have silent : h.childFault? n o = none ↔ ¬ h.Mistakes c o := by
    rw [childFault?_eq_none_iff, linked.placed c n found]
    constructor
    · rintro same ⟨e, down, resident, other⟩
      exact other (linked.child_of_hasChild found (same.mpr ⟨e, down, resident⟩) down).2.1
    · intro right
      rw [linked.child c n found o]
      constructor
      · rintro ⟨e, resident, rfl, rfl⟩
        exact ⟨e, Coord.child?_parent_octant (linked.numbered.level_ne resident), resident⟩
      · rintro ⟨e, down, resident⟩
        have up : e.parent = c := by
          by_contra other
          exact right ⟨e, down, resident, other⟩
        have below := linked.numbered.level_ne resident
        exact ⟨e, resident, up, Coord.octant_of_child? below up down⟩
  have mistaken : h.Mistakes c o ↔ h.childFault? n o ≠ none := by rw [Ne, silent, not_not]
  rw [mistaken, childFault?]
  split <;> simp [eq_comm]

end Linked

/-! ### Whole hierarchies -/

/-- The check accepts a hierarchy exactly when it finds no fault in any stored node. -/
theorem check_eq_ok_iff : h.check = .ok () ↔
    ∀ l ∈ h.levels, ∀ p n, l.nodes[p]? = some n → h.nodeFault? l p n = none := by
  have silent : h.check = .ok () ↔ h.levels.findSome? h.levelError? = none := by
    rw [check]
    cases h.levels.findSome? h.levelError? <;> simp
  have level : ∀ l, h.levelError? l = none ↔
      ∀ p n, l.nodes[p]? = some n → h.nodeFault? l p n = none := by
    intro l
    simp only [levelError?, List.findSome?_eq_none_iff, Option.map_eq_none_iff, Prod.forall,
      Std.ExtTreeMap.mem_toList_iff_getElem?_eq_some]
  simp only [silent, List.findSome?_eq_none_iff, level]

/-- What the check tells of one stored node, if it accepts. -/
theorem faultless_of_check (accepted : h.check = .ok ()) {c : Coord} {n : Node N}
    (found : h.get? c = some n) :
    n.coord = c ∧ (∀ d, h.faceFault? n d = none) ∧ h.parentFault? n = none ∧
      ∀ o, h.childFault? n o = none := by
  obtain ⟨l, stored, at_⟩ := level?_of_get? found
  obtain ⟨own, there⟩ := Level.get?_eq_some_iff.mp at_
  have silent := check_eq_ok_iff.mp accepted l (mem_levels_of_level? stored) c.pos n there
  rw [nodeFault?_eq_none_iff, ← own] at silent
  exact silent

/-- No resident cell is mistaken in a child. -/
def Upright (h : Hierarchy N L) : Prop := ∀ c, h.contains c = true → ∀ o, ¬ h.Mistakes c o

/-- Near the origin no cell is mistaken. Cells of the finest level have no children to look for. -/
theorem upright_of_inner (inner : ∀ c, h.contains c = true → c.level ≠ 0 → c.Inner) :
    h.Upright := by
  rintro c resident o ⟨e, down, -, other⟩
  have near := inner c resident (Coord.level_ne_of_child? down)
  exact other (Coord.parent_of_child? (near.childFits o) down)

theorem Linked.nodeFault? (linked : h.Linked) {l : Level N L} (mem : l ∈ h.levels)
    {p : Position} {n : Node N} (stored : l.nodes[p]? = some n) :
    h.nodeFault? l p n = Octant.all.findSome? (h.childFault? n) ∧
      h.get? ⟨p, l.index⟩ = some n := by
  have found : h.get? ⟨p, l.index⟩ = some n :=
    (get?_of_level? (c := ⟨p, l.index⟩) (linked.numbered.level?_index mem)).trans
      ((Level.get?_mk l p).trans stored)
  have coord := linked.placed _ n found
  have faces : Direction.all.findSome? (h.faceFault? n) = none :=
    List.findSome?_eq_none_iff.mpr fun d _ => linked.faceFault?_eq_none found d
  refine ⟨?_, found⟩
  rw [Hierarchy.nodeFault?, coord, faces, linked.parentFault?_eq_none found]
  simp

/-- The check of a linked hierarchy fails exactly at its mistaken cells, and calls the bit of the
octant it went down by wrong. -/
theorem Linked.check (linked : h.Linked) :
    h.check = .ok () ∧ h.Upright ∨
      ∃ c o, h.contains c = true ∧ h.Mistakes c o ∧
        h.check = .error (.brokenLink c (.childBit o)) := by
  cases verdict : h.check with
  | ok =>
    refine Or.inl ⟨rfl, fun c resident o mistaken => ?_⟩
    obtain ⟨n, found⟩ := contains_iff.mp resident
    have silent := (faultless_of_check verdict found).2.2.2 o
    rw [(linked.childFault?_eq_some_iff found o _).mpr ⟨rfl, mistaken⟩] at silent
    cases silent
  | error e =>
    rw [Hierarchy.check] at verdict
    split at verdict
    · rename_i first search
      cases verdict
      obtain ⟨l, mem, fault⟩ := List.exists_of_findSome?_eq_some search
      obtain ⟨⟨p, n⟩, listed, named⟩ := List.exists_of_findSome?_eq_some fault
      have stored := Std.ExtTreeMap.mem_toList_iff_getElem?_eq_some.mp listed
      obtain ⟨faults, found⟩ := linked.nodeFault? mem stored
      simp only [faults] at named
      obtain ⟨f, first, rfl⟩ := Option.map_eq_some_iff.mp named
      obtain ⟨o, -, bit⟩ := List.exists_of_findSome?_eq_some first
      obtain ⟨rfl, mistaken⟩ := (linked.childFault?_eq_some_iff found o f).mp bit
      refine Or.inr ⟨⟨p, l.index⟩, o, contains_iff.mpr ⟨n, found⟩, mistaken, ?_⟩
      rw [linked.placed _ n found]
    · cases verdict

/-! ### Corrupted hierarchies

Nothing is assumed here of what is stored: a node may lie at another cell's coordinate, and its
links may be any bits. -/

theorem Linked.inner_of_contains (linked : h.Linked)
    (inner : ∀ c n, h.get? c = some n → n.coord = c → c.level ≠ 0 → c.Inner) :
    ∀ c, h.contains c = true → c.level ≠ 0 → c.Inner := by
  intro c resident above
  obtain ⟨n, found⟩ := contains_iff.mp resident
  exact inner c n found (linked.placed c n found) above

section Numbered

variable (num : h.Numbered)

include num

/-- A hierarchy that passes the check is linked, provided that no position of a child wraps. -/
theorem linked_of_check
    (inner : ∀ c n, h.get? c = some n → n.coord = c → c.level ≠ 0 → c.Inner)
    (accepted : h.check = .ok ()) : h.Linked where
  numbered := num
  placed c n found := (faultless_of_check accepted found).1
  neighbour := by
    intro c n found d
    obtain ⟨rfl, faces, -, -⟩ := faultless_of_check accepted found
    exact (faceFault?_eq_none_iff.mp (faces d)).1
  parent := by
    intro c n found below
    obtain ⟨rfl, -, up, -⟩ := faultless_of_check accepted found
    obtain ⟨index, p, above, -⟩ := (parentFault?_eq_none_iff.mp up).1 below
    exact ⟨contains_iff.mpr ⟨p, above⟩, index⟩
  top := by
    intro c n found top
    obtain ⟨rfl, -, up, -⟩ := faultless_of_check accepted found
    exact (parentFault?_eq_none_iff.mp up).2 top
  child := by
    intro c n found o
    obtain ⟨at_, -, -, down⟩ := faultless_of_check accepted found
    rw [childFault?_eq_none_iff.mp (down o), at_]
    constructor
    · -- The cell that the check looked at is a child of this node, as its position has not wrapped.
      rintro ⟨e, child, resident⟩
      have above : c.level ≠ 0 := Coord.level_ne_of_child? child
      have up := Coord.parent_of_child? ((inner c n found at_ above).childFits o) child
      exact ⟨e, resident, up, Coord.octant_of_child? (num.level_ne resident) up child⟩
    · rintro ⟨e, resident, rfl, rfl⟩
      exact ⟨e, Coord.child?_parent_octant (num.level_ne resident), resident⟩

/-- Where no position of a child wraps, the check accepts exactly the linked hierarchies, and of a
linked one it notices every change to the links of a single node. -/
theorem check_exact
    (inner : ∀ c n, h.get? c = some n → n.coord = c → c.level ≠ 0 → c.Inner) :
    (h.check = .ok () ↔ h.Linked) ∧
      ∀ c n f, h.check = .ok () → h.get? c = some n → (f n).links ≠ n.links →
        ∃ e, (h.modify c f).check = .error e := by
  have complete : h.Linked → h.check = .ok () := by
    intro linked
    rcases linked.check with ⟨accepted, -⟩ | ⟨c, o, resident, mistaken, -⟩
    · exact accepted
    · exact absurd mistaken (upright_of_inner (linked.inner_of_contains inner) c resident o)
  refine ⟨⟨linked_of_check num inner, complete⟩, fun c n f accepted found changed => ?_⟩
  have linked := linked_of_check num inner accepted
  have frame := frame_modify h c f
  have resident : ∀ e, (h.modify c f).contains e = h.contains e := contains_modify h c f
  cases verdict : (h.modify c f).check with
  | error e => exact ⟨e, rfl⟩
  | ok =>
    -- Both hierarchies have the same residents, and those tell the links.
    have linked' : (h.modify c f).Linked := by
      apply linked_of_check (num.of_frame frame) _ verdict
      intro e m found' _ above
      have there := contains_iff.mpr ⟨m, found'⟩
      rw [resident] at there
      exact linked.inner_of_contains inner e there above
    have there : (h.modify c f).get? c = some (f n) := by
      rw [get?_modify, if_pos rfl, found]
      rfl
    exact absurd (linked'.links_eq linked (length_of_frame frame) resident there found) changed

end Numbered

/-- On two levels with a cell each the check passes, and it notices that the lower cell takes an
absent neighbour for resident. -/
theorem check_exact_of_lineage :
    let cell : Coord := ⟨⟨5, -3, 0⟩, 0⟩
    let h : Hierarchy Unit Unit :=
      ((empty PayloadFactory.plain 2).ensure PayloadFactory.plain SimTime.zero cell).2.2
    h.Numbered ∧ (∀ c n, h.get? c = some n → n.coord = c → c.level ≠ 0 → c.Inner) ∧
      h.contains cell.parent = true ∧ h.check = .ok () ∧ h.Linked ∧
      ∃ e, (h.modify cell (·.linkNeighbour .posX)).check = .error e := by
  intro cell h
  obtain ⟨g, run, grown, -⟩ := (empty_linked PayloadFactory.plain 2).ensure PayloadFactory.plain
    SimTime.zero cell
  have num : h.Numbered := by
    have same : h = g := congrArg (·.2.2) run
    rw [same]
    exact grown.linked.numbered
  have inner : ∀ c n, h.get? c = some n → n.coord = c → c.level ≠ 0 → c.Inner := by
    have listed : ∀ n ∈ h.nodeList, n.coord.level ≠ 0 → n.coord.Inner := by decide +kernel
    intro c n found at_ above
    have mem : n ∈ h.nodeList := num.mem_nodeList.mpr ⟨c, found⟩
    rw [← at_] at above ⊢
    exact listed n mem above
  obtain ⟨exact_, notices⟩ := check_exact num inner
  have accepted : h.check = .ok () := by decide +kernel
  have resident : (h.get? cell).isSome = true := by decide +kernel
  obtain ⟨n, found⟩ := Option.isSome_iff_exists.mp resident
  have absent : n.hasNeighbour .posX = false := by
    have lonely : (h.get? cell).any (·.hasNeighbour .posX) = false := by decide +kernel
    rw [found] at lonely
    exact lonely
  refine ⟨num, inner, by decide +kernel, accepted, exact_.mp accepted,
    notices cell n _ accepted found fun same => ?_⟩
  have bits := Node.hasNeighbour_congr (Node.links_eq_iff.mp same).2.2.2 Direction.posX
  rw [Node.hasNeighbour_linkNeighbour, absent] at bits
  cases bits

/-- The first hierarchy of a list with a mistaken cell ends the check of the list. -/
theorem forM_check {hs : List (Hierarchy N L)} (linked : ∀ h ∈ hs, h.Linked) :
    forM hs Hierarchy.check = .ok () ∧ (∀ h ∈ hs, h.Upright) ∨
      ∃ h ∈ hs, ∃ c o, h.contains c = true ∧ h.Mistakes c o ∧
        forM hs Hierarchy.check = .error (.brokenLink c (.childBit o)) := by
  induction hs with
  | nil => exact Or.inl ⟨rfl, fun h listed => absurd listed List.not_mem_nil⟩
  | cons h hs ih =>
    rw [List.forM_cons]
    rcases (linked h List.mem_cons_self).check with ⟨run, upright⟩ | ⟨c, o, resident, mistaken, run⟩
    · rw [run]
      rcases ih fun h listed => linked h (List.mem_cons_of_mem _ listed) with
        ⟨rest, uprights⟩ | ⟨g, listed, c, o, resident, mistaken, rest⟩
      · exact Or.inl ⟨rest, List.forall_mem_cons.mpr ⟨upright, uprights⟩⟩
      · exact Or.inr ⟨g, List.mem_cons_of_mem _ listed, c, o, resident, mistaken, rest⟩
    · rw [run]
      exact Or.inr ⟨h, List.mem_cons_self, c, o, resident, mistaken, rfl⟩

end Hierarchy

/-! ### Worlds -/

namespace World

/-- The hierarchy of the world and those of its regions. -/
def hierarchies (w : World σ N L) : List (Hierarchy N L) :=
  w.hierarchy :: w.regions.map Region.hierarchy

theorem check_eq (w : World σ N L) : w.check = forM w.hierarchies Hierarchy.check := by
  rw [hierarchies, List.forM_cons, List.forM_map, ← List.forM_eq_forM]
  rfl

/-- Whatever was done to a world, the check of its links reports nothing but cells that it takes
another parent's cell for a child of, and it accepts a world without such cells. Cells near the
origin are never among them. -/
theorem check_of_reached {w : World σ N L} (reached : w.Reached may) :
    (w.check = .ok () ↔ ∀ h ∈ w.hierarchies, h.Upright) ∧
      (∀ e, w.check = .error e → ∃ h ∈ w.hierarchies, ∃ c o, h.contains c = true ∧
        h.Mistakes c o ∧ e = .brokenLink c (.childBit o)) ∧
      ((∀ h ∈ w.hierarchies, ∀ c, h.contains c = true → c.level ≠ 0 → c.Inner) →
        w.check = .ok ()) := by
  have linked : ∀ h ∈ w.hierarchies, h.Linked := by
    have sound := reached.sound (.trivial may)
    refine List.forall_mem_cons.mpr ⟨sound.linked, fun h listed => ?_⟩
    obtain ⟨r, mem, rfl⟩ := List.mem_map.mp listed
    exact (sound.regions r mem).linked
  rw [check_eq]
  rcases Hierarchy.forM_check linked with
    ⟨run, upright⟩ | ⟨h, listed, c, o, resident, mistaken, run⟩
  · rw [run]
    exact ⟨⟨fun _ => upright, fun _ => rfl⟩, fun e failed => (nomatch failed), fun _ => rfl⟩
  · rw [run]
    have fails : ¬ ∀ h ∈ w.hierarchies, h.Upright :=
      fun upright => upright h listed c resident o mistaken
    refine ⟨⟨fun ok => (nomatch ok), fun upright => absurd upright fails⟩, fun e failed => ?_,
      fun inner => absurd (fun h listed => Hierarchy.upright_of_inner (inner h listed)) fails⟩
    exact ⟨h, listed, c, o, resident, mistaken, (Except.error.inj failed).symm⟩

/-- A cell at the end of two axes, created with its ancestors, is far out and yet not mistaken. -/
theorem check_of_far_corner :
    let w : World Unit Unit Unit := (((World.empty default { levelCount := 3 }
      PayloadFactory.plain).queueCreate ⟨⟨2147483647, -2147483648, 0⟩, 0⟩).createPhase).2
    w.Reached (fun _ => True) ∧ w.nodeCount = 3 ∧ w.check = .ok () ∧
      ∀ h ∈ w.hierarchies, h.Upright := by
  intro w
  have reached : w.Reached fun _ => True := ((World.Reached.empty _ _ _).queueCreate _).createPhase
  have accepted : w.check = .ok () := by decide +kernel
  exact ⟨reached, by decide +kernel, accepted, (check_of_reached reached).1.mp accepted⟩

/-- Two cells of the coarsest level are created, and then a cell below the second. The positions of
a child of the first, at the end of an axis, wrap to the third cell. Every link is right, and the
check names a bit of the first cell. -/
theorem check_mistakes_wrapped_child :
    let end_ : Coord := ⟨⟨2147483647, 0, 0⟩, 1⟩
    let w : World Unit Unit Unit :=
      [end_, ⟨⟨-1, 0, 0⟩, 1⟩, ⟨⟨-3, -1, -1⟩, 0⟩].foldl
        (fun w c => (Operation.perform w () (.createNode c)).1)
        (World.empty default { levelCount := 2 } PayloadFactory.plain)
    w.Reached (fun _ => True) ∧ w.hierarchy.Linked ∧ w.nodeCount = 3 ∧
      w.check = .error (.brokenLink end_ (.childBit 0)) := by
  intro end_ w
  have reached : w.Reached fun _ => True := by
    have created : ∀ {v : World Unit Unit Unit} c, v.Reached (fun _ => True) →
        (Operation.perform v () (.createNode c)).1.Reached fun _ => True :=
      fun c before => Operation.perform_reached before (.createNode c) trivial ()
    exact created _ (created _ (created _ (.empty _ _ _)))
  exact ⟨reached, (reached.sound (.trivial _)).linked, by decide +kernel, by decide +kernel⟩

end World

end OctreeWorld
