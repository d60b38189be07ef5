import OctreeWorld.Proofs.Family
import OctreeWorld.Proofs.Hierarchy

/-!
# Links

`Hierarchy.Linked` is the invariant that link bits are never recomputed for: each node lies at its
own coordinate and its bits tell exactly which of its relatives are resident. Inserting and
removing a node patch only the bits that look at its cell (`Relinked`), and such a patch keeps the
invariant. Everything else that happens to nodes leaves their links alone.
-/

namespace OctreeWorld

variable {N L : Type}

/-! ### Bits of one node -/

namespace Node

theorem hasNeighbour_linkNeighbour (n : Node N) (d e : Direction) :
    (n.linkNeighbour d).hasNeighbour e = (decide (d = e) || n.hasNeighbour e) := by
  have bound := d.index_lt
  have same : decide (d.index = e.index) = decide (d = e) :=
    decide_eq_decide.mpr ⟨Direction.index_injective, congrArg _⟩
  simp only [hasNeighbour, linkNeighbour, BitVec.getLsbD_or, BitVec.getLsbD_twoPow, bound, same,
    decide_true, Bool.true_and, Bool.or_comm]

theorem hasNeighbour_unlinkNeighbour (n : Node N) (d e : Direction) :
    (n.unlinkNeighbour d).hasNeighbour e = (!decide (d = e) && n.hasNeighbour e) := by
  have bound := d.index_lt
  have bound' := e.index_lt
  have same : decide (d.index = e.index) = decide (d = e) :=
    decide_eq_decide.mpr ⟨Direction.index_injective, congrArg _⟩
  simp only [hasNeighbour, unlinkNeighbour, BitVec.getLsbD_and, BitVec.getLsbD_not,
    BitVec.getLsbD_twoPow, bound, bound', same, decide_true, Bool.true_and, Bool.and_comm]

theorem hasChild_linkChild (n : Node N) (o p : Octant) :
    (n.linkChild o).hasChild p = (decide (o = p) || n.hasChild p) := by
  have same : decide (o.val = p.val) = decide (o = p) :=
    decide_eq_decide.mpr ⟨Fin.ext, congrArg _⟩
  simp only [hasChild, linkChild, BitVec.getLsbD_or, BitVec.getLsbD_twoPow, o.isLt, same,
    decide_true, Bool.true_and, Bool.or_comm]

theorem hasChild_unlinkChild (n : Node N) (o p : Octant) :
    (n.unlinkChild o).hasChild p = (!decide (o = p) && n.hasChild p) := by
  have same : decide (o.val = p.val) = decide (o = p) :=
    decide_eq_decide.mpr ⟨Fin.ext, congrArg _⟩
  simp only [hasChild, unlinkChild, BitVec.getLsbD_and, BitVec.getLsbD_not, BitVec.getLsbD_twoPow,
    o.isLt, p.isLt, same, decide_true, Bool.true_and, Bool.and_comm]

/-- Apply a change for each face of a list that passes a test. -/
def patch (change : Direction → Node N → Node N) (test : Direction → Prop) [DecidablePred test]
    (faces : List Direction) (n : Node N) : Node N :=
  faces.foldl (fun n d => if test d then change d n else n) n

section Patch

variable {change : Direction → Node N → Node N} {test : Direction → Prop} [DecidablePred test]
  {faces : List Direction} {n : Node N}

theorem patch_cons (d : Direction) : patch change test (d :: faces) n =
    patch change test faces (if test d then change d n else n) := rfl

theorem patch_of_none (none_ : ∀ d ∈ faces, ¬ test d) (n : Node N) :
    patch change test faces n = n := by
  induction faces with
  | nil => rfl
  | cons d ds ih =>
    rw [patch_cons, if_neg (none_ d List.mem_cons_self)]
    exact ih fun d listed => none_ d (List.mem_cons_of_mem _ listed)

/-- A patch keeps what each of its changes keeps. -/
theorem patch_keeps {α : Type} (view : Node N → α) (same : ∀ d n, view (change d n) = view n) :
    view (patch change test faces n) = view n := by
  induction faces generalizing n with
  | nil => rfl
  | cons d ds ih =>
    rw [patch_cons, ih]
    split
    · exact same d n
    · rfl

theorem hasNeighbour_patch_link (turn : Direction → Direction) (e : Direction) :
    (patch (fun d n => n.linkNeighbour (turn d)) test faces n).hasNeighbour e = true ↔
      (∃ d ∈ faces, test d ∧ turn d = e) ∨ n.hasNeighbour e = true := by
  induction faces generalizing n with
  | nil => simp [patch]
  | cons d ds ih =>
    rw [patch_cons, ih]
    by_cases passes : test d
    · simp only [passes, if_true, hasNeighbour_linkNeighbour, Bool.or_eq_true, decide_eq_true_eq,
        List.exists_mem_cons_iff, true_and]
      rw [or_assoc, or_left_comm]
    · simp [passes]

theorem hasNeighbour_patch_unlink (turn : Direction → Direction) (e : Direction) :
    (patch (fun d n => n.unlinkNeighbour (turn d)) test faces n).hasNeighbour e = true ↔
      (¬ ∃ d ∈ faces, test d ∧ turn d = e) ∧ n.hasNeighbour e = true := by
  induction faces generalizing n with
  | nil => simp [patch]
  | cons d ds ih =>
    rw [patch_cons, ih]
    by_cases passes : test d
    · simp only [passes, if_true, hasNeighbour_unlinkNeighbour, Bool.and_eq_true,
        Bool.not_eq_true', decide_eq_false_iff_not, List.exists_mem_cons_iff, true_and]
      rw [not_or, and_assoc, and_left_comm]
    · simp [passes]

end Patch

end Node

/-! ### The invariant -/

/-- The change leaves the links of every node as they were. -/
def Level.SameLinks (l m : Level N L) : Prop :=
  m.index = l.index ∧ ∀ c, (m.get? c).map Node.links = (l.get? c).map Node.links

namespace Level.SameLinks

theorem refl (l : Level N L) : l.SameLinks l := ⟨rfl, fun _ => rfl⟩

theorem trans {l m k : Level N L} (first : l.SameLinks m) (second : m.SameLinks k) :
    l.SameLinks k :=
  ⟨second.1.trans first.1, fun c => (second.2 c).trans (first.2 c)⟩

theorem symm {l m : Level N L} (same : l.SameLinks m) : m.SameLinks l :=
  ⟨same.1.symm, fun c => (same.2 c).symm⟩

theorem modify (l : Level N L) (c : Coord) {f : Node N → Node N}
    (same : ∀ n, (f n).links = n.links) : l.SameLinks (l.modify c f) :=
  ⟨index_modify l c f, map_get?_modify l c same⟩

theorem modifyAll (l : Level N L) (cs : List Coord) {f : Node N → Node N}
    (same : ∀ n, (f n).links = n.links) : l.SameLinks (l.modifyAll cs f) :=
  ⟨index_modifyAll l cs f, map_get?_modifyAll l cs same⟩

theorem editNode (l : Level N L) (c : Coord) (e : NodeEdit N L) :
    l.SameLinks (l.editNode c e) := by
  refine ⟨index_editNode l c e, fun x => ?_⟩
  rw [get?_editNode]
  split
  · cases l.get? x <;> simp [Node.links_edit]
  · rfl

/-- Commands can come and go without touching a link. -/
theorem of_get? {l m : Level N L} (index : m.index = l.index) (same : ∀ c, m.get? c = l.get? c) :
    l.SameLinks m :=
  ⟨index, fun c => by rw [same]⟩

theorem placed {l m : Level N L} (same : l.SameLinks m)
    (placed : ∀ c n, l.get? c = some n → n.coord = c) : ∀ c n, m.get? c = some n → n.coord = c := by
  intro c n found
  have links := same.2 c
  rw [found] at links
  obtain ⟨n', found', links⟩ := Option.map_eq_some_iff.mp links.symm
  exact (Node.links_eq_iff.mp links).1.symm.trans (placed c n' found')

theorem edit (l : Level N L) (e : LevelEdit N L) : l.SameLinks (l.edit e) := by
  cases e with
  | setData d => exact of_get? rfl fun _ => rfl
  | push q c => exact of_get? rfl fun _ => rfl
  | node c e => exact editNode l c e

end Level.SameLinks

namespace Hierarchy

/-- Each node lies at its own coordinate, and its links tell exactly which of its relatives are
resident. -/
structure Linked (h : Hierarchy N L) : Prop where
  numbered : h.Numbered
  placed : ∀ c n, h.get? c = some n → n.coord = c
  neighbour : ∀ c n, h.get? c = some n → ∀ d, n.hasNeighbour d = h.contains (c.neighbour d)
  parent : ∀ c n, h.get? c = some n → c.level < h.coarsest →
    h.contains c.parent = true ∧ n.parentIndex = some c.octant.index
  top : ∀ c n, h.get? c = some n → ¬ c.level < h.coarsest → n.parentIndex = none
  child : ∀ c n, h.get? c = some n → ∀ o,
    n.hasChild o = true ↔ ∃ e, h.contains e = true ∧ e.parent = c ∧ e.octant = o

theorem empty_get? (factory : PayloadFactory N L) (count : UInt8) (c : Coord) :
    (empty factory count).get? c = none := by
  cases stored : (empty factory count).level? c.level with
  | none => exact get?_of_level?_none stored
  | some l =>
    rw [get?_of_level? stored]
    obtain ⟨_, rfl⟩ := List.getElem?_eq_some_iff.mp stored
    simp [empty, Level.empty, Level.get?]

theorem empty_linked (factory : PayloadFactory N L) (count : UInt8) :
    (empty factory count).Linked where
  numbered := empty_numbered factory count
  placed := by intro c n found; rw [empty_get?] at found; cases found
  neighbour := by intro c n found; rw [empty_get?] at found; cases found
  parent := by intro c n found; rw [empty_get?] at found; cases found
  top := by intro c n found; rw [empty_get?] at found; cases found
  child := by intro c n found; rw [empty_get?] at found; cases found

theorem links_of_sameLinks {h g : Hierarchy N L} (same : Levelwise Level.SameLinks h g)
    (c : Coord) : (g.get? c).map Node.links = (h.get? c).map Node.links := by
  rcases same.get? c with ⟨before, after⟩ | ⟨l, m, step, -, -, before, after⟩
  · rw [before, after]
  · rw [before, after]
    exact step.2 c

theorem contains_of_sameLinks {h g : Hierarchy N L} (same : Levelwise Level.SameLinks h g)
    (c : Coord) : g.contains c = h.contains c := by
  simpa [contains] using congrArg Option.isSome (links_of_sameLinks same c)

namespace Linked

variable {h g : Hierarchy N L}

/-- On its level a node stands where its coordinate says, as in the hierarchy. -/
theorem placed_level (linked : h.Linked) {l : Level N L} (mem : l ∈ h.levels) :
    ∀ c n, l.get? c = some n → n.coord = c := by
  intro c n found
  have stored := linked.numbered.level?_index mem
  rw [← Level.level_eq_of_get? found] at stored
  exact linked.placed c n ((get?_of_level? stored).trans found)

theorem congr (linked : h.Linked) (num : g.Numbered) (length : g.levels.length = h.levels.length)
    (same : ∀ c, (g.get? c).map Node.links = (h.get? c).map Node.links) : g.Linked := by
  have resident : ∀ c, g.contains c = h.contains c := by
    intro c
    simpa [contains] using congrArg Option.isSome (same c)
  have top : g.coarsest = h.coarsest := coarsest_congr length
  have back : ∀ c n, g.get? c = some n → ∃ m, h.get? c = some m ∧ n.links = m.links := by
    intro c n found
    have at_ := same c
    rw [found, Option.map_some] at at_
    obtain ⟨m, hm, links⟩ := Option.map_eq_some_iff.mp at_.symm
    exact ⟨m, hm, links.symm⟩
  refine ⟨num, ?_, ?_, ?_, ?_, ?_⟩
  · intro c n found
    obtain ⟨m, hm, links⟩ := back c n found
    exact (Node.links_eq_iff.mp links).1.trans (linked.placed c m hm)
  · intro c n found d
    obtain ⟨m, hm, links⟩ := back c n found
    rw [resident, Node.hasNeighbour_congr (Node.links_eq_iff.mp links).2.2.2]
    exact linked.neighbour c m hm d
  · intro c n found below
    obtain ⟨m, hm, links⟩ := back c n found
    rw [resident, (Node.links_eq_iff.mp links).2.1]
    exact linked.parent c m hm (top ▸ below)
  · intro c n found above
    obtain ⟨m, hm, links⟩ := back c n found
    rw [(Node.links_eq_iff.mp links).2.1]
    exact linked.top c m hm (top ▸ above)
  · intro c n found o
    obtain ⟨m, hm, links⟩ := back c n found
    rw [Node.hasChild_congr (Node.links_eq_iff.mp links).2.2.1]
    simpa only [resident] using linked.child c m hm o

theorem levelwise (linked : h.Linked) (rel : Levelwise Level.SameLinks h g) : g.Linked :=
  linked.congr (rel.numbered (fun _ _ step => step.1) linked.numbered) rel.length_eq
    (links_of_sameLinks rel)

/-- Changing how a node is, but not its links, and queuing a command for it. -/
theorem mark (linked : h.Linked) (c : Coord) {f : Node N → Node N}
    (same : ∀ n, (f n).links = n.links) (q : Queue) : (h.mark c f q).Linked := by
  refine linked.levelwise (levelwise_modifyLevel Level.SameLinks.refl fun l _ => ?_)
  exact (Level.SameLinks.modify l c same).trans (.of_get? rfl fun _ => rfl)

theorem clear (linked : h.Linked) (i : UInt8) (q : Queue) :
    (h.modifyLevel i (·.clear q)).Linked :=
  linked.levelwise (levelwise_modifyLevel Level.SameLinks.refl fun _ _ => .of_get? rfl fun _ => rfl)

theorem parent_resident (linked : h.Linked) {c : Coord} (resident : h.contains c = true)
    (below : c.level < h.coarsest) : h.contains c.parent = true := by
  obtain ⟨n, found⟩ := contains_iff.mp resident
  exact (linked.parent c n found below).1

/-- With a cell all its ancestors in the hierarchy are resident. -/
theorem climb_resident (linked : h.Linked) {c : Coord} (resident : h.contains c = true) {i : Nat}
    (inside : c.level.toNat + i < h.levels.length) : h.contains (Coord.climb i c) = true := by
  have num := linked.numbered
  have short := num.length_lt
  induction i with
  | zero => exact resident
  | succ i ih =>
    have level : (Coord.climb i c).level.toNat = c.level.toNat + i :=
      Coord.toNat_climb_level (by omega)
    rw [Coord.climb_succ]
    refine linked.parent_resident (ih (by omega)) ((num.lt_coarsest_iff _).mpr ?_)
    omega

/-- A leaf is no resident's parent. -/
theorem not_parent_of_isLeaf (linked : h.Linked) {c : Coord} {n : Node N}
    (found : h.get? c = some n) (leaf : n.isLeaf = true) {e : Coord}
    (resident : h.contains e = true) : e.parent ≠ c := by
  intro same
  have bit := (linked.child c n found e.octant).mpr ⟨e, resident, same, rfl⟩
  rw [(Node.isLeaf_iff n).mp leaf] at bit
  cases bit

/-- What a node keeps for its parent depends on its cell alone. -/
theorem parentIndex_eq (linked : h.Linked) (linked_g : g.Linked)
    (length : h.levels.length = g.levels.length) {c : Coord} {n m : Node N}
    (here : h.get? c = some n) (there : g.get? c = some m) : n.parentIndex = m.parentIndex := by
  have top : h.coarsest = g.coarsest := coarsest_congr length
  by_cases below : c.level < h.coarsest
  · rw [(linked.parent c n here below).2, (linked_g.parent c m there (top ▸ below)).2]
  · rw [linked.top c n here below, linked_g.top c m there (top ▸ below)]

/-- Which nodes are resident tells all links. -/
theorem links_eq (linked : h.Linked) (linked_g : g.Linked)
    (length : h.levels.length = g.levels.length) (resident : ∀ e, h.contains e = g.contains e)
    {c : Coord} {n m : Node N} (here : h.get? c = some n) (there : g.get? c = some m) :
    n.links = m.links := by
  refine Node.links_eq_iff.mpr ⟨?_, linked.parentIndex_eq linked_g length here there,
    BitVec.eq_of_getLsbD_eq fun i hi => ?_, BitVec.eq_of_getLsbD_eq fun i hi => ?_⟩
  · rw [linked.placed c n here, linked_g.placed c m there]
  · have bits : n.hasChild ⟨i, hi⟩ = m.hasChild ⟨i, hi⟩ := by
      rw [Bool.eq_iff_iff, linked.child c n here, linked_g.child c m there]
      simp only [resident]
    exact bits
  · obtain ⟨d, rfl⟩ := Direction.exists_index hi
    have bits : n.hasNeighbour d = m.hasNeighbour d := by
      rw [linked.neighbour c n here, linked_g.neighbour c m there, resident]
    exact bits

end Linked

/-! ### Patching the links around one cell -/

/-- A node that would be a linked leaf at a cell without resident children. -/
structure Fits (h : Hierarchy N L) (x : Coord) (n : Node N) : Prop where
  coord : n.coord = x
  neighbour : ∀ d, n.hasNeighbour d = h.contains (x.neighbour d)
  parent : x.level < h.coarsest → h.contains x.parent = true ∧ n.parentIndex = some x.octant.index
  top : ¬ x.level < h.coarsest → n.parentIndex = none
  leaf : n.isLeaf = true
  childless : ∀ c, h.contains c = true → c ≠ x → c.parent ≠ x

/-- Outside the cell `x` nodes come and go nowhere and keep everything but the bits that look at
`x`; those tell whether `x` is resident now. -/
structure Relinked (x : Coord) (h g : Hierarchy N L) : Prop where
  frame : g.frame = h.frame
  body : ∀ c, c ≠ x → g.body c = h.body c
  parentIndex : ∀ c, c ≠ x → ∀ m m', h.get? c = some m → g.get? c = some m' →
    m'.parentIndex = m.parentIndex
  neighbour : ∀ c, c ≠ x → ∀ m m', h.get? c = some m → g.get? c = some m' → ∀ d,
    m'.hasNeighbour d = if c.neighbour d = x then g.contains x else m.hasNeighbour d
  child : ∀ c, c ≠ x → ∀ m m', h.get? c = some m → g.get? c = some m' → ∀ o,
    m'.hasChild o = if x.parent = c ∧ x.octant = o then g.contains x else m.hasChild o

namespace Relinked

variable {x : Coord} {h g : Hierarchy N L}

theorem contains (patch : Relinked x h g) {c : Coord} (other : c ≠ x) :
    g.contains c = h.contains c :=
  contains_congr_body (patch.body c other)

theorem coarsest (patch : Relinked x h g) : g.coarsest = h.coarsest :=
  coarsest_congr (length_of_frame patch.frame)

/-- A node away from the cell was there before, with the same body. -/
theorem back (patch : Relinked x h g) {c : Coord} (other : c ≠ x) {n : Node N}
    (found : g.get? c = some n) : ∃ m, h.get? c = some m ∧ m.clearLinks = n.clearLinks :=
  exists_of_body (patch.body c other) found

section Linked

variable (patch : Relinked x h g) (linked : h.Linked)

include patch linked

theorem numbered : g.Numbered := linked.numbered.of_frame patch.frame

theorem neighbours (self : ∀ n, g.get? x = some n → h.Fits x n) {c : Coord} {n : Node N}
    (found : g.get? c = some n) (d : Direction) :
    n.hasNeighbour d = g.contains (c.neighbour d) := by
  by_cases at_ : c = x
  · subst at_
    rw [patch.contains (Coord.neighbour_ne c d)]
    exact (self n found).neighbour d
  · obtain ⟨m, before, -⟩ := patch.back at_ found
    rw [patch.neighbour c at_ m n before found]
    split
    · rename_i towards
      rw [towards]
    · rename_i away
      rw [patch.contains away]
      exact linked.neighbour c m before d

theorem parents (below : x.level ≠ 255)
    (orphans : ∀ c, h.contains c = true → c ≠ x → c.parent = x → g.contains x = true)
    (self : ∀ n, g.get? x = some n → h.Fits x n) {c : Coord} {n : Node N}
    (found : g.get? c = some n) (lower : c.level < h.coarsest) :
    g.contains c.parent = true ∧ n.parentIndex = some c.octant.index := by
  by_cases at_ : c = x
  · subst at_
    rw [patch.contains (Coord.parent_ne below)]
    exact (self n found).parent lower
  · obtain ⟨m, before, -⟩ := patch.back at_ found
    obtain ⟨resident, index⟩ := linked.parent c m before lower
    refine ⟨?_, (patch.parentIndex c at_ m n before found).trans index⟩
    by_cases up : c.parent = x
    · rw [up]
      exact orphans c (contains_iff.mpr ⟨m, before⟩) at_ up
    · rw [patch.contains up]
      exact resident

theorem children (below : x.level ≠ 255) (self : ∀ n, g.get? x = some n → h.Fits x n) {c : Coord}
    {n : Node N} (found : g.get? c = some n) (o : Octant) :
    n.hasChild o = true ↔ ∃ e, g.contains e = true ∧ e.parent = c ∧ e.octant = o := by
  have num := patch.numbered linked
  by_cases at_ : c = x
  · subst at_
    rw [(Node.isLeaf_iff n).mp (self n found).leaf]
    refine ⟨fun bit => absurd bit Bool.false_ne_true, ?_⟩
    rintro ⟨e, resident, up, -⟩
    have other : e ≠ c := by
      rintro rfl
      exact Coord.parent_ne (num.level_ne resident) up
    rw [patch.contains other] at resident
    exact absurd up ((self n found).childless e resident other)
  · obtain ⟨m, before, -⟩ := patch.back at_ found
    rw [patch.child c at_ m n before found]
    split
    · rename_i towards
      refine ⟨fun resident => ⟨x, resident, towards⟩, ?_⟩
      rintro ⟨e, resident, up, oct⟩
      have same := Coord.eq_of_parent_octant (num.level_ne resident) below
        (up.trans towards.1.symm) (oct.trans towards.2.symm)
      rw [← same]
      exact resident
    · rename_i away
      rw [linked.child c m before o]
      have others : ∀ e : Coord, e.parent = c → e.octant = o → g.contains e = h.contains e := by
        intro e up oct
        refine patch.contains ?_
        rintro rfl
        exact away ⟨up, oct⟩
      constructor
      · rintro ⟨e, resident, up, oct⟩
        exact ⟨e, by rw [others e up oct]; exact resident, up, oct⟩
      · rintro ⟨e, resident, up, oct⟩
        exact ⟨e, by rw [← others e up oct]; exact resident, up, oct⟩

end Linked

/-- A patch keeps the invariant if the node at its cell, should there be one, is linked itself, and
if no other node loses its parent. -/
theorem linked (patch : Relinked x h g) (linked : h.Linked) (below : x.level ≠ 255)
    (orphans : ∀ c, h.contains c = true → c ≠ x → c.parent = x → g.contains x = true)
    (self : ∀ n, g.get? x = some n → h.Fits x n) : g.Linked := by
  refine ⟨patch.numbered linked, ?_, fun c n found => patch.neighbours linked self found, ?_, ?_,
    fun c n found => patch.children linked below self found⟩
  · intro c n found
    by_cases at_ : c = x
    · subst at_
      exact (self n found).coord
    · obtain ⟨m, before, same⟩ := patch.back at_ found
      exact (congrArg Node.coord same).symm.trans (linked.placed c m before)
  · intro c n found lower
    rw [patch.coarsest] at lower
    exact patch.parents linked below orphans self found lower
  · intro c n found upper
    rw [patch.coarsest] at upper
    by_cases at_ : c = x
    · subst at_
      exact (self n found).top upper
    · obtain ⟨m, before, -⟩ := patch.back at_ found
      exact (patch.parentIndex c at_ m n before found).trans (linked.top c m before upper)

end Relinked

end Hierarchy

end OctreeWorld
