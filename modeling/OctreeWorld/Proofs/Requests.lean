import OctreeWorld.Proofs.Reached

/-!
# Requests for cells

`Hierarchy.createPending` drains the create queues level by level, coarsest first, and a request
creates ancestors on levels whose own queue has been drained before. Later requests therefore meet
cells that earlier ones have made. What comes of it does not depend on that: the cells asked for and
their ancestors are resident, nothing else has been created, no cell twice, and none before its
parent.
-/

namespace OctreeWorld

variable {N L : Type}

namespace Hierarchy

/-! ### Contents of the create queues -/

/-- The hierarchy with other contents of the create queues. -/
def requesting (h : Hierarchy N L) (requests : UInt8 → List Coord) : Hierarchy N L :=
  ⟨h.levels.map fun l => { l with queues := l.queues.set .create (requests l.index) }⟩

section Requesting

variable (h : Hierarchy N L) (requests : UInt8 → List Coord)

theorem level?_requesting (i : UInt8) : (h.requesting requests).level? i =
    (h.level? i).map fun l => { l with queues := l.queues.set .create (requests l.index) } := by
  simp only [level?, requesting, List.getElem?_map]

theorem levelwise_requesting : Levelwise Level.SameLinks h (h.requesting requests) :=
  List.forall₂_map_right_iff.mpr (List.forall₂_same.mpr fun _ _ => .of_get? rfl fun _ => rfl)

theorem get?_requesting (c : Coord) : (h.requesting requests).get? c = h.get? c := by
  rw [get?, get?, level?_requesting]
  cases h.level? c.level <;> rfl

theorem levelCount_requesting : (h.requesting requests).levelCount = h.levelCount :=
  levelCount_congr (List.length_map _)

theorem pending_requesting {h : Hierarchy N L} (num : h.Numbered) (i : UInt8) (q : Queue) :
    (h.requesting requests).pending i q =
      if q = .create then if i < h.levelCount then requests i else [] else h.pending i q := by
  have level := level?_requesting h requests i
  cases stored : h.level? i with
  | none =>
    have outside : ¬ i < h.levelCount := by
      rw [num.lt_levelCount_iff, stored]
      simp
    rw [stored] at level
    rw [pending_of_level?_none level, pending_of_level?_none stored, if_neg outside, ite_self]
  | some l =>
    have inside : i < h.levelCount := (num.lt_levelCount_iff i).mpr ⟨l, stored⟩
    rw [stored] at level
    rw [pending_of_level? level, pending_of_level? stored, if_pos inside, ← num.index i l stored]
    exact (Queues.get_set l.queues .create q (requests l.index)).trans (by simp only [eq_comm]; rfl)

end Requesting

/-! ### The order of creation -/

/-- No cell is listed twice, and none before its parent. -/
def ParentFirst (created : List Coord) : Prop :=
  created.Pairwise fun a b => b ≠ a ∧ b ≠ a.parent

theorem ParentFirst.append {factory : PayloadFactory N L} {now : SimTime}
    {drained more : List UInt8} {created later : List Coord} {h k g : Hierarchy N L}
    (first : Grown factory now drained created h k) (second : Grown factory now more later k g)
    (early : ParentFirst created) (late : ParentFirst later) : ParentFirst (created ++ later) := by
  refine List.pairwise_append.mpr ⟨early, late, fun a ha b hb => ?_⟩
  have there : k.contains a = true := (first.contains_iff a).mpr (Or.inl ha)
  have absent := second.fresh b hb
  constructor
  · rintro rfl
    rw [there] at absent
    cases absent
  · rintro rfl
    -- The parent would have been resident already when its child was made.
    have num := second.linked.numbered
    have resident := (second.contains_iff a.parent).mpr (Or.inl hb)
    have level := first.linked.numbered.level_ne there
    have below := num.lt_coarsest_of_parent level resident
    rw [second.coarsest] at below
    rw [first.linked.parent_resident there below] at absent
    cases absent

theorem parentFirst_ascent {n : Nat} {c : Coord} (inside : c.level.toNat + n ≤ 256) :
    ParentFirst (ascent n c) := by
  induction n with
  | zero => exact .nil
  | succ n ih =>
    rw [ascent_succ]
    refine List.pairwise_cons.mpr ⟨fun e listed => ?_, ih (by omega)⟩
    obtain ⟨i, lower, rfl⟩ := mem_ascent.mp listed
    have head : (Coord.climb n c).level.toNat = c.level.toNat + n :=
      Coord.toNat_climb_level (by omega)
    have level : (Coord.climb i c).level.toNat = c.level.toNat + i :=
      Coord.toNat_climb_level (by omega)
    have above := Coord.level_le_parent (Coord.climb n c)
    constructor
    · intro same
      rw [same] at level
      omega
    · intro same
      rw [same] at level
      omega

variable {h : Hierarchy N L} (linked : h.Linked) (factory : PayloadFactory N L) (now : SimTime)

include linked

theorem Linked.missing_parentFirst (c : Coord) : ParentFirst (h.missing c) := by
  unfold missing
  split
  · rename_i inside
    refine List.Pairwise.filter _ (parentFirst_ascent ?_)
    have below := UInt8.lt_iff_toNat_lt.mp inside
    have short := linked.numbered.length_lt
    rw [linked.numbered.toNat_levelCount] at below
    have top := linked.numbered.toNat_coarsest (by omega)
    omega
  · exact .nil

/-- What one request creates after another comes in an order that suits both. -/
theorem Linked.ensureAll_parentFirst (cs : List Coord) :
    ParentFirst (Hierarchy.ensureAll factory now cs h).1 := by
  induction cs generalizing h with
  | nil => exact .nil
  | cons c cs ih =>
    obtain ⟨k, run, first, -⟩ := linked.ensure factory now c
    obtain ⟨created, g, rest, second, -⟩ := first.linked.ensureAll factory now cs
    have later := ih first.linked
    rw [rest] at later
    rw [Hierarchy.ensureAll, run]
    simp only [rest]
    exact (linked.missing_parentFirst c).append first second later

theorem Linked.createAt_parentFirst (is : List UInt8) :
    ParentFirst (Hierarchy.createAt factory now is h).1 := by
  induction is generalizing h with
  | nil => exact .nil
  | cons i is ih =>
    have cleared := Grown.clear linked factory now i
    obtain ⟨made, k, run, first, -⟩ :=
      cleared.linked.ensureAll factory now (CoordSet.sorted (h.pending i .create))
    obtain ⟨created, g, rest, second, -⟩ := first.linked.createAt factory now is
    have early := cleared.linked.ensureAll_parentFirst factory now
      (CoordSet.sorted (h.pending i .create))
    have later := ih first.linked
    rw [run] at early
    rw [rest] at later
    rw [createAt_cons]
    simp only [run, rest]
    exact early.append first second later

omit linked

/-! ### What becomes of the requests -/

/-- A cell is asked for by the requests for it and for the cells inside it. -/
def Asked (h : Hierarchy N L) (requests : UInt8 → List Coord) (c : Coord) : Prop :=
  ∃ i < h.levelCount, ∃ d ∈ requests i, ∃ j, i ≤ j ∧ j < h.levelCount ∧ d.ancestor j = c

/-- Requests have been carried out: the cells asked for are resident besides those that were, and
`created` lists the new ones, each once and after its parent. The new ones are loading, with their
loads queued, the others are as they were but for their links, and no create command is left. -/
structure Fulfilled (factory : PayloadFactory N L) (now : SimTime) (requests : UInt8 → List Coord)
    (created : List Coord) (h g : Hierarchy N L) : Prop where
  linked : g.Linked
  drained : ∀ i, g.pending i .create = []
  resident : ∀ c, g.contains c = true ↔ h.contains c = true ∨ h.Asked requests c
  served : ∀ i < h.levelCount, ∀ d ∈ requests i, g.contains d = true
  once : created.Nodup
  listed : ∀ c, c ∈ created ↔ g.contains c = true ∧ h.contains c = false
  parentFirst : ∀ c ∈ created, c.parent ∈ created → [c.parent, c].Sublist created
  born : ∀ c ∈ created, ∀ n, g.get? c = some n → n.coord = c ∧ n.data = factory.node c ∧
    n.state = .loading ∧ n.lastUpdate = now ∧ n.version = 0 ∧ n.observers = 0
  loads : ∀ i, g.pending i .load = h.pending i .load ++ created.filter (·.level == i)
  kept : ∀ c, h.contains c = true → g.body c = h.body c
  others : ∀ i q, q ≠ .create → q ≠ .load → g.pending i q = h.pending i q

theorem lastUpdate_newborn (factory : PayloadFactory N L) (now : SimTime) (c : Coord) :
    (factory.newborn now c).lastUpdate = now := by
  change (if SimTime.zero.micros ≤ now.micros then now else SimTime.zero) = now
  exact if_pos UInt64.zero_le

/-- Draining the create queues of a reached hierarchy makes resident what they ask for, whatever
they hold, and creates nothing else. -/
theorem createPending_exact {may : NodeEdit N L → Prop} (reached : h.Reached may)
    {requests : UInt8 → List Coord} (own : ∀ i, ∀ c ∈ requests i, c.level = i) :
    ∃ created g, (h.requesting requests).createPending factory now = (created, g) ∧
      Fulfilled factory now requests created h g := by
  have num := reached.linked.numbered
  let k := h.requesting requests
  have linked : k.Linked := reached.linked.levelwise (levelwise_requesting h requests)
  have same : ∀ c, k.contains c = h.contains c := fun c =>
    congrArg Option.isSome (get?_requesting h requests c)
  have count : k.levelCount = h.levelCount := levelCount_requesting h requests
  have pending : ∀ i q, k.pending i q =
      if q = .create then if i < h.levelCount then requests i else [] else h.pending i q :=
    pending_requesting requests num
  obtain ⟨created, g, run, grown, drained, served, origin⟩ := linked.createPending factory now
  have order : ParentFirst created := by
    have order := linked.createAt_parentFirst factory now k.indices.reverse
    rwa [show createAt factory now k.indices.reverse k = (created, g) from run] at order
  have served : ∀ i < h.levelCount, ∀ d ∈ requests i, g.contains d = true := by
    intro i inside d asked
    refine served i d ?_ ?_
    · rw [pending, if_pos rfl, if_pos inside]
      exact asked
    · rw [own i d asked, count]
      exact inside
  have asked : ∀ c ∈ created, h.Asked requests c := by
    intro c made
    obtain ⟨i, d, named, -, above⟩ := origin c made
    rw [pending, if_pos rfl] at named
    split at named
    · rename_i inside
      have below := grown.linked.numbered.level_lt ((grown.contains_iff c).mpr (Or.inl made))
      rw [grown.levelCount, count] at below
      obtain ⟨le, up⟩ := Coord.under_iff.mp (under_of_mem_lineage above)
      rw [own i d named] at le
      exact ⟨i, inside, d, named, c.level, le, below, up⟩
    · cases named
  refine ⟨created, g, run, grown.linked, drained, fun c => ⟨fun there => ?_, ?_⟩, served,
    order.imp fun both => both.1.symm, fun c => ⟨fun made => ?_, fun new => ?_⟩,
    fun c made up => ?_, fun c made n found => ?_, fun i => ?_, fun c there => ?_,
    fun i q hc hl => ?_⟩
  · rcases (grown.contains_iff c).mp there with made | old
    · exact Or.inr (asked c made)
    · exact Or.inl (same c ▸ old)
  · rintro (old | ⟨i, inside, d, named, j, le, below, rfl⟩)
    · exact grown.contains ((same c).trans old)
    · rw [← own i d named] at le
      obtain ⟨under, level⟩ := Coord.under_ancestor le
      refine grown.linked.resident_of_under (served i inside d named) under ?_
      rw [level, grown.levelCount, count]
      exact below
  · exact ⟨(grown.contains_iff c).mpr (Or.inl made), same c ▸ grown.fresh c made⟩
  · refine ((grown.contains_iff c).mp new.1).resolve_right fun old => ?_
    rw [same, new.2] at old
    cases old
  · have level := grown.linked.numbered.level_ne ((grown.contains_iff c).mpr (Or.inl made))
    exact sublist_pair_of_pairwise order up made (Coord.parent_ne level) fun back => back.2 rfl
  · have cleared := (grown.young (grown.fresh c made) found).2
    exact ⟨congrArg Node.coord cleared, congrArg Node.data cleared, congrArg Node.state cleared,
      (congrArg Node.lastUpdate cleared).trans (lastUpdate_newborn factory now c),
      congrArg Node.version cleared, congrArg Node.observers cleared⟩
  · rw [grown.load, pending, if_neg Queue.noConfusion]
  · rw [grown.old ((same c).trans there), body, body, get?_requesting]
  · rw [grown.other i q hc hl, pending, if_neg hc]

/-- One of two neighbours on the finest of three levels is asked for twice, and the cell that
contains the other is asked for as well. Five cells are made, the shared ancestor first. -/
theorem createPending_exact_of_neighbours :
    let factory : PayloadFactory Coord Unit := ⟨fun c => c, fun _ => ()⟩
    let h : Hierarchy Coord Unit := empty factory 3
    let requests (i : UInt8) : List Coord :=
      if i = 0 then [⟨⟨1, 0, 0⟩, 0⟩, ⟨⟨0, 0, 0⟩, 0⟩, ⟨⟨1, 0, 0⟩, 0⟩]
      else if i = 1 then [⟨⟨0, 0, 0⟩, 1⟩] else []
    h.Reached (fun _ => True) ∧ (∀ i, ∀ c ∈ requests i, c.level = i) ∧ ∃ created g,
      (h.requesting requests).createPending factory ⟨5⟩ = (created, g) ∧
      created = [⟨⟨0, 0, 0⟩, 2⟩, ⟨⟨0, 0, 0⟩, 1⟩, ⟨⟨0, 0, 0⟩, 0⟩, ⟨⟨1, 0, 0⟩, 1⟩, ⟨⟨1, 0, 0⟩, 0⟩] ∧
      Fulfilled factory ⟨5⟩ requests created h g := by
  intro factory h requests
  have reached : h.Reached fun _ => True := .empty _ _
  have own : ∀ i, ∀ c ∈ requests i, c.level = i := by
    intro i c named
    simp only [requests] at named
    split at named
    · rename_i finest
      rw [finest]
      revert c
      decide
    · split at named
      · rename_i next
        rw [next]
        revert c
        decide
      · cases named
  obtain ⟨created, g, run, fulfilled⟩ := createPending_exact factory ⟨5⟩ reached own
  have made : ((h.requesting requests).createPending factory ⟨5⟩).1 = [⟨⟨0, 0, 0⟩, 2⟩,
      ⟨⟨0, 0, 0⟩, 1⟩, ⟨⟨0, 0, 0⟩, 0⟩, ⟨⟨1, 0, 0⟩, 1⟩, ⟨⟨1, 0, 0⟩, 0⟩] := by decide +kernel
  rw [run] at made
  exact ⟨reached, own, created, g, run, made, fulfilled⟩

end Hierarchy

end OctreeWorld
