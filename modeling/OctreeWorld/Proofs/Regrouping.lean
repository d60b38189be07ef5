import OctreeWorld.Proofs.Agreement
import OctreeWorld.Proofs.Footprints
import OctreeWorld.Proofs.Uniformity

/-!
# Regrouping merges

Three regions merge into one in two ways: the first into the second and both into the third, or the
second into the third and then the first. Both ways leave the same region, because everything that a
merge joins, it joins associatively: copies of a node, queues, loaders, sets and boxes. What is left
to link bits is told by which nodes are resident.
-/

namespace OctreeWorld

variable {N L : Type}

/-! ### Copies of a node -/

namespace SimTime

theorem toNat_latest (a b : SimTime) :
    (latest a b).micros.toNat = max a.micros.toNat b.micros.toNat := by
  unfold latest
  split
  · rename_i le
    rw [UInt64.le_iff_toNat_le] at le
    omega
  · rename_i gt
    rw [UInt64.le_iff_toNat_le] at gt
    omega

theorem latest_assoc (a b c : SimTime) : (a.latest b).latest c = a.latest (b.latest c) := by
  have micros : ((a.latest b).latest c).micros = (a.latest (b.latest c)).micros := by
    rw [← UInt64.toNat_inj]
    simp only [toNat_latest, Nat.max_assoc]
  exact congrArg SimTime.mk micros

end SimTime

namespace Node

theorem addCounts_assoc (a b c : UInt32) :
    addCounts (addCounts a b) c = addCounts a (addCounts b c) := by
  rw [← UInt32.toNat_inj]
  simp only [toNat_addCounts]
  omega

/-- The copy with the highest version wins, the first of several on a tie, however the copies are
grouped. -/
theorem absorb_assoc (k n m : Node N) : (k.absorb n).absorb m = k.absorb (n.absorb m) := by
  unfold absorb touch
  by_cases first : k.version < n.version <;> by_cases second : n.version < m.version <;>
    by_cases across : k.version < m.version <;>
    simp only [first, second, across, if_true, if_false, addCounts_assoc, SimTime.latest_assoc]
  · exact absurd (UInt32.lt_trans first second) across
  · have le := UInt32.le_trans (UInt32.not_lt.mp second) (UInt32.not_lt.mp first)
    exact absurd across (UInt32.not_lt.mpr le)

end Node

theorem combined_assoc (k n m : Option (Node N)) :
    combined (combined k n) m = combined k (combined n m) := by
  cases k <;> cases n <;> cases m <;>
    simp only [combined, Node.absorb_assoc]

/-! ### Boxes -/

namespace Position

theorem toInt_min (a b : Int32) : (min a b).toInt = min a.toInt b.toInt := by
  change (if a ≤ b then a else b).toInt = _
  split
  · rename_i le
    rw [Int32.le_iff_toInt_le] at le
    omega
  · rename_i gt
    rw [Int32.le_iff_toInt_le] at gt
    omega

theorem toInt_max (a b : Int32) : (max a b).toInt = max a.toInt b.toInt := by
  change (if a ≤ b then b else a).toInt = _
  split
  · rename_i le
    rw [Int32.le_iff_toInt_le] at le
    omega
  · rename_i gt
    rw [Int32.le_iff_toInt_le] at gt
    omega

end Position

namespace Box

/-- The corners of two boxes that hold cells span one that does. -/
theorem isEmpty_span {a b : Box} (some_a : a.isEmpty = false) :
    (Box.mk (a.lo.zipWith min b.lo) (a.hi.zipWith max b.hi)).isEmpty = false := by
  refine isEmpty_eq_false_iff.mpr fun axis listed => ?_
  have inside := isEmpty_eq_false_iff.mp some_a axis listed
  rw [Int32.lt_iff_toInt_lt] at inside ⊢
  rw [Position.axis_zipWith min _ _ axis listed, Position.axis_zipWith max _ _ axis listed,
    Position.toInt_min, Position.toInt_max]
  omega

theorem span_assoc (a b c : Box) :
    Box.mk ((a.lo.zipWith min b.lo).zipWith min c.lo) ((a.hi.zipWith max b.hi).zipWith max c.hi) =
      Box.mk (a.lo.zipWith min (b.lo.zipWith min c.lo))
        (a.hi.zipWith max (b.hi.zipWith max c.hi)) := by
  simp only [Position.zipWith, Box.mk.injEq, Position.mk.injEq, ← Int32.toInt_inj,
    Position.toInt_min, Position.toInt_max]
  omega

/-- Empty boxes included. -/
theorem union_assoc (a b c : Box) : (a.union b).union c = a.union (b.union c) := by
  unfold union
  cases none_a : a.isEmpty <;> cases none_b : b.isEmpty <;> cases none_c : c.isEmpty <;>
    simp only [none_a, none_b, none_c, isEmpty_span, Bool.false_eq_true, if_true, if_false]
  exact span_assoc a b c

end Box

/-! ### Hierarchies that look alike -/

theorem Queues.ext_get {qs others : Queues} (same : ∀ q, qs.get q = others.get q) :
    qs = others := by
  obtain ⟨create, load, unload, tick, destroy⟩ := qs
  cases others
  exact congr (congr (congr (congr (congrArg Queues.mk (same .create)) (same .load))
    (same .unload)) (same .tick)) (same .destroy)

namespace Node

/-- Nodes are equal that differ in no link, and in nothing else. -/
theorem ext_links {n m : Node N} (body : n.clearLinks = m.clearLinks) (links : n.links = m.links) :
    n = m := by
  obtain ⟨-, parent, children, faces⟩ := links_eq_iff.mp links
  cases n
  cases m
  simp_all [clearLinks]

end Node

namespace Hierarchy

variable {h g : Hierarchy N L}

theorem Linked.get?_eq (linked : h.Linked) (linked_g : g.Linked)
    (length : h.levels.length = g.levels.length) (same : ∀ c, h.body c = g.body c) (c : Coord) :
    h.get? c = g.get? c := by
  have body := same c
  unfold Hierarchy.body at body
  cases here : h.get? c with
  | none =>
    rw [here] at body
    exact (Option.map_eq_none_iff.mp body.symm).symm
  | some n =>
    rw [here, Option.map_some] at body
    obtain ⟨m, there, cleared⟩ := Option.map_eq_some_iff.mp body.symm
    have links := linked.links_eq linked_g length (fun e => contains_congr_body (same e)) here there
    rw [there, Node.ext_links cleared.symm links]

/-- What the levels carry besides nodes and commands. -/
def payloads (h : Hierarchy N L) : List L := h.levels.map Level.data

theorem Linked.ext (linked : h.Linked) (linked_g : g.Linked) (payloads : h.payloads = g.payloads)
    (body : ∀ c, h.body c = g.body c) (pending : ∀ i q, h.pending i q = g.pending i q) : h = g := by
  have length : h.levels.length = g.levels.length := by
    simpa [Hierarchy.payloads] using congrArg List.length payloads
  have levels : h.levels = g.levels := by
    refine List.ext_getElem length fun k hk hk' => ?_
    have index := linked.numbered.toNat_index hk
    have index_g := linked_g.numbered.toNat_index hk'
    have same : h.levels[k].index = g.levels[k].index := by
      rw [← UInt8.toNat_inj, index, index_g]
    have stored := linked.numbered.level?_index (List.getElem_mem hk)
    have stored_g := linked_g.numbered.level?_index (List.getElem_mem hk')
    refine Level.ext_get? (Level.bare_eq_iff.mpr ⟨same, Queues.ext_get fun q => ?_, ?_⟩)
      fun c => ?_
    · have commands := pending h.levels[k].index q
      rw [pending_of_level? stored, same, pending_of_level? stored_g] at commands
      exact commands
    · have carried := congrArg (·[k]?) payloads
      simpa [Hierarchy.payloads, hk, hk'] using carried
    · by_cases own : c.level = h.levels[k].index
      · rw [← own] at stored
        rw [← same, ← own] at stored_g
        rw [← get?_of_level? stored, ← get?_of_level? stored_g]
        exact linked.get?_eq linked_g length body c
      · rw [Level.get?, Level.get?, ← same, if_neg own, if_neg own]
  cases h
  cases g
  exact congrArg Hierarchy.mk levels

/-! ### What a merge leaves of the levels -/

theorem payloads_modifyLevel (h : Hierarchy N L) (i : UInt8) {f : Level N L → Level N L}
    (same : ∀ l, (f l).data = l.data) : (h.modifyLevel i f).payloads = h.payloads := by
  refine List.ext_getElem? fun k => ?_
  simp only [payloads, modifyLevel, List.getElem?_map, List.getElem?_modify]
  cases h.levels[k]? with
  | none => rfl
  | some l =>
    by_cases here : i.toNat = k <;> simp [here, same]

theorem data_modify (l : Level N L) (c : Coord) (f : Node N → Node N) :
    (l.modify c f).data = l.data := by
  unfold Level.modify
  split <;> rfl

theorem data_linkBack (l : Level N L) (c : Coord) (faces : List Direction) :
    (linkBack l c faces).data = l.data := by
  unfold linkBack
  induction faces generalizing l with
  | nil => rfl
  | cons d ds ih => exact ih _

theorem payloads_insert {n : Node N} (entered : h.insert n = .ok g) : g.payloads = h.payloads := by
  rw [Hierarchy.insert] at entered
  cases free : h.insertError? n.coord with
  | some e =>
    rw [free] at entered
    cases entered
  | none =>
    rw [free] at entered
    cases entered
    have back : (h.modifyLevel n.coord.level fun l =>
        linkBack l n.coord (residentFaces l n.coord)).payloads = h.payloads :=
      payloads_modifyLevel _ _ fun l => data_linkBack l _ _
    refine (payloads_modifyLevel _ _ ?_).trans ?_
    · exact fun _ => rfl
    · split
      · exact (payloads_modifyLevel _ _ fun l => data_modify l _ _).trans back
      · exact back

theorem payloads_receive (ns : List (Node N)) (h : Hierarchy N L) :
    (receive ns h).2.payloads = h.payloads := by
  induction ns generalizing h with
  | nil => rfl
  | cons n ns ih =>
    unfold receive
    split
    · exact (ih _).trans (payloads_modifyLevel _ _ fun l => data_modify l _ _)
    · split
      · rfl
      · rename_i entered
        exact (ih _).trans (payloads_insert entered)

theorem payloads_mergeLevel (i : UInt8) (source into : Hierarchy N L) :
    (mergeLevel i source into).2.2.payloads = into.payloads := by
  unfold mergeLevel
  split
  · rfl
  · rename_i l _
    have received := payloads_receive l.nodeList into
    simp only
    split
    · exact received
    · refine (payloads_modifyLevel _ i ?_).trans received
      exact fun _ => rfl

theorem payloads_mergeLevels (is : List UInt8) (source into : Hierarchy N L) :
    (mergeLevels is source into).2.2.payloads = into.payloads := by
  induction is generalizing source into with
  | nil => rfl
  | cons i is ih =>
    have first := payloads_mergeLevel i source into
    unfold mergeLevels
    split
    · rename_i refused
      rw [refused] at first
      exact first
    · rename_i moved
      rw [moved] at first
      exact (ih _ _).trans first

end Hierarchy

namespace Region

theorem merge_payloads (s d : Region N L) :
    (Region.merge s d).2.2.hierarchy.payloads = d.hierarchy.payloads := by
  have kept := Hierarchy.payloads_mergeLevels s.hierarchy.indices.reverse s.hierarchy d.hierarchy
  simp only [Region.merge]
  split
  · rfl
  · split
    · rfl
    · split
      · rename_i refused
        rw [refused] at kept
        exact kept
      · rename_i moved
        rw [moved] at kept
        exact kept

/-- What the destination of a merge is made of, all of it told by source and destination. -/
structure Joined (s d r : Region N L) : Prop where
  linked : r.hierarchy.Linked
  body : ∀ c, r.hierarchy.body c = combined (d.hierarchy.body c) (s.hierarchy.body c)
  pending : ∀ i q, r.hierarchy.pending i q = d.hierarchy.pending i q ++ s.hierarchy.pending i q
  payloads : r.hierarchy.payloads = d.hierarchy.payloads
  rest : r = { d with
    hierarchy := r.hierarchy
    loaders := d.loaders.insertMany s.loaders.toList
    changed := d.changed.addAll s.changed.toList
    unobserved := r.hierarchy.unobservedCoords
    box := d.box.union s.box }

theorem merge_joined {s d : Region N L} (linked : s.hierarchy.Linked)
    (linked_d : d.hierarchy.Linked) (apart : s.id ≠ d.id)
    (same : s.hierarchy.levelCount = d.hierarchy.levelCount) :
    (∃ stats, (Region.merge s d).1 = .ok stats) ∧ s.Joined d (Region.merge s d).2.2 := by
  obtain ⟨stats, spent, g, merged, result⟩ := merge_eq linked linked_d apart same
  have payloads := merge_payloads s d
  rw [result] at payloads ⊢
  exact ⟨⟨stats, rfl⟩, merged.linked, merged.body_combined, merged.pending_append, payloads, rfl⟩

theorem insertMany_loaders_assoc (a b c : LoaderMap) :
    c.insertMany (b.insertMany a.toList).toList = (c.insertMany b.toList).insertMany a.toList := by
  refine Std.ExtTreeMap.ext_getElem? fun id => ?_
  simp only [getElem?_insertMany_loaders, Option.or_assoc]

theorem addAll_assoc (a b c : CoordSet) :
    c.addAll (b.addAll a.toList).toList = (c.addAll b.toList).addAll a.toList := by
  refine Std.ExtTreeSet.ext_mem fun x => ?_
  simp only [Level.mem_addAll, Std.ExtTreeSet.mem_toList, or_assoc]

/-- A region is told by what it is made of, and joins are associative in all of that. -/
theorem Joined.regroup {a b c ab bc left right : Region N L} (first : a.Joined b ab)
    (then_ : ab.Joined c left) (first' : b.Joined c bc) (then' : a.Joined bc right) :
    left = right := by
  have hierarchy : left.hierarchy = right.hierarchy := by
    refine then_.linked.ext then'.linked ?_ (fun x => ?_) fun i q => ?_
    · rw [then_.payloads, then'.payloads, first'.payloads]
    · rw [then_.body, then'.body, first.body, first'.body, combined_assoc]
    · rw [then_.pending, then'.pending, first.pending, first'.pending, List.append_assoc]
  rw [then_.rest, then'.rest, hierarchy, first.rest, first'.rest]
  simp only [insertMany_loaders_assoc, addAll_assoc, Box.union_assoc]

/-- Three reached regions of one size merge into the third in either grouping, and the third is the
same region afterwards: in nodes with all their links, in commands and their order, in loaders, in
what it tracks, and in its box. -/
theorem merge_regroup {may : NodeEdit N L → Prop} {a b c : Region N L} (reached_a : a.Reached may)
    (reached_b : b.Reached may) (reached_c : c.Reached may) (apart_ab : a.id ≠ b.id)
    (apart_bc : b.id ≠ c.id) (apart_ac : a.id ≠ c.id)
    (same_ab : a.hierarchy.levelCount = b.hierarchy.levelCount)
    (same_bc : b.hierarchy.levelCount = c.hierarchy.levelCount) :
    let ab := Region.merge a b
    let bc := Region.merge b c
    (∃ stats, ab.1 = .ok stats) ∧ (∃ stats, (Region.merge ab.2.2 c).1 = .ok stats) ∧
      (∃ stats, bc.1 = .ok stats) ∧ (∃ stats, (Region.merge a bc.2.2).1 = .ok stats) ∧
      (Region.merge ab.2.2 c).2.2 = (Region.merge a bc.2.2).2.2 := by
  intro ab bc
  have next_ab := reached_b.succeeds_merge reached_a
  have next_bc := reached_c.succeeds_merge reached_b
  obtain ⟨done_ab, joined_ab⟩ := merge_joined reached_a.linked reached_b.linked apart_ab same_ab
  obtain ⟨done_bc, joined_bc⟩ := merge_joined reached_b.linked reached_c.linked apart_bc same_bc
  obtain ⟨done_left, joined_left⟩ := merge_joined (s := ab.2.2) next_ab.reached.linked
    reached_c.linked (by rw [next_ab.id]; exact apart_bc)
    ((Hierarchy.levelCount_congr next_ab.length).trans same_bc)
  obtain ⟨done_right, joined_right⟩ := merge_joined (d := bc.2.2) reached_a.linked
    next_bc.reached.linked (by rw [next_bc.id]; exact apart_ac)
    ((same_ab.trans same_bc).trans (Hierarchy.levelCount_congr next_bc.length).symm)
  exact ⟨done_ab, done_left, done_bc, done_right,
    joined_ab.regroup joined_left joined_bc joined_right⟩

/-- Two regions hold a copy of one cell, all three hold a copy of its parent, and the box of the
second is empty. -/
theorem merge_regroup_of_siblings :
    let r (id : RegionId) (hi x : Int32) : Region Unit Unit :=
      ((Region.empty id default ⟨Position.zero, Position.splat hi⟩ PayloadFactory.plain 2).loadNode
        ⟨⟨x, 0, 0⟩, 0⟩ SimTime.zero).2
    let a := r ⟨1⟩ 4 1
    let b := r ⟨2⟩ 0 2
    let c := r ⟨3⟩ 8 1
    b.box.isEmpty = true ∧
      (Region.merge a b).1 = .ok { moved := 1, collisions := 1, commands := 2 } ∧
      (Region.merge (Region.merge a b).2.2 c).1 =
        .ok { moved := 1, collisions := 2, commands := 4 } ∧
      (Region.merge (Region.merge a b).2.2 c).2.2 =
        (Region.merge a (Region.merge b c).2.2).2.2 := by
  intro r a b c
  have reached : ∀ id hi x, (r id hi x).Reached fun _ => True := fun id hi x =>
    (Region.Reached.empty id default _ PayloadFactory.plain 2).loadNode ⟨⟨x, 0, 0⟩, 0⟩ SimTime.zero
  have regroup := merge_regroup (a := a) (b := b) (c := c) (reached ⟨1⟩ 4 1) (reached ⟨2⟩ 0 2)
    (reached ⟨3⟩ 8 1) (by decide) (by decide) (by decide) (by decide +kernel) (by decide +kernel)
  exact ⟨by decide, by decide +kernel, by decide +kernel, regroup.2.2.2.2⟩

end Region

end OctreeWorld
