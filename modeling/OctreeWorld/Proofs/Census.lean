import OctreeWorld.Proofs.Protocol
import OctreeWorld.Proofs.Requests

/-!
# The census of a hierarchy

Creation and removal answer with lists of cells, and what a tick counts are the lengths of these
lists. `Hierarchy.Surplus` compares two hierarchies cell by cell; on linked hierarchies the lists
are exactly the cells that one of the two has and the other lacks, each once, however the queues
that were drained name them.
-/

namespace OctreeWorld

variable {N L σ : Type}

/-! ### Sizes -/

namespace Level

theorem length_nodeList (l : Level N L) : l.nodeList.length = l.size := by
  rw [nodeList, Std.ExtTreeMap.values_eq_map_toList, List.length_map]
  exact Std.ExtTreeMap.length_toList

/-- Where no link has changed, no node has come or gone. -/
theorem SameLinks.size {l m : Level N L} (same : l.SameLinks m) : m.size = l.size := by
  have at_ : ∀ p : Position, m.nodes[p]?.map Node.links = l.nodes[p]?.map Node.links := by
    intro p
    have links := same.2 ⟨p, l.index⟩
    rwa [get?_mk, ← same.1, get?_mk] at links
  have alike : m.nodes.map (fun _ n => n.links) = l.nodes.map fun _ n => n.links := by
    refine Std.ExtTreeMap.ext_getElem? fun p => ?_
    rw [Std.ExtTreeMap.getElem?_map, Std.ExtTreeMap.getElem?_map]
    exact at_ p
  calc m.size
      = (m.nodes.map fun _ n => n.links).size := Std.ExtTreeMap.size_map.symm
    _ = (l.nodes.map fun _ n => n.links).size := by rw [alike]
    _ = l.size := Std.ExtTreeMap.size_map

theorem size_modifyAt (l : Level N L) (p : Position) (f : Node N → Node N) :
    (l.modifyAt p f).size = l.size := Std.ExtTreeMap.size_modify

theorem size_erase {l : Level N L} {p : Position} (stored : p ∈ l.nodes) :
    (l.nodes.erase p).size + 1 = l.size := by
  have inhabited : l.nodes.size ≠ 0 := by
    intro none_
    rw [Std.ExtTreeMap.eq_empty_iff_size_eq_zero.mpr none_] at stored
    exact Std.ExtTreeMap.not_mem_empty stored
  rw [Std.ExtTreeMap.size_erase, if_pos (Std.ExtTreeMap.contains_iff_mem.mpr stored)]
  exact Nat.sub_add_cancel (Nat.pos_of_ne_zero inhabited)

/-- Taking back links moves no node. -/
theorem unlinkBack_cells (l : Level N L) (c : Coord) (faces : List Direction) :
    (Hierarchy.unlinkBack l c faces).size = l.size ∧
      ∀ p, p ∈ (Hierarchy.unlinkBack l c faces).nodes ↔ p ∈ l.nodes := by
  unfold Hierarchy.unlinkBack
  induction faces generalizing l with
  | nil => exact ⟨rfl, fun _ => Iff.rfl⟩
  | cons d ds ih =>
    obtain ⟨size, mem⟩ := ih (l.modifyAt (c.neighbour d).pos (·.unlinkNeighbour d.opposite))
    refine ⟨size.trans (l.size_modifyAt _ _), fun p => (mem p).trans ?_⟩
    exact Std.ExtTreeMap.mem_modify

end Level

/-- Changing one element changes a sum by what it changes of that element's part. -/
theorem tally_map_modify {α : Type} {size : α → Nat} {f : α → α} {as : List α} {i : Nat} {a : α}
    (at_ : as[i]? = some a) :
    tally ((as.modify i f).map size) + size a = tally (as.map size) + size (f a) := by
  induction as generalizing i with
  | nil => cases at_
  | cons b bs ih =>
    cases i with
    | zero =>
      obtain rfl : b = a := Option.some.inj at_
      simp only [List.modify_zero_cons, List.map_cons, tally_cons]
      omega
    | succ i =>
      have rest := ih (i := i) at_
      simp only [List.modify_succ_cons, List.map_cons, tally_cons]
      omega

namespace Hierarchy

variable {h g k : Hierarchy N L}

theorem length_nodeList (h : Hierarchy N L) : h.nodeList.length = h.nodeCount := by
  obtain ⟨levels⟩ := h
  unfold nodeList nodeCount
  induction levels with
  | nil => rfl
  | cons l ls ih =>
    rw [List.flatMap_cons, List.length_append, List.map_cons, tally_cons, l.length_nodeList]
    exact congrArg (l.size + ·) ih

theorem nodeCount_of_levelwise (rel : Levelwise (fun l m => m.size = l.size) h g) :
    g.nodeCount = h.nodeCount := by
  obtain ⟨levels⟩ := h
  obtain ⟨after⟩ := g
  unfold nodeCount
  induction show List.Forall₂ _ levels after from rel with
  | nil => rfl
  | cons same rest ih =>
    rw [List.map_cons, List.map_cons, tally_cons, tally_cons, same]
    exact congrArg (_ + ·) (ih rest)

theorem nodeCount_modifyLevel {i : UInt8} {l : Level N L} (stored : h.level? i = some l)
    (f : Level N L → Level N L) :
    (h.modifyLevel i f).nodeCount + l.size = h.nodeCount + (f l).size := tally_map_modify stored

theorem nodeCount_modify (h : Hierarchy N L) (c : Coord) (f : Node N → Node N) :
    (h.modify c f).nodeCount = h.nodeCount := by
  have same : ∀ l : Level N L, (l.modify c f).size = l.size := by
    intro l
    unfold Level.modify
    split
    · exact l.size_modifyAt c.pos f
    · rfl
  exact nodeCount_of_levelwise (levelwise_modifyLevel (R := fun l m => m.size = l.size)
    (fun _ => rfl) fun l _ => same l)

/-- A node that is removed is one node less, wherever it stands. -/
theorem nodeCount_remove {c : Coord} (removed : h.remove c = .ok g) :
    g.nodeCount + 1 = h.nodeCount := by
  obtain ⟨n, found, leaf⟩ := leaf_of_remove removed
  obtain ⟨l, stored, at_⟩ := level?_of_get? found
  let faces := Direction.all.filter n.hasNeighbour
  let leave (l : Level N L) : Level N L :=
    { unlinkBack l c faces with nodes := (unlinkBack l c faces).nodes.erase c.pos }
  have left : (h.modifyLevel c.level leave).nodeCount + 1 = h.nodeCount := by
    obtain ⟨size, mem⟩ := l.unlinkBack_cells c faces
    have there : c.pos ∈ l.nodes := by
      rw [Std.ExtTreeMap.mem_iff_isSome_getElem?, (Level.get?_eq_some_iff.mp at_).2]
      rfl
    have fewer : (leave l).size + 1 = l.size :=
      (Level.size_erase ((mem c.pos).mpr there)).trans size
    have change := nodeCount_modifyLevel stored leave
    omega
  rw [Hierarchy.remove] at removed
  cases inside : h.checkLevel c.level with
  | error e =>
    rw [inside] at removed
    cases removed
  | ok =>
    simp only [inside, found, leaf, Bool.not_true, Bool.false_eq_true, if_false] at removed
    cases parent : n.parentIndex with
    | none =>
      rw [parent] at removed
      cases removed
      exact left
    | some o =>
      rw [parent] at removed
      cases removed
      exact (congrArg (· + 1) (nodeCount_modify _ _ _)).trans left

theorem nodeCount_removeAll {cs : List Coord} (removed : removeAll cs h = (.ok (), g)) :
    g.nodeCount + cs.length = h.nodeCount := by
  induction cs generalizing h with
  | nil =>
    cases removed
    rfl
  | cons c cs ih =>
    rw [removeAll] at removed
    cases first : h.remove c with
    | error e =>
      rw [first] at removed
      cases removed
    | ok k =>
      rw [first] at removed
      have rest := ih removed
      have one := nodeCount_remove first
      rw [List.length_cons]
      omega

/-- An unload that succeeds answers with as many cells as there are nodes less, in every state. -/
theorem nodeCount_unloadSubtree {ps : List (NodeProcessor σ N L)} {ctx : BatchContext}
    {root : Coord} {s s' : σ} {order : List Coord}
    (unloaded : h.unloadSubtree ps ctx root s = (.ok order, g, s')) :
    g.nodeCount + order.length = h.nodeCount := by
  rw [Hierarchy.unloadSubtree] at unloaded
  cases walk : h.subtree root with
  | error e =>
    rw [walk] at unloaded
    cases unloaded
  | ok cs =>
    rw [walk] at unloaded
    let levels := (List.range (root.level.toNat + 1)).map UInt8.ofNat
    have retired := retire_retired ps ctx cs levels h s
    have kept : (retire ps ctx cs levels h s).1.nodeCount = h.nodeCount :=
      nodeCount_of_levelwise (retired.imp fun _ _ step => step.links.size)
    rcases removal : removeAll cs (retire ps ctx cs levels h s).1 with ⟨⟨e⟩ | ⟨⟩, k⟩
    · simp only [levels] at removal
      simp only [removal] at unloaded
      cases unloaded
    · have fewer := nodeCount_removeAll removal
      simp only [levels] at removal
      simp only [removal] at unloaded
      cases unloaded
      exact fewer.trans kept

/-! ### Surplus -/

/-- The second hierarchy has all cells that the first one has, and `n` cells more. -/
structure Surplus (n : Nat) (h g : Hierarchy N L) : Prop where
  within : ∀ c, h.contains c = true → g.contains c = true
  cells : ∃ more : Finset Coord,
    (∀ c, c ∈ more ↔ g.contains c = true ∧ h.contains c = false) ∧ more.card = n
  nodeCount : g.nodeCount = h.nodeCount + n

theorem Surplus.trans {m n : Nat} (first : Surplus m h g) (second : Surplus n g k) :
    Surplus (m + n) h k := by
  obtain ⟨early, listed, card⟩ := first.cells
  obtain ⟨late, listed', card'⟩ := second.cells
  have apart : Disjoint early late := by
    refine Finset.disjoint_left.mpr fun c here there => ?_
    have absent := ((listed' c).mp there).2
    rw [((listed c).mp here).1] at absent
    cases absent
  refine ⟨fun c resident => second.within c (first.within c resident),
    ⟨early ∪ late, fun c => ?_, ?_⟩, ?_⟩
  · rw [Finset.mem_union, listed, listed']
    constructor
    · rintro (⟨resident, absent⟩ | ⟨resident, absent⟩)
      · exact ⟨second.within c resident, absent⟩
      · exact ⟨resident, Bool.eq_false_iff.mpr fun there => by
          rw [first.within c there] at absent
          cases absent⟩
    · rintro ⟨resident, absent⟩
      cases middle : g.contains c with
      | true => exact Or.inl ⟨rfl, absent⟩
      | false => exact Or.inr ⟨resident, rfl⟩
  · rw [Finset.card_union_of_disjoint apart, card, card']
  · rw [second.nodeCount, first.nodeCount, Nat.add_assoc]

/-- Steps that change no link bring nothing and take nothing. -/
theorem Surplus.of_sameLinks (same : Levelwise Level.SameLinks h g) : Surplus 0 h g := by
  have resident := contains_of_sameLinks same
  refine ⟨fun c there => (resident c).trans there, ⟨∅, fun c => ?_, Finset.card_empty⟩,
    nodeCount_of_levelwise (same.imp fun _ _ => Level.SameLinks.size)⟩
  rw [resident]
  cases h.contains c <;> simp

theorem Surplus.after_sameLinks {n : Nat} (same : Levelwise Level.SameLinks h g)
    (surplus : Surplus n g k) : Surplus n h k := by
  have all := (Surplus.of_sameLinks same).trans surplus
  rwa [Nat.zero_add] at all

theorem Surplus.before_sameLinks {n : Nat} (surplus : Surplus n h g)
    (same : Levelwise Level.SameLinks g k) : Surplus n h k :=
  surplus.trans (.of_sameLinks same)

theorem Levelwise.sameLinks_symm (same : Levelwise Level.SameLinks h g) :
    Levelwise Level.SameLinks g h :=
  List.Forall₂.flip (List.Forall₂.imp (fun _ _ => Level.SameLinks.symm) same)

/-- In linked hierarchies a list of the cells that only one of them has tells how many nodes they
differ by. -/
theorem Linked.surplus (linked : h.Linked) (linked_g : g.Linked)
    (within : ∀ c, h.contains c = true → g.contains c = true) {cells : List Coord}
    (once : cells.Nodup) (listed : ∀ c, c ∈ cells ↔ g.contains c = true ∧ h.contains c = false) :
    Surplus cells.length h g := by
  have residents : ∀ {h : Hierarchy N L}, h.Linked →
      ∀ c, c ∈ h.nodeList.map (·.coord) ↔ h.contains c = true := by
    intro h linked c
    rw [List.mem_map, contains_iff]
    constructor
    · rintro ⟨n, mem, rfl⟩
      obtain ⟨e, found⟩ := linked.numbered.mem_nodeList.mp mem
      rw [linked.placed e n found]
      exact ⟨n, found⟩
    · rintro ⟨n, found⟩
      exact ⟨n, linked.numbered.mem_nodeList.mpr ⟨c, found⟩, linked.placed c n found⟩
  have all : (g.nodeList.map (·.coord)).Perm (h.nodeList.map (·.coord) ++ cells) := by
    have apart : (h.nodeList.map (·.coord) ++ cells).Nodup := by
      refine List.nodup_append'.mpr ⟨linked.nodup_nodeList_coords, once, fun c here there => ?_⟩
      have absent := ((listed c).mp there).2
      rw [(residents linked c).mp here] at absent
      cases absent
    refine (List.perm_ext_iff_of_nodup linked_g.nodup_nodeList_coords apart).mpr fun c => ?_
    rw [List.mem_append, residents linked, residents linked_g, listed]
    constructor
    · intro there
      cases before : h.contains c with
      | true => exact Or.inl rfl
      | false => exact Or.inr ⟨there, rfl⟩
    · rintro (before | ⟨there, -⟩)
      · exact within c before
      · exact there
  refine ⟨within, ⟨cells.toFinset, fun c => ?_, List.toFinset_card_of_nodup once⟩, ?_⟩
  · rw [List.mem_toFinset, listed]
  · have length := all.length_eq
    rwa [List.length_append, List.length_map, List.length_map, length_nodeList,
      length_nodeList] at length

/-! ### Creation and removal -/

/-- Draining the create queues counts each cell that has become resident once. -/
theorem Linked.createPending_surplus (linked : h.Linked) (factory : PayloadFactory N L)
    (now : SimTime) :
    Surplus (h.createPending factory now).1.length h (h.createPending factory now).2 := by
  obtain ⟨created, g, run, grown, -⟩ := linked.createPending factory now
  have order := linked.createAt_parentFirst factory now h.indices.reverse
  rw [show Hierarchy.createAt factory now h.indices.reverse h = (created, g) from run] at order
  rw [run]
  refine linked.surplus grown.linked (fun c => grown.contains)
    (order.imp fun apart => apart.1.symm) fun c => ?_
  rw [grown.contains_iff]
  constructor
  · exact fun made => ⟨Or.inl made, grown.fresh c made⟩
  · rintro ⟨made | there, absent⟩
    · exact made
    · rw [there] at absent
      cases absent

/-- Unloading the subtree of a resident answers with each cell that has left once. -/
theorem Linked.unloadSubtree_surplus (linked : h.Linked) {ps : List (NodeProcessor σ N L)}
    {ctx : BatchContext} {root : Coord} {s s' : σ} {order : List Coord}
    (unloaded : h.unloadSubtree ps ctx root s = (.ok order, g, s')) :
    Surplus order.length g h := by
  by_cases resident : h.contains root = true
  · obtain ⟨k, t, run, pruned, walked⟩ := linked.unloadSubtree ps ctx resident s
    rw [run] at unloaded
    cases unloaded
    refine pruned.linked.surplus linked (fun c there => ((pruned.contains c).mp there).1)
      (linked.nodup_postOrderFrom resident root.level.toNat_lt) fun c => ?_
    rw [walked]
    refine and_congr_right fun there => ?_
    rw [← Bool.not_eq_true, pruned.contains]
    simp [there]
  · rw [unloadSubtree_of_absent linked.numbered ps ctx (Bool.eq_false_iff.mpr resident) s]
      at unloaded
    cases unloaded

/-- What an unload of the subtree of a cell makes of a hierarchy, and what it answers. In every
state an answer is by how much there are fewer nodes. On a linked hierarchy it is the number of
cells that have left, there is one exactly for residents, and a refused unload changes nothing. -/
structure CountsUnload (root : Coord) (h : Hierarchy N L) (answer : Except OctreeError Nat)
    (g : Hierarchy N L) : Prop where
  decrease : ∀ n, answer = .ok n → g.nodeCount + n = h.nodeCount
  cells : h.Linked → ∀ n, answer = .ok n → Surplus n g h
  succeeds : h.Linked → ((∃ n, answer = .ok n) ↔ h.contains root = true)
  refused : h.Linked → ∀ e, answer = .error e → g = h

theorem unloadSubtree_counts (h : Hierarchy N L) (ps : List (NodeProcessor σ N L))
    (ctx : BatchContext) (root : Coord) (s : σ) :
    CountsUnload root h ((h.unloadSubtree ps ctx root s).1.map (·.length))
      (h.unloadSubtree ps ctx root s).2.1 := by
  have listed : ∀ n, (h.unloadSubtree ps ctx root s).1.map (·.length) = .ok n →
      ∃ order, h.unloadSubtree ps ctx root s =
        (.ok order, (h.unloadSubtree ps ctx root s).2) ∧ order.length = n := by
    intro n done
    cases result : (h.unloadSubtree ps ctx root s).1 with
    | error e =>
      rw [result] at done
      cases done
    | ok order =>
      rw [result] at done
      cases done
      exact ⟨order, by rw [← result], rfl⟩
  constructor
  · intro n done
    obtain ⟨order, run, rfl⟩ := listed n done
    exact nodeCount_unloadSubtree run
  · intro linked n done
    obtain ⟨order, run, rfl⟩ := listed n done
    exact linked.unloadSubtree_surplus run
  · intro linked
    constructor
    · rintro ⟨n, done⟩
      by_contra absent
      rw [unloadSubtree_of_absent linked.numbered ps ctx (Bool.eq_false_iff.mpr absent) s] at done
      cases done
    · intro resident
      obtain ⟨k, t, run, -⟩ := linked.unloadSubtree ps ctx resident s
      rw [run]
      exact ⟨_, rfl⟩
  · intro linked e failed
    by_cases resident : h.contains root = true
    · obtain ⟨k, t, run, -⟩ := linked.unloadSubtree ps ctx resident s
      rw [run] at failed
      cases failed
    · rw [unloadSubtree_of_absent linked.numbered ps ctx (Bool.eq_false_iff.mpr resident) s]

theorem Linked.destroyAll_surplus (linked : h.Linked) (ps : List (NodeProcessor σ N L))
    (ctx : BatchContext) (cs : List Coord) (s : σ) :
    Surplus (Hierarchy.destroyAll ps ctx cs h s).1.length
      (Hierarchy.destroyAll ps ctx cs h s).2.1 h := by
  induction cs generalizing h s with
  | nil => exact .of_sameLinks (Levelwise.refl Level.SameLinks.refl h)
  | cons c cs ih =>
    by_cases resident : h.contains c = true
    · obtain ⟨k, t, run, pruned, -⟩ := linked.unloadSubtree ps ctx resident s
      have first := linked.unloadSubtree_surplus run
      have rest := ih pruned.linked t
      rw [Hierarchy.destroyAll, if_pos resident, run]
      simp only
      rw [List.length_append, Nat.add_comm]
      exact rest.trans first
    · rw [Hierarchy.destroyAll, if_neg resident]
      exact ih linked s

theorem Linked.destroyAt_surplus (linked : h.Linked) (ps : List (NodeProcessor σ N L))
    (ctx : BatchContext) (is : List UInt8) (s : σ) :
    Surplus (Hierarchy.destroyAt ps ctx is h s).1.length
      (Hierarchy.destroyAt ps ctx is h s).2.1 h := by
  induction is generalizing h s with
  | nil => exact .of_sameLinks (Levelwise.refl Level.SameLinks.refl h)
  | cons i is ih =>
    have cleared : Levelwise Level.SameLinks (h.modifyLevel i (·.clear .destroy)) h :=
      Levelwise.sameLinks_symm
        (levelwise_modifyLevel Level.SameLinks.refl fun l _ => .clear l .destroy)
    have first := (linked.clear i .destroy).destroyAll_surplus ps (ctx.atLevel i)
      (CoordSet.sorted (h.pending i .destroy)) s
    obtain ⟨removed, k, t, run, pruned, -⟩ := linked.destroyLevel ps (ctx.atLevel i) i s
    rw [run] at first
    have rest := ih pruned.linked t
    rw [destroyAt_cons]
    simp only [run]
    rw [List.length_append, Nat.add_comm]
    exact rest.trans (first.before_sameLinks cleared)

/-- Draining the destroy queues counts each cell that has left once, whether a queue names it, names
it again or names a cell above it. -/
theorem Linked.destroyPending_surplus (linked : h.Linked) (ps : List (NodeProcessor σ N L))
    (ctx : BatchContext) (s : σ) :
    Surplus (h.destroyPending ps ctx s).1.length (h.destroyPending ps ctx s).2.1 h :=
  linked.destroyAt_surplus ps ctx h.indices s

end Hierarchy

/-! ### Regions -/

theorem Hierarchy.Levelwise.sameLinks_of_stepped {h g : Hierarchy N L}
    (stepped : Hierarchy.Levelwise (Level.Stepped fun _ => True) h g) :
    Hierarchy.Levelwise Level.SameLinks h g :=
  stepped.imp fun _ _ => Level.Stepped.sameLinks

theorem Hierarchy.Levelwise.sameLinks_of_called {h g : Hierarchy N L}
    (called : Hierarchy.Levelwise (Level.Called fun _ => True) h g) :
    Hierarchy.Levelwise Level.SameLinks h g :=
  called.imp fun _ _ calls => (Level.Stepped.of_called calls).sameLinks

namespace Region

theorem drained_sameLinks (r : Region N L) (ps : NodeProcessors σ N L) (tick : UInt64)
    (now : SimTime) (timeout : Duration) (s : σ) :
    Hierarchy.Levelwise Level.SameLinks (r.stocked ps tick now timeout s).1
      ⟨(r.drained ps tick now timeout s).2.1⟩ :=
  forall₂_sweep (fun l _ s => (Level.tickLevel_stepped ps.obey_any _ l s).sameLinks) _

variable {r : Region N L} (linked : r.hierarchy.Linked) (ps : NodeProcessors σ N L)
  (tick : UInt64) (now : SimTime) (timeout : Duration) (s : σ)

include linked

/-- What a region's tick counts as created is what its create queues have made resident. -/
theorem tick_created :
    Hierarchy.Surplus (r.tick ps tick now timeout s).1.created r.hierarchy
      (r.stocked ps tick now timeout s).1 := by
  let flushed := r.flushChanged ps tick now s
  let evicted := flushed.2.1.evictExpired now timeout
  have flush : Hierarchy.Levelwise Level.SameLinks r.hierarchy flushed.2.1.hierarchy :=
    (flushChanged_stepped ps.obey_any r tick now s).sameLinks_of_stepped
  have evict : Hierarchy.Levelwise Level.SameLinks flushed.2.1.hierarchy evicted.2.hierarchy :=
    (evictExpired_stepped flushed.2.1 now timeout).sameLinks_of_stepped
  have create := ((linked.levelwise flush).levelwise evict).createPending_surplus
    evicted.2.factory now
  have counted : (r.tick ps tick now timeout s).1.created =
      (evicted.2.hierarchy.createPending evicted.2.factory now).1.length := by
    simp only [evicted, flushed, tick_parts]
  rw [counted]
  exact .after_sameLinks flush (.after_sameLinks evict create)

/-- What it counts as destroyed has left what was resident then. -/
theorem tick_destroyed :
    Hierarchy.Surplus (r.tick ps tick now timeout s).1.destroyed
      (r.tick ps tick now timeout s).2.1.hierarchy (r.stocked ps tick now timeout s).1 := by
  have destroy := (stocked_linked ps linked tick now timeout s).2.destroyPending_surplus ps.unload
    { world := r.world, kind := .unload, now, tick } (r.drained ps tick now timeout s).2.2
  obtain ⟨gone, last⟩ : ∃ gone, gone = Hierarchy.destroyPending
      ⟨(r.drained ps tick now timeout s).2.1⟩ ps.unload
      { world := r.world, kind := .unload, now, tick } (r.drained ps tick now timeout s).2.2 :=
    ⟨_, rfl⟩
  rw [← last] at destroy
  have counted : (r.tick ps tick now timeout s).1.destroyed = gone.1.length := by
    simp only [last, tick_parts]
  have after : (r.tick ps tick now timeout s).2.1.hierarchy = gone.2.1 := by
    simp only [last, tick_parts, forget]
  rw [counted, after]
  exact destroy.before_sameLinks (r.drained_sameLinks ps tick now timeout s).sameLinks_symm

omit linked

theorem unloadNode_counts (r : Region N L) (c : Coord) :
    Hierarchy.CountsUnload c r.hierarchy (r.unloadNode ps c tick now s).1
      (r.unloadNode ps c tick now s).2.1.hierarchy := by
  have answer : (r.unloadNode ps c tick now s).1 = (r.hierarchy.unloadSubtree ps.unload
      { world := r.world, kind := .unload, level := some c.level, now, tick } c s).1.map
        (·.length) := by
    simp only [unloadNode]
    split <;> rename_i result <;> rw [result] <;> rfl
  rw [answer, unloadNode_hierarchy]
  exact r.hierarchy.unloadSubtree_counts ps.unload _ c s

end Region

/-- Edits of a region that neither load nor unload nodes, neither tick the region, which does both,
nor merge it. -/
def RegionEdit.KeepsResidents : RegionEdit N L → Prop
  | .load _ _ => False
  | .unload _ _ _ _ => False
  | .tick _ _ _ _ => False
  | .merge _ => False
  | _ => True

theorem Region.edit_sameLinks (r : Region N L) {e : RegionEdit N L} (keeps : e.KeepsResidents) :
    Hierarchy.Levelwise Level.SameLinks r.hierarchy (r.edit e).hierarchy := by
  have same := Hierarchy.Levelwise.refl Level.SameLinks.refl r.hierarchy
  cases e with
  | load c now => exact keeps.elim
  | unload ps c tick now => exact keeps.elim
  | tick ps tick now timeout => exact keeps.elim
  | merge source => exact keeps.elim
  | markChanged c =>
    simp only [Region.edit, Region.markChanged]
    split <;> exact same
  | observe c =>
    simp only [Region.edit]
    cases done : r.observe c with
    | error e => exact same
    | ok result => exact (observe_stepped done).sameLinks_of_stepped
  | release c =>
    simp only [Region.edit]
    cases done : r.release c with
    | error e => exact same
    | ok result => exact (release_stepped done).sameLinks_of_stepped
  | addLoader id l => exact same
  | removeLoader id => exact same
  | level i e =>
    exact Hierarchy.levelwise_modifyLevel Level.SameLinks.refl fun l _ => .edit l e
  | stream config tick now => exact (r.stream_called config tick now).sameLinks_of_called

theorem runRegionBatch_sameLinks {ps : List (RegionProcessor σ N L)}
    (keeps : ∀ p ∈ ps, p.Obeys RegionEdit.KeepsResidents) (ctx : BatchContext) (r : Region N L)
    (s : σ) :
    Hierarchy.Levelwise Level.SameLinks r.hierarchy (runRegionBatch ps ctx r s).1.hierarchy := by
  have respects : regionAddressing.Respects RegionEdit.KeepsResidents [()]
      (fun r r' : Region N L => Hierarchy.Levelwise Level.SameLinks r.hierarchy r'.hierarchy) :=
    ⟨fun r => Hierarchy.Levelwise.refl Level.SameLinks.refl r.hierarchy,
      fun _ _ _ first second => first.trans (fun _ _ _ => Level.SameLinks.trans) second,
      fun _ _ r _ keeps => r.edit_sameLinks keeps⟩
  exact respects.runBatch keeps ctx r s

theorem World.unloadNode_counts (w : World σ N L) (c : Coord) (s : σ) :
    Hierarchy.CountsUnload c w.hierarchy (w.unloadNode c s).1 (w.unloadNode c s).2.1.hierarchy :=
  w.hierarchy.unloadSubtree_counts w.processors.unload (w.batchContext .unload) c s

end OctreeWorld
