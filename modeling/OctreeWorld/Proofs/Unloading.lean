import OctreeWorld.Proofs.Handing

/-!
# Unloading a subtree

`Hierarchy.unloadSubtree` follows child bits to list a subtree, regroups the list by level for the
unload processors, and then takes one node after the other out of the hierarchy. What belongs to
the subtree can be said without any of this: the resident cells that have the root for an ancestor.
Exactly those leave, each after the cells inside it, and those of them that are not on their way
out already are shown to the processors once.
-/

namespace OctreeWorld

variable {N L σ : Type}

theorem NodeBatch.Orderly.level_of_command {ps : NodeProcessors σ N L} {b : NodeBatch σ N L}
    (orderly : b.Orderly ps) {c : Coord} (named : c ∈ b.commands) : c.level = b.level.index := by
  obtain ⟨n, found, -⟩ := orderly.resident 0 c named
  have edited : b.level.Edited (fun _ => True) _ (b.after 0) :=
    runNodeBatch_edited Processor.obeys_any b.context b.level _ b.state
  exact (Level.level_eq_of_get? found).trans edited.index

namespace Hierarchy

/-- The resident cells that have a cell for their ancestor, and the cell itself. -/
def InSubtree (h : Hierarchy N L) (root c : Coord) : Prop :=
  h.contains c = true ∧ c.level ≤ root.level ∧ c.ancestor root.level = root

theorem inSubtree_iff {h : Hierarchy N L} {root c : Coord} :
    h.InSubtree root c ↔ h.contains c = true ∧ c.Under root := by
  rw [InSubtree, Coord.under_iff]

/-! ### What is handed to processors -/

/-- The batches hand some cells of the levels of a list to processors: those of a level in one
batch, finer levels before coarser ones, each cell once, and each level as it was before. -/
structure HandsOut (ps : NodeProcessors σ N L) (ctx : BatchContext) (h : Hierarchy N L)
    (chosen : Coord → Prop) (bs : List (NodeBatch σ N L)) : Prop where
  orderly : ∀ b ∈ bs, b.Orderly ps
  context : ∀ b ∈ bs, b.context = ctx.atLevel b.level.index
  untouched : ∀ b ∈ bs, h.level? b.level.index = some b.level
  upwards : bs.Pairwise fun a b => a.level.index < b.level.index
  once : (bs.flatMap (·.commands)).Nodup
  named : ∀ c, c ∈ bs.flatMap (·.commands) ↔ chosen c

namespace HandsOut

variable {ps : NodeProcessors σ N L} {ctx : BatchContext} {h k : Hierarchy N L}
  {chosen later : Coord → Prop} {as bs : List (NodeBatch σ N L)}

theorem nil (ps : NodeProcessors σ N L) (ctx : BatchContext) (h : Hierarchy N L)
    (none_ : ∀ c, ¬ chosen c) : HandsOut ps ctx h chosen [] where
  orderly := List.forall_mem_nil _
  context := List.forall_mem_nil _
  untouched := List.forall_mem_nil _
  upwards := .nil
  once := .nil
  named c := ⟨fun listed => absurd listed List.not_mem_nil, fun picked => absurd picked (none_ c)⟩

theorem congr (out : HandsOut ps ctx h chosen bs)
    (same : ∀ b ∈ bs, k.level? b.level.index = h.level? b.level.index)
    (equal : ∀ c, chosen c ↔ later c) : HandsOut ps ctx k later bs where
  orderly := out.orderly
  context := out.context
  untouched b listed := (same b listed).trans (out.untouched b listed)
  upwards := out.upwards
  once := out.once
  named c := (out.named c).trans (equal c)

theorem append (first : HandsOut ps ctx h chosen as) (second : HandsOut ps ctx h later bs)
    (below : ∀ a ∈ as, ∀ b ∈ bs, a.level.index < b.level.index) :
    HandsOut ps ctx h (fun c => chosen c ∨ later c) (as ++ bs) where
  orderly := List.forall_mem_append.mpr ⟨first.orderly, second.orderly⟩
  context := List.forall_mem_append.mpr ⟨first.context, second.context⟩
  untouched := List.forall_mem_append.mpr ⟨first.untouched, second.untouched⟩
  upwards := List.pairwise_append.mpr ⟨first.upwards, second.upwards, below⟩
  once := by
    rw [List.flatMap_append]
    refine List.nodup_append.mpr ⟨first.once, second.once, fun c early d late same => ?_⟩
    obtain ⟨a, ha, named⟩ := List.mem_flatMap.mp early
    obtain ⟨b, hb, named'⟩ := List.mem_flatMap.mp late
    have level := (first.orderly a ha).level_of_command named
    have level' := (second.orderly b hb).level_of_command named'
    rw [same, level'] at level
    exact UInt8.lt_irrefl _ (level ▸ below a ha b hb)
  named c := by rw [List.flatMap_append, List.mem_append, first.named, second.named]

theorem handed {b : NodeBatch σ N L} (ready : b.Ready ps)
    (context : b.context = ctx.atLevel b.level.index)
    (untouched : h.level? b.level.index = some b.level) :
    HandsOut ps ctx h (· ∈ b.commands) b.handed := by
  have orderly := ready.orderly
  unfold NodeBatch.handed at orderly ⊢
  split
  · rename_i none_
    refine .nil ps ctx h fun c named => ?_
    rw [List.isEmpty_iff.mp none_] at named
    cases named
  · rename_i some_
    rw [if_neg some_] at orderly
    refine ⟨orderly, ?_, ?_, List.pairwise_singleton _ b, ?_, fun c => ?_⟩
    · simpa using context
    · simpa using untouched
    · simpa using ready.nodup
    · simp

end HandsOut

/-- Retiring the nodes of one level leaves the others alone. -/
theorem level?_retireAt (ps : List (NodeProcessor σ N L)) (ctx : BatchContext)
    (order : List Coord) {i j : UInt8} (other : i ≠ j) (h : Hierarchy N L) (s : σ) :
    (retireAt ps ctx order i h s).1.level? j = h.level? j := by
  unfold retireAt
  split
  · rfl
  · rw [level?_modifyLevel, if_neg other]

/-- A cell of a list lies on one of some levels, and its node is not deleting yet. -/
def Retires (h : Hierarchy N L) (order : List Coord) (is : List UInt8) (c : Coord) : Prop :=
  c ∈ order ∧ c.level ∈ is ∧ ∃ n, h.get? c = some n ∧ n.state ≠ .deleting

theorem retires_cons {h : Hierarchy N L} {order : List Coord} {i : UInt8} {is : List UInt8}
    {c : Coord} : h.Retires order (i :: is) c ↔ h.Retires order [i] c ∨ h.Retires order is c := by
  simp only [Retires, List.mem_cons, List.not_mem_nil, or_false, or_and_right, and_or_left]

theorem retires_congr {h k : Hierarchy N L} {is : List UInt8}
    (same : ∀ i ∈ is, k.level? i = h.level? i) (order : List Coord) (c : Coord) :
    k.Retires order is c ↔ h.Retires order is c := by
  refine and_congr_right fun _ => and_congr_right fun level => ?_
  rw [get?, get?, same c.level level]

section Retire

variable (ps : NodeProcessors σ N L) {ctx : BatchContext} {order : List Coord} {h : Hierarchy N L}
  (linked : h.Linked) (kind : ctx.kind = .unload) (nodup : order.Nodup)

include linked kind nodup

/-- On one level the nodes of a list that are not deleting yet are handed out in one batch. -/
theorem retireBatchAt_handsOut (i : UInt8) (s : σ) :
    HandsOut ps ctx h (h.Retires order [i]) (retireBatchAt ps ctx order i h s) ∧
      ∀ b ∈ retireBatchAt ps ctx order i h s, b.level.index = i := by
  cases stored : h.level? i with
  | none =>
    simp only [retireBatchAt, stored, Option.elim_none]
    refine ⟨.nil ps ctx h ?_, List.forall_mem_nil _⟩
    rintro c ⟨-, level, n, found, -⟩
    rw [get?_of_level?_none (List.mem_singleton.mp level ▸ stored)] at found
    cases found
  | some l =>
    let b := retireBatch ps ctx order i l s
    have index : b.level.index = i := linked.numbered.index i l stored
    have out : HandsOut ps ctx h (· ∈ b.commands) b.handed :=
      .handed (retireBatch_ready ps linked kind nodup stored s) (congrArg ctx.atLevel index.symm)
        ((congrArg h.level? index).trans stored)
    have chosen : ∀ c, c ∈ b.commands ↔ h.Retires order [i] c := by
      intro c
      simp only [b, retireBatch, Retires, List.mem_filter, Bool.and_eq_true, beq_iff_eq,
        Option.any_eq_true, bne_iff_ne, List.mem_singleton]
      refine and_congr_right fun _ => and_congr_right fun level => ?_
      rw [get?_of_level? (level ▸ stored)]
    simp only [retireBatchAt, stored, Option.elim_some]
    refine ⟨out.congr (fun _ _ => rfl) chosen, fun b' listed => ?_⟩
    rw [(NodeBatch.mem_handed.mp listed).1]
    exact index

/-- The nodes of a list are handed out level by level, if the levels are gone through upwards. -/
theorem retireBatches_handsOut {is : List UInt8} (ascending : is.Pairwise (· < ·)) (s : σ) :
    HandsOut ps ctx h (h.Retires order is) (retireBatches ps ctx order is h s) ∧
      ∀ b ∈ retireBatches ps ctx order is h s, b.level.index ∈ is := by
  induction ascending generalizing h s with
  | nil =>
    refine ⟨.nil ps ctx h ?_, List.forall_mem_nil _⟩
    rintro c ⟨-, level, -⟩
    cases level
  | @cons i is above _ ih =>
    let k := (retireAt ps.unload ctx order i h s).1
    -- What is left to do lies above the level just retired and has not been touched.
    have same : ∀ j ∈ is, k.level? j = h.level? j := fun j listed =>
      level?_retireAt ps.unload ctx order (UInt8.ne_of_lt (above j listed)) h s
    have retired := retireAt_retired ps.unload ctx order i h s
    obtain ⟨here, index⟩ := retireBatchAt_handsOut ps linked kind nodup i s
    obtain ⟨rest, indices⟩ := ih (linked_of_retired retired linked)
      (retireAt ps.unload ctx order i h s).2
    have rest := rest.congr (fun b listed => (same _ (indices b listed)).symm)
      (retires_congr same order)
    have out := here.append rest fun a ha b hb => by
      rw [index a ha]
      exact above _ (indices b hb)
    refine ⟨out.congr (fun _ _ => rfl) fun c => retires_cons.symm,
      List.forall_mem_append.mpr ⟨fun b listed => ?_, fun b listed => ?_⟩⟩
    · rw [index b listed]
      exact List.mem_cons_self
    · exact List.mem_cons_of_mem i (indices b listed)

end Retire

/-! ### What becomes of the hierarchy -/

/-- A subtree has been unloaded: `order` lists its cells, each after the cells inside it, and the
hierarchy has lost them. The other nodes are as they were, but for the bits that looked at a cell of
the subtree, and no command has come or gone. -/
structure Unloaded (root : Coord) (order : List Coord) (h g : Hierarchy N L) : Prop where
  once : order.Nodup
  listed : ∀ c, c ∈ order ↔ h.InSubtree root c
  leafFirst : ∀ c ∈ order, c ≠ root → [c, c.parent].Sublist order
  rootLast : order.getLast? = some root
  linked : g.Linked
  resident : ∀ c, g.contains c = true ↔ h.contains c = true ∧ ¬ h.InSubtree root c
  body : ∀ c, ¬ h.InSubtree root c → g.body c = h.body c
  parentIndex : ∀ c n m, h.get? c = some n → g.get? c = some m → m.parentIndex = n.parentIndex
  neighbour : ∀ c n m, h.get? c = some n → g.get? c = some m → ∀ d,
    m.hasNeighbour d = true ↔ n.hasNeighbour d = true ∧ ¬ h.InSubtree root (c.neighbour d)
  child : ∀ c n m, h.get? c = some n → g.get? c = some m → ∀ o, m.hasChild o = true ↔
    n.hasChild o = true ∧ ∀ e, h.InSubtree root e → e.parent = c → e.octant ≠ o
  queues : ∀ i q, g.pending i q = h.pending i q

section Links

variable {h g : Hierarchy N L} {gone : Coord → Prop} (linked : h.Linked) (linked_g : g.Linked)
  (resident : ∀ c, g.contains c = true ↔ h.contains c = true ∧ ¬ gone c) {c : Coord} {n m : Node N}
  (before : h.get? c = some n) (after : g.get? c = some m)

include linked linked_g resident before after

/-- When cells leave and the hierarchy is linked again, a neighbour bit that looked at one of them
is clear and the others are as they were. -/
theorem Linked.hasNeighbour_of_gone (d : Direction) :
    m.hasNeighbour d = true ↔ n.hasNeighbour d = true ∧ ¬ gone (c.neighbour d) := by
  rw [linked_g.neighbour c m after d, linked.neighbour c n before d]
  exact resident (c.neighbour d)

theorem Linked.hasChild_of_gone (o : Octant) : m.hasChild o = true ↔
    n.hasChild o = true ∧ ∀ e, h.contains e = true → gone e → e.parent = c → e.octant ≠ o := by
  rw [linked_g.child c m after o, linked.child c n before o]
  constructor
  · rintro ⟨e, stays, up, octant⟩
    obtain ⟨there, kept⟩ := (resident e).mp stays
    refine ⟨⟨e, there, up, octant⟩, fun e' there' gone' up' octant' => kept ?_⟩
    have level : ∀ x, h.contains x = true → x.level ≠ 255 := fun x => linked.numbered.level_ne
    have same := Coord.eq_of_parent_octant (level e there) (level e' there')
      (up.trans up'.symm) (octant.trans octant'.symm)
    exact same ▸ gone'
  · rintro ⟨⟨e, there, up, octant⟩, others⟩
    exact ⟨e, (resident e).mpr ⟨there, fun gone_ => others e there gone_ up octant⟩, up, octant⟩

end Links

/-- A walk over a subtree lists every cell but the root before its parent, and the root last. -/
theorem Linked.postOrderFrom_leafFirst {h : Hierarchy N L} (linked : h.Linked) {root : Coord}
    (resident : h.contains root = true) :
    (∀ c ∈ h.postOrderFrom walkFuel root, c ≠ root →
        [c, c.parent].Sublist (h.postOrderFrom walkFuel root)) ∧
      (h.postOrderFrom walkFuel root).getLast? = some root := by
  have enough : root.level.toNat < walkFuel := root.level.toNat_lt
  have walked : ∀ c, c ∈ h.postOrderFrom walkFuel root ↔ h.contains c = true ∧ c.Under root :=
    fun c => linked.mem_postOrderFrom resident enough
  refine ⟨fun c listed differ => ?_, ?_⟩
  · obtain ⟨there, under⟩ := (walked c).mp listed
    have level := linked.numbered.level_ne there
    have lower := UInt8.lt_iff_toNat_lt.mp (Coord.under_and_ne_iff.mp ⟨under, differ⟩).1
    have up : c.parent.Under root := (Coord.Under.refl c).parent_chain under lower
    have inside : c.parent.level < h.levelCount := by
      have top := UInt8.lt_iff_toNat_lt.mp (linked.numbered.level_lt resident)
      exact UInt8.lt_iff_toNat_lt.mpr (Nat.lt_of_le_of_lt up.level_le top)
    have there' := linked.resident_of_under there (Coord.Under.parent level) inside
    exact sublist_pair_of_pairwise (linked.postOrderFrom_ordered resident enough) listed
      ((walked c.parent).mpr ⟨there', up⟩) (Coord.parent_ne level).symm
      (not_not.mpr (Coord.Under.parent level))
  · exact List.getLast?_concat ..

theorem Linked.unloaded {h g : Hierarchy N L} (linked : h.Linked) {root : Coord}
    (resident : h.contains root = true) (pruned : Pruned [] (·.Under root) h g) :
    Unloaded root (h.postOrderFrom walkFuel root) h g := by
  have enough : root.level.toNat < walkFuel := root.level.toNat_lt
  have stays : ∀ c, g.contains c = true ↔ h.contains c = true ∧ ¬ h.InSubtree root c := by
    intro c
    rw [pruned.contains, inSubtree_iff]
    exact and_congr_right fun there => not_congr (and_iff_right there).symm
  obtain ⟨leafFirst, rootLast⟩ := linked.postOrderFrom_leafFirst resident
  refine ⟨linked.nodup_postOrderFrom resident enough, fun c => ?_, leafFirst, rootLast,
    pruned.linked, stays, fun c kept => ?_, fun c n m before after => ?_,
    fun c n m before after => linked.hasNeighbour_of_gone pruned.linked stays before after,
    fun c n m before after o => ?_, fun i q => ?_⟩
  · rw [linked.mem_postOrderFrom resident enough, inSubtree_iff]
  · by_cases under : c.Under root
    · -- Nothing was stored there: it would have belonged to the subtree.
      have absent : ¬ h.contains c = true := fun there => kept (inSubtree_iff.mpr ⟨there, under⟩)
      have absent' : ¬ g.contains c = true := fun there => absent ((stays c).mp there).1
      rw [← isSome_body, Option.not_isSome_iff_eq_none] at absent absent'
      rw [absent, absent']
    · exact pruned.kept c under
  · exact (linked.parentIndex_eq pruned.linked pruned.length.symm before after).symm
  · rw [linked.hasChild_of_gone pruned.linked stays before after]
    refine and_congr_right fun _ => forall_congr' fun e => ?_
    exact ⟨fun each inside => each inside.1 inside, fun each _ inside => each inside⟩
  · by_cases destroy : q = .destroy
    · rw [destroy, pruned.destroy]
      rfl
    · exact pruned.other i q destroy

/-- Unloading the subtree of a resident of a reached hierarchy succeeds. The cells of the subtree
leave, each once and after the cells inside it, and the unload processors are handed exactly those
that were not deleting yet, level by level upwards; their calls are all that comes of it but for
what becomes of the hierarchy. -/
theorem unloadSubtree_exact {may : NodeEdit N L → Prop} {h : Hierarchy N L}
    (reached : h.Reached may) {root : Coord} (resident : h.contains root = true)
    (ps : NodeProcessors σ N L) (ctx : BatchContext) (s : σ) (log : CallLog) :
    ∃ order g s' bs,
      h.unloadSubtree ps.unload (ctx.withKind .unload) root s = (.ok order, g, s') ∧
      h.unloadSubtree ps.logged.unload (ctx.withKind .unload) root (s, log) =
        (.ok order, g, s', log ++ bs.flatMap NodeBatch.calls) ∧
      HandsOut ps (ctx.withKind .unload) h (fun c => h.InSubtree root c ∧
        ∃ n, h.get? c = some n ∧ n.state ≠ .deleting) bs ∧
      Unloaded root order h g := by
  have linked := reached.linked
  have enough : root.level.toNat < walkFuel := root.level.toNat_lt
  let order := h.postOrderFrom walkFuel root
  let levels := (List.range (root.level.toNat + 1)).map UInt8.ofNat
  have kind : (ctx.withKind .unload).kind = .unload := rfl
  have short : root.level.toNat + 1 ≤ 256 := root.level.toNat_lt
  obtain ⟨g, s', run, pruned, walked⟩ :=
    linked.unloadSubtree ps.unload (ctx.withKind .unload) resident s
  have nodup : order.Nodup := linked.nodup_postOrderFrom resident enough
  obtain ⟨out, -⟩ :=
    retireBatches_handsOut ps linked kind nodup (range_levels_ascending short) s
  obtain ⟨logged, -⟩ := unloadSubtree_logged ps linked kind root s log
  refine ⟨order, g, s', retireBatches ps (ctx.withKind .unload) order levels h s, run, ?_,
    out.congr (fun _ _ => rfl) fun c => ?_, linked.unloaded resident pruned⟩
  · rw [logged, run, NodeBatch.written, subtreeBatches, subtree_eq linked.numbered,
      if_pos resident]
  · rw [Retires, walked, inSubtree_iff, and_assoc, and_assoc]
    refine and_congr_right fun _ => and_congr_right fun under => and_iff_right ?_
    exact (mem_range_levels short).mpr (Nat.lt_succ_of_le under.level_le)

/-- Two neighbours on the finest of three levels lie in different cells of the next level. One of
these is unloaded with the neighbour inside it; the other pair and the cell above all four stay. -/
theorem unloadSubtree_exact_of_neighbours :
    let made (h : Hierarchy Unit Unit) (c : Coord) :=
      (h.ensure PayloadFactory.plain SimTime.zero c).2.2
    let h := made (made (empty PayloadFactory.plain 3) ⟨⟨1, 0, 0⟩, 0⟩) ⟨⟨0, 0, 0⟩, 0⟩
    let root : Coord := ⟨⟨0, 0, 0⟩, 1⟩
    let ps : NodeProcessors Unit Unit Unit :=
      { unload := [Processor.plain "persist" fun _ _ s => ([], s)] }
    let ctx : BatchContext := { world := default, kind := .unload, now := SimTime.zero, tick := 0 }
    h.Reached (fun _ => True) ∧ h.contains root = true ∧ ∃ g bs,
      h.unloadSubtree ps.unload ctx root () = (.ok [⟨⟨0, 0, 0⟩, 0⟩, root], g, ()) ∧
      HandsOut ps ctx h (fun c => h.InSubtree root c ∧
        ∃ n, h.get? c = some n ∧ n.state ≠ .deleting) bs ∧
      Unloaded root [⟨⟨0, 0, 0⟩, 0⟩, root] h g := by
  intro made h root ps ctx
  have made_reached : ∀ {g : Hierarchy Unit Unit} c, g.Reached (fun _ => True) →
      (made g c).Reached fun _ => True := fun c before => before.ensure _ _ c
  have reached : h.Reached fun _ => True := made_reached _ (made_reached _ (.empty _ _))
  have resident : h.contains root = true := by decide +kernel
  obtain ⟨order, g, s', bs, run, -, out, unloaded⟩ :=
    unloadSubtree_exact reached resident ps ctx () []
  have listed : (h.unloadSubtree ps.unload ctx root ()).1 = .ok [⟨⟨0, 0, 0⟩, 0⟩, root] := by
    decide +kernel
  cases Except.ok.inj ((congrArg (·.1) run).symm.trans listed)
  exact ⟨reached, resident, g, bs, run, out, unloaded⟩

end Hierarchy

end OctreeWorld
