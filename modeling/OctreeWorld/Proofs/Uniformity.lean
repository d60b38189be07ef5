import OctreeWorld.Proofs.Operations
import OctreeWorld.Proofs.RegionMerge

/-!
# Regions with the levels of their world

A world makes its regions with as many levels as it has itself, and no operation of a world or of a
region changes a number of levels or an identifier. So the regions of a world always fit each other.

`World.Operated` holds callers to the operations of regions: what they put in the place of a region
is what operations have made of it. `World.Reached` lets them put any reached region there.
-/

namespace OctreeWorld

variable {N L σ : Type} {may : NodeEdit N L → Prop}

/-! ### Operations of regions -/

/-- What operations make of a region: it stays reached, keeps its identifier and its number of
levels. -/
structure Region.Succeeds (may : NodeEdit N L → Prop) (r r' : Region N L) : Prop where
  reached : r'.Reached may
  id : r'.id = r.id
  length : r'.hierarchy.levels.length = r.hierarchy.levels.length

namespace Region

theorem Succeeds.trans {r r' r'' : Region N L} (first : r.Succeeds may r')
    (second : r'.Succeeds may r'') : r.Succeeds may r'' :=
  ⟨second.reached, second.id.trans first.id, second.length.trans first.length⟩

/-- Eviction has no part in which region it is and in what is to be flushed. -/
theorem evictExpired_apart (r : Region N L) (now : SimTime) (timeout : Duration) :
    (r.evictExpired now timeout).2.id = r.id ∧
      (r.evictExpired now timeout).2.changed = r.changed := by
  have each : ∀ (acc : Nat × Region N L) c, (evictOne now timeout acc c).2.id = acc.2.id ∧
      (evictOne now timeout acc c).2.changed = acc.2.changed := by
    intro acc c
    simp only [evictOne]
    repeat' split
    all_goals exact ⟨rfl, rfl⟩
  have walk : ∀ (cs : List Coord) (acc : Nat × Region N L),
      (cs.foldl (evictOne now timeout) acc).2.id = acc.2.id ∧
        (cs.foldl (evictOne now timeout) acc).2.changed = acc.2.changed := by
    intro cs
    induction cs with
    | nil => exact fun acc => ⟨rfl, rfl⟩
    | cons c cs ih =>
      exact fun acc => ⟨(ih _).1.trans (each acc c).1, (ih _).2.trans (each acc c).2⟩
  exact walk r.unobserved.toList (0, r)

theorem merge_id (s d : Region N L) :
    (Region.merge s d).2.1.id = s.id ∧ (Region.merge s d).2.2.id = d.id := by
  simp only [Region.merge]
  repeat' split
  all_goals exact ⟨rfl, rfl⟩

/-- A merge changes the number of levels of neither region. -/
theorem merge_length {s d : Region N L} (linked : s.hierarchy.Linked)
    (linked_d : d.hierarchy.Linked) :
    (Region.merge s d).2.1.hierarchy.levels.length = s.hierarchy.levels.length ∧
      (Region.merge s d).2.2.hierarchy.levels.length = d.hierarchy.levels.length := by
  by_cases mergeable : s.id ≠ d.id ∧ s.hierarchy.levelCount = d.hierarchy.levelCount
  · obtain ⟨stats, spent, g, merged, result⟩ := merge_eq linked linked_d mergeable.1 mergeable.2
    rw [result]
    exact ⟨merged.spentLength, merged.length⟩
  · rw [(merge_refused mergeable).2]
    exact ⟨rfl, rfl⟩

namespace Reached

variable {r : Region N L} (reached : r.Reached may)

include reached

theorem linked : r.hierarchy.Linked := (reached.kept (.trivial may)).1

theorem succeeds_loadNode (c : Coord) (now : SimTime) : r.Succeeds may (r.loadNode c now).2 := by
  refine ⟨reached.loadNode c now, ?_, ?_⟩
  · simp only [Region.loadNode]
    split <;> rfl
  · have evolved : Hierarchy.Evolved may _ _ := reached.linked.ensure_evolved r.factory now c
    rw [loadNode_hierarchy]
    exact evolved.length_eq

theorem succeeds_unloadNode {ps : NodeProcessors σ N L} (obey : ps.Obey may) (c : Coord)
    (tick : UInt64) (now : SimTime) (s : σ) :
    r.Succeeds may (r.unloadNode ps c tick now s).2.1 := by
  refine ⟨reached.unloadNode obey c tick now s, ?_, ?_⟩
  · simp only [Region.unloadNode]
    split <;> rfl
  · have evolved : Hierarchy.Evolved may _ _ := reached.linked.unloadSubtree_evolved ps.unload
      { world := r.world, kind := .unload, level := some c.level, now, tick } c s
    rw [unloadNode_hierarchy]
    exact evolved.length_eq

theorem succeeds_stream (config : StreamConfig) (tick : UInt64) (now : SimTime) :
    r.Succeeds may (r.stream config tick now).2 := by
  have called : Hierarchy.Levelwise (Level.Called may) _ _ := stream_called r config tick now
  exact ⟨reached.stream config tick now, rfl, called.length_eq⟩

theorem succeeds_tick {ps : NodeProcessors σ N L} (obey : ps.Obey may) (tick : UInt64)
    (now : SimTime) (timeout : Duration) (s : σ) :
    r.Succeeds may (r.tick ps tick now timeout s).2.1 := by
  refine ⟨reached.tick obey tick now timeout s, ?_,
    (tick_evolved obey reached.linked tick now timeout s).length_eq⟩
  obtain ⟨flushed, evicted, created, swept, destroyed, flush, evict, -, -, -, result⟩ :=
    tick_eq r ps tick now timeout s
  rw [result]
  change evicted.2.id = r.id
  rw [evict, (evictExpired_apart _ now timeout).1, flush]
  rfl

theorem succeeds_merge {source : Region N L} (source_reached : source.Reached may) :
    r.Succeeds may (Region.merge source r).2.2 :=
  ⟨.mergeInto source_reached reached, (merge_id source r).2,
    (merge_length source_reached.linked reached.linked).2⟩

/-- Every edit of a region is one of its operations. -/
theorem succeeds_edit {e : RegionEdit N L} (allowed : e.Allowed may) :
    r.Succeeds may (r.edit e) := by
  have at_ := reached.edit e allowed
  cases e with
  | load c now => exact reached.succeeds_loadNode c now
  | unload ps c tick now => exact reached.succeeds_unloadNode allowed c tick now ()
  | markChanged c =>
    refine ⟨at_, ?_, ?_⟩ <;>
    · simp only [Region.edit, Region.markChanged]
      split <;> rfl
  | observe c =>
    refine ⟨at_, ?_, ?_⟩ <;>
    · simp only [Region.edit, Region.observe]
      split
      · rfl
      · first | rfl | exact Hierarchy.length_modifyLevel ..
  | release c =>
    refine ⟨at_, ?_, ?_⟩ <;>
    · simp only [Region.edit, Region.release]
      split
      · rfl
      · split
        · rfl
        · first | rfl | exact Hierarchy.length_modifyLevel ..
  | addLoader id l => exact ⟨at_, rfl, rfl⟩
  | removeLoader id => exact ⟨at_, rfl, rfl⟩
  | level i e => exact ⟨at_, rfl, Hierarchy.length_modifyLevel ..⟩
  | stream config tick now => exact reached.succeeds_stream config tick now
  | tick ps tick now timeout => exact reached.succeeds_tick allowed tick now timeout ()
  | merge source => exact reached.succeeds_merge allowed

theorem succeeds_runRegionBatch {ps : List (RegionProcessor σ N L)}
    (obeys : ∀ p ∈ ps, p.Obeys (RegionEdit.Allowed may)) (ctx : BatchContext) (s : σ) :
    r.Succeeds may (runRegionBatch ps ctx r s).1 := by
  have respects : regionAddressing.Respects (RegionEdit.Allowed may) [()]
      (fun r r' : Region N L => r.Reached may → r.Succeeds may r') :=
    ⟨fun _ reached => ⟨reached, rfl, rfl⟩,
      fun _ _ _ first second reached => (first reached).trans (second (first reached).reached),
      fun _ _ _ _ allowed reached => reached.succeeds_edit allowed⟩
  exact respects.runBatch obeys ctx r s reached

end Reached

end Region

/-! ### Operations of worlds -/

/-- A world that its operations and those of its regions lead to. -/
inductive World.Operated (may : NodeEdit N L → Prop) : World σ N L → Prop
  | empty (id : WorldId) (config : WorldConfig) (factory : PayloadFactory N L) :
      Operated may (World.empty id config factory)
  | bounds {w} (operated : Operated may w) (box : Box) : Operated may { w with bounds := box }
  | register {w} (operated : Operated may w) {ps : ProcessorRegistry σ N L} (obey : ps.Obey may) :
      Operated may { w with processors := ps }
  | perform {w} (operated : Operated may w) (op : World.Operation N L) (fair : op.Fair may)
      (s : σ) : Operated may (op.perform w s).1
  | calls {w h} (operated : Operated may w)
      (called : Hierarchy.Levelwise (Level.Called may) w.hierarchy h) :
      Operated may { w with hierarchy := h }
  | addRegion {w} (operated : Operated may w) (id : RegionId) (box : Box) :
      Operated may (w.addRegion id box)
  | modifyRegion {w} (operated : Operated may w) (id : RegionId) {f : Region N L → Region N L}
      (operates : ∀ r : Region N L, r.Reached may → r.Succeeds may (f r)) :
      Operated may (w.modifyRegion id f)
  | regionWorkerPhase {α : Type} {w} (operated : Operated may w)
      {f : Region N L → α × Region N L}
      (operates : ∀ r : Region N L, r.Reached may → r.Succeeds may (f r).2) (s : σ) :
      Operated may (w.regionWorkerPhase f s).2.2.1
  | removeRegion {w} (operated : Operated may w) (id : RegionId) : Operated may (w.removeRegion id)
  | mergeRegions {w} (operated : Operated may w) (source destination : RegionId) :
      Operated may (w.mergeRegions source destination).2

namespace World

/-- Every region has as many levels as the world. -/
def Uniform (w : World σ N L) : Prop :=
  ∀ r ∈ w.regions, r.hierarchy.levels.length = w.hierarchy.levels.length

theorem Operated.reached {w : World σ N L} (operated : w.Operated may) : w.Reached may := by
  induction operated with
  | empty id config factory => exact .empty id config factory
  | bounds _ box ih => exact ih.bounds box
  | register _ obey ih => exact ih.register obey
  | perform _ op fair s ih => exact Operation.perform_reached ih op fair s
  | calls _ called ih => exact ih.calls called
  | addRegion _ id box ih => exact ih.addRegion id box
  | modifyRegion _ id operates ih => exact ih.modifyRegion id fun r at_ => (operates r at_).reached
  | regionWorkerPhase _ operates s ih =>
    exact ih.regionWorkerPhase (fun r at_ => (operates r at_).reached) s
  | removeRegion _ id ih => exact ih.removeRegion id
  | mergeRegions _ source destination ih => exact ih.mergeRegions source destination

theorem Operated.sound {w : World σ N L} (operated : w.Operated may) :
    w.Sound may fun _ => True := operated.reached.sound (.trivial may)

theorem modifyRegion_uniform {w : World σ N L} (uniform : w.Uniform) (id : RegionId)
    {f : Region N L → Region N L}
    (length : ∀ r ∈ w.regions, (f r).hierarchy.levels.length = w.hierarchy.levels.length) :
    (w.modifyRegion id f).Uniform := by
  intro r' listed
  obtain ⟨r, before, rfl⟩ := List.mem_map.mp listed
  split
  · exact length r before
  · exact uniform r before

/-- A region that has had its turn with the region workers is still the same region. -/
theorem workRegion_succeeds {α : Type} {w : World σ N L} (obey : w.processors.Obey may)
    {f : Region N L → α × Region N L}
    (operates : ∀ r : Region N L, r.Reached may → r.Succeeds may (f r).2) {r : Region N L}
    (reached : r.Reached may) (s : σ) : r.Succeeds may (w.workRegion f r s).2.1 := by
  have batch := reached.succeeds_runRegionBatch obey.region (w.batchContext .region) s
  have called := operates _ batch.reached
  have ticked := called.reached.succeeds_tick obey.node w.tick w.now w.config.evictionTimeout
    (runRegionBatch w.processors.region (w.batchContext .region) r s).2
  unfold workRegion
  simp only
  exact (batch.trans called).trans ticked

section Uniform

variable {w : World σ N L} (regions : ∀ r ∈ w.regions, r.Reached may) (uniform : w.Uniform)

include regions uniform

theorem regionWorkerPhase_uniform {α : Type} (obey : w.processors.Obey may)
    {f : Region N L → α × Region N L}
    (operates : ∀ r : Region N L, r.Reached may → r.Succeeds may (f r).2) (s : σ) :
    (w.regionWorkerPhase f s).2.2.1.Uniform := by
  have worked : ∀ r ∈ w.regions, ∀ s,
      r.Reached may ∧ r.hierarchy.levels.length = w.hierarchy.levels.length →
      (w.workRegion f r s).2.1.Reached may ∧
        (w.workRegion f r s).2.1.hierarchy.levels.length = w.hierarchy.levels.length := by
    intro r _ s ⟨reached, length⟩
    have turn := workRegion_succeeds obey operates reached s
    exact ⟨turn.reached, turn.length.trans length⟩
  rw [regionWorkerPhase_eq]
  exact fun r listed =>
    (forall_sweep worked (fun r before => ⟨regions r before, uniform r before⟩) s r listed).2

theorem mergeRegions_uniform (source destination : RegionId) :
    (w.mergeRegions source destination).2.Uniform := by
  unfold World.mergeRegions
  split
  · exact uniform
  · split
    · exact uniform
    · exact uniform
    · rename_i dst src found_dst found_src
      have reached_dst := regions dst (region?_mem found_dst)
      have reached_src := regions src (region?_mem found_src)
      have lengths := Region.merge_length reached_src.linked reached_dst.linked
      have merged : (w.modifyRegion destination fun _ => (Region.merge src dst).2.2).Uniform :=
        modifyRegion_uniform uniform destination fun _ _ =>
          lengths.2.trans (uniform dst (region?_mem found_dst))
      simp only
      split
      · exact fun r listed => merged r (List.mem_filter.mp listed).1
      · exact modifyRegion_uniform merged source fun _ _ =>
          lengths.1.trans (uniform src (region?_mem found_src))

end Uniform

theorem Operated.uniform {w : World σ N L} (operated : w.Operated may) : w.Uniform := by
  induction operated with
  | empty id config factory => exact fun r listed => absurd listed List.not_mem_nil
  | bounds _ box ih => exact ih
  | register _ obey ih => exact ih
  | perform before op fair s ih =>
    have sound := before.sound
    intro r listed
    rw [Operation.perform_regions] at listed
    have evolved := Operation.perform_evolved sound.linked sound.obey.node sound.obey.level fair s
    exact (ih r listed).trans evolved.length_eq.symm
  | calls _ called ih => exact fun r listed => (ih r listed).trans called.length_eq.symm
  | addRegion before id box ih =>
    intro r listed
    rcases List.mem_append.mp listed with old | new
    · exact ih r old
    · rw [List.mem_singleton.mp new]
      exact (List.length_map _).trans
        (List.length_range.trans before.sound.linked.numbered.toNat_levelCount)
  | modifyRegion before id operates ih =>
    exact modifyRegion_uniform ih id fun r listed =>
      (operates r (before.sound.regions r listed)).length.trans (ih r listed)
  | regionWorkerPhase before operates s ih =>
    exact regionWorkerPhase_uniform before.sound.regions ih before.sound.obey operates s
  | removeRegion _ id ih => exact fun r listed => ih r (List.mem_filter.mp listed).1
  | mergeRegions before source destination ih =>
    exact mergeRegions_uniform before.sound.regions ih source destination

end World

end OctreeWorld
