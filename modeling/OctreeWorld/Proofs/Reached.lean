import OctreeWorld.Proofs.Evolution
import OctreeWorld.Proofs.Tick

/-!
# Reachable regions, worlds, engines and hierarchies

A region, a world or an engine is reached from an empty one by its operations in any order, with
any arguments and any processors whose edits of nodes are permitted. What a caller passes as a
function is held to what the callers of this library can do: a level is changed by calls, a region
or a world by its own operations. A hierarchy is reached by its own operations or as the one of a
reached region or world.

`Kept` properties carry over from hierarchies to everything reached. Everything else about the
operations of regions and worlds is in the lemmas that show their hierarchies evolving.
-/

namespace OctreeWorld

variable {N L σ : Type}

/-! ### Regions -/

/-- A region that its operations lead to. -/
inductive Region.Reached (may : NodeEdit N L → Prop) : Region N L → Prop
  | empty (id : RegionId) (world : WorldId) (box : Box) (factory : PayloadFactory N L)
      (levelCount : UInt8) : Reached may (Region.empty id world box factory levelCount)
  | loadNode {r} (reached : Reached may r) (c : Coord) (now : SimTime) :
      Reached may (r.loadNode c now).2
  | unloadNode {σ : Type} {r} (reached : Reached may r) {ps : NodeProcessors σ N L}
      (obey : ps.Obey may) (c : Coord) (tick : UInt64) (now : SimTime) (s : σ) :
      Reached may (r.unloadNode ps c tick now s).2.1
  | observe {r r' count} (reached : Reached may r) {c : Coord}
      (done : r.observe c = .ok (count, r')) : Reached may r'
  | release {r r' count} (reached : Reached may r) {c : Coord}
      (done : r.release c = .ok (count, r')) : Reached may r'
  | markChanged {r r'} (reached : Reached may r) {c : Coord} (done : r.markChanged c = .ok r') :
      Reached may r'
  | addLoader {r} (reached : Reached may r) (id : LoaderId) (l : Loader) :
      Reached may (r.addLoader id l)
  | modifyLoader {r} (reached : Reached may r) (id : LoaderId) (f : Loader → Loader) :
      Reached may (r.modifyLoader id f)
  | removeLoader {r} (reached : Reached may r) (id : LoaderId) : Reached may (r.removeLoader id)
  | calls {r h} (reached : Reached may r)
      (called : Hierarchy.Levelwise (Level.Called may) r.hierarchy h) :
      Reached may { r with hierarchy := h }
  | stream {r} (reached : Reached may r) (config : StreamConfig) (tick : UInt64) (now : SimTime) :
      Reached may (r.stream config tick now).2
  | tick {σ : Type} {r} (reached : Reached may r) {ps : NodeProcessors σ N L} (obey : ps.Obey may)
      (tick : UInt64) (now : SimTime) (timeout : Duration) (s : σ) :
      Reached may (r.tick ps tick now timeout s).2.1
  | mergeSource {r r'} (reached : Reached may r) (reached' : Reached may r') :
      Reached may (Region.merge r r').2.1
  | mergeInto {r r'} (reached : Reached may r) (reached' : Reached may r') :
      Reached may (Region.merge r r').2.2

namespace Region

variable {may : NodeEdit N L → Prop}

/-! #### What operations do to the hierarchy -/

theorem loadNode_hierarchy (r : Region N L) (c : Coord) (now : SimTime) :
    (r.loadNode c now).2.hierarchy = (r.hierarchy.ensure r.factory now c).2.2 := by
  simp only [loadNode]
  split <;> rfl

theorem unloadNode_hierarchy (r : Region N L) (ps : NodeProcessors σ N L) (c : Coord)
    (tick : UInt64) (now : SimTime) (s : σ) :
    (r.unloadNode ps c tick now s).2.1.hierarchy = (r.hierarchy.unloadSubtree ps.unload
      { world := r.world, kind := .unload, level := some c.level, now, tick } c s).2.1 := by
  simp only [unloadNode]
  split <;> rfl

theorem observe_stepped {r r' : Region N L} {c : Coord} {count : UInt32}
    (done : r.observe c = .ok (count, r')) :
    Hierarchy.Levelwise (Level.Stepped may) r.hierarchy r'.hierarchy := by
  unfold observe at done
  split at done
  · cases done
  · cases done
    exact Hierarchy.stepped_observers fun n _ => ⟨_, rfl⟩

theorem release_stepped {r r' : Region N L} {c : Coord} {count : UInt32}
    (done : r.release c = .ok (count, r')) :
    Hierarchy.Levelwise (Level.Stepped may) r.hierarchy r'.hierarchy := by
  unfold release at done
  split at done
  · cases done
  · rename_i n found
    split at done
    · cases done
    · rename_i released taken
      cases done
      refine Hierarchy.stepped_observers fun m at_ => ?_
      rw [found] at at_
      cases at_
      exact Node.removeObserver?_eq_some taken

theorem flushChanged_stepped {ps : NodeProcessors σ N L} (obey : ps.Obey may) (r : Region N L)
    (tick : UInt64) (now : SimTime) (s : σ) :
    Hierarchy.Levelwise (Level.Stepped may) r.hierarchy
      (r.flushChanged ps tick now s).2.1.hierarchy :=
  Hierarchy.sweepLevels_levelwise r.hierarchy (fun _ s => .single (.flush obey.tick _ _ s)) s

theorem flushChanged_evolved {ps : NodeProcessors σ N L} (obey : ps.Obey may) (r : Region N L)
    (tick : UInt64) (now : SimTime) (s : σ) :
    Hierarchy.Evolved may r.hierarchy (r.flushChanged ps tick now s).2.1.hierarchy :=
  .steps (flushChanged_stepped obey r tick now s)

theorem evictOne_stepped (now : SimTime) (timeout : Duration) (count : Nat) (r : Region N L)
    (c : Coord) :
    Hierarchy.Levelwise (Level.Stepped may) r.hierarchy
      (evictOne now timeout (count, r) c).2.hierarchy := by
  have same : Hierarchy.Levelwise (Level.Stepped may) r.hierarchy r.hierarchy :=
    Hierarchy.Levelwise.refl Level.Stepped.refl r.hierarchy
  simp only [evictOne]
  split
  · exact same
  · split
    · exact same
    · split
      · exact Hierarchy.levelwise_modifyLevel Level.Stepped.refl fun _ _ => .single (.evict c)
      · exact same

theorem evictExpired_stepped (r : Region N L) (now : SimTime) (timeout : Duration) :
    Hierarchy.Levelwise (Level.Stepped may) r.hierarchy
      (r.evictExpired now timeout).2.hierarchy := by
  have walk : ∀ (cs : List Coord) (acc : Nat × Region N L),
      Hierarchy.Levelwise (Level.Stepped may) acc.2.hierarchy
        (cs.foldl (evictOne now timeout) acc).2.hierarchy := by
    intro cs
    induction cs with
    | nil => exact fun acc => Hierarchy.Levelwise.refl Level.Stepped.refl _
    | cons c cs ih =>
      exact fun acc => (evictOne_stepped now timeout acc.1 acc.2 c).trans
        (fun _ _ _ => Level.Stepped.trans) (ih _)
  exact walk r.unobserved.toList (0, r)

theorem evictExpired_evolved (r : Region N L) (now : SimTime) (timeout : Duration) :
    Hierarchy.Evolved may r.hierarchy (r.evictExpired now timeout).2.hierarchy :=
  .steps (evictExpired_stepped r now timeout)

/-- The parts of a tick, each with what it is given and what it leaves. -/
theorem tick_eq (r : Region N L) (ps : NodeProcessors σ N L) (tick : UInt64) (now : SimTime)
    (timeout : Duration) (s : σ) :
    ∃ flushed evicted created swept destroyed,
      flushed = r.flushChanged ps tick now s ∧
      evicted = flushed.2.1.evictExpired now timeout ∧
      created = evicted.2.hierarchy.createPending evicted.2.factory now ∧
      swept = sweep (tickLevel ps { world := evicted.2.world, kind := .load, now, tick })
        created.2.levels flushed.2.2 ∧
      destroyed = Hierarchy.destroyPending ⟨swept.2.1⟩ ps.unload
        { world := evicted.2.world, kind := .unload, now, tick } swept.2.2 ∧
      (r.tick ps tick now timeout s).2.1 =
        (evicted.2.track created.1 created.2).forget destroyed.1 destroyed.2.1 := by
  refine ⟨_, _, _, _, _, rfl, rfl, rfl, rfl, rfl, ?_⟩
  simp only [Region.tick, track, BatchContext.withKind]

theorem tick_evolved {ps : NodeProcessors σ N L} (obey : ps.Obey may) {r : Region N L}
    (linked : r.hierarchy.Linked) (tick : UInt64) (now : SimTime) (timeout : Duration) (s : σ) :
    Hierarchy.Evolved may r.hierarchy (r.tick ps tick now timeout s).2.1.hierarchy := by
  obtain ⟨flushed, evicted, created, swept, destroyed, h₁, h₂, h₃, h₄, h₅, result⟩ :=
    tick_eq r ps tick now timeout s
  have first : Hierarchy.Evolved may r.hierarchy flushed.2.1.hierarchy := by
    rw [h₁]
    exact flushChanged_evolved obey r tick now s
  have second : Hierarchy.Evolved may flushed.2.1.hierarchy evicted.2.hierarchy := by
    rw [h₂]
    exact evictExpired_evolved _ now timeout
  have linked₂ := second.linked (first.linked linked)
  have third : Hierarchy.Evolved may evicted.2.hierarchy created.2 := by
    rw [h₃]
    exact linked₂.createPending_evolved _ now
  have fourth : Hierarchy.Evolved may created.2 ⟨swept.2.1⟩ := by
    rw [h₄]
    exact .steps (forall₂_sweep (fun l _ s => Level.tickLevel_stepped obey _ l s) _)
  have fifth : Hierarchy.Evolved may ⟨swept.2.1⟩ destroyed.2.1 := by
    rw [h₅]
    exact (fourth.linked (third.linked linked₂)).destroyPending_evolved _ _ _
  rw [result]
  exact (((first.trans second).trans third).trans fourth).trans fifth

theorem stream_called (r : Region N L) (config : StreamConfig) (tick : UInt64) (now : SimTime) :
    Hierarchy.Levelwise (Level.Called may) r.hierarchy (r.stream config tick now).2.hierarchy :=
  (Hierarchy.keepAliveAll_levelwise now r.loaderList r.hierarchy).trans
    (fun _ _ _ => Relation.ReflTransGen.trans)
    (Hierarchy.levelwise_map _ fun l => Level.requestLevel_called config r.loaderList tick l)

theorem merge_cases {P : Hierarchy N L → Prop} (kept : Hierarchy.Kept may P) {r r' : Region N L}
    (before : r.hierarchy.Linked ∧ P r.hierarchy) (before' : r'.hierarchy.Linked ∧ P r'.hierarchy) :
    ((Region.merge r r').2.1.hierarchy.Linked ∧ P (Region.merge r r').2.1.hierarchy) ∧
      (Region.merge r r').2.2.hierarchy.Linked ∧ P (Region.merge r r').2.2.hierarchy := by
  simp only [Region.merge]
  split
  · exact ⟨before, before'⟩
  · split
    · exact ⟨before, before'⟩
    · rename_i same
      obtain ⟨length, stats, spent, g, run, merged⟩ :=
        before.1.merge before'.1 (Decidable.not_not.mp same)
      have ⟨rest, grown⟩ :=
        kept.merged _ _ _ _ _ before.1 before'.1 length merged before.2 before'.2
      rw [run]
      exact ⟨⟨merged.spent_linked before.1.numbered, rest⟩, merged.linked, grown⟩

namespace Reached

variable {r : Region N L}

/-- Every reached region's hierarchy is linked and has all kept properties. -/
theorem kept {P : Hierarchy N L → Prop} (kept : Hierarchy.Kept may P) (reached : r.Reached may) :
    r.hierarchy.Linked ∧ P r.hierarchy := by
  induction reached with
  | empty id world box factory count =>
    exact ⟨Hierarchy.empty_linked factory count, kept.empty factory count⟩
  | loadNode _ c now ih =>
    rw [loadNode_hierarchy]
    exact kept.evolved (ih.1.ensure_evolved _ now c) ih.1 ih.2
  | unloadNode _ obey c tick now s ih =>
    rw [unloadNode_hierarchy]
    exact kept.evolved (ih.1.unloadSubtree_evolved _ _ c s) ih.1 ih.2
  | observe _ done ih => exact kept.evolved (.steps (observe_stepped done)) ih.1 ih.2
  | release _ done ih => exact kept.evolved (.steps (release_stepped done)) ih.1 ih.2
  | markChanged _ done ih =>
    unfold Region.markChanged at done
    split at done
    · cases done
      exact ih
    · cases done
  | addLoader _ id l ih => exact ih
  | modifyLoader _ id f ih => exact ih
  | removeLoader _ id ih => exact ih
  | calls _ called ih =>
    exact kept.evolved (.steps (called.imp fun _ _ => Level.Stepped.of_called)) ih.1 ih.2
  | stream _ config tick now ih =>
    exact kept.evolved
      (.steps ((stream_called _ config tick now).imp fun _ _ => Level.Stepped.of_called)) ih.1 ih.2
  | tick _ obey tick now timeout s ih =>
    exact kept.evolved (tick_evolved obey ih.1 tick now timeout s) ih.1 ih.2
  | mergeSource _ _ ih ih' => exact (merge_cases kept ih ih').1
  | mergeInto _ _ ih ih' => exact (merge_cases kept ih ih').2

end Reached

end Region

/-! ### Processors of regions -/

/-- An edit of a region that a caller could make as well. -/
def RegionEdit.Allowed (may : NodeEdit N L → Prop) : RegionEdit N L → Prop
  | .unload ps _ _ _ => ps.Obey may
  | .level _ e => e.Allowed may
  | .tick ps _ _ _ => ps.Obey may
  | .merge source => source.Reached may
  | _ => True

/-- Processors that make only permitted edits of nodes. -/
structure ProcessorRegistry.Obey (may : NodeEdit N L → Prop) (ps : ProcessorRegistry σ N L) :
    Prop where
  node : ps.toNodeProcessors.Obey may
  level : ∀ p ∈ ps.level, p.Obeys (LevelEdit.Allowed may)
  region : ∀ p ∈ ps.region, p.Obeys (RegionEdit.Allowed may)

section RegionBatch

variable {may : NodeEdit N L → Prop}

theorem Region.Reached.edit {r : Region N L} (reached : r.Reached may) (e : RegionEdit N L)
    (allowed : e.Allowed may) : (r.edit e).Reached may := by
  cases e with
  | load c now => exact reached.loadNode c now
  | unload ps c tick now => exact reached.unloadNode allowed c tick now ()
  | markChanged c =>
    simp only [Region.edit]
    cases done : r.markChanged c with
    | error e => exact reached
    | ok r' => exact reached.markChanged done
  | observe c =>
    simp only [Region.edit]
    cases done : r.observe c with
    | error e => exact reached
    | ok result => exact reached.observe done
  | release c =>
    simp only [Region.edit]
    cases done : r.release c with
    | error e => exact reached
    | ok result => exact reached.release done
  | addLoader id l => exact reached.addLoader id l
  | removeLoader id => exact reached.removeLoader id
  | level i e =>
    refine reached.calls (Hierarchy.levelwise_modifyLevel (fun _ => .refl) fun l _ => ?_)
    exact .single (.edit e allowed)
  | stream config tick now => exact reached.stream config tick now
  | tick ps tick now timeout => exact reached.tick allowed tick now timeout ()
  | merge source => exact Region.Reached.mergeInto allowed reached

theorem runRegionBatch_reached {ps : List (RegionProcessor σ N L)}
    (obeys : ∀ p ∈ ps, p.Obeys (RegionEdit.Allowed may)) (ctx : BatchContext) {r : Region N L}
    (reached : r.Reached may) (s : σ) : (runRegionBatch ps ctx r s).1.Reached may := by
  have respects : regionAddressing.Respects (RegionEdit.Allowed may) [()]
      (fun r r' : Region N L => r.Reached may → r'.Reached may) :=
    ⟨fun _ => id, fun _ _ _ first second => second ∘ first,
      fun _ _ r e allowed reached => reached.edit e allowed⟩
  exact respects.runBatch obeys ctx r s reached

end RegionBatch

/-! ### Worlds -/

/-- A world that its operations lead to. -/
inductive World.Reached (may : NodeEdit N L → Prop) : World σ N L → Prop
  | empty (id : WorldId) (config : WorldConfig) (factory : PayloadFactory N L) :
      Reached may (World.empty id config factory)
  | bounds {w} (reached : Reached may w) (box : Box) : Reached may { w with bounds := box }
  | register {w} (reached : Reached may w) {ps : ProcessorRegistry σ N L} (obey : ps.Obey may) :
      Reached may { w with processors := ps }
  | setTime {w} (reached : Reached may w) (tick : UInt64) (now : SimTime) :
      Reached may (w.setTime tick now)
  | createNode {w w'} (reached : Reached may w) {c : Coord} (done : w.createNode c = .ok w') :
      Reached may w'
  | unloadNode {w} (reached : Reached may w) (c : Coord) (s : σ) :
      Reached may (w.unloadNode c s).2.1
  | observe {w w' count} (reached : Reached may w) {c : Coord}
      (done : w.observe c = .ok (count, w')) : Reached may w'
  | release {w w' count} (reached : Reached may w) {c : Coord}
      (done : w.release c = .ok (count, w')) : Reached may w'
  | queueCreate {w} (reached : Reached may w) (c : Coord) : Reached may (w.queueCreate c)
  | queueUnload {w} (reached : Reached may w) (c : Coord) : Reached may (w.queueUnload c)
  | queueTick {w} (reached : Reached may w) (c : Coord) : Reached may (w.queueTick c)
  | calls {w h} (reached : Reached may w)
      (called : Hierarchy.Levelwise (Level.Called may) w.hierarchy h) :
      Reached may { w with hierarchy := h }
  | levelWorkerPhase {α : Type} {w} (reached : Reached may w) {f : Level N L → α × Level N L}
      (calls : ∀ l, Level.Called may l (f l).2) (s : σ) : Reached may (w.levelWorkerPhase f s).2.1
  | regionWorkerPhase {α : Type} {w} (reached : Reached may w) {f : Region N L → α × Region N L}
      (operates : ∀ r, r.Reached may → (f r).2.Reached may) (s : σ) :
      Reached may (w.regionWorkerPhase f s).2.2.1
  | worldWorkerPhase {w} (reached : Reached may w) (s : σ) :
      Reached may (w.worldWorkerPhase s).2.1
  | createPhase {w} (reached : Reached may w) : Reached may w.createPhase.2
  | loadPhase {w} (reached : Reached may w) (s : σ) : Reached may (w.loadPhase s).2.1
  | unloadPhase {w} (reached : Reached may w) (s : σ) : Reached may (w.unloadPhase s).2.1
  | destroyPhase {w} (reached : Reached may w) (s : σ) : Reached may (w.destroyPhase s).2.1
  | addRegion {w} (reached : Reached may w) (id : RegionId) (box : Box) :
      Reached may (w.addRegion id box)
  | modifyRegion {w} (reached : Reached may w) (id : RegionId) {f : Region N L → Region N L}
      (operates : ∀ r, r.Reached may → (f r).Reached may) : Reached may (w.modifyRegion id f)
  | removeRegion {w} (reached : Reached may w) (id : RegionId) : Reached may (w.removeRegion id)
  | mergeRegions {w} (reached : Reached may w) (source destination : RegionId) :
      Reached may (w.mergeRegions source destination).2

namespace World

variable {may : NodeEdit N L → Prop}

/-- What every reached world is: linked, with kept properties, with reached regions, and with
processors that make only permitted edits of nodes. -/
structure Sound (may : NodeEdit N L → Prop) (P : Hierarchy N L → Prop) (w : World σ N L) :
    Prop where
  linked : w.hierarchy.Linked
  kept : P w.hierarchy
  regions : ∀ r ∈ w.regions, r.Reached may
  obey : w.processors.Obey may

theorem Sound.evolve {P : Hierarchy N L → Prop} (kept : Hierarchy.Kept may P) {w w' : World σ N L}
    (sound : w.Sound may P) (evolved : Hierarchy.Evolved may w.hierarchy w'.hierarchy)
    (regions : w'.regions = w.regions) (processors : w'.processors = w.processors) :
    w'.Sound may P := by
  obtain ⟨linked, after⟩ := kept.evolved evolved sound.linked sound.kept
  refine ⟨linked, after, ?_, ?_⟩
  · rw [regions]
    exact sound.regions
  · rw [processors]
    exact sound.obey

theorem createNode_eq {w w' : World σ N L} (linked : w.hierarchy.Linked) {c : Coord}
    (done : w.createNode c = .ok w') : ∃ g, w' = { w with hierarchy := g } ∧
      Hierarchy.Grown w.factory w.now [] [c] w.hierarchy g := by
  cases free : w.hierarchy.insertError? c with
  | some e =>
    rw [World.createNode, Hierarchy.insert_of_insertError?_eq_some free] at done
    cases done
  | none =>
    obtain ⟨g, made, grown⟩ := linked.createCell w.factory w.now free
    obtain ⟨k, entered, linked_k, -⟩ :=
      linked.insert (n := Node.fresh c (w.factory.node c)) free
    rw [Hierarchy.createCell, entered] at made
    rw [World.createNode, entered] at done
    cases made
    cases done
    refine ⟨_, rfl, ?_⟩
    rw [← Hierarchy.mark_eq_modifyAt linked_k.numbered] at grown
    rw [Hierarchy.modify_push]
    exact grown

theorem drainLevels_levelwise {R : Level N L → Level N L → Prop} (w : World σ N L)
    (kind : CommandKind) {step : BatchContext → Level N L → σ → Nat × Level N L × σ}
    (each : ∀ ctx l s, R l (step ctx l s).2.1) (s : σ) :
    Hierarchy.Levelwise R w.hierarchy (w.drainLevels kind step s).2.1.hierarchy :=
  Hierarchy.sweepLevels_levelwise w.hierarchy (fun l s => each _ l s) s

theorem drainLevels_change (w : World σ N L) (kind : CommandKind)
    {step : BatchContext → Level N L → σ → Nat × Level N L × σ}
    (each : ∀ ctx l s, Level.Step may l (step ctx l s).2.1) (s : σ) :
    Hierarchy.Change may w.hierarchy (w.drainLevels kind step s).2.1.hierarchy :=
  .steps (w.drainLevels_levelwise kind (fun ctx l s => .single (each ctx l s)) s)

theorem drainLevels_evolved (w : World σ N L) (kind : CommandKind)
    {step : BatchContext → Level N L → σ → Nat × Level N L × σ}
    (each : ∀ ctx l s, Level.Step may l (step ctx l s).2.1) (s : σ) :
    Hierarchy.Evolved may w.hierarchy (w.drainLevels kind step s).2.1.hierarchy :=
  .single (w.drainLevels_change kind each s)

/-- The create phase makes what the create queues ask for resident, with its ancestors. -/
theorem createPhase_grown {w : World σ N L} (linked : w.hierarchy.Linked) :
    ∃ created, Hierarchy.Grown w.factory w.now w.hierarchy.indices.reverse created w.hierarchy
        w.createPhase.2.hierarchy ∧
      (∀ i, w.createPhase.2.hierarchy.pending i .create = []) ∧
      (∀ i, ∀ c ∈ w.hierarchy.pending i .create, c.level < w.hierarchy.levelCount →
        w.createPhase.2.hierarchy.contains c = true) ∧
      ∀ e ∈ created, ∃ i, ∃ c ∈ w.hierarchy.pending i .create,
        c.level < w.hierarchy.levelCount ∧ e ∈ w.hierarchy.lineage c := by
  obtain ⟨created, g, run, grown⟩ := linked.createPending w.factory w.now
  rw [createPhase, run]
  exact ⟨created, grown⟩

/-- The destroy phase removes what the destroy queues doom. -/
theorem destroyPhase_pruned {w : World σ N L} (linked : w.hierarchy.Linked) (s : σ) :
    Hierarchy.Pruned w.hierarchy.indices (w.hierarchy.Doomed w.hierarchy.indices) w.hierarchy
        (w.destroyPhase s).2.1.hierarchy ∧
      ∀ i, (w.destroyPhase s).2.1.hierarchy.pending i .destroy = [] := by
  obtain ⟨removed, g, s', run, pruned, empty, -⟩ :=
    linked.destroyPending w.processors.unload (w.batchContext .unload) s
  rw [destroyPhase, run]
  exact ⟨pruned, empty⟩

/-- What the level workers do to one level. -/
def workLevel {α : Type} (w : World σ N L) (f : Level N L → α × Level N L) :
    Level N L → σ → α × Level N L × σ := fun l s =>
  let worked := runLevelBatch w.processors.level ((w.batchContext .level).atLevel l.index) l s
  ((f worked.1).1, (f worked.1).2, worked.2)

theorem levelWorkerPhase_eq {α : Type} (w : World σ N L) (f : Level N L → α × Level N L) (s : σ) :
    w.levelWorkerPhase f s =
      ((sweep (w.workLevel f) w.hierarchy.levels s).1,
        { w with hierarchy := ⟨(sweep (w.workLevel f) w.hierarchy.levels s).2.1⟩ },
        (sweep (w.workLevel f) w.hierarchy.levels s).2.2) := rfl

/-- What the region workers do to one region. -/
def workRegion {α : Type} (w : World σ N L) (f : Region N L → α × Region N L) :
    Region N L → σ → (α × RegionTickStats) × Region N L × σ := fun r s =>
  let worked := runRegionBatch w.processors.region (w.batchContext .region) r s
  let ticked := (f worked.1).2.tick w.processors.toNodeProcessors w.tick w.now
    w.config.evictionTimeout worked.2
  (((f worked.1).1, ticked.1), ticked.2.1, ticked.2.2)

theorem regionWorkerPhase_eq {α : Type} (w : World σ N L) (f : Region N L → α × Region N L)
    (s : σ) :
    w.regionWorkerPhase f s =
      ((sweep (w.workRegion f) w.regions s).1.map (·.1),
        RegionTickStats.total ((sweep (w.workRegion f) w.regions s).1.map (·.2)),
        { w with regions := (sweep (w.workRegion f) w.regions s).2.1 },
        (sweep (w.workRegion f) w.regions s).2.2) := by
  unfold regionWorkerPhase workRegion
  simp only

theorem levelWorkerPhase_called {α : Type} {w : World σ N L}
    (obeys : ∀ p ∈ w.processors.level, p.Obeys (LevelEdit.Allowed may))
    {f : Level N L → α × Level N L} (calls : ∀ l, Level.Called may l (f l).2) (s : σ) :
    Hierarchy.Levelwise (Level.Called may) w.hierarchy (w.levelWorkerPhase f s).2.1.hierarchy := by
  have each : ∀ l ∈ w.hierarchy.levels, ∀ s, Level.Called may l (w.workLevel f l s).2.1 := by
    intro l _ s
    have batch := Level.runLevelBatch_called obeys ((w.batchContext .level).atLevel l.index) l s
    exact Relation.ReflTransGen.trans batch (calls _)
  rw [levelWorkerPhase_eq]
  exact forall₂_sweep each s

theorem regionWorkerPhase_reached {α : Type} {w : World σ N L} (obey : w.processors.Obey may)
    {f : Region N L → α × Region N L} (operates : ∀ r, r.Reached may → (f r).2.Reached may)
    (regions : ∀ r ∈ w.regions, r.Reached may) (s : σ) :
    ∀ r ∈ (w.regionWorkerPhase f s).2.2.1.regions, r.Reached may := by
  have worked : ∀ r ∈ w.regions, ∀ s, r.Reached may → (w.workRegion f r s).2.1.Reached may := by
    intro r _ s reached
    have batch := runRegionBatch_reached obey.region (w.batchContext .region) reached s
    unfold workRegion
    simp only
    exact (operates _ batch).tick obey.node w.tick w.now w.config.evictionTimeout _
  rw [regionWorkerPhase_eq]
  exact forall_sweep worked regions s

theorem region?_mem {w : World σ N L} {id : RegionId} {r : Region N L}
    (found : w.region? id = some r) : r ∈ w.regions := List.mem_of_find?_eq_some found

theorem region?_id {w : World σ N L} {id : RegionId} {r : Region N L}
    (found : w.region? id = some r) : r.id = id := by
  have named := List.find?_some found
  exact beq_iff_eq.mp named

theorem modifyRegion_reached {w : World σ N L} {id : RegionId} {f : Region N L → Region N L}
    (operates : ∀ r, r.Reached may → (f r).Reached may) (regions : ∀ r ∈ w.regions, r.Reached may) :
    ∀ r ∈ (w.modifyRegion id f).regions, r.Reached may := by
  intro r' listed
  obtain ⟨r, before, rfl⟩ := List.mem_map.mp listed
  split
  · exact operates r (regions r before)
  · exact regions r before

theorem removeRegion_reached {w : World σ N L} {id : RegionId}
    (regions : ∀ r ∈ w.regions, r.Reached may) : ∀ r ∈ (w.removeRegion id).regions, r.Reached may :=
  fun r listed => regions r (List.mem_filter.mp listed).1

theorem mergeRegions_reached {w : World σ N L} (regions : ∀ r ∈ w.regions, r.Reached may)
    (source destination : RegionId) :
    ∀ r ∈ (w.mergeRegions source destination).2.regions, r.Reached may := by
  unfold World.mergeRegions
  split
  · exact regions
  · split
    · exact regions
    · exact regions
    · rename_i dst src found_dst found_src
      have reached_dst := regions dst (region?_mem found_dst)
      have reached_src := regions src (region?_mem found_src)
      have merged : ∀ r ∈ (w.modifyRegion destination fun _ =>
          (Region.merge src dst).2.2).regions, r.Reached may :=
        modifyRegion_reached (fun _ _ => .mergeInto reached_src reached_dst) regions
      simp only
      split
      · exact removeRegion_reached merged
      · exact modifyRegion_reached (fun _ _ => .mergeSource reached_src reached_dst) merged

/-- A merge concerns nothing of a world but its regions. -/
theorem mergeRegions_parts (w : World σ N L) (source destination : RegionId) :
    ∃ regions, (w.mergeRegions source destination).2 = { w with regions } := by
  unfold World.mergeRegions
  split
  · exact ⟨_, rfl⟩
  · split
    · exact ⟨_, rfl⟩
    · exact ⟨_, rfl⟩
    · simp only
      split <;> exact ⟨_, rfl⟩

/-- States may be written by hand where the edit is permitted. -/
theorem Reached.setState {w : World σ N L} (reached : w.Reached may) (c : Coord) {s : NodeState}
    (allowed : may (.setState s)) : (w.modifyNode c (·.withState s)).Reached may := by
  refine reached.calls (Hierarchy.levelwise_modifyLevel (fun _ => .refl) fun l _ => ?_)
  exact .single (.edit (.node c (.setState s)) allowed)

theorem Reached.sound {P : Hierarchy N L → Prop} (kept : Hierarchy.Kept may P) {w : World σ N L}
    (reached : w.Reached may) : w.Sound may P := by
  induction reached with
  | empty id config factory =>
    refine ⟨Hierarchy.empty_linked factory _, kept.empty factory _, ?_, ⟨⟨?_, ?_, ?_⟩, ?_, ?_⟩⟩
    all_goals
      intro p listed
      cases listed
  | bounds _ box ih => exact ⟨ih.linked, ih.kept, ih.regions, ih.obey⟩
  | register _ obey ih => exact ⟨ih.linked, ih.kept, ih.regions, obey⟩
  | setTime _ tick now ih => exact ⟨ih.linked, ih.kept, ih.regions, ih.obey⟩
  | createNode _ done ih =>
    obtain ⟨g, rfl, grown⟩ := createNode_eq ih.linked done
    exact ih.evolve kept (.single (.grown grown)) rfl rfl
  | unloadNode _ c s ih =>
    exact ih.evolve kept (ih.linked.unloadSubtree_evolved _ _ c s) rfl rfl
  | observe _ done ih =>
    unfold World.observe at done
    split at done
    · cases done
    · cases done
      exact ih.evolve kept (.observers fun n _ => ⟨_, rfl⟩) rfl rfl
  | release _ done ih =>
    unfold World.release at done
    split at done
    · cases done
    · rename_i n found
      split at done
      · cases done
      · rename_i released taken
        cases done
        refine ih.evolve kept (.observers fun m at_ => ?_) rfl rfl
        rw [found] at at_
        cases at_
        exact Node.removeObserver?_eq_some taken
  | queueCreate _ c ih =>
    exact ih.evolve kept (.modifyLevel fun l _ => .call (.edit (.push .create c) trivial)) rfl rfl
  | queueUnload _ c ih => exact ih.evolve kept (.modifyLevel fun l _ => .doom c) rfl rfl
  | queueTick _ c ih =>
    exact ih.evolve kept (.modifyLevel fun l _ => .call (.edit (.push .tick c) trivial)) rfl rfl
  | calls _ called ih =>
    exact ih.evolve kept (.steps (called.imp fun _ _ => Level.Stepped.of_called)) rfl rfl
  | levelWorkerPhase _ calls s ih =>
    exact ih.evolve kept (.steps ((levelWorkerPhase_called ih.obey.level calls s).imp
      fun _ _ => Level.Stepped.of_called)) rfl rfl
  | regionWorkerPhase _ operates s ih =>
    exact ⟨ih.linked, ih.kept, regionWorkerPhase_reached ih.obey operates ih.regions s, ih.obey⟩
  | worldWorkerPhase _ s ih =>
    exact ih.evolve kept (drainLevels_evolved _ _ (fun ctx l s => .tick ih.obey.node.tick ctx s) s)
      rfl rfl
  | createPhase _ ih =>
    exact ih.evolve kept (ih.linked.createPending_evolved _ _) rfl rfl
  | loadPhase _ s ih =>
    exact ih.evolve kept (drainLevels_evolved _ _ (fun ctx l s => .load ih.obey.node.load ctx s) s)
      rfl rfl
  | unloadPhase _ s ih =>
    exact ih.evolve kept
      (drainLevels_evolved _ _ (fun ctx l s => .unload ih.obey.node.unload ctx s) s) rfl rfl
  | destroyPhase _ s ih =>
    exact ih.evolve kept (ih.linked.destroyPending_evolved _ _ s) rfl rfl
  | addRegion _ id box ih =>
    refine ⟨ih.linked, ih.kept, fun r listed => ?_, ih.obey⟩
    rcases List.mem_append.mp listed with before | new
    · exact ih.regions r before
    · rw [List.mem_singleton.mp new]
      exact .empty ..
  | modifyRegion _ id operates ih =>
    exact ⟨ih.linked, ih.kept, modifyRegion_reached operates ih.regions, ih.obey⟩
  | removeRegion _ id ih => exact ⟨ih.linked, ih.kept, removeRegion_reached ih.regions, ih.obey⟩
  | @mergeRegions w _ source destination ih =>
    have merged := mergeRegions_reached ih.regions source destination
    obtain ⟨regions, result⟩ := w.mergeRegions_parts source destination
    rw [result] at merged ⊢
    exact ⟨ih.linked, ih.kept, merged, ih.obey⟩

end World

/-! ### Engines -/

/-- An engine that its operations lead to, whatever its configuration. -/
inductive Engine.Reached (may : NodeEdit N L → Prop) : Engine σ N L → Prop
  | start (config : EngineConfig) (threads : Nat) : Reached may { config, threads }
  | insertWorld {e} (reached : Reached may e) {w : World σ N L} (world : w.Reached may) :
      Reached may (e.insertWorld w)
  | addWorld {e} (reached : Reached may e) (id : WorldId) (factory : PayloadFactory N L) :
      Reached may (e.addWorld id factory)
  | modifyWorld {e} (reached : Reached may e) (id : WorldId) {f : World σ N L → World σ N L}
      (operates : ∀ w, w.Reached may → (f w).Reached may) : Reached may (e.modifyWorld id f)
  | removeWorld {e} (reached : Reached may e) (id : WorldId) : Reached may (e.removeWorld id)
  | addLoader {e} (reached : Reached may e) (id : LoaderId) (l : Loader) :
      Reached may (e.addLoader id l)
  | modifyLoader {e} (reached : Reached may e) (id : LoaderId) (f : Loader → Loader) :
      Reached may (e.modifyLoader id f)
  | removeLoader {e} (reached : Reached may e) (id : LoaderId) : Reached may (e.removeLoader id)
  | advanceTime {e} (reached : Reached may e) (d : Duration) : Reached may (e.advanceTime d)
  | runPhase {e n e' s'} (reached : Reached may e) {p : Phase} {elapsed : Duration} {s : σ}
      (done : e.runPhase p elapsed s = .ok (n, e', s')) : Reached may e'

namespace Engine

variable {may : NodeEdit N L → Prop}

/-- What a phase leaves of a world: it has the regions that it had unless they are worked on, and its
clock does not move back. -/
theorem Works.parts {e : Engine σ N L} {p : Phase} {w w' : World σ N L} (works : e.Works p w w') :
    ∃ h regions tick now, w' = { w with hierarchy := h, regions, tick, now } ∧
      (p ≠ .regionWorker → regions = w.regions) ∧ w.now.micros ≤ now.micros := by
  have own : ∀ h, ∃ h' regions tick now, { w with hierarchy := h } =
      { w with hierarchy := h', regions, tick, now } ∧
        (p ≠ .regionWorker → regions = w.regions) ∧ w.now.micros ≤ now.micros :=
    fun h => ⟨h, w.regions, w.tick, w.now, rfl, fun _ => rfl, UInt64.le_refl _⟩
  cases p with
  | loader =>
    rw [show w' = e.stampWorld w from works]
    exact ⟨_, _, _, _, rfl, fun _ => rfl, SimTime.le_latest_left _ _⟩
  | levelWorker =>
    obtain ⟨s, rfl⟩ := works
    rw [streamWorld_world]
    exact own _
  | regionWorker =>
    obtain ⟨s, rfl⟩ := works
    rw [tickRegions_world, World.regionWorkerPhase_eq]
    exact ⟨_, _, _, _, rfl, fun other => absurd rfl other, UInt64.le_refl _⟩
  | create =>
    rw [show w' = w.createPhase.2 from works]
    exact own _
  | finish =>
    rw [show w' = w from works]
    exact own _
  | _ =>
    obtain ⟨s, rfl⟩ := works
    exact own _

/-- A phase is nothing but operations on its worlds. -/
theorem Works.reached {e : Engine σ N L} {p : Phase} {w w' : World σ N L}
    (works : e.Works p w w') (reached : w.Reached may) : w'.Reached may := by
  cases p with
  | loader =>
    rw [show w' = e.stampWorld w from works]
    exact (reached.setTime e.tick e.now).calls
      (Hierarchy.keepAliveAll_levelwise e.now e.loaderList _)
  | levelWorker =>
    obtain ⟨s, rfl⟩ := works
    exact reached.levelWorkerPhase (fun l => Level.stream_called _ _ _ _ _ l) s
  | regionWorker =>
    obtain ⟨s, rfl⟩ := works
    exact reached.regionWorkerPhase (fun r reached => reached.stream _ _ _) s
  | worldWorker =>
    obtain ⟨s, rfl⟩ := works
    exact reached.worldWorkerPhase s
  | create =>
    rw [show w' = w.createPhase.2 from works]
    exact reached.createPhase
  | load =>
    obtain ⟨s, rfl⟩ := works
    exact reached.loadPhase s
  | unload =>
    obtain ⟨s, rfl⟩ := works
    exact reached.unloadPhase s
  | destroy =>
    obtain ⟨s, rfl⟩ := works
    exact reached.destroyPhase s
  | finish =>
    rw [show w' = w from works]
    exact reached

theorem Ran.reached {e : Engine σ N L} {ps : List Phase} {w w' : World σ N L}
    (ran : e.Ran ps w w') (reached : w.Reached may) : w'.Reached may := by
  induction ps generalizing w with
  | nil =>
    rw [show w' = w from ran]
    exact reached
  | cons p ps ih =>
    obtain ⟨v, works, rest⟩ := ran
    exact ih rest (works.reached reached)

/-- Every world of a reached engine is reached. -/
theorem Reached.worlds {e : Engine σ N L} (reached : e.Reached may) :
    ∀ w ∈ e.worlds, w.Reached may := by
  induction reached with
  | start config threads =>
    intro w listed
    cases listed
  | insertWorld _ world ih =>
    intro w listed
    rcases List.mem_append.mp listed with before | new
    · exact ih w before
    · rw [List.mem_singleton.mp new]
      exact world.setTime _ _
  | addWorld _ id factory ih =>
    intro w listed
    rcases List.mem_append.mp listed with before | new
    · exact ih w before
    · rw [List.mem_singleton.mp new]
      exact (World.Reached.empty ..).setTime _ _
  | modifyWorld _ id operates ih =>
    intro w listed
    obtain ⟨v, before, rfl⟩ := List.mem_map.mp listed
    split
    · exact operates v (ih v before)
    · exact ih v before
  | removeWorld _ id ih => exact fun w listed => ih w (List.mem_filter.mp listed).1
  | addLoader _ id l ih => exact ih
  | modifyLoader _ id f ih => exact ih
  | removeLoader _ id ih => exact ih
  | advanceTime _ d ih => exact ih
  | runPhase _ done ih =>
    intro w' listed
    obtain ⟨w, before, works⟩ := exists_of_forall₂ (runPhase_works done) listed
    exact works.reached (ih w before)

end Engine

/-! ### Hierarchies -/

/-- A hierarchy that its own operations lead to, or that a reached region or world has. -/
inductive Hierarchy.Reached (may : NodeEdit N L → Prop) : Hierarchy N L → Prop
  | empty (factory : PayloadFactory N L) (levelCount : UInt8) :
      Reached may (Hierarchy.empty factory levelCount)
  | insert {h g} (reached : Reached may h) {n : Node N} (done : h.insert n = .ok g) : Reached may g
  | remove {h g} (reached : Reached may h) {c : Coord} (done : h.remove c = .ok g) : Reached may g
  | steps {h g} (reached : Reached may h)
      (stepped : Hierarchy.Levelwise (Level.Stepped may) h g) : Reached may g
  | ensure {h} (reached : Reached may h) (factory : PayloadFactory N L) (now : SimTime)
      (c : Coord) : Reached may (h.ensure factory now c).2.2
  | createPending {h} (reached : Reached may h) (factory : PayloadFactory N L) (now : SimTime) :
      Reached may (h.createPending factory now).2
  | unloadSubtree {σ : Type} {h} (reached : Reached may h) (ps : List (NodeProcessor σ N L))
      (ctx : BatchContext) (root : Coord) (s : σ) :
      Reached may (h.unloadSubtree ps ctx root s).2.1
  | destroyPending {σ : Type} {h} (reached : Reached may h) (ps : List (NodeProcessor σ N L))
      (ctx : BatchContext) (s : σ) : Reached may (h.destroyPending ps ctx s).2.1
  | region {r : Region N L} (reached : r.Reached may) : Reached may r.hierarchy
  | world {σ : Type} {w : World σ N L} (reached : w.Reached may) : Reached may w.hierarchy

theorem Hierarchy.Reached.linked {h : Hierarchy N L} (reached : h.Reached may) : h.Linked := by
  have evolve : ∀ {h g : Hierarchy N L}, h.Linked → h.Evolved may g → g.Linked :=
    fun linked evolved => evolved.linked linked
  induction reached with
  | empty factory levelCount => exact Hierarchy.empty_linked factory levelCount
  | insert _ done ih => exact ih.of_insert done
  | remove _ done ih => exact ih.of_remove done
  | steps _ stepped ih => exact evolve ih (.steps stepped)
  | ensure _ factory now c ih => exact evolve ih (ih.ensure_evolved factory now c)
  | createPending _ factory now ih => exact evolve ih (ih.createPending_evolved factory now)
  | unloadSubtree _ ps ctx root s ih => exact evolve ih (ih.unloadSubtree_evolved ps ctx root s)
  | destroyPending _ ps ctx s ih => exact evolve ih (ih.destroyPending_evolved ps ctx s)
  | region reached => exact (reached.kept (.trivial may)).1
  | world reached => exact (reached.sound (.trivial may)).linked

/-! ### Links -/

/-- Whatever was done, and in whatever order, the links of every region, of every world and of the
regions of every world tell exactly which nodes are resident. -/
theorem links_of_reached (may : NodeEdit N L → Prop) :
    (∀ r : Region N L, r.Reached may → r.hierarchy.Linked) ∧
      ∀ w : World σ N L, w.Reached may →
        w.hierarchy.Linked ∧ ∀ r ∈ w.regions, r.hierarchy.Linked := by
  have kept := Hierarchy.Kept.trivial may
  refine ⟨fun r reached => (reached.kept kept).1, fun w reached => ?_⟩
  have sound := reached.sound kept
  exact ⟨sound.linked, fun r listed => ((sound.regions r listed).kept kept).1⟩

/-- A cell at the end of two axes, created with its ancestors. -/
theorem links_of_created :
    let w := (((World.empty default { levelCount := 3 } PayloadFactory.plain).queueCreate
      ⟨⟨2147483647, -2147483648, 0⟩, 0⟩).createPhase).2
    w.hierarchy.contains ⟨⟨2147483647, -2147483648, 0⟩, 0⟩ = true ∧
      (w : World Unit Unit Unit).hierarchy.Linked ∧ ∀ r ∈ w.regions, r.hierarchy.Linked := by
  refine ⟨by decide, (links_of_reached fun _ => True).2 _ ?_⟩
  exact ((World.Reached.empty _ _ _).queueCreate _).createPhase

end OctreeWorld
