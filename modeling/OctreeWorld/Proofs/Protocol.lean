import OctreeWorld.Proofs.Bookkeeping
import OctreeWorld.Proofs.Handing

/-!
# The protocol of batches

Whatever a run of operations has made of a world or a region, the next operation hands only orderly
batches to the processors of nodes. With the processors logged, the run does the same and its log is
made up of the calls of these batches: so a processor that is started is shown a node, no command is
passed over, what a drain or a flush reports is the number of nodes shown, and every start has its
finish.
-/

namespace OctreeWorld

variable {N L σ : Type} {may : NodeEdit N L → Prop}

open NodeBatch

/-! ### Regions -/

namespace Region

variable (ps : NodeProcessors σ N L)

/-- The batch of one level's part of a flush. -/
def flushBatch (ps : NodeProcessors σ N L) (ctx : BatchContext) (changed : List Coord)
    (l : Level N L) (s : σ) : NodeBatch σ N L :=
  let cs := changed.filter fun c => c.level == l.index
  let raised := l.modifyAll cs fun n => n.bumpVersion.touch ctx.now
  ⟨ps.tick, ctx.atLevel raised.index, raised, cs, s⟩

/-- The batches of one level's part of a tick. -/
def tickLevelBatches (ps : NodeProcessors σ N L) (ctx : BatchContext) (l : Level N L) (s : σ) :
    List (NodeBatch σ N L) :=
  let ctx := ctx.atLevel l.index
  let loaded := l.load ps.load (ctx.withKind .load) s
  let ticked := loaded.2.1.tick ps.tick (ctx.withKind .tick) loaded.2.2
  (Level.loadBatch ps (ctx.withKind .load) l s).handed ++
    (Level.tickBatch ps (ctx.withKind .tick) loaded.2.1 loaded.2.2).handed ++
      (Level.unloadBatch ps (ctx.withKind .unload) ticked.2.1 ticked.2.2).handed

theorem tickLevel_logged {l : Level N L} (placed : ∀ c n, l.get? c = some n → n.coord = c)
    (ctx : BatchContext) (s : σ) (log : CallLog) :
    tickLevel ps.logged ctx l (s, log) = ((tickLevel ps ctx l s).1, (tickLevel ps ctx l s).2.1,
        written (tickLevelBatches ps ctx l s) log (tickLevel ps ctx l s).2.2) ∧
      ∀ b ∈ tickLevelBatches ps ctx l s, b.Orderly ps := by
  obtain ⟨loaded, ticked, unloaded, load, tick, unload, result⟩ := Level.tickLevel_eq ps ctx l s
  obtain ⟨loaded', ticked', unloaded', load', tick', unload', result'⟩ :=
    Level.tickLevel_eq ps.logged ctx l (s, log)
  have step : Level.Step (fun _ => True) l loaded.2.1 := by
    rw [load]
    exact .load Processor.obeys_any _ s
  have step' : Level.Step (fun _ => True) loaded.2.1 ticked.2.1 := by
    rw [tick]
    exact .tick Processor.obeys_any _ loaded.2.2
  have first := step.sameLinks
  have second := first.trans step'.sameLinks
  have aim : ∀ {m : Level N L} kind, l.SameLinks m →
      ((ctx.atLevel l.index).withKind kind).level = some m.index :=
    fun kind same => congrArg some same.1.symm
  rw [Level.load_logged ps placed rfl rfl, ← load, written] at load'
  subst load'
  rw [Level.tick_logged ps (first.placed placed) (aim .tick first) rfl, ← tick,
    written_append] at tick'
  subst tick'
  rw [written, Level.unload_logged ps (second.placed placed) (aim .unload second) rfl, ← unload,
    written_append] at unload'
  subst unload'
  have batches : tickLevelBatches ps ctx l s =
      (Level.loadBatch ps ((ctx.atLevel l.index).withKind .load) l s).handed ++
        (Level.tickBatch ps ((ctx.atLevel l.index).withKind .tick) loaded.2.1 loaded.2.2).handed ++
        (Level.unloadBatch ps ((ctx.atLevel l.index).withKind .unload) ticked.2.1
          ticked.2.2).handed := by
    rw [tick, load]
    rfl
  rw [result, result', batches]
  refine ⟨rfl, List.forall_mem_append.mpr ⟨List.forall_mem_append.mpr ⟨?_, ?_⟩, ?_⟩⟩
  · exact (Level.loadBatch_ready ps placed rfl rfl s).orderly
  · exact (Level.tickBatch_ready ps (first.placed placed) (aim .tick first) rfl loaded.2.2).orderly
  · exact (Level.unloadBatch_ready ps (second.placed placed) (aim .unload second) rfl
      ticked.2.2).orderly

theorem shown_tickLevelBatches (ps : NodeProcessors σ N L) (ctx : BatchContext) (l : Level N L)
    (s : σ) : shown .load (tickLevelBatches ps ctx l s) = (tickLevel ps ctx l s).1.1 ∧
      shown .tick (tickLevelBatches ps ctx l s) = (tickLevel ps ctx l s).1.2.1 ∧
      shown .unload (tickLevelBatches ps ctx l s) = (tickLevel ps ctx l s).1.2.2 := by
  have load := Level.shown_loadBatch ps (l := l) (s := s)
    (show ((ctx.atLevel l.index).withKind .load).kind = .load from rfl)
  have tick := fun m (t : σ) => Level.shown_tickBatch ps (l := m) (s := t)
    (show ((ctx.atLevel l.index).withKind .tick).kind = .tick from rfl)
  have unload := fun m (t : σ) => Level.shown_unloadBatch ps (l := m) (s := t)
    (show ((ctx.atLevel l.index).withKind .unload).kind = .unload from rfl)
  simp only [tickLevelBatches, tickLevel, shown_append, load, tick, unload]
  simp

/-! #### Flushes -/

theorem flushLevel_logged {ctx : BatchContext} (kind : ctx.kind = .tick) {changed : List Coord}
    (nodup : changed.Nodup) {l : Level N L}
    (resident : ∀ c ∈ changed, c.level = l.index → l.Holds c) (s : σ) (log : CallLog) :
    flushLevel ps.logged.tick ctx changed l (s, log) = ((flushLevel ps.tick ctx changed l s).1,
        (flushLevel ps.tick ctx changed l s).2.1, written (flushBatch ps ctx changed l s).handed log
          (flushLevel ps.tick ctx changed l s).2.2) ∧
      ∀ b ∈ (flushBatch ps ctx changed l s).handed, b.Orderly ps := by
  have raised : l.SameLinks (flushBatch ps ctx changed l s).level := .modifyAll _ _ fun _ => rfl
  have ready : (flushBatch ps ctx changed l s).Ready ps := by
    refine ⟨(congrArg ps.ofKind kind).symm, rfl, nodup.filter _, ?_⟩
    intro c named
    obtain ⟨listed, here⟩ := List.mem_filter.mp named
    obtain ⟨n, found, place⟩ := resident c listed (beq_iff_eq.mp here)
    have stays := raised.2 c
    rw [found] at stays
    obtain ⟨n', found', links⟩ := Option.map_eq_some_iff.mp stays
    exact ⟨n', found', (Node.links_eq_iff.mp links).1.trans place⟩
  have run := ready.run_logged kind log
  exact ⟨congrArg (fun r => ((flushBatch ps ctx changed l s).commands.length, r)) run,
    ready.orderly⟩

/-- The batches of a flush. -/
def flushBatches (r : Region N L) (ps : NodeProcessors σ N L) (tick : UInt64) (now : SimTime)
    (s : σ) : List (NodeBatch σ N L) :=
  let ctx : BatchContext := { world := r.world, kind := .tick, now, tick }
  sweepBatches (flushLevel ps.tick ctx r.changed.toList)
    (fun l s => (flushBatch ps ctx r.changed.toList l s).handed) r.hierarchy.levels s

theorem flushChanged_logged {r : Region N L} (linked : r.hierarchy.Linked)
    (flushable : r.Flushable) (tick : UInt64) (now : SimTime) (s : σ) (log : CallLog) :
    r.flushChanged ps.logged tick now (s, log) = ((r.flushChanged ps tick now s).1,
        (r.flushChanged ps tick now s).2.1, written (r.flushBatches ps tick now s) log
          (r.flushChanged ps tick now s).2.2) ∧
      ∀ b ∈ r.flushBatches ps tick now s, b.Orderly ps := by
  let ctx : BatchContext := { world := r.world, kind := .tick, now, tick }
  have each : ∀ l ∈ r.hierarchy.levels, ∀ s log, _ := fun l mem =>
    flushLevel_logged ps (show ctx.kind = .tick from rfl) (Level.nodup_toList r.changed)
      (l := l) <| by
      intro c listed here
      obtain ⟨n, found⟩ := Hierarchy.contains_iff.mp
        (flushable c (Std.ExtTreeSet.mem_toList.mp listed))
      have stored := linked.numbered.level?_index mem
      rw [← here] at stored
      rw [Hierarchy.get?_of_level? stored] at found
      exact ⟨n, found, linked.placed_level mem c n found⟩
  have swept := sweep_logged (fun l mem s log => (each l mem s log).1) s log
  refine ⟨?_, forall_sweepBatches (fun l mem s => (each l mem s []).2) s⟩
  simp only [ctx] at swept
  simp only [flushChanged, Hierarchy.sweepLevels, swept]
  rfl

theorem shown_flushBatches (r : Region N L) (ps : NodeProcessors σ N L) (tick : UInt64)
    (now : SimTime) (s : σ) :
    shown .tick (r.flushBatches ps tick now s) = (r.flushChanged ps tick now s).1 := by
  refine (shown_sweepBatches _ _ (fun n => n) (fun l s => ?_) r.hierarchy.levels s).trans ?_
  · exact (shown_handed .tick _).trans (if_pos rfl)
  · rw [List.map_id']
    rfl

/-! #### Ticks -/

theorem evictExpired_world (r : Region N L) (now : SimTime) (timeout : Duration) :
    (r.evictExpired now timeout).2.world = r.world := by
  have each : ∀ (acc : Nat × Region N L) c,
      (evictOne now timeout acc c).2.world = acc.2.world := by
    intro acc c
    simp only [evictOne]
    repeat' split
    all_goals rfl
  have walk : ∀ (cs : List Coord) (acc : Nat × Region N L),
      (cs.foldl (evictOne now timeout) acc).2.world = acc.2.world := by
    intro cs
    induction cs with
    | nil => exact fun acc => rfl
    | cons c cs ih => exact fun acc => (ih _).trans (each acc c)
  exact walk r.unobserved.toList (0, r)

/-- A region within a tick, when nodes have been flushed, evicted and created, with the outer
state. -/
def stocked (r : Region N L) (ps : NodeProcessors σ N L) (tick : UInt64) (now : SimTime)
    (timeout : Duration) (s : σ) : Hierarchy N L × σ :=
  let flushed := r.flushChanged ps tick now s
  let evicted := (flushed.2.1.evictExpired now timeout).2
  ((evicted.hierarchy.createPending evicted.factory now).2, flushed.2.2)

/-- What the levels of a region answer within a tick, and what they leave. -/
def drained (r : Region N L) (ps : NodeProcessors σ N L) (tick : UInt64) (now : SimTime)
    (timeout : Duration) (s : σ) : List (Nat × Nat × Nat) × List (Level N L) × σ :=
  let stocked := r.stocked ps tick now timeout s
  sweep (tickLevel ps { world := r.world, kind := .load, now, tick }) stocked.1.levels stocked.2

/-- The batches of a region's levels within a tick. -/
def drainBatches (r : Region N L) (ps : NodeProcessors σ N L) (tick : UInt64) (now : SimTime)
    (timeout : Duration) (s : σ) : List (NodeBatch σ N L) :=
  let ctx : BatchContext := { world := r.world, kind := .load, now, tick }
  let stocked := r.stocked ps tick now timeout s
  sweepBatches (tickLevel ps ctx) (tickLevelBatches ps ctx) stocked.1.levels stocked.2

/-- The batches of a region's tick. -/
def tickBatches (r : Region N L) (ps : NodeProcessors σ N L) (tick : UInt64) (now : SimTime)
    (timeout : Duration) (s : σ) : List (NodeBatch σ N L) :=
  let drained := r.drained ps tick now timeout s
  r.flushBatches ps tick now s ++ r.drainBatches ps tick now timeout s ++
    Hierarchy.destroyBatches ps { world := r.world, kind := .unload, now, tick } ⟨drained.2.1⟩
      drained.2.2

/-- The batches of unloading the subtree of a cell of a region. -/
def unloadBatches (r : Region N L) (ps : NodeProcessors σ N L) (c : Coord) (tick : UInt64)
    (now : SimTime) (s : σ) : List (NodeBatch σ N L) :=
  Hierarchy.subtreeBatches ps
    { world := r.world, kind := .unload, level := some c.level, now, tick } r.hierarchy c s

theorem unloadNode_logged {r : Region N L} (linked : r.hierarchy.Linked) (c : Coord)
    (tick : UInt64) (now : SimTime) (s : σ) (log : CallLog) :
    r.unloadNode ps.logged c tick now (s, log) = ((r.unloadNode ps c tick now s).1,
        (r.unloadNode ps c tick now s).2.1, written (r.unloadBatches ps c tick now s) log
          (r.unloadNode ps c tick now s).2.2) ∧
      ∀ b ∈ r.unloadBatches ps c tick now s, b.Orderly ps := by
  let ctx : BatchContext := { world := r.world, kind := .unload, level := some c.level, now, tick }
  obtain ⟨same, orderly⟩ :=
    Hierarchy.unloadSubtree_logged ps linked (show ctx.kind = .unload from rfl) c s log
  refine ⟨?_, orderly⟩
  simp only [ctx] at same
  simp only [unloadNode, same]
  split <;> rfl

/-- With the parts of a tick spelled out, the tick answers from them and leaves what the drain of
the destroy queues leaves. -/
theorem tick_parts (r : Region N L) (ps : NodeProcessors σ N L) (tick : UInt64) (now : SimTime)
    (timeout : Duration) (s : σ) :
    r.tick ps tick now timeout s =
      let flushed := r.flushChanged ps tick now s
      let evicted := flushed.2.1.evictExpired now timeout
      let created := evicted.2.hierarchy.createPending evicted.2.factory now
      let drained := r.drained ps tick now timeout s
      let destroyed := Hierarchy.destroyPending ⟨drained.2.1⟩ ps.unload
        { world := r.world, kind := .unload, now, tick } drained.2.2
      ({ flushed := flushed.1, evicted := evicted.1, created := created.1.length
         loaded := tally (drained.1.map fun n => n.1)
         unloaded := tally (drained.1.map fun n => n.2.2)
         destroyed := destroyed.1.length
         ticked := tally (drained.1.map fun n => n.2.1) },
        (evicted.2.track created.1 created.2).forget destroyed.1 destroyed.2.1,
        destroyed.2.2) := by
  have world : (((r.flushChanged ps tick now s).2.1.evictExpired now timeout).2).world = r.world :=
    evictExpired_world _ now timeout
  simp only [Region.tick, drained, stocked, track, world, BatchContext.withKind]

theorem stocked_linked {r : Region N L} (linked : r.hierarchy.Linked) (tick : UInt64)
    (now : SimTime) (timeout : Duration) (s : σ) :
    (r.stocked ps tick now timeout s).1.Linked ∧
      Hierarchy.Linked ⟨(r.drained ps tick now timeout s).2.1⟩ := by
  have obey := ps.obey_any
  have flushed := (flushChanged_evolved obey r tick now s).linked linked
  have evict : Hierarchy.Evolved (fun _ => True) _ _ :=
    evictExpired_evolved (r.flushChanged ps tick now s).2.1 now timeout
  have create : Hierarchy.Evolved (fun _ => True) _ (r.stocked ps tick now timeout s).1 :=
    (evict.linked flushed).createPending_evolved _ now
  have drain : Hierarchy.Evolved (fun _ => True) (r.stocked ps tick now timeout s).1
      ⟨(r.drained ps tick now timeout s).2.1⟩ :=
    .steps (forall₂_sweep (fun l _ s => Level.tickLevel_stepped obey _ l s) _)
  have created := create.linked (evict.linked flushed)
  exact ⟨created, drain.linked created⟩

theorem stocked_logged {r : Region N L} (linked : r.hierarchy.Linked) (flushable : r.Flushable)
    (tick : UInt64) (now : SimTime) (timeout : Duration) (s : σ) (log : CallLog) :
    r.stocked ps.logged tick now timeout (s, log) = ((r.stocked ps tick now timeout s).1,
      written (r.flushBatches ps tick now s) log (r.stocked ps tick now timeout s).2) := by
  simp only [stocked, (flushChanged_logged ps linked flushable tick now s log).1]

theorem drained_logged {r : Region N L} (linked : r.hierarchy.Linked) (flushable : r.Flushable)
    (tick : UInt64) (now : SimTime) (timeout : Duration) (s : σ) (log : CallLog) :
    r.drained ps.logged tick now timeout (s, log) = ((r.drained ps tick now timeout s).1,
        (r.drained ps tick now timeout s).2.1,
        written (r.flushBatches ps tick now s ++ r.drainBatches ps tick now timeout s) log
          (r.drained ps tick now timeout s).2.2) ∧
      ∀ b ∈ r.drainBatches ps tick now timeout s, b.Orderly ps := by
  have placed := fun l mem =>
    (stocked_linked ps linked tick now timeout s).1.placed_level (l := l) mem
  let ctx : BatchContext := { world := r.world, kind := .load, now, tick }
  have each := fun l mem s log => tickLevel_logged ps (placed l mem) ctx s log
  have swept := sweep_logged (fun l mem s log => (each l mem s log).1)
    (r.stocked ps tick now timeout s).2 (log ++ (r.flushBatches ps tick now s).flatMap calls)
  refine ⟨?_, forall_sweepBatches (fun l mem s => (each l mem s []).2) _⟩
  rw [drained, stocked_logged ps linked flushable]
  rw [written_append] at swept
  exact swept

/-- A tick hands out orderly batches and logs their calls. -/
theorem tick_logged {r : Region N L} (linked : r.hierarchy.Linked) (flushable : r.Flushable)
    (tick : UInt64) (now : SimTime) (timeout : Duration) (s : σ) (log : CallLog) :
    r.tick ps.logged tick now timeout (s, log) = ((r.tick ps tick now timeout s).1,
        (r.tick ps tick now timeout s).2.1, written (r.tickBatches ps tick now timeout s) log
          (r.tick ps tick now timeout s).2.2) ∧
      ∀ b ∈ r.tickBatches ps tick now timeout s, b.Orderly ps := by
  obtain ⟨flush, orderly⟩ := flushChanged_logged ps linked flushable tick now s log
  obtain ⟨drain, orderly'⟩ := drained_logged ps linked flushable tick now timeout s log
  have swept := (stocked_linked ps linked tick now timeout s).2
  let ctx : BatchContext := { world := r.world, kind := .unload, now, tick }
  obtain ⟨destroy, orderly''⟩ := Hierarchy.destroyPending_logged ps swept
    (show ctx.kind = .unload from rfl) (r.drained ps tick now timeout s).2.2
    (log ++ (r.flushBatches ps tick now s ++ r.drainBatches ps tick now timeout s).flatMap calls)
  rw [written_append] at destroy
  refine ⟨?_, List.forall_mem_append.mpr
    ⟨List.forall_mem_append.mpr ⟨orderly, orderly'⟩, orderly''⟩⟩
  simp only [written, ctx] at flush drain destroy
  simp only [tick_parts, flush, drain, destroy]
  rfl

theorem shown_drainBatches (r : Region N L) (ps : NodeProcessors σ N L) (tick : UInt64)
    (now : SimTime) (timeout : Duration) (s : σ) :
    shown .load (r.drainBatches ps tick now timeout s) =
        (r.tick ps tick now timeout s).1.loaded ∧
      shown .tick (r.drainBatches ps tick now timeout s) =
        (r.tick ps tick now timeout s).1.ticked ∧
      shown .unload (r.drainBatches ps tick now timeout s) =
        (r.tick ps tick now timeout s).1.unloaded := by
  let ctx : BatchContext := { world := r.world, kind := .load, now, tick }
  have each : ∀ l s, _ := shown_tickLevelBatches ps ctx
  have swept : ∀ {k : CommandKind} (count : Nat × Nat × Nat → Nat),
      (∀ l s, shown k (tickLevelBatches ps ctx l s) = count (tickLevel ps ctx l s).1) →
      shown k (r.drainBatches ps tick now timeout s) =
        tally ((r.drained ps tick now timeout s).1.map count) :=
    fun count same => shown_sweepBatches (tickLevel ps ctx) (tickLevelBatches ps ctx) count same _ _
  rw [swept (fun n => n.1) fun l s => (each l s).1,
    swept (fun n => n.2.1) fun l s => (each l s).2.1,
    swept (fun n => n.2.2) fun l s => (each l s).2.2]
  simp only [tick_parts, and_self]

theorem flushed_tick (r : Region N L) (ps : NodeProcessors σ N L) (tick : UInt64)
    (now : SimTime) (timeout : Duration) (s : σ) :
    shown .tick (r.flushBatches ps tick now s) = (r.tick ps tick now timeout s).1.flushed := by
  rw [shown_flushBatches, tick_parts]

end Region

/-! ### Worlds -/

/-- The registry with a log of the calls to processors of nodes. -/
def ProcessorRegistry.logged (ps : ProcessorRegistry σ N L) :
    ProcessorRegistry (σ × CallLog) N L where
  toNodeProcessors := ps.toNodeProcessors.logged
  level := ps.level.map Processor.unlogged
  region := ps.region.map Processor.unlogged

namespace World

/-- The world with its processors of nodes logged. -/
def logged (w : World σ N L) : World (σ × CallLog) N L := w.withProcessors w.processors.logged

/-- The batches of draining a queue of every level. -/
def drainBatches (w : World σ N L) (kind : CommandKind)
    (step : BatchContext → Level N L → σ → Nat × Level N L × σ)
    (batch : BatchContext → Level N L → σ → NodeBatch σ N L) (s : σ) : List (NodeBatch σ N L) :=
  sweepBatches (fun l => step ((w.batchContext kind).atLevel l.index) l)
    (fun l s => (batch ((w.batchContext kind).atLevel l.index) l s).handed) w.hierarchy.levels s

/-- The batches of an operation. -/
def batches (w : World σ N L) (s : σ) : Operation N L → List (NodeBatch σ N L)
  | .unloadNode c => Hierarchy.subtreeBatches w.processors.toNodeProcessors
      (w.batchContext .unload) w.hierarchy c s
  | .worldWorkerPhase => w.drainBatches .tick (Level.tick w.processors.tick)
      (Level.tickBatch w.processors.toNodeProcessors) s
  | .loadPhase => w.drainBatches .load (Level.load w.processors.load)
      (Level.loadBatch w.processors.toNodeProcessors) s
  | .unloadPhase => w.drainBatches .unload (Level.unload w.processors.unload)
      (Level.unloadBatch w.processors.toNodeProcessors) s
  | .destroyPhase => Hierarchy.destroyBatches w.processors.toNodeProcessors
      (w.batchContext .unload) w.hierarchy s
  | _ => []

variable {w : World σ N L}

theorem drainLevels_logged {kind : CommandKind}
    {step : BatchContext → Level N L → σ → Nat × Level N L × σ}
    {step' : BatchContext → Level N L → σ × CallLog → Nat × Level N L × σ × CallLog}
    {batch : BatchContext → Level N L → σ → NodeBatch σ N L}
    (each : ∀ ctx, ctx.kind = kind → ∀ l ∈ w.hierarchy.levels, ctx.level = some l.index → ∀ s,
      (batch ctx l s).Ready w.processors.toNodeProcessors ∧ ∀ log, step' ctx l (s, log) =
        ((step ctx l s).1, (step ctx l s).2.1,
          written (batch ctx l s).handed log (step ctx l s).2.2)) (s : σ) (log : CallLog) :
    w.logged.drainLevels kind step' (s, log) = ((w.drainLevels kind step s).1,
        (w.drainLevels kind step s).2.1.withProcessors w.processors.logged,
        written (w.drainBatches kind step batch s) log (w.drainLevels kind step s).2.2) ∧
      ∀ b ∈ w.drainBatches kind step batch s, b.Orderly w.processors.toNodeProcessors := by
  have here := fun l mem => each ((w.batchContext kind).atLevel l.index) rfl l mem rfl
  have swept := sweep_logged (fun l mem s => (here l mem s).2) s log
  have same : w.logged.drainLevels kind step' (s, log) = _ := congrArg (fun swept =>
    (tally swept.1, { w.logged with hierarchy := ⟨swept.2.1⟩ }, swept.2.2)) swept
  exact ⟨same, forall_sweepBatches (fun l mem s => (here l mem s).1.orderly) s⟩

theorem shown_drainBatches {kind : CommandKind}
    {step : BatchContext → Level N L → σ → Nat × Level N L × σ}
    {batch : BatchContext → Level N L → σ → NodeBatch σ N L}
    (each : ∀ ctx, ctx.kind = kind → ∀ l s, shown kind (batch ctx l s).handed = (step ctx l s).1)
    (s : σ) :
    shown kind (w.drainBatches kind step batch s) = (w.drainLevels kind step s).1 := by
  refine (shown_sweepBatches _ _ (fun n => n) (fun l s => each _ rfl l s) _ s).trans ?_
  rw [List.map_id']
  rfl

/-- Level processors are not logged. -/
theorem levelWorkerPhase_logged (w : World σ N L) (f : Level N L → Level N L) (s : σ)
    (log : CallLog) :
    w.logged.levelWorkerPhase (fun l => ((), f l)) (s, log) =
      ((w.levelWorkerPhase (fun l => ((), f l)) s).1,
        (w.levelWorkerPhase (fun l => ((), f l)) s).2.1.withProcessors w.processors.logged,
        (w.levelWorkerPhase (fun l => ((), f l)) s).2.2, log) := by
  have each : ∀ l s, w.logged.workLevel (fun l => ((), f l)) l (s, log) =
      ((w.workLevel (fun l => ((), f l)) l s).1, (w.workLevel (fun l => ((), f l)) l s).2.1,
        (w.workLevel (fun l => ((), f l)) l s).2.2, log) := by
    intro l s
    have batch := Level.runLevelBatch_over
      (Processor.forall₂_over_unlogged log w.processors.level)
      ((w.batchContext .level).atLevel l.index) l s
    exact congrArg (fun worked => ((), f worked.1, worked.2)) batch
  simp only [levelWorkerPhase_eq]
  rw [show w.logged.hierarchy = w.hierarchy from rfl, sweep_over each]
  rfl

/-- An operation hands out orderly batches and logs their calls. -/
theorem perform_logged (linked : w.hierarchy.Linked) (op : Operation N L) (s : σ) (log : CallLog) :
    op.perform w.logged (s, log) = ((op.perform w s).1.withProcessors w.processors.logged,
        written (w.batches s op) log (op.perform w s).2) ∧
      ∀ b ∈ w.batches s op, b.Orderly w.processors.toNodeProcessors := by
  have quiet : op.perform w.logged (s, log) =
      ((op.perform w s).1.withProcessors w.processors.logged, (op.perform w s).2, log) →
      w.batches s op = [] →
      op.perform w.logged (s, log) = ((op.perform w s).1.withProcessors w.processors.logged,
          written (w.batches s op) log (op.perform w s).2) ∧
        ∀ b ∈ w.batches s op, b.Orderly w.processors.toNodeProcessors := by
    intro same none_
    rw [same, none_, written_nil]
    exact ⟨rfl, List.forall_mem_nil _⟩
  have placed := fun l mem => linked.placed_level (l := l) mem
  cases op with
  | setTime tick now => exact quiet rfl rfl
  | createNode c =>
    refine quiet ?_ rfl
    simp only [Operation.perform, World.createNode, logged, withProcessors]
    cases w.hierarchy.insert (Node.fresh c (w.factory.node c)) <;> rfl
  | unloadNode c =>
    obtain ⟨same, orderly⟩ := Hierarchy.unloadSubtree_logged w.processors.toNodeProcessors linked
      (show (w.batchContext .unload).kind = .unload from rfl) c s log
    exact ⟨congrArg (fun r => ({ w.logged with hierarchy := r.2.1 }, r.2.2)) same, orderly⟩
  | observe c =>
    refine quiet ?_ rfl
    simp only [Operation.perform, World.observe, logged, withProcessors]
    cases w.hierarchy.get? c <;> rfl
  | release c =>
    refine quiet ?_ rfl
    simp only [Operation.perform, World.release, logged, withProcessors]
    cases w.hierarchy.get? c with
    | none => rfl
    | some n =>
      simp only
      cases n.removeObserver? <;> rfl
  | queueCreate c => exact quiet rfl rfl
  | queueUnload c => exact quiet rfl rfl
  | queueTick c => exact quiet rfl rfl
  | levelWorkerPhase f =>
    refine quiet ?_ rfl
    simp only [Operation.perform, levelWorkerPhase_logged]
  | worldWorkerPhase =>
    obtain ⟨same, orderly⟩ := w.drainLevels_logged (fun ctx kind l mem aimed s =>
      ⟨Level.tickBatch_ready w.processors.toNodeProcessors (placed l mem) aimed kind s,
        Level.tick_logged _ (placed l mem) aimed kind s⟩) s log
    exact ⟨congrArg (·.2) same, orderly⟩
  | createPhase => exact quiet rfl rfl
  | loadPhase =>
    obtain ⟨same, orderly⟩ := w.drainLevels_logged (fun ctx kind l mem aimed s =>
      ⟨Level.loadBatch_ready w.processors.toNodeProcessors (placed l mem) aimed kind s,
        Level.load_logged _ (placed l mem) aimed kind s⟩) s log
    exact ⟨congrArg (·.2) same, orderly⟩
  | unloadPhase =>
    obtain ⟨same, orderly⟩ := w.drainLevels_logged (fun ctx kind l mem aimed s =>
      ⟨Level.unloadBatch_ready w.processors.toNodeProcessors (placed l mem) aimed kind s,
        Level.unload_logged _ (placed l mem) aimed kind s⟩) s log
    exact ⟨congrArg (·.2) same, orderly⟩
  | destroyPhase =>
    obtain ⟨same, orderly⟩ := Hierarchy.destroyPending_logged w.processors.toNodeProcessors linked
      (show (w.batchContext .unload).kind = .unload from rfl) s log
    exact ⟨congrArg (fun r => ({ w.logged with hierarchy := r.2.1 }, r.2.2)) same, orderly⟩

/-! ### Work on regions -/

/-- The batches that one region's worker hands out. -/
def workRegionBatches {α : Type} (w : World σ N L) (f : Region N L → α × Region N L)
    (r : Region N L) (s : σ) : List (NodeBatch σ N L) :=
  let worked := runRegionBatch w.processors.region (w.batchContext .region) r s
  (f worked.1).2.tickBatches w.processors.toNodeProcessors w.tick w.now w.config.evictionTimeout
    worked.2

/-- The batches that the region workers hand out. -/
def regionBatches {α : Type} (w : World σ N L) (f : Region N L → α × Region N L) (s : σ) :
    List (NodeBatch σ N L) :=
  sweepBatches (w.workRegion f) (w.workRegionBatches f) w.regions s

theorem workRegion_logged {α : Type} (obey : w.processors.Obey may)
    {f : Region N L → α × Region N L} (operates : ∀ r, r.Reached may → (f r).2.Reached may)
    {r : Region N L} (reached : r.Reached may) (s : σ) (log : CallLog) :
    w.logged.workRegion f r (s, log) = ((w.workRegion f r s).1, (w.workRegion f r s).2.1,
        written (w.workRegionBatches f r s) log (w.workRegion f r s).2.2) ∧
      ∀ b ∈ w.workRegionBatches f r s, b.Orderly w.processors.toNodeProcessors := by
  have batch : runRegionBatch w.logged.processors.region (w.logged.batchContext .region) r
      (s, log) =
      ((runRegionBatch w.processors.region (w.batchContext .region) r s).1,
        (runRegionBatch w.processors.region (w.batchContext .region) r s).2, log) :=
    runBatch_over (Processor.forall₂_over_unlogged log w.processors.region) _ [()] r s
  have after := operates _ (runRegionBatch_reached obey.region (w.batchContext .region) reached s)
  simp only [workRegion, workRegionBatches, batch]
  generalize runRegionBatch w.processors.region (w.batchContext .region) r s = worked at after ⊢
  obtain ⟨ticked, orderly⟩ := Region.tick_logged w.processors.toNodeProcessors after.linked
    after.flushable w.tick w.now w.config.evictionTimeout worked.2 log
  have same : (f worked.1).2.tick w.logged.processors.toNodeProcessors w.logged.tick w.logged.now
    w.logged.config.evictionTimeout (worked.2, log) = _ := ticked
  simp only [same]
  exact ⟨trivial, orderly⟩

/-- The region workers hand out orderly batches and log their calls. -/
theorem regionWorkerPhase_logged {α : Type} (reached : w.Reached may)
    {f : Region N L → α × Region N L} (operates : ∀ r, r.Reached may → (f r).2.Reached may)
    (s : σ) (log : CallLog) :
    w.logged.regionWorkerPhase f (s, log) = ((w.regionWorkerPhase f s).1,
        (w.regionWorkerPhase f s).2.1,
        (w.regionWorkerPhase f s).2.2.1.withProcessors w.processors.logged,
        written (w.regionBatches f s) log (w.regionWorkerPhase f s).2.2.2) ∧
      ∀ b ∈ w.regionBatches f s, b.Orderly w.processors.toNodeProcessors := by
  have sound := reached.sound (Hierarchy.Kept.trivial may)
  have each := fun r mem =>
    workRegion_logged sound.obey operates (sound.regions r mem)
  have swept := sweep_logged (fun r mem s log => (each r mem s log).1) s log
  refine ⟨?_, forall_sweepBatches (fun r mem s => (each r mem s []).2) s⟩
  rw [regionWorkerPhase_eq, regionWorkerPhase_eq]
  rw [show w.logged.regions = w.regions from rfl, swept]
  rfl

/-- What a phase reports is how many nodes its batches show. -/
theorem shown_batches (w : World σ N L) (s : σ) :
    shown .tick (w.batches s .worldWorkerPhase) = (w.worldWorkerPhase s).1 ∧
      shown .load (w.batches s .loadPhase) = (w.loadPhase s).1 ∧
      shown .unload (w.batches s .unloadPhase) = (w.unloadPhase s).1 := by
  refine ⟨shown_drainBatches (fun ctx kind l s => ?_) s,
    shown_drainBatches (fun ctx kind l s => ?_) s,
    shown_drainBatches (fun ctx kind l s => ?_) s⟩
  · exact (Level.shown_tickBatch _ kind s .tick).trans (if_pos rfl)
  · exact (Level.shown_loadBatch _ kind s .load).trans (if_pos rfl)
  · exact (Level.shown_unloadBatch _ kind s .unload).trans (if_pos rfl)

/-! ### Runs -/

/-- A step of a world's run: an operation on its own hierarchy, or the work on its regions. -/
inductive Deed (N L : Type) where
  | own (op : Operation N L)
  | regions (f : Region N L → Region N L)

namespace Deed

def perform (w : World σ N L) (s : σ) : Deed N L → World σ N L × σ
  | own op => op.perform w s
  | regions f => (w.regionWorkerPhase (fun r => ((), f r)) s).2.2

/-- The batches of a step. -/
def batches (w : World σ N L) (s : σ) : Deed N L → List (NodeBatch σ N L)
  | own op => w.batches s op
  | regions f => w.regionBatches (fun r => ((), f r)) s

/-- The functions handed to a step do what a caller can do. -/
def Fair (may : NodeEdit N L → Prop) : Deed N L → Prop
  | own op => op.Fair may
  | regions f => ∀ r, r.Reached may → (f r).Reached may

theorem perform_reached {d : Deed N L} (fair : d.Fair may) (reached : w.Reached may) (s : σ) :
    (d.perform w s).1.Reached may := by
  cases d with
  | own op => exact Operation.perform_reached reached op fair s
  | regions f => exact reached.regionWorkerPhase (f := fun r => ((), f r)) fair s

theorem processors_perform (d : Deed N L) (w : World σ N L) (s : σ) :
    (d.perform w s).1.processors = w.processors := by
  cases d with
  | own op => exact Operation.perform_processors w op s
  | regions f => rfl

theorem perform_logged {d : Deed N L} (fair : d.Fair may) (reached : w.Reached may) (s : σ)
    (log : CallLog) :
    d.perform w.logged (s, log) = ((d.perform w s).1.logged,
        written (d.batches w s) log (d.perform w s).2) ∧
      ∀ b ∈ d.batches w s, b.Orderly w.processors.toNodeProcessors := by
  rw [show (d.perform w s).1.logged = (d.perform w s).1.withProcessors w.processors.logged by
    rw [logged, d.processors_perform]]
  cases d with
  | own op =>
    exact World.perform_logged (reached.sound (Hierarchy.Kept.trivial may)).linked op s log
  | regions f =>
    obtain ⟨same, orderly⟩ :=
      regionWorkerPhase_logged reached (f := fun r => ((), f r)) fair s log
    exact ⟨congrArg (·.2.2) same, orderly⟩

end Deed

/-- Take some steps one after the other. -/
def after (w : World σ N L) (s : σ) : List (Deed N L) → World σ N L × σ
  | [] => (w, s)
  | d :: ds => after (d.perform w s).1 (d.perform w s).2 ds

/-- The batches of some steps. -/
def batchesAlong (w : World σ N L) (s : σ) : List (Deed N L) → List (NodeBatch σ N L)
  | [] => []
  | d :: ds => d.batches w s ++ batchesAlong (d.perform w s).1 (d.perform w s).2 ds

/-- A run hands out orderly batches and logs their calls. -/
theorem after_logged {ds : List (Deed N L)} (fair : ∀ d ∈ ds, d.Fair may) (reached : w.Reached may)
    (s : σ) (log : CallLog) :
    w.logged.after (s, log) ds = ((w.after s ds).1.logged,
        written (w.batchesAlong s ds) log (w.after s ds).2) ∧
      ∀ b ∈ w.batchesAlong s ds, b.Orderly w.processors.toNodeProcessors := by
  induction ds generalizing w s log with
  | nil => exact ⟨Prod.ext rfl (written_nil log s).symm, List.forall_mem_nil _⟩
  | cons d ds ih =>
    have first := fair d List.mem_cons_self
    obtain ⟨step, orderly⟩ := d.perform_logged first reached s log
    obtain ⟨rest, orderly'⟩ := ih (fun e listed => fair e (List.mem_cons_of_mem d listed))
      (d.perform_reached first reached s) (d.perform w s).2
      (log ++ (d.batches w s).flatMap calls)
    rw [d.processors_perform] at orderly'
    rw [written_append] at rest
    refine ⟨?_, List.forall_mem_append.mpr ⟨orderly, orderly'⟩⟩
    rw [after, step, after, batchesAlong, ← rest]
    rfl

end World

/-- Whatever was done before, everything that is done to a region or a world hands only orderly
batches to processors of nodes, and with the processors logged it does the same and writes down the
calls of these batches and no other. What is reported as flushed, loaded, ticked or unloaded is the
number of nodes shown. -/
theorem batch_protocol (may : NodeEdit N L → Prop) :
    (∀ r : Region N L, r.Reached may → ∀ (ps : NodeProcessors σ N L) (tick : UInt64) (now : SimTime)
      (s : σ),
      (∀ c log, r.unloadNode ps.logged c tick now (s, log) = ((r.unloadNode ps c tick now s).1,
          (r.unloadNode ps c tick now s).2.1, written (r.unloadBatches ps c tick now s) log
            (r.unloadNode ps c tick now s).2.2) ∧
        ∀ b ∈ r.unloadBatches ps c tick now s, b.Orderly ps) ∧
      ∀ timeout log, r.tick ps.logged tick now timeout (s, log) =
          ((r.tick ps tick now timeout s).1, (r.tick ps tick now timeout s).2.1,
            written (r.tickBatches ps tick now timeout s) log
              (r.tick ps tick now timeout s).2.2) ∧
        (∀ b ∈ r.tickBatches ps tick now timeout s, b.Orderly ps) ∧
        let stats := (r.tick ps tick now timeout s).1
        let flush := r.flushBatches ps tick now s
        let drains := r.drainBatches ps tick now timeout s
        stats.flushed = shown .tick flush ∧ stats.loaded = shown .load drains ∧
          stats.ticked = shown .tick drains ∧ stats.unloaded = shown .unload drains) ∧
    ∀ w : World σ N L, w.Reached may →
      (∀ ds : List (World.Deed N L), (∀ d ∈ ds, d.Fair may) → ∀ s log,
        w.logged.after (s, log) ds = ((w.after s ds).1.logged,
            written (w.batchesAlong s ds) log (w.after s ds).2) ∧
          ∀ b ∈ w.batchesAlong s ds, b.Orderly w.processors.toNodeProcessors) ∧
      ∀ s, (w.worldWorkerPhase s).1 = shown .tick (w.batches s .worldWorkerPhase) ∧
        (w.loadPhase s).1 = shown .load (w.batches s .loadPhase) ∧
        (w.unloadPhase s).1 = shown .unload (w.batches s .unloadPhase) := by
  refine ⟨fun r reached ps tick now s => ⟨fun c log => ?_, fun timeout log => ?_⟩,
    fun w reached => ⟨fun ds fair s log => World.after_logged fair reached s log, fun s => ?_⟩⟩
  · exact Region.unloadNode_logged ps reached.linked c tick now s log
  · obtain ⟨same, orderly⟩ :=
      Region.tick_logged ps reached.linked reached.flushable tick now timeout s log
    obtain ⟨loaded, ticked, unloaded⟩ := Region.shown_drainBatches r ps tick now timeout s
    exact ⟨same, orderly, (Region.flushed_tick r ps tick now timeout s).symm, loaded.symm,
      ticked.symm, unloaded.symm⟩
  · obtain ⟨ticked, loaded, unloaded⟩ := w.shown_batches s
    exact ⟨ticked.symm, loaded.symm, unloaded.symm⟩

/-- Two leaves and their parent, all loading. Both leaves are to be flushed. -/
def Region.twins : Region Unit Unit :=
  let loading := ((Region.empty default default Box.everything PayloadFactory.plain 2).edit
    (.load ⟨⟨1, 0, 0⟩, 0⟩ SimTime.zero)).edit (.load ⟨⟨2, 0, 0⟩, 0⟩ SimTime.zero)
  (loading.edit (.markChanged ⟨⟨1, 0, 0⟩, 0⟩)).edit (.markChanged ⟨⟨2, 0, 0⟩, 0⟩)

theorem Region.twins_reached : twins.Reached fun _ => True := by
  have empty : (Region.empty default default Box.everything PayloadFactory.plain 2).Reached
      fun _ : NodeEdit Unit Unit => True := .empty _ _ _ _ _
  have loading := (empty.edit (.load ⟨⟨1, 0, 0⟩, 0⟩ SimTime.zero) trivial).edit
    (.load ⟨⟨2, 0, 0⟩, 0⟩ SimTime.zero) trivial
  exact (loading.edit (.markChanged ⟨⟨1, 0, 0⟩, 0⟩) trivial).edit
    (.markChanged ⟨⟨2, 0, 0⟩, 0⟩) trivial

/-- Two cells are created with their parent and all three are loaded, each level in a batch of its
own, and two changed leaves of a region are flushed in one batch. All processors are started before
the first node is shown, each node is shown to both before the next one, and all finish after the
last. -/
theorem batch_protocol_of_twins :
    let c : Coord := ⟨⟨1, 0, 0⟩, 0⟩
    let d : Coord := ⟨⟨2, 0, 0⟩, 0⟩
    let idle : List (NodeProcessor Unit Unit Unit) :=
      [.plain "first" fun _ _ s => ([], s), .plain "second" fun _ _ s => ([], s)]
    let w : World Unit Unit Unit :=
      { id := default, config := { levelCount := 2 }, factory := PayloadFactory.plain
        hierarchy := Hierarchy.empty PayloadFactory.plain 2, processors := { load := idle } }
    let ds : List (World.Deed Unit Unit) :=
      [.own (.queueCreate c), .own (.queueCreate d), .own .createPhase, .own .loadPhase]
    let fine : BatchContext := ⟨default, .load, some 0, SimTime.zero, 0⟩
    let coarse := fine.atLevel 1
    let flush : BatchContext := ⟨default, .tick, some 0, ⟨5⟩, 0⟩
    let ps : NodeProcessors Unit Unit Unit := { tick := idle }
    ((w.logged.after ((), []) ds).2.2 =
        [.start .load 0 fine, .start .load 1 fine,
          .process .load 0 fine c, .process .load 1 fine c,
          .process .load 0 fine d, .process .load 1 fine d,
          .finish .load 0 fine, .finish .load 1 fine,
          .start .load 0 coarse, .start .load 1 coarse,
          .process .load 0 coarse c.parent, .process .load 1 coarse c.parent,
          .finish .load 0 coarse, .finish .load 1 coarse] ∧
      (w.logged.after ((), []) ds).2.2 = (w.batchesAlong () ds).flatMap NodeBatch.calls ∧
      ∀ b ∈ w.batchesAlong () ds, b.Orderly w.processors.toNodeProcessors) ∧
    (Region.twins.tick ps.logged 0 ⟨5⟩ Duration.zero ((), [])).2.2.2 =
        [.start .tick 0 flush, .start .tick 1 flush,
          .process .tick 0 flush c, .process .tick 1 flush c,
          .process .tick 0 flush d, .process .tick 1 flush d,
          .finish .tick 0 flush, .finish .tick 1 flush] ∧
      ∀ b ∈ Region.twins.tickBatches ps 0 ⟨5⟩ Duration.zero (), b.Orderly ps := by
  intro c d idle w ds fine coarse flush ps
  have obey : ProcessorRegistry.Obey (fun _ => True) w.processors :=
    ⟨NodeProcessors.obey_any _, List.forall_mem_nil _, List.forall_mem_nil _⟩
  have reached : w.Reached fun _ => True := .register (.empty _ _ _) obey
  have fair : ∀ d ∈ ds, d.Fair fun _ => True := by
    simp [ds, World.Deed.Fair, World.Operation.Fair]
  obtain ⟨same, orderly⟩ := ((batch_protocol _).2 w reached).1 ds fair () []
  obtain ⟨-, ticks⟩ := (batch_protocol _).1 Region.twins Region.twins_reached ps 0 ⟨5⟩ ()
  obtain ⟨-, ticked, -⟩ := ticks Duration.zero []
  refine ⟨⟨?_, ?_, orderly⟩, ?_, ticked⟩
  · decide +kernel
  · rw [same]
    exact List.nil_append _
  · decide +kernel

end OctreeWorld
