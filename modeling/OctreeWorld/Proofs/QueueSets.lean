import OctreeWorld.Proofs.Requeueing

/-!
# Requeued worlds and regions

Worlds and regions that differ at most in the order and the number of their pending commands cannot
be told apart by what is done to them: the phases, streaming and the tick of a region answer the
same, call the same processors with the same nodes in the same order, and leave worlds and regions
that differ at most in that way again.
-/

namespace OctreeWorld

variable {N L σ : Type}

/-! ### Regions -/

namespace Region

/-- The region with another hierarchy. -/
def withHierarchy (r : Region N L) (h : Hierarchy N L) : Region N L := { r with hierarchy := h }

/-- Two regions that differ at most in the order and the number of their pending commands. -/
def Requeued (r r' : Region N L) : Prop :=
  ∃ h, r.hierarchy.Requeued h ∧ r' = r.withHierarchy h

namespace Requeued

theorem flushLevel (ps : List (NodeProcessor σ N L)) (ctx : BatchContext) (changed : List Coord)
    {l m : Level N L} (same : l.Requeued m) (s : σ) :
    Agree Level.Requeued (flushLevel ps ctx changed l s) (flushLevel ps ctx changed m s) := by
  let cs := changed.filter fun c => c.level == l.index
  have raised := same.map
    (Level.oblivious_modifyAll cs fun n => n.bumpVersion.touch ctx.now)
  obtain ⟨run, state⟩ := raised.batch ps (ctx.atLevel (l.modifyAll cs fun n =>
    n.bumpVersion.touch ctx.now).index) cs s
  have level : (m.modifyAll cs fun n => n.bumpVersion.touch ctx.now).index =
      (l.modifyAll cs fun n => n.bumpVersion.touch ctx.now).index := raised.index
  simp only [cs] at level run state
  simp only [Region.flushLevel, same.index, level]
  exact ⟨rfl, run, state⟩

theorem tickLevel (ps : NodeProcessors σ N L) (ctx : BatchContext) {l m : Level N L}
    (near : l.Requeued m) (s : σ) :
    Agree Level.Requeued (tickLevel ps ctx l s) (tickLevel ps ctx m s) := by
  obtain ⟨loaded, ticked, unloaded, load, tick, unload, result⟩ := Level.tickLevel_eq ps ctx l s
  obtain ⟨loaded', ticked', unloaded', load', tick', unload', result'⟩ :=
    Level.tickLevel_eq ps ctx m s
  have first : Agree Level.Requeued loaded loaded' := by
    rw [load, load', near.index]
    exact near.load ps.load _ s
  have second : Agree Level.Requeued ticked ticked' := by
    rw [tick, tick', near.index, first.state]
    exact first.target.tick ps.tick _ loaded.2.2
  have third : Agree Level.Requeued unloaded unloaded' := by
    rw [unload, unload', near.index, second.state]
    exact second.target.unload ps.unload _ ticked.2.2
  rw [result, result', first.answer, second.answer, third.answer]
  exact ⟨rfl, third.target, third.state⟩

variable {r r' : Region N L} (same : r.Requeued r')

include same

theorem hierarchy : r.hierarchy.Requeued r'.hierarchy := by
  obtain ⟨h, related, rfl⟩ := same
  exact related

theorem factory : r'.factory = r.factory := by
  obtain ⟨h, -, rfl⟩ := same
  rfl

theorem world : r'.world = r.world := by
  obtain ⟨h, -, rfl⟩ := same
  rfl

theorem unobserved : r'.unobserved = r.unobserved := by
  obtain ⟨h, -, rfl⟩ := same
  rfl

theorem flushChanged (ps : NodeProcessors σ N L) (tick : UInt64) (now : SimTime) (s : σ) :
    Agree Requeued (r.flushChanged ps tick now s) (r'.flushChanged ps tick now s) := by
  obtain ⟨h, related, rfl⟩ := same
  let ctx : BatchContext := { world := r.world, kind := .tick, now, tick }
  obtain ⟨count, levels, state⟩ := Hierarchy.Requeued.sweepLevels related
    (fun l m s near => flushLevel ps.tick ctx r.changed.toList near s) s
  exact ⟨count, ⟨_, levels, rfl⟩, state⟩

theorem evictOne (now : SimTime) (timeout : Duration) (count : Nat) (c : Coord) :
    (evictOne now timeout (count, r') c).1 = (evictOne now timeout (count, r) c).1 ∧
      (evictOne now timeout (count, r) c).2.Requeued (evictOne now timeout (count, r') c).2 := by
  obtain ⟨h, related, rfl⟩ := same
  cases stored : r.hierarchy.level? c.level with
  | none =>
    simp only [Region.evictOne, withHierarchy, stored, related.level?_none stored]
    exact ⟨trivial, h, related, rfl⟩
  | some l =>
    obtain ⟨m, found, near⟩ := related.level? stored
    simp only [Region.evictOne, withHierarchy, stored, found, near.get?]
    cases l.get? c with
    | none => exact ⟨rfl, h, related, rfl⟩
    | some n =>
      by_cases unused : n.isUnused now timeout = true
      · have queued : (r.hierarchy.modifyLevel c.level fun l =>
            (l.modify c (·.withState .unloading)).push .unload c).Requeued _ :=
          Hierarchy.Requeued.modifyLevel related (fun l m near =>
            (near.map (Level.oblivious_modify c (·.withState .unloading))).pushAll .unload [c])
            c.level
        simp only [if_pos unused]
        exact ⟨trivial, _, queued, rfl⟩
      · simp only [if_neg unused]
        exact ⟨trivial, h, related, rfl⟩

theorem evictExpired (now : SimTime) (timeout : Duration) :
    (r'.evictExpired now timeout).1 = (r.evictExpired now timeout).1 ∧
      (r.evictExpired now timeout).2.Requeued (r'.evictExpired now timeout).2 := by
  have walk : ∀ (cs : List Coord) (count : Nat) {r r' : Region N L}, r.Requeued r' →
      (cs.foldl (Region.evictOne now timeout) (count, r')).1 =
          (cs.foldl (Region.evictOne now timeout) (count, r)).1 ∧
        (cs.foldl (Region.evictOne now timeout) (count, r)).2.Requeued
          (cs.foldl (Region.evictOne now timeout) (count, r')).2 := by
    intro cs
    induction cs with
    | nil => exact fun count r r' same => ⟨rfl, same⟩
    | cons c cs ih =>
      intro count r r' same
      have first := same.evictOne now timeout count c
      rw [List.foldl_cons, List.foldl_cons]
      rcases here : Region.evictOne now timeout (count, r) c with ⟨n, q⟩
      rcases there : Region.evictOne now timeout (count, r') c with ⟨n', q'⟩
      rw [here, there] at first
      obtain ⟨rfl, next⟩ := first
      exact ih n' next
  rw [Region.evictExpired, Region.evictExpired, same.unobserved]
  exact walk r.unobserved.toList 0 same

theorem stocked (ps : NodeProcessors σ N L) (tick : UInt64) (now : SimTime) (timeout : Duration)
    (s : σ) :
    (r.stocked ps tick now timeout s).1.Requeued (r'.stocked ps tick now timeout s).1 ∧
      (r'.stocked ps tick now timeout s).2 = (r.stocked ps tick now timeout s).2 := by
  obtain ⟨-, flushed, state⟩ := same.flushChanged ps tick now s
  obtain ⟨-, evicted⟩ := flushed.evictExpired now timeout
  have factory := evicted.factory
  obtain ⟨-, created⟩ := evicted.hierarchy.createPending _ now
  simp only [Region.stocked]
  rw [factory]
  exact ⟨created, state⟩

theorem drained (ps : NodeProcessors σ N L) (tick : UInt64) (now : SimTime) (timeout : Duration)
    (s : σ) : Agree (List.Forall₂ Level.Requeued) (r.drained ps tick now timeout s)
      (r'.drained ps tick now timeout s) := by
  obtain ⟨levels, state⟩ := same.stocked ps tick now timeout s
  rw [Region.drained, Region.drained, same.world, state]
  exact agree_sweep levels (fun l _ m s near => tickLevel ps _ near s) _

theorem forget (created removed : List Coord) {k k' h h' : Hierarchy N L} (left : h.Requeued h') :
    ((r.track created k).forget removed h).Requeued ((r'.track created k').forget removed h') := by
  obtain ⟨_, -, rfl⟩ := same
  exact ⟨h', left, rfl⟩

/-- A region's tick cannot tell requeued regions apart. -/
theorem tick (ps : NodeProcessors σ N L) (tick : UInt64) (now : SimTime) (timeout : Duration)
    (s : σ) : Agree Requeued (r.tick ps tick now timeout s) (r'.tick ps tick now timeout s) := by
  obtain ⟨flushed, flush, -⟩ := same.flushChanged ps tick now s
  obtain ⟨evicted, evict⟩ := flush.evictExpired now timeout
  have created := (evict.hierarchy.createPending
    ((r.flushChanged ps tick now s).2.1.evictExpired now timeout).2.factory now).1
  obtain ⟨counts, levels, state⟩ := same.drained ps tick now timeout s
  have swept : Hierarchy.Requeued ⟨(r.drained ps tick now timeout s).2.1⟩
    ⟨(r'.drained ps tick now timeout s).2.1⟩ := levels
  obtain ⟨removed, destroy, state'⟩ := swept.destroyPending ps.unload
    { world := r.world, kind := .unload, now, tick } (r.drained ps tick now timeout s).2.2
  rw [tick_parts, tick_parts]
  simp only [same.world, evict.factory, flushed, evicted, created, counts, state, removed, state']
  exact ⟨rfl, evict.forget _ _ destroy, rfl⟩

end Requeued

end Region

/-! ### Worlds -/

namespace World

/-- Two worlds that differ at most in the order and the number of the pending commands of their own
levels and of those of their regions. -/
def Requeued (w v : World σ N L) : Prop :=
  ∃ h regions, w.hierarchy.Requeued h ∧ List.Forall₂ Region.Requeued w.regions regions ∧
    v = { w with hierarchy := h, regions }

/-- What a world's queues are drained and filled by. -/
inductive Chore where
  | worldWorkerPhase
  | createPhase
  | loadPhase
  | unloadPhase
  | destroyPhase
  | stream (index : UInt8) (config : StreamConfig) (loaders : List Loader) (tick : UInt64)
      (now : SimTime) (timeout : Duration)

namespace Chore

/-- Do a chore. A phase answers its count; streaming answers its counts, if the world has the
level. -/
def perform (w : World σ N L) (s : σ) :
    Chore → (Nat ⊕ Option StreamStats) × World σ N L × σ
  | worldWorkerPhase => (.inl (w.worldWorkerPhase s).1, (w.worldWorkerPhase s).2)
  | createPhase => (.inl w.createPhase.1, w.createPhase.2, s)
  | loadPhase => (.inl (w.loadPhase s).1, (w.loadPhase s).2)
  | unloadPhase => (.inl (w.unloadPhase s).1, (w.unloadPhase s).2)
  | destroyPhase => (.inl (w.destroyPhase s).1, (w.destroyPhase s).2)
  | stream i config loaders tick now timeout =>
    (.inr ((w.hierarchy.level? i).map fun l => (l.stream config loaders tick now timeout).1),
      w.modifyLevel i fun l => (l.stream config loaders tick now timeout).2, s)

/-- The batches of a chore. -/
def batches (w : World σ N L) (s : σ) : Chore → List (NodeBatch σ N L)
  | worldWorkerPhase => w.batches s .worldWorkerPhase
  | createPhase => []
  | loadPhase => w.batches s .loadPhase
  | unloadPhase => w.batches s .unloadPhase
  | destroyPhase => w.batches s .destroyPhase
  | stream .. => []

end Chore

/-- Do some chores one after the other. -/
def doAll (w : World σ N L) (s : σ) : List Chore → List (Nat ⊕ Option StreamStats) × World σ N L × σ
  | [] => ([], w, s)
  | c :: cs =>
    let (answer, w, s) := c.perform w s
    let (answers, w, s) := doAll w s cs
    (answer :: answers, w, s)

/-- The batches of some chores. -/
def choreBatches (w : World σ N L) (s : σ) : List Chore → List (NodeBatch σ N L)
  | [] => []
  | c :: cs => c.batches w s ++ choreBatches (c.perform w s).2.1 (c.perform w s).2.2 cs

namespace Requeued

variable {w v : World σ N L} (same : w.Requeued v)

include same

theorem hierarchy : w.hierarchy.Requeued v.hierarchy := by
  obtain ⟨h, regions, related, -, rfl⟩ := same
  exact related

/-- New hierarchies that are related make related worlds. -/
theorem withHierarchy {h h' : Hierarchy N L} (related : h.Requeued h') :
    World.Requeued { w with hierarchy := h } { v with hierarchy := h' } := by
  obtain ⟨_, regions, -, sliced, rfl⟩ := same
  exact ⟨h', regions, related, sliced, rfl⟩

theorem drainLevels (kind : CommandKind) {step : BatchContext → Level N L → σ → Nat × Level N L × σ}
    (each : ∀ ctx l m s, l.Requeued m → Agree Level.Requeued (step ctx l s) (step ctx m s))
    (s : σ) : Agree Requeued (w.drainLevels kind step s) (v.drainLevels kind step s) := by
  have context : v.batchContext kind = w.batchContext kind := by
    obtain ⟨_, _, -, -, rfl⟩ := same
    rfl
  let here (l : Level N L) := step ((w.batchContext kind).atLevel l.index) l
  have near : ∀ l m s, l.Requeued m → Agree Level.Requeued (here l s) (here m s) := by
    intro l m s near
    simp only [here, near.index]
    exact each _ l m s near
  obtain ⟨count, levels, state⟩ := same.hierarchy.sweepLevels near s
  simp only [World.drainLevels, context]
  exact ⟨count, same.withHierarchy levels, state⟩

theorem perform (c : Chore) (s : σ) : Agree Requeued (c.perform w s) (c.perform v s) := by
  have frame : v.processors = w.processors ∧ v.batchContext .unload = w.batchContext .unload ∧
      v.factory = w.factory ∧ v.now = w.now := by
    obtain ⟨_, _, -, -, rfl⟩ := same
    exact ⟨rfl, rfl, rfl, rfl⟩
  obtain ⟨processors, context, factory, clock⟩ := frame
  cases c with
  | worldWorkerPhase =>
    obtain ⟨count, left, state⟩ := same.drainLevels .tick
      (fun ctx l m s near => near.tick w.processors.tick ctx s) s
    simp only [Chore.perform, World.worldWorkerPhase, processors]
    exact ⟨congrArg Sum.inl count, left, state⟩
  | createPhase =>
    obtain ⟨created, left⟩ := same.hierarchy.createPending w.factory w.now
    have run : v.hierarchy.createPending v.factory v.now =
        v.hierarchy.createPending w.factory w.now := by rw [factory, clock]
    simp only [Chore.perform, World.createPhase, run, created]
    exact ⟨rfl, same.withHierarchy left, rfl⟩
  | loadPhase =>
    obtain ⟨count, left, state⟩ := same.drainLevels .load
      (fun ctx l m s near => near.load w.processors.load ctx s) s
    simp only [Chore.perform, World.loadPhase, processors]
    exact ⟨congrArg Sum.inl count, left, state⟩
  | unloadPhase =>
    obtain ⟨count, left, state⟩ := same.drainLevels .unload
      (fun ctx l m s near => near.unload w.processors.unload ctx s) s
    simp only [Chore.perform, World.unloadPhase, processors]
    exact ⟨congrArg Sum.inl count, left, state⟩
  | destroyPhase =>
    obtain ⟨removed, left, state⟩ := same.hierarchy.destroyPending w.processors.unload
      (w.batchContext .unload) s
    have run : v.hierarchy.destroyPending v.processors.unload (v.batchContext .unload) s =
        v.hierarchy.destroyPending w.processors.unload (w.batchContext .unload) s := by
      rw [processors, context]
    simp only [Chore.perform, World.destroyPhase, run, removed]
    exact ⟨rfl, same.withHierarchy left, state⟩
  | stream i config loaders tick now timeout =>
    have left := same.hierarchy.modifyLevel
      (fun l m near => (near.stream config loaders tick now timeout).2) i
    refine ⟨congrArg Sum.inr ?_, same.withHierarchy left, rfl⟩
    cases stored : w.hierarchy.level? i with
    | none => rw [same.hierarchy.level?_none stored]
    | some l =>
      obtain ⟨m, found, near⟩ := same.hierarchy.level? stored
      rw [found]
      exact congrArg some (near.stream config loaders tick now timeout).1

theorem doAll (cs : List Chore) (s : σ) : Agree Requeued (w.doAll s cs) (v.doAll s cs) := by
  induction cs generalizing w v s with
  | nil => exact ⟨rfl, same, rfl⟩
  | cons c cs ih =>
    obtain ⟨answer, first, state⟩ := same.perform c s
    obtain ⟨answers, rest, state'⟩ := ih first (c.perform w s).2.2
    simp only [World.doAll, answer, state, answers]
    exact ⟨rfl, rest, state'⟩

theorem logged : w.logged.Requeued v.logged := by
  obtain ⟨h, regions, related, sliced, rfl⟩ := same
  exact ⟨h, regions, related, sliced, rfl⟩

end Requeued

/-! ### Calls -/

section Calls

variable {w : World σ N L} (linked : w.hierarchy.Linked)

include linked

theorem Chore.perform_linked (c : Chore) (s : σ) : (c.perform w s).2.1.hierarchy.Linked := by
  have phase : ∀ op : Operation N L, op.Fair (fun _ => True) →
      (op.perform w s).1.hierarchy.Linked := fun op fair =>
    (Operation.perform_evolved linked (NodeProcessors.obey_any _)
      (fun p _ ctx v t e _ => by cases e <;> trivial) fair s).linked linked
  cases c with
  | worldWorkerPhase => exact phase .worldWorkerPhase trivial
  | createPhase => exact phase .createPhase trivial
  | loadPhase => exact phase .loadPhase trivial
  | unloadPhase => exact phase .unloadPhase trivial
  | destroyPhase => exact phase .destroyPhase trivial
  | stream i config loaders tick now timeout =>
    have streamed : Hierarchy.Evolved (fun _ => True) w.hierarchy
        (Chore.perform w s (.stream i config loaders tick now timeout)).2.1.hierarchy :=
      .steps (Hierarchy.levelwise_modifyLevel .refl fun l _ =>
        .of_called (Level.stream_called config loaders tick now timeout l))
    exact streamed.linked linked

theorem Chore.perform_logged (c : Chore) (s : σ) (log : CallLog) :
    (c.perform w.logged (s, log)).2 = ((c.perform w s).2.1.logged,
        NodeBatch.written (c.batches w s) log (c.perform w s).2.2) ∧
      ∀ b ∈ c.batches w s, b.Orderly w.processors.toNodeProcessors := by
  cases c with
  | worldWorkerPhase => exact World.perform_logged linked .worldWorkerPhase s log
  | createPhase => exact World.perform_logged linked .createPhase s log
  | loadPhase => exact World.perform_logged linked .loadPhase s log
  | unloadPhase => exact World.perform_logged linked .unloadPhase s log
  | destroyPhase => exact World.perform_logged linked .destroyPhase s log
  | stream i config loaders tick now timeout =>
    exact ⟨congrArg (Prod.mk _) (NodeBatch.written_nil log s).symm, List.forall_mem_nil _⟩

/-- Chores hand out orderly batches and log their calls. -/
theorem doAll_logged (cs : List Chore) (s : σ) (log : CallLog) :
    (w.logged.doAll (s, log) cs).2 = ((w.doAll s cs).2.1.logged,
        NodeBatch.written (w.choreBatches s cs) log (w.doAll s cs).2.2) ∧
      ∀ b ∈ w.choreBatches s cs, b.Orderly w.processors.toNodeProcessors := by
  induction cs generalizing w s log with
  | nil => exact ⟨congrArg (Prod.mk _) (NodeBatch.written_nil log s).symm, List.forall_mem_nil _⟩
  | cons c cs ih =>
    have processors : (c.perform w s).2.1.processors = w.processors := by cases c <;> rfl
    obtain ⟨first, orderly⟩ := Chore.perform_logged linked c s log
    obtain ⟨rest, orderly'⟩ := ih (Chore.perform_linked linked c s) (c.perform w s).2.2
      (log ++ (c.batches w s).flatMap NodeBatch.calls)
    rw [NodeBatch.written_append] at rest
    rw [processors] at orderly'
    refine ⟨?_, List.forall_mem_append.mpr ⟨orderly, orderly'⟩⟩
    simp only [doAll, first, choreBatches]
    rw [← rest]
    rfl

end Calls

end World

/-- Queues are sets. Worlds, and regions, that differ at most in the order and the number of their
pending commands answer every chore alike, make the same calls to processors of nodes, and differ at
most in that afterwards. Where links are in order, as they are in all that operations lead to, the
calls are those of batches in which no node repeats. -/
theorem queues_are_sets :
    (∀ w v : World σ N L, w.Requeued v → ∀ (chores : List World.Chore) (s : σ),
      Agree World.Requeued (w.doAll s chores) (v.doAll s chores) ∧
      (v.logged.doAll (s, []) chores).2.2.2 = (w.logged.doAll (s, []) chores).2.2.2 ∧
      (w.hierarchy.Linked →
        (w.logged.doAll (s, []) chores).2.2.2 =
            (w.choreBatches s chores).flatMap NodeBatch.calls ∧
          ∀ b ∈ w.choreBatches s chores, b.commands.Nodup)) ∧
    ∀ r r' : Region N L, r.Requeued r' →
      ∀ (ps : NodeProcessors σ N L) (tick : UInt64) (now : SimTime) (timeout : Duration) (s : σ),
        Agree Region.Requeued (r.tick ps tick now timeout s) (r'.tick ps tick now timeout s) ∧
        (r'.tick ps.logged tick now timeout (s, [])).2.2.2 =
          (r.tick ps.logged tick now timeout (s, [])).2.2.2 ∧
        (r.hierarchy.Linked → r.Flushable →
          (r.tick ps.logged tick now timeout (s, [])).2.2.2 =
              (r.tickBatches ps tick now timeout s).flatMap NodeBatch.calls ∧
            ∀ b ∈ r.tickBatches ps tick now timeout s, b.commands.Nodup) := by
  refine ⟨fun w v same chores s => ⟨same.doAll chores s, ?_, fun linked => ?_⟩,
    fun r r' same ps tick now timeout s => ⟨same.tick ps tick now timeout s, ?_,
      fun linked flushable => ?_⟩⟩
  · exact congrArg (·.2) (same.logged.doAll chores (s, [])).state
  · obtain ⟨run, orderly⟩ := World.doAll_logged linked chores s []
    exact ⟨congrArg (·.2.2) run, fun b listed => (orderly b listed).nodup⟩
  · exact congrArg (·.2) (same.tick ps.logged tick now timeout (s, [])).state
  · obtain ⟨run, orderly⟩ := Region.tick_logged ps linked flushable tick now timeout s []
    exact ⟨congrArg (·.2.2.2) run, fun b listed => (orderly b listed).nodup⟩

/-- Asking again for what is pending changes no more than the number of the pending commands. -/
theorem Hierarchy.requeued_push {h : Hierarchy N L} {c : Coord} {q : Queue}
    (pending : c ∈ h.pending c.level q) : h.Requeued (h.modifyLevel c.level (·.push q c)) := by
  refine levelwise_modifyLevel Level.Requeued.refl fun l stored => ⟨_, fun p d => ?_, rfl⟩
  rw [pending_of_level? stored] at pending
  rw [Queues.get_append]
  split
  · rename_i queue
    subst queue
    have known : d ∈ l.own [c] → d ∈ l.queues.get q := fun listed => by
      rw [List.mem_singleton.mp (Level.mem_own.mp listed).1]
      exact pending
    rw [List.mem_append, or_iff_left_of_imp known]
  · exact Iff.rfl

/-- Two cells are asked for, one of them twice, and are loaded with their parent as if each had been
asked for once. A region in which a load is queued twice ticks like one in which it is queued
once. -/
theorem queues_are_sets_of_repeated :
    let a : Coord := ⟨⟨0, 0, 0⟩, 0⟩
    let b : Coord := ⟨⟨-1, 0, 0⟩, 0⟩
    let idle : NodeProcessor Unit Unit Unit := .plain "idle" fun _ _ s => ([], s)
    let ps : NodeProcessors Unit Unit Unit := { load := [idle] }
    let bare : World Unit Unit Unit :=
      { id := default, config := { levelCount := 2 }, factory := PayloadFactory.plain
        hierarchy := Hierarchy.empty PayloadFactory.plain 2, processors := { load := [idle] } }
    let once := (bare.queueCreate b).queueCreate a
    let twice := once.queueCreate b
    let chores := [World.Chore.createPhase, .loadPhase]
    let again := Region.solitary.modifyLevel 1 (·.push .load a.parent)
    ((once.doAll () chores).1 = [.inl 3, .inl 3] ∧ (twice.doAll () chores).1 = [.inl 3, .inl 3] ∧
      (twice.logged.doAll ((), []) chores).2.2.2 = (once.logged.doAll ((), []) chores).2.2.2 ∧
      (∀ b ∈ once.choreBatches () chores, b.commands.Nodup)) ∧
    (again.tick ps 0 ⟨5⟩ Duration.zero ()).1 = (Region.solitary.tick ps 0 ⟨5⟩ Duration.zero ()).1 ∧
      (Region.solitary.tick ps 0 ⟨5⟩ Duration.zero ()).1.loaded = 1 ∧
      ∀ b ∈ Region.solitary.tickBatches ps 0 ⟨5⟩ Duration.zero (), b.commands.Nodup := by
  intro a b idle ps bare once twice chores again
  have obey : ProcessorRegistry.Obey (fun _ => True) bare.processors :=
    ⟨NodeProcessors.obey_any _, List.forall_mem_nil _, List.forall_mem_nil _⟩
  have reached : once.Reached fun _ => True :=
    (((World.Reached.empty default { levelCount := 2 } PayloadFactory.plain).register
      obey).queueCreate b).queueCreate a
  have linked := (reached.sound (Hierarchy.Kept.trivial _)).linked
  have same : once.Requeued twice :=
    ⟨_, [], Hierarchy.requeued_push (c := b) (q := .create) (by decide +kernel), .nil, rfl⟩
  have same' : Region.solitary.Requeued again :=
    ⟨_, Hierarchy.requeued_push (c := a.parent) (q := .load) (by decide +kernel), rfl⟩
  obtain ⟨agree, calls, batches⟩ := queues_are_sets.1 once twice same chores ()
  obtain ⟨ticks, -, nodup⟩ :=
    queues_are_sets.2 Region.solitary again same' ps 0 ⟨5⟩ Duration.zero ()
  have answers : (once.doAll () chores).1 = [.inl 3, .inl 3] := by decide +kernel
  refine ⟨⟨answers, agree.answer.trans answers, calls, (batches linked).2⟩, ticks.answer, ?_, ?_⟩
  · decide +kernel
  · exact (nodup Region.solitary_reached.linked Region.solitary_reached.flushable).2

end OctreeWorld
