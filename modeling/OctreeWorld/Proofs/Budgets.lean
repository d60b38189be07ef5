import OctreeWorld.Proofs.Coverage
import OctreeWorld.Proofs.RegionStreaming
import OctreeWorld.Proofs.Uniformity

/-!
# What a tick queues

Commands of a tick are queued by the level workers, by the requests of a region's loaders and by the
eviction of a region. The first two keep to the configuration: a level that is not due queues
nothing, and one that is due no more than its budgets. Eviction in a region knows no configuration
and queues every unused node of every level.
-/

namespace OctreeWorld

variable {N L σ : Type}

/-- Whether a level may queue a number of commands on a tick under a budget: none unless it is due,
and then as many as the budget says. -/
def StreamConfig.Allows (config : StreamConfig) (tick : UInt64) (level : UInt8)
    (budget : Option UInt64) (count : Nat) : Prop :=
  if config.levelDue tick level then ∀ b ∈ budget, count ≤ b.toNat else count = 0

/-- Edits of a level that queue nothing. -/
def LevelEdit.QueueFree : LevelEdit N L → Prop
  | .push _ _ => False
  | _ => True

theorem length_takeBudget {α : Type} {budget : Option UInt64} {b : UInt64} (limit : b ∈ budget)
    (xs : List α) : (takeBudget budget xs).length ≤ b.toNat := by
  obtain rfl := Option.mem_def.mp limit
  exact List.length_take_le _ _

theorem Queues.append_nil (qs : Queues) (q : Queue) : qs.append q [] = qs := by
  cases q <;> simp [append, get, set]

namespace Level

/-! ### One level -/

/-- A step has queued these creates and unloads, in this order, and no other command. -/
structure Queued (creates unloads : List Coord) (l m : Level N L) : Prop where
  index : m.index = l.index
  queues : m.queues = (l.queues.append .create creates).append .unload unloads

/-- A step has queued what the configuration allows on the tick. -/
def Limited (config : StreamConfig) (tick : UInt64) (l m : Level N L) : Prop :=
  ∃ creates unloads, Queued creates unloads l m ∧
    config.Allows tick l.index config.createBudget creates.length ∧
      config.Allows tick l.index config.unloadBudget unloads.length

/-- The unused nodes of a level, ordered by position. -/
def unused (now : SimTime) (timeout : Duration) (l : Level N L) : List Coord :=
  byPosition ((l.nodeList.filter (·.isUnused now timeout)).map (·.coord))

namespace Queued

variable {creates unloads : List Coord} {l m k : Level N L}

theorem of_same (index : m.index = l.index) (queues : m.queues = l.queues) : Queued [] [] l m := by
  refine ⟨index, ?_⟩
  rw [Queues.append_nil, Queues.append_nil, queues]

theorem after (first : Queued [] [] l m) (second : Queued creates unloads m k) :
    Queued creates unloads l k := by
  have same : m.queues = l.queues := by
    rw [first.queues, Queues.append_nil, Queues.append_nil]
  exact ⟨second.index.trans first.index, by rw [second.queues, same]⟩

theorem pending_unload (queued : Queued creates unloads l m) :
    m.pending .unload = l.pending .unload ++ unloads := by
  rw [pending, queued.queues, Queues.get_append, if_pos rfl, Queues.get_append,
    if_neg (by decide)]
  rfl

end Queued

theorem runLevelBatch_queued {ps : List (LevelProcessor σ N L)}
    (free : ∀ p ∈ ps, p.Obeys LevelEdit.QueueFree) (ctx : BatchContext) (l : Level N L) (s : σ) :
    Queued [] [] l (runLevelBatch ps ctx l s).1 := by
  let Same (l m : Level N L) : Prop := m.index = l.index ∧ m.queues = l.queues
  have respects : levelAddressing.Respects LevelEdit.QueueFree [()] Same := by
    refine ⟨fun _ => ⟨rfl, rfl⟩, fun _ _ _ first second => ?_, fun _ _ l e allowed => ?_⟩
    · exact ⟨second.1.trans first.1, second.2.trans first.2⟩
    · cases e with
      | setData d => exact ⟨rfl, rfl⟩
      | push q c => exact allowed.elim
      | node c e => exact ⟨index_editNode l c e, queues_editNode l c e⟩
  obtain ⟨index, queues⟩ := respects.runBatch free ctx l s
  exact .of_same index queues

/-- Collecting stops at the budget. -/
theorem size_collectMissing (l : Level N L) {budget : Option UInt64} {b : UInt64}
    (limit : b ∈ budget) (cs : List Coord) {found : CoordSet} (room : found.size ≤ b.toNat) :
    (l.collectMissing budget cs found).size ≤ b.toNat := by
  obtain rfl := Option.mem_def.mp limit
  induction cs generalizing found with
  | nil => exact room
  | cons c cs ih =>
    rw [collectMissing]
    split
    · exact room
    · rename_i below
      have below : found.size < b.toNat := by simpa using below
      split
      · exact ih room
      · exact ih (Nat.le_trans Std.ExtTreeSet.size_insert_le below)

theorem requestLoads_queued (loaders : List Loader) (tick : UInt64) (budget : Option UInt64)
    (l : Level N L) : ∃ creates, Queued creates [] l (l.requestLoads loaders tick budget).2 ∧
      ∀ b ∈ budget, creates.length ≤ b.toNat := by
  let requests := (l.collectMissing budget (l.wanted loaders tick) ∅).toList
  refine ⟨l.own requests, ⟨rfl, ?_⟩, fun b limit => ?_⟩
  · exact (Queues.append_nil _ _).symm
  · calc (l.own requests).length
        ≤ requests.length := List.length_filter_le _ _
      _ = (l.collectMissing budget (l.wanted loaders tick) ∅).size :=
        Std.ExtTreeSet.length_toList
      _ ≤ b.toNat := l.size_collectMissing limit _ (Nat.zero_le _)

theorem collectUnused_queued (now : SimTime) (timeout : Duration) (budget : Option UInt64)
    (l : Level N L) :
    Queued [] (l.own (takeBudget budget (l.unused now timeout))) l
      (l.collectUnused now timeout budget).2 := by
  refine ⟨index_modifyAll l _ _, ?_⟩
  change (l.modifyAll _ _).queues.append .unload (own (l.modifyAll _ _) _) = _
  rw [queues_modifyAll, Queues.append_nil, own, index_modifyAll]
  rfl

/-- The unused nodes belong to the level. -/
theorem own_unused {l : Level N L} (placed : ∀ c n, l.get? c = some n → n.coord = c)
    (now : SimTime) (timeout : Duration) : l.own (l.unused now timeout) = l.unused now timeout := by
  refine List.filter_eq_self.mpr fun c mem => ?_
  obtain ⟨n, listed, rfl⟩ := List.mem_map.mp ((perm_byPosition _).mem_iff.mp mem)
  obtain ⟨p, at_⟩ := mem_nodeList.mp (List.mem_filter.mp listed).1
  rw [placed ⟨p, l.index⟩ n ((get?_mk l p).trans at_)]
  exact beq_self_eq_true l.index

/-- Streaming a level keeps to the configuration. -/
theorem stream_limited (config : StreamConfig) (loaders : List Loader) (tick : UInt64)
    (now : SimTime) (timeout : Duration) (l : Level N L) :
    Limited config tick l (l.stream config loaders tick now timeout).2 := by
  unfold Limited stream StreamConfig.Allows
  by_cases due : config.levelDue tick l.index = true
  · simp only [due, if_true]
    obtain ⟨creates, asked, few⟩ := l.requestLoads_queued loaders tick config.createBudget
    obtain ⟨m, m_def⟩ : ∃ m, m = (l.requestLoads loaders tick config.createBudget).2 := ⟨_, rfl⟩
    rw [← m_def] at asked ⊢
    have chosen := m.collectUnused_queued now timeout config.unloadBudget
    let unloads := m.own (takeBudget config.unloadBudget (m.unused now timeout))
    refine ⟨creates, unloads, ⟨chosen.index.trans asked.index, ?_⟩, few, fun b limit => ?_⟩
    · rw [chosen.queues, asked.queues, Queues.append_nil, Queues.append_nil]
    · exact (List.length_filter_le _ _).trans (length_takeBudget limit _)
  · simp only [due, if_false, Bool.false_eq_true]
    exact ⟨[], [], .of_same rfl rfl, rfl, rfl⟩

end Level

namespace Region

/-! ### One region -/

/-- What the turn of one region queues, step by step: the requests of its loaders keep to the
configuration, the flush that comes next queues nothing, and the eviction after it queues the unused
nodes of every level, all of them, due or not. -/
structure Turn (config : StreamConfig) (tick : UInt64) (now : SimTime) (timeout : Duration)
    (r asked flushed evicted : Region N L) : Prop where
  asks : Hierarchy.Levelwise (fun l m => ∃ creates, Level.Queued creates [] l m ∧
    config.Allows tick l.index config.createBudget creates.length) r.hierarchy asked.hierarchy
  flushes : Hierarchy.Levelwise (Level.Queued [] []) asked.hierarchy flushed.hierarchy
  evicts : Hierarchy.Levelwise (fun l m => Level.Queued [] (l.unused now timeout) l m)
    flushed.hierarchy evicted.hierarchy

theorem stream_queued (config : StreamConfig) (tick : UInt64) (now : SimTime) (r : Region N L) :
    Hierarchy.Levelwise (fun l m => ∃ creates, Level.Queued creates [] l m ∧
      config.Allows tick l.index config.createBudget creates.length)
      r.hierarchy (r.stream config tick now).2.hierarchy := by
  have stamped := Hierarchy.keepAliveAll_retouched now r.loaderList r.hierarchy
  have asked : ∀ l : Level N L, ∃ creates,
      Level.Queued creates [] l (requestLevel config r.loaderList tick l).2 ∧
        config.Allows tick l.index config.createBudget creates.length := by
    intro l
    unfold requestLevel StreamConfig.Allows
    by_cases due : config.levelDue tick l.index = true
    · simp only [due, if_true]
      exact l.requestLoads_queued r.loaderList tick config.createBudget
    · simp only [due, if_false, Bool.false_eq_true]
      exact ⟨[], .of_same rfl rfl, rfl⟩
  have requests := Hierarchy.levelwise_map
    (R := fun l m => ∃ creates, Level.Queued creates [] l m ∧
      config.Allows tick l.index config.createBudget creates.length)
    (Hierarchy.keepAliveAll now r.loaderList r.hierarchy).2 asked
  refine forall₂_comp (fun l m k touched step => ?_) stamped requests
  obtain ⟨cs, edited⟩ := touched
  obtain ⟨creates, queued, few⟩ := step
  exact ⟨creates, (Level.Queued.of_same edited.index edited.queues).after queued,
    edited.index ▸ few⟩

theorem flushChanged_queued (r : Region N L) (ps : NodeProcessors σ N L) (tick : UInt64)
    (now : SimTime) (s : σ) : Hierarchy.Levelwise (Level.Queued [] []) r.hierarchy
      (r.flushChanged ps tick now s).2.1.hierarchy := by
  refine Hierarchy.sweepLevels_levelwise r.hierarchy (fun l s => ?_) s
  let cs := r.changed.toList.filter fun c => c.level == l.index
  let raised := l.modifyAll cs fun n => n.bumpVersion.touch now
  have obeys : ∀ p ∈ ps.tick, p.Obeys fun _ => True := Processor.obeys_any
  have edited := runNodeBatch_edited obeys
    ({ world := r.world, kind := .tick, now, tick : BatchContext }.atLevel raised.index) raised cs s
  exact .of_same (edited.index.trans (Level.index_modifyAll l cs _))
    (edited.queues.trans (Level.queues_modifyAll l cs _))

theorem Reached.turn {may : NodeEdit N L → Prop} {r : Region N L} (reached : r.Reached may)
    (config : StreamConfig) (tick : UInt64) (asks : SimTime) (ps : NodeProcessors σ N L)
    (clock : UInt64) (now : SimTime) (timeout : Duration) (s : σ) :
    let asked := (r.stream config tick asks).2
    let flushed := (asked.flushChanged ps clock now s).2.1
    r.Turn config tick now timeout asked flushed (flushed.evictExpired now timeout).2 := by
  intro asked flushed
  have streamed : asked.Reached may := reached.stream config tick asks
  have tracked : flushed.Tracked := streamed.tracked.flushChanged ps clock now s
  have linked : flushed.hierarchy.Linked :=
    (flushChanged_evolved ps.obey_any asked clock now s).linked streamed.linked
  refine ⟨stream_queued config tick asks r, flushChanged_queued asked ps clock now s, ?_⟩
  rw [tracked.evictExpired_levels linked]
  unfold Hierarchy.Levelwise
  rw [List.forall₂_map_right_iff, List.forall₂_map_right_iff]
  refine List.forall₂_same.mpr fun l mem => ?_
  have queued := l.collectUnused_queued now timeout none
  rwa [show takeBudget none (l.unused now timeout) = l.unused now timeout from rfl,
    l.own_unused (linked.placed_level mem)] at queued

end Region

/-! ### A tick -/

namespace Engine

/-- Phases in turn have run on an engine, the given one is next, and this is the world at an
index. -/
def Stands (e : Engine σ N L) (elapsed : Duration) (s : σ) (ps : List Phase) (p : Phase) (k : Nat)
    (w : World σ N L) : Prop :=
  ∃ e' s', runPhases elapsed ps e s = .ok (e', s') ∧ e'.setting = e.setting ∧
    e'.cursor.expected = p ∧ e'.worlds[k]? = some w

theorem Leaves.unique {e : Engine σ N L} {elapsed : Duration} {s : σ} {ps : List Phase} {k : Nat}
    {w w' : World σ N L} (leaves : e.Leaves elapsed s ps k w) (also : e.Leaves elapsed s ps k w') :
    w = w' := by
  obtain ⟨e₁, s₁, run, at_⟩ := leaves
  obtain ⟨e₂, s₂, again, at_'⟩ := also
  obtain rfl : e₁ = e₂ := congrArg Prod.fst (Except.ok.inj (run.symm.trans again))
  exact Option.some.inj (at_.symm.trans at_')

namespace Stands

variable {e : Engine σ N L} {elapsed : Duration} {s : σ} {ps : List Phase} {p : Phase} {k : Nat}
  {w : World σ N L}

theorem leaves (stands : e.Stands elapsed s ps p k w) : e.Leaves elapsed s ps k w := by
  obtain ⟨e', s', run, -, -, at_⟩ := stands
  exact ⟨e', s', run, at_⟩

/-- The next phase runs and does its work on the world. -/
theorem step (stands : e.Stands elapsed s ps p k w) (early : p ≠ .finish) :
    ∃ w', e.Stands elapsed s (ps ++ [p]) p.next k w' ∧ e.Works p w w' := by
  obtain ⟨e₁, s₁, run, setting, rfl, at_⟩ := stands
  let turned := { e₁ with cursor := ⟨e₁.cursor.expected.next⟩ }
  let ran := turned.perform e₁.cursor.expected elapsed s₁
  have works := turned.perform_works e₁.cursor.expected elapsed s₁
  rw [works_congr (show turned.setting = e.setting from setting)] at works
  obtain ⟨w', at', works⟩ := getElem?_of_forall₂ works at_
  have done : runPhases elapsed (ps ++ [e₁.cursor.expected]) e s = .ok (ran.2.1, ran.2.2) := by
    rw [runPhases_append, run]
    simp only [runPhases, runPhase_eq, if_true]
    rfl
  have same : ran.2.1.setting = e.setting :=
    (turned.perform_setting early elapsed s₁).trans setting
  have next : ran.2.1.cursor.expected = e₁.cursor.expected.next :=
    congrArg (·.expected) (turned.perform_cursor e₁.cursor.expected elapsed s₁)
  exact ⟨w', ⟨ran.2.1, ran.2.2, done, same, next, at'⟩, works⟩

end Stands

/-- What the region workers of a world queue on the levels of one region, in the course of its
turn. -/
def Turns (e : Engine σ N L) (w : World σ N L) (r r' : Region N L) : Prop :=
  ∃ s, let worked := runRegionBatch w.processors.region (w.batchContext .region) r s
    let ps := w.processors.toNodeProcessors
    let timeout := w.config.evictionTimeout
    let asked := (worked.1.stream e.config.stream e.tick e.now).2
    let flushed := (asked.flushChanged ps w.tick w.now worked.2).2.1
    let evicted := (flushed.evictExpired w.now timeout).2
    worked.1.Turn e.config.stream e.tick w.now timeout asked flushed evicted ∧
      r' = (asked.tick ps w.tick w.now timeout worked.2).2.1

theorem streamWorld_limited (e : Engine σ N L) {w : World σ N L}
    (free : ∀ p ∈ w.processors.level, p.Obeys LevelEdit.QueueFree) (s : σ) :
    Hierarchy.Levelwise (Level.Limited e.config.stream e.tick) w.hierarchy
      (e.streamWorld w s).2.1.hierarchy := by
  rw [streamWorld_world, World.levelWorkerPhase_eq]
  refine forall₂_sweep (fun l _ s => ?_) s
  let worked := runLevelBatch w.processors.level ((w.batchContext .level).atLevel l.index) l s
  have before : Level.Queued [] [] l worked.1 := Level.runLevelBatch_queued free _ l s
  obtain ⟨creates, unloads, queued, few, rare⟩ := Level.stream_limited e.config.stream e.loaderList
    e.tick e.now w.config.evictionTimeout worked.1
  rw [before.index] at few rare
  exact ⟨creates, unloads, before.after queued, few, rare⟩

theorem tickRegions_turns (e : Engine σ N L) {w : World σ N L}
    (obey : w.processors.Obey fun _ => True) (regions : ∀ r ∈ w.regions, r.Reached fun _ => True)
    (s : σ) :
    List.Forall₂ (e.Turns w) w.regions (e.tickRegions w s).2.1.regions := by
  have each : ∀ r ∈ w.regions, ∀ s, e.Turns w r
      (w.workRegion (Region.stream e.config.stream e.tick e.now) r s).2.1 := by
    intro r mem s
    let worked := runRegionBatch w.processors.region (w.batchContext .region) r s
    have batch : worked.1.Reached fun _ => True :=
      runRegionBatch_reached obey.region (w.batchContext .region) (regions r mem) s
    have turn := batch.turn e.config.stream e.tick e.now w.processors.toNodeProcessors w.tick w.now
      w.config.evictionTimeout worked.2
    refine ⟨s, turn, ?_⟩
    unfold World.workRegion
    simp only
  rw [tickRegions_world, World.regionWorkerPhase_eq]
  exact forall₂_sweep each s

end Engine

/-- In a tick, with level processors that queue nothing, the level workers of a world queue on each
of its levels no more than the budgets of the configuration allow, and nothing on a level that is
not due. So do the requests of the regions' loaders. The evictions of regions are bound by neither:
they queue the unused nodes of every level, all of them. -/
theorem tick_queues_within_limits {e : Engine σ N L} (reached : e.Reached fun _ => True)
    (ready : e.cursor.expected = .loader) {k : Nat} {w : World σ N L} (at_ : e.worlds[k]? = some w)
    (free : ∀ p ∈ w.processors.level, p.Obeys LevelEdit.QueueFree) (elapsed : Duration) (s : σ) :
    ∃ w₁ w₂ w₃, e.Leaves elapsed s [.loader] k w₁ ∧
      e.Leaves elapsed s [.loader, .levelWorker] k w₂ ∧
      e.Leaves elapsed s [.loader, .levelWorker, .regionWorker] k w₃ ∧
      Hierarchy.Levelwise (Level.Limited e.config.stream e.tick) w₁.hierarchy w₂.hierarchy ∧
      List.Forall₂ (e.Turns w₂) w₂.regions w₃.regions := by
  have start : e.Stands elapsed s [] .loader k w := ⟨e, s, rfl, rfl, ready, at_⟩
  obtain ⟨w₁, stands₁, stamps⟩ := start.step (by decide)
  obtain ⟨w₂, stands₂, streams⟩ := stands₁.step (by decide)
  obtain ⟨w₃, stands₃, ticks⟩ := stands₂.step (by decide)
  refine ⟨w₁, w₂, w₃, stands₁.leaves, stands₂.leaves, stands₃.leaves, ?_, ?_⟩
  · have keeps : w₁.processors = w.processors := stamps.keeps.1
    obtain ⟨t, rfl⟩ := streams
    exact e.streamWorld_limited (by rw [keeps]; exact free) t
  · have reached₁ := stamps.reached (reached.worlds w (List.mem_of_getElem? at_))
    have sound := (streams.reached reached₁).sound (.trivial _)
    obtain ⟨t, rfl⟩ := ticks
    exact e.tickRegions_turns sound.obey sound.regions t

/-- An engine whose only world has a region with two loaded nodes on level 1, untouched for longer
than the timeout. Level 1 is not due on the first tick, and no level may ever queue more than one
unload; a loader covers 27 cells of level 0, which is due and may queue two creates. -/
def abandoned : Engine Unit Unit Unit :=
  let config : EngineConfig := { stream :=
    { levelTickInterval := 2, createBudget := some 2, unloadBudget := some 1 } }
  let furnish (r : Region Unit Unit) : Region Unit Unit :=
    let r := (r.loadNode ⟨⟨0, 0, 0⟩, 1⟩ SimTime.zero).2
    let r := (r.loadNode ⟨⟨5, 0, 0⟩, 1⟩ SimTime.zero).2
    (r.tick {} 0 SimTime.zero Duration.zero ()).2.1
  let w : World Unit Unit Unit :=
    ((World.empty default { levelCount := 2 } PayloadFactory.plain).addRegion ⟨1⟩
      Box.everything).modifyRegion ⟨1⟩ furnish
  ((({ config, threads := 1 } : Engine Unit Unit Unit).insertWorld w).addLoader default
    {}).advanceTime (Duration.ofSeconds 21)

theorem abandoned_reached : abandoned.Reached fun _ => True := by
  have none : ({} : NodeProcessors Unit Unit Unit).Obey fun _ => True := ⟨nofun, nofun, nofun⟩
  refine ((Engine.Reached.insertWorld (.start _ _) ?_).addLoader _ _).advanceTime _
  refine ((World.Reached.empty _ _ _).addRegion _ _).modifyRegion _ fun r reached => ?_
  exact ((reached.loadNode _ _).loadNode _ _).tick none _ _ _ _

/-- The world when the level workers of the first tick are done. -/
def abandonedWorld : World Unit Unit Unit :=
  (abandoned.streamWorld (abandoned.stampWorld (abandoned.worlds.head (by decide))) ()).2.1

theorem abandoned_leaves :
    abandoned.Leaves Duration.zero () [.loader, .levelWorker] 0 abandonedWorld := by
  have start : abandoned.Stands Duration.zero () [] .loader 0 (abandoned.worlds.head (by decide)) :=
    ⟨_, _, rfl, rfl, rfl, rfl⟩
  obtain ⟨w₁, stands₁, stamps⟩ := start.step (by decide)
  obtain ⟨w₂, stands₂, ⟨⟩, streams⟩ := stands₁.step (by decide)
  obtain rfl : w₁ = _ := stamps
  obtain rfl : w₂ = abandonedWorld := streams
  exact stands₂.leaves

/-- The first tick of the engine requests two cells for the world itself, of the 27 that its loader
covers. -/
theorem tick_queues_of_abandoned :
    abandoned.Reached (fun _ => True) ∧ abandoned.cursor.expected = .loader ∧
      (abandonedWorld.hierarchy.pending 0 .create).length = 2 ∧
      ∃ w₁ w₃, abandoned.Leaves Duration.zero () [.loader] 0 w₁ ∧
        abandoned.Leaves Duration.zero () [.loader, .levelWorker, .regionWorker] 0 w₃ ∧
        Hierarchy.Levelwise (Level.Limited abandoned.config.stream 0) w₁.hierarchy
          abandonedWorld.hierarchy ∧
        List.Forall₂ (abandoned.Turns abandonedWorld) abandonedWorld.regions w₃.regions := by
  have ready : abandoned.cursor.expected = .loader := rfl
  obtain ⟨w, at_⟩ : ∃ w, abandoned.worlds[0]? = some w := ⟨_, rfl⟩
  have none : w.processors = {} := by
    obtain rfl := Option.some.inj at_
    rfl
  have free : ∀ p ∈ w.processors.level, p.Obeys LevelEdit.QueueFree := by
    rw [none]
    exact nofun
  obtain ⟨w₁, w₂, w₃, first, second, third, limited, turns⟩ :=
    tick_queues_within_limits abandoned_reached ready at_ free Duration.zero ()
  obtain rfl : w₂ = abandonedWorld := second.unique abandoned_leaves
  exact ⟨abandoned_reached, ready, by decide +kernel, w₁, w₃, first, third, limited, turns⟩

/-- In the same tick the region's eviction queues both of its nodes, on a level that is not due and
that might queue one of them if it were. -/
theorem eviction_exceeds_limits :
    let config := abandoned.config.stream
    let w := abandonedWorld
    config.levelDue abandoned.tick 1 = false ∧ config.unloadBudget = some 1 ∧
      abandoned.Reached (fun _ => True) ∧ abandoned.cursor.expected = .loader ∧
      abandoned.Leaves Duration.zero () [.loader, .levelWorker] 0 w ∧
      w.processors.level.length = 0 ∧ w.processors.region.length = 0 ∧ ∃ r ∈ w.regions,
        let asked := (r.stream config abandoned.tick abandoned.now).2
        let flushed := (asked.flushChanged w.processors.toNodeProcessors w.tick w.now ()).2.1
        let evicted := (flushed.evictExpired w.now w.config.evictionTimeout).2
        flushed.hierarchy.pending 1 .unload = [] ∧
          evicted.hierarchy.pending 1 .unload = [⟨⟨0, 0, 0⟩, 1⟩, ⟨⟨5, 0, 0⟩, 1⟩] ∧
          ¬ Hierarchy.Levelwise (Level.Limited config abandoned.tick) flushed.hierarchy
            evicted.hierarchy := by
  intro config w
  have early : config.levelDue abandoned.tick 1 = false := by decide
  refine ⟨early, rfl, abandoned_reached, rfl, abandoned_leaves, rfl, rfl, _, List.mem_cons_self, ?_⟩
  intro asked flushed evicted
  have before : flushed.hierarchy.pending 1 .unload = [] := by decide +kernel
  have after : evicted.hierarchy.pending 1 .unload = [⟨⟨0, 0, 0⟩, 1⟩, ⟨⟨5, 0, 0⟩, 1⟩] := by
    decide +kernel
  refine ⟨before, after, fun limited => ?_⟩
  obtain ⟨l, stored⟩ : ∃ l, flushed.hierarchy.level? 1 = some l := ⟨_, rfl⟩
  obtain ⟨m, stored', creates, unloads, queued, -, rare⟩ := limited.level? stored
  have index : l.index = 1 := by
    have numbered : (flushed.hierarchy.level? 1).map (·.index) = some 1 := by decide +kernel
    rw [stored] at numbered
    exact Option.some.inj numbered
  rw [Hierarchy.pending_of_level? stored] at before
  rw [Hierarchy.pending_of_level? stored', queued.pending_unload, before, List.nil_append] at after
  rw [index, after, StreamConfig.Allows, early, if_neg Bool.false_ne_true] at rare
  cases rare

end OctreeWorld
