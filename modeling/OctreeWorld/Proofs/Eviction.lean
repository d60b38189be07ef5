import OctreeWorld.Proofs.Coverage

/-!
# What eviction takes

Eviction goes by the observers and the time stamp of a node, its tenure. As long as processors leave
states, stamps and queues alone, a tick keeps the tenure of every node that no loader covers, so an
unused leaf is queued for unloading as soon as its level is due, and gone at the end of that tick
unless it has gained a child. What a tick creates are ancestors of cells that loaders cover.
-/

namespace OctreeWorld

variable {N L σ : Type}

/-! ### Processors that leave nodes as they are used -/

theorem Processor.Obeys.mono {V E : Type} {may must : E → Prop} {p : Processor σ V E}
    (obeys : p.Obeys may) (weaker : ∀ e, may e → must e) : p.Obeys must :=
  fun ctx v s e listed => weaker e (obeys ctx v s e listed)

theorem NodeProcessors.Obey.mono {may must : NodeEdit N L → Prop} {ps : NodeProcessors σ N L}
    (obey : ps.Obey may) (weaker : ∀ e, may e → must e) : ps.Obey must :=
  ⟨fun p listed => (obey.load p listed).mono weaker,
    fun p listed => (obey.unload p listed).mono weaker,
    fun p listed => (obey.tick p listed).mono weaker⟩

/-- Edits that leave states and time stamps alone. -/
def NodeEdit.Still (e : NodeEdit N L) : Prop := e.Calm ∧ ∀ now, e ≠ .touch now

/-- Edits of a level that leave states, time stamps and commands alone. -/
def LevelEdit.Still : LevelEdit N L → Prop
  | .setData _ => True
  | .push _ _ => False
  | .node _ e => e.Still

theorem LevelEdit.Still.calm {e : LevelEdit N L} (still : e.Still) : e.Calm := by
  cases e with
  | setData d => trivial
  | push q c => exact still
  | node c e => exact still.1

theorem LevelEdit.Calm.allowed {e : LevelEdit N L} (calm : e.Calm) : e.Allowed NodeEdit.Calm := by
  cases e with
  | node c e => exact calm
  | _ => trivial

/-- Processors that touch neither states nor time stamps nor queues. -/
structure ProcessorRegistry.Still (ps : ProcessorRegistry σ N L) : Prop where
  node : ps.toNodeProcessors.Obey NodeEdit.Still
  level : ∀ p ∈ ps.level, p.Obeys LevelEdit.Still

namespace ProcessorRegistry.Still

variable {ps : ProcessorRegistry σ N L}

theorem calm (still : ps.Still) : ps.toNodeProcessors.Obey NodeEdit.Calm :=
  still.node.mono fun _ => And.left

theorem calm_level (still : ps.Still) : ∀ p ∈ ps.level, p.Obeys LevelEdit.Calm :=
  fun p listed => (still.level p listed).mono fun _ => LevelEdit.Still.calm

theorem allowed (still : ps.Still) : ∀ p ∈ ps.level, p.Obeys (LevelEdit.Allowed NodeEdit.Calm) :=
  fun p listed => (still.calm_level p listed).mono fun _ => LevelEdit.Calm.allowed

end ProcessorRegistry.Still

/-! ### Tenure -/

/-- What eviction goes by besides the links and the state of a node. -/
def Node.tenure (n : Node N) : UInt32 × SimTime := (n.observers, n.lastUpdate)

/-- Whether a node is unused shows in its links, its state and its tenure. -/
theorem Node.isUnused_congr {n m : Node N} (links : m.links = n.links) (state : m.state = n.state)
    (tenure : m.tenure = n.tenure) (now : SimTime) (timeout : Duration) :
    m.isUnused now timeout = n.isUnused now timeout := by
  obtain ⟨observers, stamp⟩ := Prod.ext_iff.mp tenure
  have observers : m.observers = n.observers := observers
  have stamp : m.lastUpdate = n.lastUpdate := stamp
  have children : m.childMask = n.childMask := (Node.links_eq_iff.mp links).2.2.1
  simp only [isUnused, isLeaf, isExpired, observers, stamp, children, state]

theorem Node.Edited.tenure {n m : Node N} (edited : Node.Edited (NodeEdit.Still (L := L)) n m) :
    m.tenure = n.tenure := by
  refine edited.keeps fun e still n => ?_
  cases e with
  | touch now => exact absurd rfl (still.2 now)
  | _ => rfl

namespace Level

/-- The tenure of the node at a coordinate. -/
def tenure (l : Level N L) (c : Coord) : Option (UInt32 × SimTime) := (l.get? c).map Node.tenure

variable {l m : Level N L} {c : Coord}

theorem tenure_of_get? {n : Node N} (found : l.get? c = some n) : l.tenure c = some n.tenure := by
  rw [tenure, found, Option.map_some]

theorem Edited.tenure {cs : List Coord} (edited : l.Edited NodeEdit.Still cs m) (c : Coord) :
    m.tenure c = l.tenure c :=
  edited.map_eq (fun _ _ => Node.Edited.tenure) c

theorem tenure_withState (l : Level N L) (cs : List Coord) (s : NodeState) (c : Coord) :
    (l.modifyAll cs (·.withState s)).tenure c = l.tenure c :=
  map_get?_modifyAll l cs (f := (·.withState s)) (fun _ => rfl) c

theorem tenure_load {ps : List (NodeProcessor σ N L)} (obeys : ∀ p ∈ ps, p.Obeys NodeEdit.Still)
    (ctx : BatchContext) (l : Level N L) (s : σ) (c : Coord) :
    (l.load ps ctx s).2.1.tenure c = l.tenure c :=
  (tenure_withState _ _ .loaded c).trans
    ((runNodeBatch_edited obeys ctx (l.clear .load) _ s).tenure c)

theorem tenure_tick {ps : List (NodeProcessor σ N L)} (obeys : ∀ p ∈ ps, p.Obeys NodeEdit.Still)
    (ctx : BatchContext) (l : Level N L) (s : σ) (c : Coord) :
    (l.tick ps ctx s).2.1.tenure c = l.tenure c :=
  (tick_edited obeys ctx l s).tenure c

theorem tenure_unload {ps : List (NodeProcessor σ N L)} (obeys : ∀ p ∈ ps, p.Obeys NodeEdit.Still)
    (ctx : BatchContext) (l : Level N L) (s : σ) (c : Coord) :
    (l.unload ps ctx s).2.1.tenure c = l.tenure c := by
  obtain ⟨spared, worked, h₁, h₂, result⟩ := unload_eq ps ctx l s
  have edited : spared.Edited NodeEdit.Still l.retiring worked := by
    rw [h₂]
    exact runNodeBatch_edited obeys ctx spared _ s
  calc (l.unload ps ctx s).2.1.tenure c
      = (worked.modifyAll l.retiring (·.withState .deleting)).tenure c := by rw [result]; rfl
    _ = worked.tenure c := tenure_withState worked _ .deleting c
    _ = spared.tenure c := edited.tenure c
    _ = (l.clear .unload).tenure c := by rw [h₁, tenure_withState]

theorem tenure_runLevelBatch {ps : List (LevelProcessor σ N L)}
    (obeys : ∀ p ∈ ps, p.Obeys LevelEdit.Still) (ctx : BatchContext) (l : Level N L) (s : σ)
    (c : Coord) : (runLevelBatch ps ctx l s).1.tenure c = l.tenure c := by
  have edit : ∀ u ∈ [()], ∀ l : Level N L, ∀ e : LevelEdit N L, e.Still →
      (levelAddressing.edit u l e).tenure c = l.tenure c := by
    intro u _ l e still
    cases e with
    | setData d => rfl
    | push q x => exact still.elim
    | node x e =>
      have edited : l.Edited NodeEdit.Still [x] (l.editNode x e) :=
        .editNode l List.mem_cons_self still
      exact edited.tenure c
  have respects : levelAddressing.Respects LevelEdit.Still [()]
      (fun l m : Level N L => m.tenure c = l.tenure c) :=
    ⟨fun _ => rfl, fun _ _ _ first second => second.trans first, edit⟩
  exact respects.runBatch obeys ctx l s

theorem tenure_stream (config : StreamConfig) (loaders : List Loader) (tick : UInt64)
    (now : SimTime) (timeout : Duration) (l : Level N L) (c : Coord) :
    (l.stream config loaders tick now timeout).2.tenure c = l.tenure c := by
  unfold Level.stream
  split
  · exact tenure_withState (l.requestLoads loaders tick config.createBudget).2 _ .unloading c
  · rfl

end Level

namespace Hierarchy

/-- The tenure of the node at a coordinate. -/
def tenure (h : Hierarchy N L) (c : Coord) : Option (UInt32 × SimTime) :=
  (h.get? c).map Node.tenure

variable {h g : Hierarchy N L} {c : Coord}

theorem tenure_of_get? {n : Node N} (found : h.get? c = some n) : h.tenure c = some n.tenure := by
  rw [tenure, found, Option.map_some]

theorem isSome_tenure (h : Hierarchy N L) (c : Coord) : (h.tenure c).isSome = h.contains c := by
  simp [tenure, contains]

theorem tenure_congr (same : g.body c = h.body c) : g.tenure c = h.tenure c := by
  have back : ∀ k : Hierarchy N L, k.tenure c = (k.body c).map Node.tenure := by
    intro k
    rw [tenure, body, Option.map_map]
    rfl
  rw [back, back, same]

theorem Levelwise.tenure (rel : Levelwise (fun l m => m.tenure c = l.tenure c) h g) :
    g.tenure c = h.tenure c := by
  rcases rel.get? c with ⟨absent, absent'⟩ | ⟨l, m, same, -, -, here, here'⟩
  · rw [Hierarchy.tenure, Hierarchy.tenure, absent, absent']
  · rw [Hierarchy.tenure, Hierarchy.tenure, here, here']
    exact same

end Hierarchy

namespace Level

theorem tenure_keepAlive {loader : Loader} {l : Level N L} {c : Coord}
    (away : c ∉ loader.cells l.index) (now : SimTime) :
    (l.keepAlive loader now).2.tenure c = l.tenure c := by
  have result : (l.keepAlive loader now).2 =
      l.modifyAll ((loader.cells l.index).filter l.contains) (·.touch now) := rfl
  have other : c ∉ (loader.cells l.index).filter l.contains :=
    fun listed => away (List.mem_filter.mp listed).1
  rw [tenure, tenure, result, get?_modifyAll _ _ fun n => touch_touch n now, if_neg other]

end Level

namespace Hierarchy

theorem Numbered.tenure_keepAliveAll {h : Hierarchy N L} (num : h.Numbered) (now : SimTime)
    {loaders : List Loader} {c : Coord} (away : ∀ ld ∈ loaders, c ∉ ld.cells c.level) :
    (keepAliveAll now loaders h).2.tenure c = h.tenure c := by
  induction loaders generalizing h with
  | nil => rfl
  | cons ld lds ih =>
    have stamps : Levelwise (fun l m => m = (l.keepAlive ld now).2) h (h.keepAlive ld now).2 :=
      levelwise_map h fun _ => rfl
    have retouched : Levelwise Level.Retouched h (h.keepAlive ld now).2 :=
      levelwise_map h (Level.keepAlive_retouched ld now)
    have first : (h.keepAlive ld now).2.tenure c = h.tenure c := by
      rcases stamps.get? c with ⟨absent, absent'⟩ | ⟨l, m, step, stored, -, here, here'⟩
      · rw [tenure, tenure, absent, absent']
      · rw [tenure, tenure, here, here', step]
        refine Level.tenure_keepAlive ?_ now
        rw [num.index _ l stored]
        exact away ld List.mem_cons_self
    have rest := ih (retouched.numbered (fun _ _ step => step.index) num)
      fun ld listed => away ld (List.mem_cons_of_mem _ listed)
    exact rest.trans first

end Hierarchy

/-! ### Phases -/

namespace Engine

variable {e : Engine σ N L} {w w' : World σ N L}

theorem Ran.split {ps qs : List Phase} (ran : e.Ran (ps ++ qs) w w') :
    ∃ v, e.Ran ps w v ∧ e.Ran qs v w' := by
  induction ps generalizing w with
  | nil => exact ⟨w, rfl, ran⟩
  | cons p ps ih =>
    obtain ⟨v, works, rest⟩ := ran
    obtain ⟨u, early, late⟩ := ih rest
    exact ⟨u, ⟨v, works, early⟩, late⟩

/-- The hierarchy evolves with every phase. -/
theorem Works.evolved {may : NodeEdit N L → Prop} {p : Phase} (works : e.Works p w w')
    (linked : w.hierarchy.Linked) (node : w.processors.toNodeProcessors.Obey may)
    (level : ∀ p ∈ w.processors.level, p.Obeys (LevelEdit.Allowed may)) :
    Hierarchy.Evolved may w.hierarchy w'.hierarchy := by
  have of_called : ∀ {g : Hierarchy N L}, Hierarchy.Levelwise (Level.Called may) w.hierarchy g →
      Hierarchy.Evolved may w.hierarchy g :=
    fun called => .steps (called.imp fun _ _ => Level.Stepped.of_called)
  cases p with
  | loader =>
    rw [show w' = e.stampWorld w from works]
    exact of_called (Hierarchy.keepAliveAll_levelwise e.now e.loaderList w.hierarchy)
  | levelWorker =>
    obtain ⟨s, rfl⟩ := works
    rw [streamWorld_world]
    exact of_called (World.levelWorkerPhase_called level (Level.stream_called _ _ _ _ _) s)
  | regionWorker =>
    obtain ⟨s, rfl⟩ := works
    rw [tickRegions_world, World.regionWorkerPhase_eq]
    exact .refl _
  | worldWorker =>
    obtain ⟨s, rfl⟩ := works
    exact w.drainLevels_evolved .tick (fun ctx l s => .tick node.tick ctx s) s
  | create =>
    rw [show w' = w.createPhase.2 from works]
    exact linked.createPending_evolved w.factory w.now
  | load =>
    obtain ⟨s, rfl⟩ := works
    exact w.drainLevels_evolved .load (fun ctx l s => .load node.load ctx s) s
  | unload =>
    obtain ⟨s, rfl⟩ := works
    exact w.drainLevels_evolved .unload (fun ctx l s => .unload node.unload ctx s) s
  | destroy =>
    obtain ⟨s, rfl⟩ := works
    exact linked.destroyPending_evolved _ _ s
  | finish =>
    rw [show w' = w from works]
    exact .refl _

theorem Ran.evolved {may : NodeEdit N L → Prop} {ps : List Phase} (ran : e.Ran ps w w')
    (linked : w.hierarchy.Linked) (node : w.processors.toNodeProcessors.Obey may)
    (level : ∀ p ∈ w.processors.level, p.Obeys (LevelEdit.Allowed may)) :
    Hierarchy.Evolved may w.hierarchy w'.hierarchy := by
  induction ps generalizing w with
  | nil =>
    rw [show w' = w from ran]
    exact .refl _
  | cons p ps ih =>
    obtain ⟨v, works, rest⟩ := ran
    have first := works.evolved linked node level
    have keeps : v.processors = w.processors := works.keeps.1
    exact first.trans (ih rest (first.linked linked) (by rw [keeps]; exact node)
      (by rw [keeps]; exact level))

/-- A tick of a settled world settles it again. -/
theorem Ran.settled_tick (ran : e.Ran (Phase.sequence 9 .loader) w w')
    (reached : w.Reached fun _ => True) (still : w.processors.Still)
    (settled : w.hierarchy.Settled) : w'.hierarchy.Settled := by
  have linked := (reached.sound (.trivial _)).linked
  have attended : w.hierarchy.Attended := by
    intro c n found
    rw [settled.loaded c n found]
    exact .loaded _ c
  have evolved := ran.evolved linked still.calm still.allowed
  have drained := ran.drained reached
  exact (Hierarchy.attended_kept.evolved evolved linked attended).2.settled
    fun i q => drained.empty q (by cases q <;> decide) i

/-- A phase keeps the tenure of a resident that no loader covers, or is the one that destroys. -/
theorem Works.tenure {p : Phase} (works : e.Works p w w') (linked : w.hierarchy.Linked)
    (still : w.processors.Still) {c : Coord} (uncovered : ¬ e.Covers c)
    (resident : w.hierarchy.contains c = true) (early : p ≠ .destroy) :
    w'.hierarchy.tenure c = w.hierarchy.tenure c := by
  cases p with
  | loader =>
    rw [show w' = e.stampWorld w from works]
    exact linked.numbered.tenure_keepAliveAll e.now
      fun ld listed covered => uncovered ⟨ld, listed, covered⟩
  | levelWorker =>
    obtain ⟨s, rfl⟩ := works
    rw [streamWorld_world, World.levelWorkerPhase_eq]
    refine Hierarchy.Levelwise.tenure (forall₂_sweep (fun l _ s => ?_) s)
    exact (Level.tenure_stream _ _ _ _ _ _ c).trans
      (Level.tenure_runLevelBatch still.level _ l s c)
  | regionWorker =>
    obtain ⟨s, rfl⟩ := works
    rw [tickRegions_world, World.regionWorkerPhase_eq]
  | worldWorker =>
    obtain ⟨s, rfl⟩ := works
    exact (w.drainLevels_levelwise .tick
      (fun ctx l s => Level.tenure_tick still.node.tick ctx l s c) s).tenure
  | create =>
    obtain ⟨created, grown, -⟩ := World.createPhase_grown linked
    rw [show w' = w.createPhase.2 from works]
    exact Hierarchy.tenure_congr (grown.old resident)
  | load =>
    obtain ⟨s, rfl⟩ := works
    exact (w.drainLevels_levelwise .load
      (fun ctx l s => Level.tenure_load still.node.load ctx l s c) s).tenure
  | unload =>
    obtain ⟨s, rfl⟩ := works
    exact (w.drainLevels_levelwise .unload
      (fun ctx l s => Level.tenure_unload still.node.unload ctx l s c) s).tenure
  | destroy => exact absurd rfl early
  | finish => rw [show w' = w from works]

theorem Ran.tenure {ps : List Phase} (ran : e.Ran ps w w') (linked : w.hierarchy.Linked)
    (still : w.processors.Still) {c : Coord} (uncovered : ¬ e.Covers c)
    (resident : w.hierarchy.contains c = true) (early : .destroy ∉ ps) :
    w'.hierarchy.tenure c = w.hierarchy.tenure c := by
  induction ps generalizing w with
  | nil => rw [show w' = w from ran]
  | cons p ps ih =>
    obtain ⟨v, works, rest⟩ := ran
    have first := works.tenure linked still uncovered resident
      fun same => early (same ▸ List.mem_cons_self)
    have here : v.hierarchy.contains c = true := by
      rw [← Hierarchy.isSome_tenure, first, Hierarchy.isSome_tenure]
      exact resident
    have evolved := works.evolved linked still.calm still.allowed
    have keeps : v.processors = w.processors := works.keeps.1
    exact (ih rest (evolved.linked linked) (by rw [keeps]; exact still) here
      fun listed => early (List.mem_cons_of_mem _ listed)).trans first

end Engine

/-! ### What is evicted -/

namespace Level

/-- Without a budget a due level queues every unused node for unloading. -/
theorem evicted_stream {config : StreamConfig} {tick : UInt64} {l : Level N L} {c : Coord}
    {n : Node N} {now : SimTime} {timeout : Duration} (due : config.levelDue tick l.index = true)
    (unlimited : config.unloadBudget = none) (found : l.get? c = some n) (place : n.coord = c)
    (unused : n.isUnused now timeout = true) (loaders : List Loader) :
    c ∈ (l.stream config loaders tick now timeout).2.pending .unload := by
  let asking := (l.requestLoads loaders tick config.createBudget).2
  let idle := (asking.nodeList.filter (·.isUnused now timeout)).map (·.coord)
  have result : (l.stream config loaders tick now timeout).2 =
      (asking.modifyAll (takeBudget config.unloadBudget (byPosition idle))
        (·.withState .unloading)).pushAll .unload
          (takeBudget config.unloadBudget (byPosition idle)) := by
    rw [Level.stream, if_pos due]
    rfl
  have chosen : c ∈ takeBudget config.unloadBudget (byPosition idle) := by
    rw [unlimited]
    refine List.mem_mergeSort.mpr (List.mem_map.mpr ⟨n, List.mem_filter.mpr ⟨?_, unused⟩, place⟩)
    exact mem_nodeList.mpr ⟨c.pos, (get?_eq_some_iff.mp found).2⟩
  rw [result, pending_pushAll, if_pos rfl]
  refine List.mem_append_right _ (mem_own.mpr ⟨chosen, ?_⟩)
  rw [index_modifyAll]
  exact level_eq_of_get? found

end Level

namespace Engine

variable {e : Engine σ N L} {w w' : World σ N L}

/-- The level workers queue every unused node of a due level for unloading. -/
theorem Works.evicted (works : e.Works .levelWorker w w') (linked : w.hierarchy.Linked)
    (still : w.processors.Still) (unlimited : e.config.stream.unloadBudget = none) {c : Coord}
    (due : e.config.stream.levelDue e.tick c.level = true) {n : Node N}
    (found : w.hierarchy.get? c = some n)
    (unused : n.isUnused e.now w.config.evictionTimeout = true) :
    c ∈ w'.hierarchy.pending c.level .unload := by
  obtain ⟨s, rfl⟩ := works
  rw [streamWorld_world, World.levelWorkerPhase_eq]
  have rel : Hierarchy.Levelwise (fun l m => l.index = c.level → l.get? c = some n →
      c ∈ m.pending .unload) w.hierarchy ⟨(sweep (w.workLevel (Level.stream e.config.stream
        e.loaderList e.tick e.now w.config.evictionTimeout)) w.hierarchy.levels s).2.1⟩ := by
    refine forall₂_sweep (fun l _ s index here => ?_) s
    have worked := Level.runLevelBatch_retouched still.calm_level
      ((w.batchContext .level).atLevel l.index) l s
    obtain ⟨m, found', links, state⟩ := worked.moved.of_some here
    have tenure := Level.tenure_runLevelBatch still.level
      ((w.batchContext .level).atLevel l.index) l s c
    rw [Level.tenure_of_get? found', Level.tenure_of_get? here, Option.some.injEq] at tenure
    refine Level.evicted_stream ?_ unlimited found' ?_ ?_ _
    · rw [worked.index, index]
      exact due
    · exact (Node.links_eq_iff.mp links).1.trans (linked.placed c n found)
    · rw [Node.isUnused_congr links state tenure]
      exact unused
  obtain ⟨l, stored, here⟩ := Hierarchy.level?_of_get? found
  obtain ⟨m, stored', step⟩ := rel.level? stored
  rw [Hierarchy.pending_of_level? stored']
  exact step (linked.numbered.index _ l stored) here

/-- Up to creation nothing takes a command out of an unload queue. -/
theorem Ran.evicted (ran : e.Ran [.levelWorker, .regionWorker, .worldWorker, .create] w w')
    (reached : w.Reached fun _ => True) (still : w.processors.Still)
    (unlimited : e.config.stream.unloadBudget = none) {c : Coord}
    (due : e.config.stream.levelDue e.tick c.level = true) {n : Node N}
    (found : w.hierarchy.get? c = some n)
    (unused : n.isUnused e.now w.config.evictionTimeout = true) :
    c ∈ w'.hierarchy.pending c.level .unload := by
  obtain ⟨w₂, streams, w₃, ticks, w₄, works, w₅, creates, ends⟩ := ran
  have linked := (reached.sound (.trivial _)).linked
  have reached₄ := works.reached (ticks.reached (streams.reached reached))
  have queued := streams.evicted linked still unlimited due found unused
  obtain ⟨t, ticks⟩ := ticks
  obtain ⟨u, works⟩ := works
  have kept : w₄.hierarchy.pending c.level .unload = w₂.hierarchy.pending c.level .unload := by
    rw [works, World.pending_worldWorkerPhase, if_neg (by decide), ticks, tickRegions_world,
      World.regionWorkerPhase_eq]
  obtain ⟨created, grown, -⟩ := World.createPhase_grown (reached₄.sound (.trivial _)).linked
  rw [show w' = w₄.createPhase.2 from Eq.trans ends creates,
    grown.other _ .unload (by decide) (by decide), kept]
  exact queued

end Engine

/-- The unload phase queues the leaves it retires for destruction. -/
theorem World.destroy_of_retiring {w : World σ N L} {c : Coord} {n : Node N}
    (found : w.hierarchy.get? c = some n) (queued : c ∈ w.hierarchy.pending c.level .unload)
    (leaf : n.isLeaf = true) (live : n.state ≠ .deleting) (s : σ) :
    c ∈ (w.unloadPhase s).2.1.hierarchy.pending c.level .destroy := by
  have rel := w.drainLevels_levelwise
    (R := fun l m => m.pending .destroy = l.pending .destroy ++ l.retiring) .unload
    (fun ctx l s => Level.pending_unload w.processors.unload ctx l s .destroy) s
  obtain ⟨l, stored, here⟩ := Hierarchy.level?_of_get? found
  obtain ⟨m, stored', step⟩ := rel.level? stored
  have after : (w.unloadPhase s).2.1.hierarchy.pending c.level .destroy = m.pending .destroy :=
    Hierarchy.pending_of_level? stored' .destroy
  rw [Hierarchy.pending_of_level? stored] at queued
  rw [after, step]
  exact List.mem_append_right _ (Level.mem_retiring.mpr ⟨queued, n, here, live, leaf⟩)

namespace Engine

variable {e : Engine σ N L} {w w' : World σ N L}

/-- From loading on, a leaf that is queued for unloading and not deleting yet is removed. -/
theorem Ran.removed (ran : e.Ran [.load, .unload, .destroy, .finish] w w')
    (linked : w.hierarchy.Linked) (calm : w.processors.toNodeProcessors.Obey NodeEdit.Calm)
    {c : Coord} {n : Node N} (found : w.hierarchy.get? c = some n)
    (queued : c ∈ w.hierarchy.pending c.level .unload) (leaf : n.isLeaf = true)
    (live : n.state ≠ .deleting) : w'.hierarchy.contains c = false := by
  obtain ⟨w₁, w₂, ends⟩ := ran.ends linked calm
  obtain ⟨n₁, found₁, links₁, state₁⟩ := ends.loaded.of_some found
  obtain ⟨n₂, found₂, -⟩ := ends.unloaded.of_some found₁
  obtain ⟨s, unloaded⟩ := ends.unload
  have queued₁ : c ∈ w₁.hierarchy.pending c.level .unload := by
    rw [ends.pending _ .unload nofun]
    exact queued
  have leaf₁ : n₁.isLeaf = true := by
    rw [Node.isLeaf, (Node.links_eq_iff.mp links₁).2.2.1]
    exact leaf
  have live₁ : n₁.state ≠ .deleting := by
    rw [state₁, Hierarchy.loadedState]
    split
    · exact NodeState.noConfusion
    · exact live
  have doomed : c ∈ w₂.hierarchy.pending c.level .destroy := by
    rw [unloaded]
    exact World.destroy_of_retiring found₁ queued₁ leaf₁ live₁ s
  have resident : w₂.hierarchy.contains c = true := Hierarchy.contains_iff.mpr ⟨n₂, found₂⟩
  obtain ⟨s', destroyed⟩ := ends.destroy
  rw [destroyed]
  exact World.destroyPhase_gone ends.linked₂ resident doomed s'

/-- From loading on, no node appears. -/
theorem Ran.contains_back (ran : e.Ran [.load, .unload, .destroy, .finish] w w')
    (linked : w.hierarchy.Linked) (calm : w.processors.toNodeProcessors.Obey NodeEdit.Calm)
    {c : Coord} (resident : w'.hierarchy.contains c = true) :
    w.hierarchy.contains c = true := by
  obtain ⟨w₁, w₂, ends⟩ := ran.ends linked calm
  have before := ((ends.pruned.contains c).mp resident).1
  exact (ends.loaded.isSome c).symm.trans ((ends.unloaded.isSome c).symm.trans before)

end Engine

end OctreeWorld
