import OctreeWorld.Proofs.Reached
import OctreeWorld.Proofs.Streaming

/-!
# What a tick does for loaders

The phases of a tick are followed for one world through the hierarchies between them. As long as
processors leave states and queues alone, each phase changes states by a rule, and the only nodes
to go are leaves that eviction picked and that are leaves still when unloading comes to them.
-/

namespace OctreeWorld

variable {N L σ : Type}

/-! ### States by phase -/

namespace Hierarchy

/-- Levels that move by rules of their own move by the rule of the hierarchy. -/
theorem Levelwise.moved {R : Level N L → Level N L → Prop} {h g : Hierarchy N L}
    (rel : Levelwise R h g) {next : Coord → Node N → NodeState}
    (each : ∀ c l m, h.level? c.level = some l → R l m →
      (m.get? c).map Node.stage = (l.get? c).map fun n => (n.links, next c n)) :
    Moved next h.get? g.get? := by
  intro c
  rcases rel.get? c with ⟨absent, absent'⟩ | ⟨l, m, step, stored, -, here, here'⟩
  · rw [absent, absent']
    rfl
  · rw [here, here']
    exact each c l m stored step

/-- The state in which the load phase leaves a node. -/
def loadedState (h : Hierarchy N L) (c : Coord) (n : Node N) : NodeState :=
  if n.state = .loading ∧ c ∈ h.pending c.level .load then .loaded else n.state

/-- The state in which the unload phase leaves a node. -/
def unloadedState (h : Hierarchy N L) (c : Coord) (n : Node N) : NodeState :=
  if c ∈ h.pending c.level .unload ∧ n.state ≠ .deleting then
    if n.isLeaf then .deleting else .loaded
  else n.state

/-- A step on every level that dooms nobody but leaves of its unload queue, in a hierarchy where no
destruction is pending. -/
theorem Levelwise.destroy_back {h g : Hierarchy N L} (num : h.Numbered)
    (rel : Levelwise (fun l m => ∀ c ∈ m.pending .destroy, c ∈ l.pending .destroy ∨
      c ∈ l.pending .unload ∧ ∃ n, l.get? c = some n ∧ n.isLeaf = true) h g) {i : UInt8} {c : Coord}
    (idle : h.pending i .destroy = []) (queued : c ∈ g.pending i .destroy) :
    c ∈ h.pending c.level .unload ∧ ∃ n, h.get? c = some n ∧ n.isLeaf = true := by
  cases stored : g.level? i with
  | none =>
    rw [pending_of_level?_none stored] at queued
    cases queued
  | some m =>
    obtain ⟨l, before, step⟩ := rel.level?_back stored
    rw [pending_of_level? before] at idle
    rw [pending_of_level? stored] at queued
    rcases step c queued with old | ⟨named, n, found, leaf⟩
    · rw [idle] at old
      cases old
    · have level : c.level = i := (Level.level_eq_of_get? found).trans (num.index i l before)
      subst level
      rw [pending_of_level? before]
      exact ⟨named, n, (get?_of_level? before).trans found, leaf⟩

end Hierarchy

/-! ### The phases that drain levels -/

namespace World

variable {w : World σ N L}

theorem worldWorkerPhase_moved (obeys : ∀ p ∈ w.processors.tick, p.Obeys NodeEdit.Calm) (s : σ) :
    Moved (fun _ n => n.state) w.hierarchy.get? (w.worldWorkerPhase s).2.1.hierarchy.get? := by
  have rel := w.drainLevels_levelwise (R := fun l m => Moved (fun _ n => n.state) l.get? m.get?)
    .tick (fun ctx l s => (Level.tick_edited obeys ctx l s).moved) s
  exact rel.moved fun c l m _ moved => moved c

theorem loadPhase_moved (obeys : ∀ p ∈ w.processors.load, p.Obeys NodeEdit.Calm) (s : σ) :
    Moved w.hierarchy.loadedState w.hierarchy.get? (w.loadPhase s).2.1.hierarchy.get? := by
  have rel := w.drainLevels_levelwise (R := fun l m => Moved l.loadedState l.get? m.get?)
    .load (fun ctx l s => Level.load_moved obeys ctx l s) s
  refine rel.moved fun c l m stored moved => ?_
  rw [moved]
  simp only [Hierarchy.loadedState, Hierarchy.pending_of_level? stored, Level.loadedState]

theorem unloadPhase_moved (obeys : ∀ p ∈ w.processors.unload, p.Obeys NodeEdit.Calm) (s : σ) :
    Moved w.hierarchy.unloadedState w.hierarchy.get? (w.unloadPhase s).2.1.hierarchy.get? := by
  have rel := w.drainLevels_levelwise (R := fun l m => Moved l.unloadedState l.get? m.get?)
    .unload (fun ctx l s => Level.unload_moved obeys ctx l s) s
  refine rel.moved fun c l m stored moved => ?_
  rw [moved]
  simp only [Hierarchy.unloadedState, Hierarchy.pending_of_level? stored, Level.unloadedState]

/-- A phase that drains one queue of every level and fills none drains it in the hierarchy. -/
theorem pending_drainLevels {kind : CommandKind} {q : Queue}
    {step : BatchContext → Level N L → σ → Nat × Level N L × σ}
    (each : ∀ ctx l s p, (step ctx l s).2.1.pending p = if q = p then [] else l.pending p) (s : σ)
    (i : UInt8) (p : Queue) : (w.drainLevels kind step s).2.1.hierarchy.pending i p =
      if q = p then [] else w.hierarchy.pending i p := by
  have rel := w.drainLevels_levelwise
    (R := fun l m => m.pending p = if q = p then [] else l.pending p) kind
    (fun ctx l s => each ctx l s p) s
  exact rel.pending (f := fun cs => if q = p then [] else cs) (ite_self _) (fun _ _ same => same) i

theorem pending_worldWorkerPhase (s : σ) (i : UInt8) (q : Queue) :
    (w.worldWorkerPhase s).2.1.hierarchy.pending i q =
      if .tick = q then [] else w.hierarchy.pending i q :=
  pending_drainLevels (fun ctx l s p => Level.pending_tick _ ctx l s p) s i q

theorem pending_loadPhase (s : σ) (i : UInt8) (q : Queue) :
    (w.loadPhase s).2.1.hierarchy.pending i q =
      if .load = q then [] else w.hierarchy.pending i q :=
  pending_drainLevels (fun ctx l s p => Level.pending_load _ ctx l s p) s i q

theorem length_drainLevels (kind : CommandKind)
    (step : BatchContext → Level N L → σ → Nat × Level N L × σ) (s : σ) :
    (w.drainLevels kind step s).2.1.hierarchy.levels.length = w.hierarchy.levels.length :=
  (w.drainLevels_levelwise (R := fun _ _ => True) kind (fun _ _ _ => trivial) s).length_eq

/-- The unload phase queues for destruction the leaves it has drained, and nothing else. -/
theorem destroy_unloadPhase (num : w.hierarchy.Numbered) (s : σ) {i : UInt8} {c : Coord}
    (idle : w.hierarchy.pending i .destroy = [])
    (queued : c ∈ (w.unloadPhase s).2.1.hierarchy.pending i .destroy) :
    c ∈ w.hierarchy.pending c.level .unload ∧
      ∃ n, w.hierarchy.get? c = some n ∧ n.isLeaf = true := by
  refine Hierarchy.Levelwise.destroy_back num (w.drainLevels_levelwise .unload ?_ s) idle queued
  intro ctx l s c queued
  rw [Level.pending_unload, if_neg nofun, if_pos rfl] at queued
  refine (List.mem_append.mp queued).imp_right fun retired => ?_
  obtain ⟨named, n, found, -, leaf⟩ := Level.mem_retiring.mp retired
  exact ⟨named, n, found, leaf⟩

end World

/-! ### Stamps -/

namespace Hierarchy

variable {h g : Hierarchy N L} {now : SimTime} {loaders : List Loader}

theorem keepAliveAll_retouched (now : SimTime) (loaders : List Loader) (h : Hierarchy N L) :
    Levelwise Level.Retouched h (keepAliveAll now loaders h).2 := by
  induction loaders generalizing h with
  | nil => exact Levelwise.refl Level.Retouched.refl h
  | cons l ls ih =>
    have first : Levelwise Level.Retouched h (h.keepAlive l now).2 :=
      levelwise_map h (Level.keepAlive_retouched l now)
    exact first.trans (fun _ _ _ => Level.Retouched.trans) (ih _)

theorem Levelwise.retouched_back (rel : Levelwise Level.Retouched h g) {c : Coord} {n' : Node N}
    (found : g.get? c = some n') :
    ∃ n, h.get? c = some n ∧ Node.Edited (NodeEdit.Calm (L := L)) n n' := by
  rcases rel.get? c with ⟨-, absent⟩ | ⟨l, m, step, -, -, here, here'⟩
  · rw [absent] at found
    cases found
  · rw [here'] at found
    rw [here]
    exact step.back found

/-- Keep-alive stamps every node that some loader covers. -/
theorem stamped_keepAliveAll {c : Coord} {n : Node N}
    (found : (keepAliveAll now loaders h).2.get? c = some n) {ld : Loader} (mem : ld ∈ loaders)
    (covered : c ∈ ld.cells c.level) : now.micros ≤ n.lastUpdate.micros := by
  induction loaders generalizing h with
  | nil => cases mem
  | cons l ls ih =>
    rcases List.mem_cons.mp mem with rfl | mem
    · obtain ⟨m, before, edited⟩ := (keepAliveAll_retouched now ls _).retouched_back found
      refine UInt64.le_trans ?_ edited.lastUpdate_le
      have before : (h.keepAlive ld now).2.get? c = some m := before
      have stamps : Levelwise (fun l m => m = (l.keepAlive ld now).2) h (h.keepAlive ld now).2 :=
        levelwise_map h fun _ => rfl
      rcases stamps.get? c with ⟨-, absent⟩ | ⟨k, k', step, -, -, -, here⟩
      · rw [absent] at before
        cases before
      · rw [here, step] at before
        refine Level.stamped_keepAlive before ?_
        rw [← (Level.keepAlive_retouched ld now k).index, ← Level.level_eq_of_get? before]
        exact covered
    · exact ih found mem

/-! ### Requests and evictions -/

/-- What streaming every level did to a hierarchy whose unload queues were empty. -/
structure Streamed (config : StreamConfig) (loaders : List Loader) (tick : UInt64) (now : SimTime)
    (timeout : Duration) (h g : Hierarchy N L) : Prop where
  length : g.levels.length = h.levels.length
  node : Moved (fun c n => if c ∈ g.pending c.level .unload then .unloading else n.state)
    h.get? g.get?
  pending : ∀ i q, q ≠ .tick → q ≠ .create → q ≠ .unload → g.pending i q = h.pending i q
  unused : ∀ i, ∀ c ∈ g.pending i .unload,
    ∃ n, h.get? c = some n ∧ n.isUnused now timeout = true
  served : ∀ i < h.levelCount, ∃ requested : List Coord, requested.Nodup ∧
    (∀ c ∈ requested, c ∈ g.pending i .create ∧ c.level = i ∧ h.contains c = false ∧
      ∃ ld ∈ loaders, ld.isActive tick = true ∧ c ∈ ld.cells i) ∧
    (config.levelDue tick i = true →
      (∀ c, (∃ ld ∈ loaders, ld.isActive tick = true ∧ c ∈ ld.cells i) →
        h.contains c = false → c ∈ requested) ∨
      ∃ b, config.createBudget = some b ∧ b.toNat ≤ requested.length)

section Streamed

variable {config : StreamConfig} {tick : UInt64} {timeout : Duration}

/-- What was evicted from a level is what is queued for unloading there. -/
theorem pending_of_streamed {i : UInt8} {l m : Level N L} {requested evicted : List Coord}
    (idle : h.pending i .unload = []) (stored : h.level? i = some l) (stored' : g.level? i = some m)
    (streamed : Level.Streamed config loaders tick now timeout requested evicted l m) :
    g.pending i .unload = evicted := by
  rw [pending_of_level? stored] at idle
  rw [pending_of_level? stored', streamed.pending .unload, if_neg (by decide), if_pos rfl, idle,
    List.nil_append]

theorem streamed_of_levelwise (num : h.Numbered) (idle : ∀ i, h.pending i .unload = [])
    (rel : Levelwise (fun l m => ∃ requested evicted,
      Level.Streamed config loaders tick now timeout requested evicted l m) h g) :
    Streamed config loaders tick now timeout h g := by
  refine ⟨rel.length_eq, ?_, ?_, ?_, ?_⟩
  · intro c
    rcases rel.get? c with ⟨absent, absent'⟩ |
      ⟨l, m, ⟨requested, evicted, streamed⟩, stored, stored', here, here'⟩
    · rw [absent, absent']
      rfl
    · rw [here, here', streamed.node]
      simp only [pending_of_streamed (idle _) stored stored' streamed]
  · intro i q _ create other
    refine rel.pending (f := fun cs => cs) rfl (fun l m => ?_) i
    rintro ⟨requested, evicted, streamed⟩
    rw [streamed.pending, if_neg create, if_neg other]
  · intro i c queued
    cases stored' : g.level? i with
    | none =>
      rw [pending_of_level?_none stored'] at queued
      cases queued
    | some m =>
      obtain ⟨l, stored, requested, evicted, streamed⟩ := rel.level?_back stored'
      rw [pending_of_streamed (idle i) stored stored' streamed] at queued
      obtain ⟨n, found, unused⟩ := streamed.unused c queued
      have level : c.level = i := (Level.level_eq_of_get? found).trans (num.index i l stored)
      subst level
      exact ⟨n, (get?_of_level? stored).trans found, unused⟩
  · intro i inside
    obtain ⟨l, stored⟩ := (num.lt_levelCount_iff i).mp inside
    obtain ⟨m, stored', requested, evicted, streamed⟩ := rel.level? stored
    have index : l.index = i := num.index i l stored
    have resident : ∀ c : Coord, c.level = i → h.contains c = l.contains c := by
      intro c level
      subst level
      rw [contains, get?_of_level? stored]
      rfl
    refine ⟨requested, streamed.distinct, fun c mem => ?_, fun due => ?_⟩
    · obtain ⟨wanted, absent⟩ := streamed.missing c mem
      obtain ⟨ld, listed, active, covered⟩ := Level.mem_wanted.mp wanted
      rw [index] at covered
      have level := Loader.level_of_mem_cells covered
      refine ⟨?_, level, (resident c level).trans absent, ld, listed, active, covered⟩
      rw [pending_of_level? stored', streamed.pending .create, if_pos rfl]
      exact List.mem_append_right _ mem
    · rw [← index] at due
      refine (streamed.enough due).imp_left fun all c wanted absent => ?_
      obtain ⟨ld, listed, active, covered⟩ := wanted
      have level := Loader.level_of_mem_cells covered
      rw [← index] at covered
      refine all c (Level.mem_wanted.mpr ⟨ld, listed, active, covered⟩) ?_
      rw [← resident c level]
      exact absent

/-- What streaming and the creations after it have made of a hierarchy whose unload queues were
empty. Nothing has gone yet. -/
structure Stocked (config : StreamConfig) (loaders : List Loader) (tick : UInt64) (now : SimTime)
    (timeout : Duration) (h g : Hierarchy N L) : Prop where
  linked : g.Linked
  node : ∀ c n, h.get? c = some n → ∃ n', g.get? c = some n' ∧
    n'.state = if c ∈ g.pending c.level .unload then .unloading else n.state
  newborn : ∀ c n', g.get? c = some n' → h.contains c = false →
    n'.state = .loading ∧ c ∈ g.pending c.level .load
  load : ∀ c, h.contains c = true →
    (c ∈ g.pending c.level .load ↔ c ∈ h.pending c.level .load)
  destroy : ∀ i, g.pending i .destroy = h.pending i .destroy
  unused : ∀ i, ∀ c ∈ g.pending i .unload,
    ∃ n, h.get? c = some n ∧ n.isUnused now timeout = true
  served : ∀ i < h.levelCount, ∃ requested : List Coord, requested.Nodup ∧
    (∀ c ∈ requested, g.contains c = true ∧ h.contains c = false ∧
      ∃ ld ∈ loaders, ld.isActive tick = true ∧ c ∈ ld.cells i) ∧
    (config.levelDue tick i = true →
      (∀ c, (∃ ld ∈ loaders, ld.isActive tick = true ∧ c ∈ ld.cells i) →
        h.contains c = false → c ∈ requested) ∨
      ∃ b, config.createBudget = some b ∧ b.toNat ≤ requested.length)

/-- Creation makes the requested cells resident and queues their loads. -/
theorem Streamed.stocked {k : Hierarchy N L} {factory : PayloadFactory N L} {clock : SimTime}
    {drained : List UInt8} {created : List Coord}
    (streamed : Streamed config loaders tick now timeout h k)
    (grown : Grown factory clock drained created k g)
    (all : ∀ i, ∀ c ∈ k.pending i .create, c.level < k.levelCount → g.contains c = true) :
    Stocked config loaders tick now timeout h g := by
  have resident : ∀ c, k.contains c = h.contains c := streamed.node.isSome
  have unload : ∀ i, g.pending i .unload = k.pending i .unload :=
    fun i => grown.other i .unload (by decide) (by decide)
  have load : ∀ i, g.pending i .load = h.pending i .load ++ created.filter (·.level == i) := by
    intro i
    rw [grown.load, streamed.pending i .load (by decide) (by decide) (by decide)]
  refine ⟨grown.linked, ?_, ?_, ?_, ?_, ?_, ?_⟩
  · intro c n found
    obtain ⟨n₁, found₁, -, state₁⟩ := streamed.node.of_some found
    have body := grown.old (contains_iff.mpr ⟨n₁, found₁⟩)
    obtain ⟨n₂, found₂, same⟩ := exists_of_body body.symm found₁
    have state₂ : n₂.state = n₁.state := Node.state_congr same
    exact ⟨n₂, found₂, by rw [state₂, state₁, unload]⟩
  · intro c n' found absent
    obtain ⟨made, newborn⟩ := grown.young ((resident c).trans absent) found
    refine ⟨Node.state_congr newborn, ?_⟩
    rw [load]
    exact List.mem_append_right _ (List.mem_filter.mpr ⟨made, beq_self_eq_true c.level⟩)
  · intro c here
    rw [load, List.mem_append, or_iff_left fun listed => ?_]
    rw [← resident, grown.fresh c (List.mem_filter.mp listed).1] at here
    cases here
  · intro i
    rw [grown.other i .destroy (by decide) (by decide),
      streamed.pending i .destroy (by decide) (by decide) (by decide)]
  · intro i c queued
    rw [unload] at queued
    exact streamed.unused i c queued
  · intro i inside
    obtain ⟨requested, distinct, asked, enough⟩ := streamed.served i inside
    refine ⟨requested, distinct, fun c mem => ?_, enough⟩
    obtain ⟨queued, level, absent, wanted⟩ := asked c mem
    have within : c.level < k.levelCount := by
      rwa [level, levelCount_congr streamed.length]
    exact ⟨all i c queued within, absent, wanted⟩

end Streamed

end Hierarchy

namespace World

variable {w : World σ N L} {config : StreamConfig} {loaders : List Loader} {tick : UInt64}
  {now : SimTime} {timeout : Duration}

/-- Level workers stream every level. -/
theorem levelWorkerPhase_levelwise (linked : w.hierarchy.Linked)
    (calm : ∀ p ∈ w.processors.level, p.Obeys LevelEdit.Calm) (s : σ) :
    Hierarchy.Levelwise (fun l m => ∃ requested evicted,
        Level.Streamed config loaders tick now timeout requested evicted l m) w.hierarchy
      (w.levelWorkerPhase (Level.stream config loaders tick now timeout) s).2.1.hierarchy := by
  rw [levelWorkerPhase_eq]
  refine forall₂_sweep (fun l mem s => ?_) s
  have worked := Level.runLevelBatch_retouched calm ((w.batchContext .level).atLevel l.index) l s
  have placed : ∀ c n', (runLevelBatch w.processors.level
      ((w.batchContext .level).atLevel l.index) l s).1.get? c = some n' → n'.coord = c := by
    intro c n' found
    obtain ⟨n, before, edited⟩ := worked.back found
    rw [(Node.links_eq_iff.mp edited.links).1]
    exact linked.placed_level mem c n before
  obtain ⟨requested, evicted, streamed⟩ :=
    Level.stream_streamed config loaders tick now timeout placed
  exact ⟨requested, evicted, streamed.of_retouched worked⟩

theorem levelWorkerPhase_streamed (linked : w.hierarchy.Linked)
    (calm : ∀ p ∈ w.processors.level, p.Obeys LevelEdit.Calm)
    (idle : ∀ i, w.hierarchy.pending i .unload = []) (s : σ) :
    Hierarchy.Streamed config loaders tick now timeout w.hierarchy
      (w.levelWorkerPhase (Level.stream config loaders tick now timeout) s).2.1.hierarchy :=
  Hierarchy.streamed_of_levelwise linked.numbered idle (levelWorkerPhase_levelwise linked calm s)

/-- The world worker leaves requests and evictions as they are. -/
theorem worldWorkerPhase_streamed {h : Hierarchy N L}
    (calm : ∀ p ∈ w.processors.tick, p.Obeys NodeEdit.Calm)
    (streamed : h.Streamed config loaders tick now timeout w.hierarchy) (s : σ) :
    h.Streamed config loaders tick now timeout (w.worldWorkerPhase s).2.1.hierarchy := by
  have pending : ∀ i q, q ≠ .tick →
      (w.worldWorkerPhase s).2.1.hierarchy.pending i q = w.hierarchy.pending i q := by
    intro i q other
    rw [pending_worldWorkerPhase, if_neg (Ne.symm other)]
  obtain ⟨length, node, others, unused, served⟩ := streamed
  refine ⟨(length_drainLevels .tick _ s).trans length, ?_, fun i q tick create unload => ?_, ?_, ?_⟩
  · simp only [pending _ .unload nofun]
    exact node.then_same (worldWorkerPhase_moved calm s)
  · exact (pending i q tick).trans (others i q tick create unload)
  · simpa only [pending _ .unload nofun] using unused
  · simpa only [pending _ .create nofun] using served

end World

/-! ### From loading to destruction -/

namespace Engine

variable {e : Engine σ N L} {w w' : World σ N L}

/-- Phases work with the processors and the configuration that the world came with. -/
theorem Works.keeps {p : Phase} (works : e.Works p w w') :
    w'.processors = w.processors ∧ w'.config = w.config := by
  obtain ⟨h, regions, tick, now, rfl, -⟩ := works.parts
  exact ⟨rfl, rfl⟩

theorem Ran.keeps {ps : List Phase} (ran : e.Ran ps w w') :
    w'.processors = w.processors ∧ w'.config = w.config := by
  induction ps generalizing w with
  | nil =>
    rw [show w' = w from ran]
    exact ⟨rfl, rfl⟩
  | cons p ps ih =>
    obtain ⟨v, works, rest⟩ := ran
    obtain ⟨processors, config⟩ := ih rest
    exact ⟨processors.trans works.keeps.1, config.trans works.keeps.2⟩

end Engine

/-- Nothing resident lies under a leaf but the leaf itself. -/
theorem Hierarchy.Linked.eq_of_under_leaf {h : Hierarchy N L} (linked : h.Linked) {x c : Coord}
    {n : Node N} (found : h.get? c = some n) (leaf : n.isLeaf = true)
    (resident : h.contains x = true) (under : x.Under c) : x = c := by
  rcases under.cases with same | ⟨d, below, up, lower⟩
  · exact same
  · have inside : d.level < h.levelCount := by
      have top := UInt8.lt_iff_toNat_lt.mp
        (linked.numbered.level_lt (contains_iff.mpr ⟨n, found⟩))
      rw [← up, Coord.toNat_parent_level below] at top
      exact UInt8.lt_iff_toNat_lt.mpr (by omega)
    have between := linked.resident_of_under resident lower inside
    exact absurd up (linked.not_parent_of_isLeaf found leaf between)

/-- When the destroy queues name nobody but leaves of the unload queues, no other node is doomed: a
leaf takes nobody along. -/
theorem Hierarchy.Linked.not_doomed {h g : Hierarchy N L} (linked : h.Linked)
    (leaves : ∀ i, ∀ d ∈ g.pending i .destroy,
      d ∈ h.pending d.level .unload ∧ ∃ m, h.get? d = some m ∧ m.isLeaf = true)
    {c : Coord} {n : Node N} (found : h.get? c = some n)
    (stays : ¬ (c ∈ h.pending c.level .unload ∧ n.isLeaf = true)) (is : List UInt8) :
    ¬ g.Doomed is c := by
  rintro ⟨i, -, d, named, -, under⟩
  obtain ⟨queued, m, at_, leaf⟩ := leaves i d named
  have self := linked.eq_of_under_leaf at_ leaf (contains_iff.mpr ⟨n, found⟩) under
  subst self
  rw [found] at at_
  cases at_
  exact stays ⟨queued, leaf⟩

namespace World

variable {w : World σ N L}

theorem loadPhase_linked (linked : w.hierarchy.Linked) (s : σ) :
    (w.loadPhase s).2.1.hierarchy.Linked := by
  have evolved : Hierarchy.Evolved (fun _ => True) w.hierarchy (w.loadPhase s).2.1.hierarchy :=
    w.drainLevels_evolved .load (fun ctx l s => .load Processor.obeys_any ctx s) s
  exact evolved.linked linked

theorem unloadPhase_linked (linked : w.hierarchy.Linked) (s : σ) :
    (w.unloadPhase s).2.1.hierarchy.Linked := by
  have evolved : Hierarchy.Evolved (fun _ => True) w.hierarchy (w.unloadPhase s).2.1.hierarchy :=
    w.drainLevels_evolved .unload (fun ctx l s => .unload Processor.obeys_any ctx s) s
  exact evolved.linked linked

/-- The unload phase dooms no node but the leaves that were queued. -/
theorem not_doomed_unloadPhase (linked : w.hierarchy.Linked)
    (idle : ∀ i, w.hierarchy.pending i .destroy = []) {c : Coord} {n : Node N}
    (found : w.hierarchy.get? c = some n)
    (stays : ¬ (c ∈ w.hierarchy.pending c.level .unload ∧ n.isLeaf = true)) (s : σ)
    (is : List UInt8) : ¬ (w.unloadPhase s).2.1.hierarchy.Doomed is c := by
  exact linked.not_doomed (fun i d => destroy_unloadPhase linked.numbered s (idle i)) found stays is

theorem destroyPhase_kept (linked : w.hierarchy.Linked) {c : Coord} {n : Node N}
    (found : w.hierarchy.get? c = some n) (spared : ∀ is, ¬ w.hierarchy.Doomed is c) (s : σ) :
    ∃ n', (w.destroyPhase s).2.1.hierarchy.get? c = some n' ∧ n'.state = n.state := by
  have kept := (destroyPhase_pruned linked s).1.kept c (spared _)
  obtain ⟨n', found', body⟩ := Hierarchy.exists_of_body kept.symm found
  exact ⟨n', found', Node.state_congr body⟩

/-- A node that a destroy queue names leaves with the destroy phase. -/
theorem destroyPhase_gone (linked : w.hierarchy.Linked) {c : Coord}
    (resident : w.hierarchy.contains c = true)
    (doomed : c ∈ w.hierarchy.pending c.level .destroy) (s : σ) :
    (w.destroyPhase s).2.1.hierarchy.contains c = false := by
  have inside := Hierarchy.mem_indices.mpr (linked.numbered.level_lt resident)
  exact (destroyPhase_pruned linked s).1.absent c
    ⟨c.level, inside, c, doomed, resident, Coord.Under.refl c⟩

end World

/-- What the phases from loading on do to a world, `w₁` being the world after the load phase and
`w₂` the one after the unload phase. -/
structure Engine.Ends (w w₁ w₂ w' : World σ N L) : Prop where
  loaded : Moved w.hierarchy.loadedState w.hierarchy.get? w₁.hierarchy.get?
  pending : ∀ i q, q ≠ .load → w₁.hierarchy.pending i q = w.hierarchy.pending i q
  linked₁ : w₁.hierarchy.Linked
  unload : ∃ s, w₂ = (w₁.unloadPhase s).2.1
  unloaded : Moved w₁.hierarchy.unloadedState w₁.hierarchy.get? w₂.hierarchy.get?
  linked₂ : w₂.hierarchy.Linked
  destroy : ∃ s, w' = (w₂.destroyPhase s).2.1
  pruned : Hierarchy.Pruned w₂.hierarchy.indices (w₂.hierarchy.Doomed w₂.hierarchy.indices)
    w₂.hierarchy w'.hierarchy

theorem Engine.Ran.ends {e : Engine σ N L} {w w' : World σ N L}
    (ran : e.Ran [.load, .unload, .destroy, .finish] w w') (linked : w.hierarchy.Linked)
    (calm : w.processors.toNodeProcessors.Obey NodeEdit.Calm) :
    ∃ w₁ w₂, Engine.Ends w w₁ w₂ w' := by
  obtain ⟨w₁, loaded, w₂, unloaded, w₃, destroyed, w₄, finished, ends⟩ := ran
  have same : w' = w₃ := Eq.trans ends finished
  have keeps : w₁.processors = w.processors := loaded.keeps.1
  obtain ⟨s₁, loaded⟩ := loaded
  obtain ⟨s₂, unloaded⟩ := unloaded
  obtain ⟨s₃, destroyed⟩ := destroyed
  have linked₁ : w₁.hierarchy.Linked := by
    rw [loaded]
    exact World.loadPhase_linked linked s₁
  have linked₂ : w₂.hierarchy.Linked := by
    rw [unloaded]
    exact World.unloadPhase_linked linked₁ s₂
  refine ⟨w₁, w₂, ?_, fun i q other => ?_, linked₁, ⟨s₂, unloaded⟩, ?_, linked₂,
    ⟨s₃, same.trans destroyed⟩, ?_⟩
  · rw [loaded]
    exact World.loadPhase_moved calm.load s₁
  · rw [loaded, World.pending_loadPhase, if_neg (Ne.symm other)]
  · rw [unloaded]
    exact World.unloadPhase_moved (by rw [keeps]; exact calm.unload) s₂
  · rw [same, destroyed]
    exact (World.destroyPhase_pruned linked₂ s₃).1

/-- What becomes of a node from the load phase on, when no destruction is pending: a leaf that is
queued for unloading goes, and every other node stays. -/
theorem Engine.Ran.settled {e : Engine σ N L} {w w' : World σ N L}
    (ran : e.Ran [.load, .unload, .destroy, .finish] w w') (linked : w.hierarchy.Linked)
    (calm : w.processors.toNodeProcessors.Obey NodeEdit.Calm)
    (idle : ∀ i, w.hierarchy.pending i .destroy = []) {c : Coord} {n : Node N}
    (found : w.hierarchy.get? c = some n)
    (stays : ¬ (c ∈ w.hierarchy.pending c.level .unload ∧ n.isLeaf = true)) :
    ∃ n', w'.hierarchy.get? c = some n' ∧
      (c ∉ w.hierarchy.pending c.level .unload → n'.state = w.hierarchy.loadedState c n) := by
  obtain ⟨w₁, w₂, ends⟩ := ran.ends linked calm
  obtain ⟨n₁, found₁, links₁, state₁⟩ := ends.loaded.of_some found
  obtain ⟨n₂, found₂, -, state₂⟩ := ends.unloaded.of_some found₁
  obtain ⟨s₂, unloaded⟩ := ends.unload
  obtain ⟨s₃, destroyed⟩ := ends.destroy
  have spared : ∀ is, ¬ w₂.hierarchy.Doomed is c := by
    rw [unloaded]
    refine World.not_doomed_unloadPhase ends.linked₁ (fun i => ?_) found₁ ?_ s₂
    · rw [ends.pending i .destroy nofun, idle]
    · have childless := (Node.links_eq_iff.mp links₁).2.2.1
      rw [ends.pending _ .unload nofun, Node.isLeaf, childless]
      exact stays
  obtain ⟨n₃, found₃, state₃⟩ := World.destroyPhase_kept ends.linked₂ found₂ spared s₃
  refine ⟨n₃, by rw [destroyed]; exact found₃, fun away => ?_⟩
  rw [state₃, state₂, ← state₁, Hierarchy.unloadedState, if_neg]
  rintro ⟨queued, -⟩
  rw [ends.pending _ .unload nofun] at queued
  exact away queued

/-! ### From the stamps to creation -/

/-- No node of the world is queued for unloading or destruction, and its processors leave states and
queues alone. -/
structure World.Undisturbed (w : World σ N L) : Prop where
  unload : ∀ i, w.hierarchy.pending i .unload = []
  destroy : ∀ i, w.hierarchy.pending i .destroy = []
  node : w.processors.toNodeProcessors.Obey NodeEdit.Calm
  level : ∀ p ∈ w.processors.level, p.Obeys LevelEdit.Calm

/-- A world without processors is undisturbed when its queues are empty. -/
theorem World.undisturbed_of_isEmpty {w : World σ N L} (none_ : w.processors.isEmpty = true)
    (idle : ∀ l ∈ w.hierarchy.levels, l.pending .unload = [] ∧ l.pending .destroy = []) :
    w.Undisturbed := by
  have count : w.processors.size = 0 := beq_iff_eq.mp none_
  unfold ProcessorRegistry.size at count
  have load : w.processors.load = [] := List.eq_nil_of_length_eq_zero (by omega)
  have unload : w.processors.unload = [] := List.eq_nil_of_length_eq_zero (by omega)
  have tick : w.processors.tick = [] := List.eq_nil_of_length_eq_zero (by omega)
  have level : w.processors.level = [] := List.eq_nil_of_length_eq_zero (by omega)
  refine ⟨Hierarchy.pending_eq_nil fun l mem => (idle l mem).1,
    Hierarchy.pending_eq_nil fun l mem => (idle l mem).2, ⟨?_, ?_, ?_⟩, ?_⟩
  · rw [load]
    exact nofun
  · rw [unload]
    exact nofun
  · rw [tick]
    exact nofun
  · rw [level]
    exact nofun

namespace Engine

/-- What a tick has done to a world when its create phase is over. Nothing has gone yet. -/
structure Prepared (e : Engine σ N L) (w w' : World σ N L) : Prop where
  linked : w'.hierarchy.Linked
  node : ∀ c n, w.hierarchy.get? c = some n → ∃ n', w'.hierarchy.get? c = some n' ∧
    n'.state = if c ∈ w'.hierarchy.pending c.level .unload then .unloading else n.state
  newborn : ∀ c n', w'.hierarchy.get? c = some n' → w.hierarchy.contains c = false →
    n'.state = .loading ∧ c ∈ w'.hierarchy.pending c.level .load
  load : ∀ c, w.hierarchy.contains c = true →
    (c ∈ w'.hierarchy.pending c.level .load ↔ c ∈ w.hierarchy.pending c.level .load)
  destroy : ∀ i, w'.hierarchy.pending i .destroy = []
  unused : ∀ c, c ∈ w'.hierarchy.pending c.level .unload → ∃ n,
    (e.stampWorld w).hierarchy.get? c = some n ∧ n.isUnused e.now w.config.evictionTimeout = true
  served : ∀ i < w.hierarchy.levelCount, ∃ requested : List Coord, requested.Nodup ∧
    (∀ c ∈ requested, w'.hierarchy.contains c = true ∧ w.hierarchy.contains c = false ∧
      ∃ ld ∈ e.loaderList, ld.isActive e.tick = true ∧ c ∈ ld.cells i) ∧
    (e.config.stream.levelDue e.tick i = true →
      (∀ c, (∃ ld ∈ e.loaderList, ld.isActive e.tick = true ∧ c ∈ ld.cells i) →
        w.hierarchy.contains c = false → c ∈ requested) ∨
      ∃ b, e.config.stream.createBudget = some b ∧ b.toNat ≤ requested.length)

section Prepared

variable {e : Engine σ N L} {w w' : World σ N L}

theorem stampWorld_retouched (e : Engine σ N L) (w : World σ N L) :
    Hierarchy.Levelwise Level.Retouched w.hierarchy (e.stampWorld w).hierarchy :=
  Hierarchy.keepAliveAll_retouched e.now e.loaderList w.hierarchy

theorem stampWorld_moved (e : Engine σ N L) (w : World σ N L) :
    Moved (fun _ n => n.state) w.hierarchy.get? (e.stampWorld w).hierarchy.get? :=
  (stampWorld_retouched e w).moved fun c _ _ _ step => step.moved c

theorem pending_stampWorld (e : Engine σ N L) (w : World σ N L) (i : UInt8) (q : Queue) :
    (e.stampWorld w).hierarchy.pending i q = w.hierarchy.pending i q :=
  (stampWorld_retouched e w).pending (f := fun cs => cs) rfl (fun _ _ step => step.pending q) i

theorem stampWorld_undisturbed (e : Engine σ N L) (calm : w.Undisturbed) :
    (e.stampWorld w).Undisturbed := by
  refine ⟨fun i => ?_, fun i => ?_, calm.node, calm.level⟩
  · rw [pending_stampWorld, calm.unload]
  · rw [pending_stampWorld, calm.destroy]

/-- Level workers request and evict, and nobody looks at the world itself before the world worker,
which leaves that as it is. -/
theorem Ran.streamed (ran : e.Ran [.levelWorker, .regionWorker, .worldWorker] w w')
    (linked : w.hierarchy.Linked) (calm : w.Undisturbed) :
    w.hierarchy.Streamed e.config.stream e.loaderList e.tick e.now w.config.evictionTimeout
      w'.hierarchy := by
  obtain ⟨w₂, streams, w₃, ticks, w₄, works, ends⟩ := ran
  have keeps : w₃.processors = w.processors := ticks.keeps.1.trans streams.keeps.1
  obtain ⟨s, streams⟩ := streams
  obtain ⟨t, ticks⟩ := ticks
  obtain ⟨u, works⟩ := works
  have final : w' = w₄ := ends
  rw [final, works]
  refine World.worldWorkerPhase_streamed (by rw [keeps]; exact calm.node.tick) ?_ u
  rw [ticks, tickRegions_world, World.regionWorkerPhase_eq, streams, streamWorld_world]
  exact World.levelWorkerPhase_streamed linked calm.level calm.unload s

/-- What is true of the stamped world is true of the world itself. -/
theorem prepared_of_streamed {v : World σ N L} (linked : v.hierarchy.Linked) (calm : w.Undisturbed)
    (streamed : (e.stampWorld w).hierarchy.Streamed e.config.stream e.loaderList e.tick e.now
      w.config.evictionTimeout v.hierarchy) : e.Prepared w v.createPhase.2 := by
  have resident : ∀ c, (e.stampWorld w).hierarchy.contains c = w.hierarchy.contains c :=
    (stampWorld_moved e w).isSome
  obtain ⟨created, grown, -, all, -⟩ := World.createPhase_grown linked
  obtain ⟨linked', node, newborn, load, destroy, unused, served⟩ := streamed.stocked grown all
  simp only [resident, pending_stampWorld] at newborn load served
  refine ⟨linked', fun c n found => ?_, newborn, load, fun i => ?_, fun c => unused c.level c,
    fun i inside => served i ?_⟩
  · obtain ⟨n₁, found₁, -, state₁⟩ := (stampWorld_moved e w).of_some found
    obtain ⟨n', found', state'⟩ := node c n₁ found₁
    exact ⟨n', found', by rw [state', state₁]⟩
  · rw [destroy, pending_stampWorld, calm.destroy]
  · rwa [Hierarchy.levelCount_congr (stampWorld_retouched e w).length_eq]

theorem Ran.prepared
    (ran : e.Ran [.levelWorker, .regionWorker, .worldWorker, .create] (e.stampWorld w) w')
    (reached : w.Reached fun _ => True) (calm : w.Undisturbed) : e.Prepared w w' := by
  obtain ⟨w₂, streams, w₃, ticks, w₄, works, w₅, creates, ends⟩ := ran
  have stamps : e.Works .loader w (e.stampWorld w) := rfl
  have reached₁ := stamps.reached reached
  have reached₄ := works.reached (ticks.reached (streams.reached reached₁))
  have three : e.Ran [.levelWorker, .regionWorker, .worldWorker] (e.stampWorld w) w₄ :=
    ⟨w₂, streams, w₃, ticks, w₄, works, rfl⟩
  have streamed :=
    three.streamed (reached₁.sound (.trivial _)).linked (stampWorld_undisturbed e calm)
  have created : w' = w₄.createPhase.2 := Eq.trans ends creates
  rw [created]
  exact prepared_of_streamed (reached₄.sound (.trivial _)).linked calm streamed

end Prepared

end Engine

end OctreeWorld
