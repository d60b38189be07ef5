import OctreeWorld.Proofs.Agreement
import OctreeWorld.Proofs.Operations
import OctreeWorld.Proofs.Service
import OctreeWorld.Proofs.Tracking

/-!
# Regions stream like worlds

A world evicts level by level, each level next to its requests, and takes every phase over all
levels. A region first makes all its requests, then looks for candidates in its tracked set, and
loads, ticks and unloads level by level. Since the tracked set is what a look at all levels would
find, and since what happens on one level does not depend on the others, the two ways come to the
same nodes, commands and counts.
-/

namespace OctreeWorld

variable {N L V E σ : Type}

/-! ### Evictions, level by level -/

namespace Level

theorem pushAll_nil (l : Level N L) (q : Queue) : l.pushAll q [] = l := by
  have queues : l.queues.append q [] = l.queues := by
    cases q <;> simp [Queues.append, Queues.get, Queues.set]
  rw [pushAll, own, List.filter_nil, queues]

theorem pushAll_pushAll (l : Level N L) (q : Queue) (as bs : List Coord) :
    (l.pushAll q as).pushAll q bs = l.pushAll q (as ++ bs) := by
  have queues : ∀ xs ys, (l.queues.append q xs).append q ys = l.queues.append q (xs ++ ys) := by
    intro xs ys
    cases q <;> simp [Queues.append, Queues.get, Queues.set]
  simp only [pushAll, own, queues, List.filter_append]

theorem modify_pushAll (l : Level N L) (q : Queue) (as : List Coord) (c : Coord)
    (f : Node N → Node N) : (l.pushAll q as).modify c f = (l.modify c f).pushAll q as := by
  by_cases own : c.level = l.index
  · have there : c.level = (l.pushAll q as).index := own
    rw [modify, if_pos there, modify, if_pos own]
    rfl
  · have away : ¬ c.level = (l.pushAll q as).index := own
    rw [modify, if_neg away, modify, if_neg own]

theorem modifyAll_pushAll (l : Level N L) (q : Queue) (as cs : List Coord) (f : Node N → Node N) :
    (l.pushAll q as).modifyAll cs f = (l.modifyAll cs f).pushAll q as := by
  unfold modifyAll
  induction cs generalizing l with
  | nil => rfl
  | cons c cs ih => rw [List.foldl_cons, List.foldl_cons, modify_pushAll, ih]

/-- Move some nodes to unloading and queue them. -/
def evictAll (l : Level N L) (cs : List Coord) : Level N L :=
  (l.modifyAll cs (·.withState .unloading)).pushAll .unload cs

theorem evictAll_nil (l : Level N L) : l.evictAll [] = l := pushAll_nil l .unload

theorem evictAll_cons (l : Level N L) (c : Coord) (cs : List Coord) :
    l.evictAll (c :: cs) =
      ((l.modify c (·.withState .unloading)).push .unload c).evictAll cs := by
  rw [evictAll, evictAll, push, modifyAll_pushAll, pushAll_pushAll]
  rfl

theorem collectUnused_eq (now : SimTime) (timeout : Duration) (l : Level N L) :
    l.collectUnused now timeout none =
      let unused := byPosition ((l.nodeList.filter (·.isUnused now timeout)).map (·.coord))
      (unused.length, l.evictAll unused) := rfl

end Level

namespace Hierarchy

/-- A change of the level at an index, seen by all levels. -/
theorem Numbered.modifyLevel_eq {h : Hierarchy N L} (num : h.Numbered) (i : UInt8)
    (f : Level N L → Level N L) :
    h.modifyLevel i f = ⟨h.levels.map fun l => if l.index = i then f l else l⟩ := by
  unfold modifyLevel
  congr 1
  refine List.ext_getElem (by simp) fun k hk hk' => ?_
  have inside : k < h.levels.length := by simpa using hk'
  rw [List.getElem_modify, List.getElem_map]
  refine if_congr ?_ rfl rfl
  rw [← UInt8.toNat_inj, num.toNat_index inside]
  exact eq_comm

/-- Evictions, one by one, come down to evictions level by level. -/
theorem Numbered.foldl_evict {h : Hierarchy N L} (num : h.Numbered) (cs : List Coord) :
    cs.foldl evict h = ⟨h.levels.map fun l => l.evictAll (l.own cs)⟩ := by
  induction cs generalizing h with
  | nil =>
    have same : ∀ l : Level N L, l.evictAll (l.own []) = l := fun l => l.evictAll_nil
    simp only [List.foldl_nil, same, List.map_id']
  | cons c cs ih =>
    have kept : Levelwise (fun l m => m.index = l.index) h (h.evict c) :=
      levelwise_modifyLevel (R := fun l m => m.index = l.index) (fun _ => rfl)
        fun l _ => Level.index_modify l c _
    have num' := kept.numbered (fun _ _ same => same) num
    rw [List.foldl_cons, ih num', evict, mark, num.modifyLevel_eq]
    simp only [List.map_map, Function.comp_def]
    congr 1
    refine List.map_congr_left fun l _ => ?_
    by_cases own : l.index = c.level
    · have front : l.own (c :: cs) = c :: l.own cs :=
        List.filter_cons_of_pos (beq_iff_eq.mpr own.symm)
      have index : ((l.modify c (·.withState .unloading)).push .unload c).index = l.index :=
        Level.index_modify l c _
      rw [if_pos own, front, Level.evictAll_cons, Level.own, index, Level.own]
    · have rest : l.own (c :: cs) = l.own cs :=
        List.filter_cons_of_neg fun here => own (beq_iff_eq.mp here).symm
      rw [if_neg own, rest]

/-- Every resident is on one level. -/
theorem Numbered.perm_own {h : Hierarchy N L} (num : h.Numbered) {cs : List Coord}
    (once : cs.Nodup) (inside : ∀ c ∈ cs, c.level < h.levelCount) :
    (h.levels.flatMap fun l => l.own cs).Perm cs := by
  refine (List.perm_ext_iff_of_nodup ?_ once).mpr fun c => ?_
  · refine List.nodup_flatMap.mpr ⟨fun l _ => once.filter _, ?_⟩
    refine List.pairwise_iff_getElem.mpr fun i j hi hj below c here there => ?_
    have at_i := congrArg UInt8.toNat (Level.mem_own.mp here).2
    have at_j := congrArg UInt8.toNat (Level.mem_own.mp there).2
    rw [num.toNat_index] at at_i at_j
    omega
  · simp only [List.mem_flatMap, Level.mem_own]
    refine ⟨fun ⟨_, _, mem, _⟩ => mem, fun mem => ?_⟩
    obtain ⟨l, stored⟩ := (num.lt_levelCount_iff _).mp (inside c mem)
    exact ⟨l, mem_levels_of_level? stored, mem, (num.index _ l stored).symm⟩

theorem Numbered.tally_own {h : Hierarchy N L} (num : h.Numbered) {cs : List Coord}
    (once : cs.Nodup) (inside : ∀ c ∈ cs, c.level < h.levelCount) :
    tally (h.levels.map fun l => (l.own cs).length) = cs.length := by
  have sum : ∀ ls : List (Level N L), tally (ls.map fun l => (l.own cs).length) =
      (ls.flatMap fun l => l.own cs).length := by
    intro ls
    induction ls with
    | nil => rfl
    | cons l ls ih => rw [List.map_cons, tally_cons, ih, List.flatMap_cons, List.length_append]
  rw [sum, (num.perm_own once inside).length_eq]

end Hierarchy

/-! ### Candidates -/

theorem Node.observers_of_isUnused {n : Node N} {now : SimTime} {timeout : Duration}
    (unused : n.isUnused now timeout = true) : n.observers = 0 := by
  simp only [isUnused, Bool.and_eq_true, beq_iff_eq] at unused
  exact unused.1.1.2

theorem Position.total (p q : Position) : ((compare p q).isLE || (compare q p).isLE) = true := by
  have swap : compare p q = (compare q p).swap := Std.OrientedCmp.eq_swap
  rw [swap]
  cases compare q p <;> rfl

theorem Position.antisymm {p q : Position} (first : (compare p q).isLE = true)
    (second : (compare q p).isLE = true) : p = q := by
  have swap : compare p q = (compare q p).swap := Std.OrientedCmp.eq_swap
  have same : compare p q = .eq := by
    rw [swap] at first ⊢
    cases order : compare q p <;> simp_all
  exact Std.LawfulEqCmp.eq_of_compare same

theorem Coord.compare_pos {a b : Coord} (same : a.level = b.level) :
    compare a b = compare a.pos b.pos := by
  have level : compare b.level b.level = .eq := Std.ReflCmp.compare_self
  rw [compare_def, same, level]
  rfl

theorem Level.sorted_byPosition (cs : List Coord) :
    (byPosition cs).Pairwise fun a b => (compare a.pos b.pos).isLE = true := by
  have trans : ∀ a b c : Coord, (compare a.pos b.pos).isLE = true →
      (compare b.pos c.pos).isLE = true → (compare a.pos c.pos).isLE = true :=
    fun _ _ _ => Std.TransCmp.isLE_trans
  have total : ∀ a b : Coord, ((compare a.pos b.pos).isLE || (compare b.pos a.pos).isLE) = true :=
    fun a b => Position.total a.pos b.pos
  exact List.pairwise_mergeSort trans total cs

theorem Level.perm_byPosition (cs : List Coord) : (byPosition cs).Perm cs :=
  List.mergeSort_perm cs _

/-- The listing of a set has the coordinates of one level in the order of their positions. -/
theorem Level.own_eq_byPosition {l : Level N L} {listed found : List Coord}
    (ordered : listed.Pairwise fun a b => compare a b = .lt) (listed_once : listed.Nodup)
    (found_once : found.Nodup) (same : ∀ c, c ∈ l.own listed ↔ c ∈ found) :
    l.own listed = byPosition found := by
  have level : ∀ c ∈ l.own listed, c.level = l.index := fun c mem => (Level.mem_own.mp mem).2
  have kept : (l.own listed).Pairwise fun a b => compare a b = .lt := ordered.filter _
  have left : (l.own listed).Pairwise fun a b => (compare a.pos b.pos).isLE = true := by
    refine kept.imp_of_mem fun {a b} here there below => ?_
    rw [← Coord.compare_pos ((level a here).trans (level b there).symm), below]
    rfl
  have once : (l.own listed).Nodup := listed_once.filter _
  have perm : (l.own listed).Perm (byPosition found) :=
    ((List.perm_ext_iff_of_nodup once found_once).mpr same).trans (perm_byPosition found).symm
  refine List.Perm.eq_of_pairwise (fun a b here there below above => ?_) left
    (sorted_byPosition found) perm
  have pos := Position.antisymm below above
  have lev : a.level = b.level :=
    (level a here).trans (level b (perm.mem_iff.mpr there)).symm
  obtain ⟨p, i⟩ := a
  obtain ⟨q, j⟩ := b
  exact congrArg₂ Coord.mk pos lev

namespace Region

variable {r : Region N L}

/-- On each level, eviction finds the nodes that a look at all of them would find. -/
theorem Tracked.own_unused (tracked : r.Tracked) (linked : r.hierarchy.Linked) (now : SimTime)
    (timeout : Duration) {l : Level N L} (mem : l ∈ r.hierarchy.levels) :
    l.own (r.unobserved.toList.filter (r.hierarchy.unusedAt now timeout)) =
      Level.byPosition ((l.nodeList.filter (·.isUnused now timeout)).map (·.coord)) := by
  have placed := linked.placed_level mem
  have stored := linked.numbered.level?_index mem
  refine Level.own_eq_byPosition (Std.ExtTreeSet.ordered_toList.filter _)
    ((Level.nodup_toList _).filter _) ?_ fun c => ?_
  · exact (Level.nodup_nodeList_coords placed).sublist (List.filter_sublist.map _)
  · rw [Level.mem_own, List.mem_filter, Std.ExtTreeSet.mem_toList]
    have here : ∀ e : Coord, e.level = l.index → r.hierarchy.get? e = l.get? e :=
      fun e own => Hierarchy.get?_of_level? (own ▸ stored)
    constructor
    · rintro ⟨⟨-, unused⟩, own⟩
      obtain ⟨n, found, idle⟩ := (Option.any_eq_true ..).mp unused
      rw [here c own] at found
      refine List.mem_map.mpr ⟨n, List.mem_filter.mpr ⟨?_, idle⟩, placed c n found⟩
      exact Level.mem_nodeList.mpr ⟨c.pos, (Level.get?_eq_some_iff.mp found).2⟩
    · intro there
      obtain ⟨n, listed, rfl⟩ := List.mem_map.mp there
      obtain ⟨listed, idle⟩ := List.mem_filter.mp listed
      obtain ⟨p, at_⟩ := Level.mem_nodeList.mp listed
      have found : l.get? ⟨p, l.index⟩ = some n := (Level.get?_mk l p).trans at_
      rw [placed _ n found]
      have resident := (here ⟨p, l.index⟩ rfl).trans found
      refine ⟨⟨(tracked _).mpr (Hierarchy.audience_eq_some.mpr ⟨n, resident, ?_⟩), ?_⟩, rfl⟩
      · exact Node.observers_of_isUnused idle
      · rw [Hierarchy.unusedAt, resident]
        exact idle

/-- A region's eviction is an eviction on each of its levels. -/
theorem Tracked.evictExpired_levels (tracked : r.Tracked) (linked : r.hierarchy.Linked)
    (now : SimTime) (timeout : Duration) :
    let steps := r.hierarchy.levels.map (Level.collectUnused now timeout none)
    r.evictExpired now timeout =
      (tally (steps.map (·.1)), { r with hierarchy := ⟨steps.map (·.2)⟩ }) := by
  intro steps
  let found := r.unobserved.toList.filter (r.hierarchy.unusedAt now timeout)
  have each : steps =
      r.hierarchy.levels.map fun l => ((l.own found).length, l.evictAll (l.own found)) := by
    refine List.map_congr_left fun l mem => ?_
    rw [Level.collectUnused_eq, tracked.own_unused linked now timeout mem]
  have once : found.Nodup := (Level.nodup_toList _).filter _
  have inside : ∀ c ∈ found, c.level < r.hierarchy.levelCount := fun c mem =>
    linked.numbered.level_lt
      (tracked.contains (Std.ExtTreeSet.mem_toList.mp (List.mem_filter.mp mem).1))
  rw [tracked.evictExpired_eq, linked.numbered.foldl_evict,
    ← linked.numbered.tally_own once inside, each, List.map_map, List.map_map]
  rfl

end Region

/-! ### Processors that keep no state -/

/-- What the processor answers depends on the batch and on what it is shown, and on nothing else. -/
def Processor.Forgetful (p : Processor σ V E) : Prop :=
  ∀ ctx v s t, (p.process ctx v s).1 = (p.process ctx v t).1

/-- The processor as it answers in one state. -/
def Processor.frozen (s : σ) (p : Processor σ V E) : Processor Unit V E where
  name := p.name
  start _ _ := ()
  process ctx v _ := ((p.process ctx v s).1, ())
  finish _ _ := ()

theorem over_frozen (s : σ) {ps : List (Processor σ V E)} (forgetful : ∀ p ∈ ps, p.Forgetful) :
    List.Forall₂ (Processor.Over fun _ => ()) ps (ps.map (Processor.frozen s)) := by
  refine List.forall₂_map_right_iff.mpr (List.forall₂_same.mpr fun p mem => ⟨?_, ?_, ?_⟩)
  · exact fun _ _ => rfl
  · exact fun ctx v t => congrArg (·, ()) (forgetful p mem ctx v s t)
  · exact fun _ _ => rfl

/-- A sweep whose steps do not look at the state takes each element by itself. -/
theorem sweep_eq_map {τ α : Type} {step : τ → σ → α × τ × σ} {f : τ → α × τ} {ts : List τ}
    (each : ∀ t ∈ ts, ∀ s, (step t s).1 = (f t).1 ∧ (step t s).2.1 = (f t).2) (s : σ) :
    (sweep step ts s).1 = ts.map (fun t => (f t).1) ∧
      (sweep step ts s).2.1 = ts.map fun t => (f t).2 := by
  induction ts generalizing s with
  | nil => exact ⟨rfl, rfl⟩
  | cons t ts ih =>
    obtain ⟨answer, target⟩ := each t List.mem_cons_self s
    obtain ⟨answers, targets⟩ :=
      ih (fun u mem => each u (List.mem_cons_of_mem t mem)) (step t s).2.2
    simp only [sweep, List.map_cons, answer, target, answers, targets, and_self]

/-! ### A tick in two parts -/

/-- What a streaming tick did. -/
structure Flow extends StreamStats where
  created : Nat := 0
  loaded : Nat := 0
  unloaded : Nat := 0
  destroyed : Nat := 0
deriving DecidableEq

/-- Load and unload one level. -/
def Level.turnOver (load unload : List (NodeProcessor Unit N L)) (ctx : BatchContext)
    (l : Level N L) : (Nat × Nat) × Level N L :=
  let first := l.load load ((ctx.atLevel l.index).withKind .load) ()
  let second := first.2.1.unload unload ((ctx.atLevel l.index).withKind .unload) ()
  ((first.1, second.1), second.2.1)

/-- Create what was requested, load and unload each level, and remove what was unloaded. -/
def Hierarchy.turnOver (factory : PayloadFactory N L) (load unload : List (NodeProcessor Unit N L))
    (ctx : BatchContext) (stats : StreamStats) (h : Hierarchy N L) : Flow × Hierarchy N L :=
  let grown := h.createPending factory ctx.now
  let levels := grown.2.levels.map (Level.turnOver load unload ctx)
  let pruned := Hierarchy.destroyPending ⟨levels.map (·.2)⟩ unload (ctx.withKind .unload) ()
  ({ toStreamStats := stats
     created := grown.1.length
     loaded := tally (levels.map (·.1.1))
     unloaded := tally (levels.map (·.1.2))
     destroyed := pruned.1.length },
    pruned.2.1)

namespace Region

theorem flushChanged_of_unchanged {r : Region N L} (unchanged : r.changed = ∅)
    (ps : NodeProcessors σ N L) (tick : UInt64) (now : SimTime) (s : σ) :
    (r.flushChanged ps tick now s).2 = (r, s) := by
  have still : ∀ ctx (l : Level N L) s, flushLevel ps.tick ctx [] l s = (0, l, s) :=
    fun _ _ _ => rfl
  have walk : ∀ ctx (ls : List (Level N L)),
      (sweep (flushLevel ps.tick ctx []) ls s).2 = (ls, s) := by
    intro ctx ls
    induction ls with
    | nil => rfl
    | cons l ls ih => simp only [sweep, still, ih]
  have none_ : r.changed.toList = [] := by rw [unchanged]; rfl
  simp only [flushChanged, Hierarchy.sweepLevels, none_, walk]
  rw [← unchanged]

end Region

/-- Without commands a level does not tick. -/
theorem Level.tick_of_idle {l : Level N L} (idle : l.pending .tick = [])
    (ps : List (NodeProcessor σ N L)) (ctx : BatchContext) (s : σ) :
    l.tick ps ctx s = (0, l, s) := by
  have none_ : l.drained .tick = [] := by rw [drained, idle]; rfl
  have cleared : l.clear .tick = l := by
    obtain ⟨index, nodes, queues, data⟩ := l
    obtain ⟨create, load, unload, tick, destroy⟩ := queues
    cases show tick = [] from idle
    rfl
  simp only [tick, none_, cleared]
  rfl

theorem Level.index_load (ps : List (NodeProcessor σ N L)) (ctx : BatchContext) (l : Level N L)
    (s : σ) : (l.load ps ctx s).2.1.index = l.index :=
  (Step.sameLinks (.load Processor.obeys_any ctx s)).1

/-- Loads and unloads that keep no state. -/
structure NodeProcessors.Forgetful (ps : NodeProcessors σ N L) : Prop where
  load : ∀ p ∈ ps.load, p.Forgetful
  unload : ∀ p ∈ ps.unload, p.Forgetful

/-- A phase whose step does not look at the state takes each level by itself. -/
theorem World.drainLevels_eq_map {w : World σ N L} {kind : CommandKind}
    {step : BatchContext → Level N L → σ → Nat × Level N L × σ}
    {f : BatchContext → Level N L → Nat × Level N L × Unit}
    (each : ∀ ctx l s, f ctx l = ((step ctx l s).1, (step ctx l s).2.1, ())) (s : σ) :
    let drained := w.hierarchy.levels.map fun l => f ((w.batchContext kind).atLevel l.index) l
    (w.drainLevels kind step s).1 = tally (drained.map (·.1)) ∧
      (w.drainLevels kind step s).2.1 = { w with hierarchy := ⟨drained.map (·.2.1)⟩ } := by
  intro drained
  let ctx := w.batchContext kind
  have alone : ∀ l ∈ w.hierarchy.levels, ∀ s,
      (step (ctx.atLevel l.index) l s).1 = (f (ctx.atLevel l.index) l).1 ∧
        (step (ctx.atLevel l.index) l s).2.1 = (f (ctx.atLevel l.index) l).2.1 := by
    intro l _ s
    rw [each _ l s]
    exact ⟨rfl, rfl⟩
  obtain ⟨counts, levels⟩ := sweep_eq_map
    (f := fun l => ((f (ctx.atLevel l.index) l).1, (f (ctx.atLevel l.index) l).2.1)) alone s
  simp only [World.drainLevels, Hierarchy.sweepLevels, drained, List.map_map, Function.comp_def]
  rw [counts, levels]
  exact ⟨rfl, rfl⟩

section Forgetful

variable {ps : NodeProcessors σ N L} (forgetful : ps.Forgetful) (frozen : σ)

include forgetful

theorem load_frozen (ctx : BatchContext) (l : Level N L) (s : σ) :
    l.load (ps.load.map (Processor.frozen frozen)) ctx () =
      ((l.load ps.load ctx s).1, (l.load ps.load ctx s).2.1, ()) :=
  Level.load_over (over_frozen frozen forgetful.load) ctx l s

theorem unload_frozen (ctx : BatchContext) (l : Level N L) (s : σ) :
    l.unload (ps.unload.map (Processor.frozen frozen)) ctx () =
      ((l.unload ps.unload ctx s).1, (l.unload ps.unload ctx s).2.1, ()) :=
  Level.unload_over (over_frozen frozen forgetful.unload) ctx l s

theorem destroyPending_frozen (ctx : BatchContext) (h : Hierarchy N L) (s : σ) :
    h.destroyPending (ps.unload.map (Processor.frozen frozen)) ctx () =
      ((h.destroyPending ps.unload ctx s).1, (h.destroyPending ps.unload ctx s).2.1, ()) :=
  Hierarchy.destroyAt_over (over_frozen frozen forgetful.unload) ctx h.indices h s

/-- A level without commands to tick is loaded and unloaded. -/
theorem Region.tickLevel_of_idle (ctx : BatchContext) {l : Level N L}
    (idle : l.pending .tick = []) (s : σ) :
    let turned := l.turnOver (ps.load.map (Processor.frozen frozen))
      (ps.unload.map (Processor.frozen frozen)) ctx
    (tickLevel ps ctx l s).1 = (turned.1.1, 0, turned.1.2) ∧
      (tickLevel ps ctx l s).2.1 = turned.2 := by
  obtain ⟨first, second, third, loads, ticks, unloads, result⟩ := Level.tickLevel_eq ps ctx l s
  have still : first.2.1.pending .tick = [] := by
    rw [loads, Level.pending_load, if_neg (by decide), idle]
  rw [Level.tick_of_idle still] at ticks
  rw [ticks] at unloads
  subst loads ticks unloads
  simp only [result, Level.turnOver, load_frozen forgetful frozen _ l s,
    unload_frozen forgetful frozen _ _
      (l.load ps.load ((ctx.atLevel l.index).withKind .load) s).2.2,
    and_self]

end Forgetful

namespace World

variable {w : World σ N L} (forgetful : w.processors.toNodeProcessors.Forgetful) (frozen : σ)

include forgetful

theorem loadPhase_frozen (s : σ) :
    let done := w.hierarchy.levels.map fun l => l.load
      (w.processors.load.map (Processor.frozen frozen)) ((w.batchContext .load).atLevel l.index) ()
    (w.loadPhase s).1 = tally (done.map (·.1)) ∧
      (w.loadPhase s).2.1 = { w with hierarchy := ⟨done.map (·.2.1)⟩ } :=
  drainLevels_eq_map (load_frozen forgetful frozen) s

theorem unloadPhase_frozen (s : σ) :
    let done := w.hierarchy.levels.map fun l => l.unload
      (w.processors.unload.map (Processor.frozen frozen))
      ((w.batchContext .unload).atLevel l.index) ()
    (w.unloadPhase s).1 = tally (done.map (·.1)) ∧
      (w.unloadPhase s).2.1 = { w with hierarchy := ⟨done.map (·.2.1)⟩ } :=
  drainLevels_eq_map (unload_frozen forgetful frozen) s

theorem destroyPhase_frozen (s : σ) :
    let pruned := w.hierarchy.destroyPending (w.processors.unload.map (Processor.frozen frozen))
      (w.batchContext .unload) ()
    (w.destroyPhase s).1 = pruned.1.length ∧ (w.destroyPhase s).2.1.hierarchy = pruned.2.1 := by
  intro pruned
  have same := destroyPending_frozen forgetful frozen (w.batchContext .unload) w.hierarchy s
  simp only [pruned, same, destroyPhase, and_self]

/-- The later phases of a world turn its hierarchy over. -/
theorem phases_eq (stats : StreamStats) {s : σ} {grown : Nat × World σ N L}
    {first second third : Nat × World σ N L × σ} (grows : grown = w.createPhase)
    (loads : first = grown.2.loadPhase s) (unloads : second = first.2.1.unloadPhase first.2.2)
    (removes : third = second.2.1.destroyPhase second.2.2) :
    (({ toStreamStats := stats, created := grown.1, loaded := first.1, unloaded := second.1,
        destroyed := third.1 } : Flow), third.2.1.hierarchy) =
      w.hierarchy.turnOver w.factory (w.processors.load.map (Processor.frozen frozen))
        (w.processors.unload.map (Processor.frozen frozen)) (w.batchContext .load) stats := by
  let turned := (w.hierarchy.createPending w.factory w.now).2.levels.map
    (Level.turnOver (w.processors.load.map (Processor.frozen frozen))
      (w.processors.unload.map (Processor.frozen frozen)) (w.batchContext .load))
  have forgetful₁ : grown.2.processors.toNodeProcessors.Forgetful := by
    rw [grows]
    exact forgetful
  obtain ⟨loaded, worked⟩ := loadPhase_frozen forgetful₁ frozen s
  rw [← loads] at loaded worked
  have forgetful₂ : first.2.1.processors.toNodeProcessors.Forgetful := by
    rw [worked]
    exact forgetful₁
  obtain ⟨unloaded, retired⟩ := unloadPhase_frozen forgetful₂ frozen first.2.2
  rw [← unloads] at unloaded retired
  have forgetful₃ : second.2.1.processors.toNodeProcessors.Forgetful := by
    rw [retired]
    exact forgetful₂
  obtain ⟨removed, left⟩ := destroyPhase_frozen forgetful₃ frozen second.2.2
  rw [← removes] at removed left
  have first_count : first.1 = tally (turned.map (·.1.1)) := by
    rw [loaded, grows]
    simp only [turned, List.map_map]
    rfl
  have second_count : second.1 = tally (turned.map (·.1.2)) := by
    rw [unloaded, worked, grows]
    simp only [turned, List.map_map, Function.comp_def, Level.turnOver, Level.index_load]
    rfl
  have settled : second.2.1 = { w with hierarchy := ⟨turned.map (·.2)⟩ } := by
    rw [retired, worked, grows]
    simp only [turned, List.map_map, Function.comp_def, Level.turnOver, Level.index_load]
    rfl
  rw [settled] at removed left
  rw [left, removed, first_count, second_count, grows]
  rfl

end World

theorem Hierarchy.Numbered.pending_eq_nil_of {h : Hierarchy N L} (num : h.Numbered) {q : Queue}
    (idle : ∀ i, h.pending i q = []) : ∀ l ∈ h.levels, l.pending q = [] := by
  intro l mem
  rw [← pending_of_level? (num.level?_index mem)]
  exact idle l.index

/-- Without a change to flush or a node to tick, a region's tick evicts level by level and turns
its hierarchy over. -/
theorem Region.tick_eq_turnOver {r : Region N L} {ps : NodeProcessors σ N L}
    (forgetful : ps.Forgetful) (frozen : σ) (linked : r.hierarchy.Linked) (tracked : r.Tracked)
    (unchanged : r.changed = ∅) (idle : ∀ i, r.hierarchy.pending i .tick = []) (stats : StreamStats)
    {tick : UInt64} {now : SimTime} {timeout : Duration} {s : σ}
    {ticked : RegionTickStats × Region N L × σ} (ticks : ticked = r.tick ps tick now timeout s) :
    let evicted := r.hierarchy.levels.map (Level.collectUnused now timeout none)
    ticked.1.evicted = tally (evicted.map (·.1)) ∧
      (({ toStreamStats := stats, created := ticked.1.created, loaded := ticked.1.loaded,
          unloaded := ticked.1.unloaded, destroyed := ticked.1.destroyed } : Flow),
        ticked.2.1.hierarchy) =
      Hierarchy.turnOver r.factory (ps.load.map (Processor.frozen frozen))
        (ps.unload.map (Processor.frozen frozen)) { world := r.world, kind := .load, now, tick }
        stats ⟨evicted.map (·.2)⟩ := by
  intro evicted
  have flush := flushChanged_of_unchanged unchanged ps tick now s
  have evict := tracked.evictExpired_levels linked now timeout
  have called : Hierarchy.Levelwise (fun l m => l.SameLinks m ∧ m.pending .tick = l.pending .tick)
      r.hierarchy ⟨evicted.map (·.2)⟩ := by
    refine Hierarchy.levelwise_map _ fun l => ⟨?_, ?_⟩
    · have call : Level.Call (fun _ => True) l (l.collectUnused now timeout none).2 :=
        .collectUnused now timeout none
      exact call.sameLinks
    · refine (Level.pending_pushAll _ .unload .tick _).trans ?_
      rw [if_neg (by decide)]
      exact Level.pending_congr (Level.queues_modifyAll l _ _) .tick
  have linked' := linked.levelwise (called.imp fun _ _ both => both.1)
  obtain ⟨cells, g, growth, grown, -⟩ := linked'.createPending r.factory now
  have still : ∀ l ∈ g.levels, l.pending .tick = [] := by
    refine grown.linked.numbered.pending_eq_nil_of fun i => ?_
    rw [grown.other i .tick (by decide) (by decide),
      called.pending (f := fun cs => cs) rfl (fun _ _ both => both.2), idle]
  let ctx : BatchContext := { world := r.world, kind := .load, now, tick }
  let turned := g.levels.map (Level.turnOver (ps.load.map (Processor.frozen frozen))
    (ps.unload.map (Processor.frozen frozen)) ctx)
  obtain ⟨counts, levels⟩ := sweep_eq_map
    (f := fun l =>
      let turned := l.turnOver (ps.load.map (Processor.frozen frozen))
        (ps.unload.map (Processor.frozen frozen)) ctx
      ((turned.1.1, 0, turned.1.2), turned.2))
    (fun l mem s => tickLevel_of_idle forgetful frozen ctx (still l mem) s) s
  simp only [Region.tick, flush, evict, track] at ticks
  rw [growth] at ticks
  generalize sweep (tickLevel ps ctx) g.levels s = swept at ticks counts levels
  have loads : tally (swept.1.map fun n => n.1) = tally (turned.map (·.1.1)) := by
    rw [counts, List.map_map, List.map_map]
    rfl
  have unloads : tally (swept.1.map fun n => n.2.2) = tally (turned.map (·.1.2)) := by
    rw [counts, List.map_map, List.map_map]
    rfl
  have left : swept.2.1 = turned.map (·.2) := by
    rw [levels, List.map_map]
    rfl
  have removed :=
    destroyPending_frozen forgetful frozen (ctx.withKind .unload) ⟨swept.2.1⟩ swept.2.2
  generalize Hierarchy.destroyPending ⟨swept.2.1⟩ ps.unload (ctx.withKind .unload) swept.2.2 =
    destroyed at ticks removed
  rw [left] at removed
  subst ticks
  refine ⟨rfl, ?_⟩
  simp only [Hierarchy.turnOver, growth, loads, unloads]
  rw [show g.levels.map _ = turned from rfl, removed]
  rfl

/-! ### The two ways -/

/-- A streaming tick of a world alone: stamp what the loaders cover, let the levels stream, then
create, load, unload and remove. -/
def World.streamTick (w : World σ N L) (config : StreamConfig) (loaders : List Loader)
    (timeout : Duration) (s : σ) : Flow × World σ N L × σ :=
  let (touched, h) := Hierarchy.keepAliveAll w.now loaders w.hierarchy
  let (stats, w, s) := { w with hierarchy := h }.levelWorkerPhase
    (Level.stream config loaders w.tick w.now timeout) s
  let (created, w) := w.createPhase
  let (loaded, w, s) := w.loadPhase s
  let (unloaded, w, s) := w.unloadPhase s
  let (destroyed, w, s) := w.destroyPhase s
  ({ toStreamStats := { touched := touched } + StreamStats.total stats
     created := created
     loaded := loaded
     unloaded := unloaded
     destroyed := destroyed }, w, s)

/-- A streaming tick of a region: its own streaming, then its tick. -/
def Region.streamTick (r : Region N L) (ps : NodeProcessors σ N L) (config : StreamConfig)
    (tick : UInt64) (now : SimTime) (timeout : Duration) (s : σ) : Flow × Region N L × σ :=
  let (stats, r) := Region.stream config tick now r
  let (ticked, r, s) := r.tick ps tick now timeout s
  ({ toStreamStats := stats + { evicted := ticked.evicted }
     created := ticked.created
     loaded := ticked.loaded
     unloaded := ticked.unloaded
     destroyed := ticked.destroyed }, r, s)

theorem StreamStats.total_eq (stats : List StreamStats) : StreamStats.total stats =
    { touched := tally (stats.map (·.touched)), requested := tally (stats.map (·.requested))
      evicted := tally (stats.map (·.evicted)) } := by
  have walk : ∀ start : StreamStats, stats.foldl (· + ·) start =
      { touched := start.touched + tally (stats.map (·.touched))
        requested := start.requested + tally (stats.map (·.requested))
        evicted := start.evicted + tally (stats.map (·.evicted)) } := by
    induction stats with
    | nil => exact fun start => rfl
    | cons x xs ih =>
      intro start
      rw [List.foldl_cons, ih]
      simp only [List.map_cons, tally_cons, ← Nat.add_assoc]
      rfl
  rw [StreamStats.total, walk]
  simp only [Nat.zero_add]

/-- Without level processors, the level workers do nothing but `f`. -/
theorem World.levelWorkerPhase_plain {α : Type} {w : World σ N L} (plain : w.processors.level = [])
    (f : Level N L → α × Level N L) (s : σ) :
    (w.levelWorkerPhase f s).1 = w.hierarchy.levels.map (fun l => (f l).1) ∧
      (w.levelWorkerPhase f s).2.1 =
        { w with hierarchy := ⟨w.hierarchy.levels.map fun l => (f l).2⟩ } := by
  have alone : ∀ ctx (l : Level N L) (s : σ), runLevelBatch [] ctx l s = (l, s) :=
    fun _ _ _ => rfl
  let step (l : Level N L) (s : σ) : α × Level N L × σ := ((f l).1, (f l).2, s)
  have each : ∀ l ∈ w.hierarchy.levels, ∀ s, (step l s).1 = (f l).1 ∧ (step l s).2.1 = (f l).2 :=
    fun _ _ _ => ⟨rfl, rfl⟩
  obtain ⟨answers, levels⟩ := sweep_eq_map each s
  simp only [levelWorkerPhase, plain, alone]
  rw [answers, levels]
  exact ⟨rfl, rfl⟩

section Due

variable {config : StreamConfig} (due : config.levelTickInterval ≤ 1)

include due

theorem Region.requestLevel_of_due (loaders : List Loader) (tick : UInt64) (l : Level N L) :
    requestLevel config loaders tick l = l.requestLoads loaders tick config.createBudget := by
  rw [requestLevel, StreamConfig.levelDue, decide_eq_true due, Bool.true_or, if_pos rfl]

/-- A level that is due makes its requests, and evicts what it does not need. -/
theorem Level.stream_of_due (unlimited : config.unloadBudget = none) (loaders : List Loader)
    (tick : UInt64) (now : SimTime) (timeout : Duration) (l : Level N L) :
    l.stream config loaders tick now timeout =
      let asked := Region.requestLevel config loaders tick l
      let evicted := asked.2.collectUnused now timeout none
      ({ requested := asked.1, evicted := evicted.1 }, evicted.2) := by
  rw [Region.requestLevel_of_due due, stream, StreamConfig.levelDue, decide_eq_true due,
    Bool.true_or, if_pos rfl, unlimited]

end Due

theorem Region.stream_pending (r : Region N L) (config : StreamConfig) (tick : UInt64)
    (now : SimTime) (i : UInt8) : (r.stream config tick now).2.hierarchy.pending i .tick =
      r.hierarchy.pending i .tick := by
  let stamped := Hierarchy.keepAliveAll now r.loaderList r.hierarchy
  have retouched := Hierarchy.keepAliveAll_retouched now r.loaderList r.hierarchy
  have asked : Hierarchy.Levelwise (fun l m => m.pending .tick = l.pending .tick) stamped.2
      (r.stream config tick now).2.hierarchy := by
    refine Hierarchy.levelwise_map _ fun l => ?_
    unfold requestLevel
    split
    · exact (Level.pending_pushAll _ .create .tick _).trans (if_neg (by decide))
    · rfl
  rw [asked.pending (f := fun cs => cs) rfl fun _ _ same => same]
  exact retouched.pending (f := fun cs => cs) rfl (fun _ _ same => same.pending .tick) i

/-- Stamp what the loaders cover, request what they miss, and evict what is not needed, each on all
levels before the next. -/
def Hierarchy.streamed (config : StreamConfig) (loaders : List Loader) (tick : UInt64)
    (now : SimTime) (timeout : Duration) (h : Hierarchy N L) : StreamStats × Hierarchy N L :=
  let stamped := keepAliveAll now loaders h
  let asked := stamped.2.levels.map (Region.requestLevel config loaders tick)
  let evicted := (asked.map (·.2)).map (Level.collectUnused now timeout none)
  ({ touched := stamped.1
     requested := tally (asked.map (·.1))
     evicted := tally (evicted.map (·.1)) },
    ⟨evicted.map (·.2)⟩)

/-- A world streams its hierarchy and turns it over. -/
theorem World.streamTick_eq {w : World σ N L}
    (forgetful : w.processors.toNodeProcessors.Forgetful) (frozen : σ)
    (plain : w.processors.level = []) {config : StreamConfig}
    (due : config.levelTickInterval ≤ 1) (unlimited : config.unloadBudget = none)
    (loaders : List Loader) (timeout : Duration) (s : σ) :
    let streamed := w.hierarchy.streamed config loaders w.tick w.now timeout
    ((w.streamTick config loaders timeout s).1,
        (w.streamTick config loaders timeout s).2.1.hierarchy) =
      streamed.2.turnOver w.factory (w.processors.load.map (Processor.frozen frozen))
        (w.processors.unload.map (Processor.frozen frozen)) (w.batchContext .load) streamed.1 := by
  intro streamed
  obtain ⟨touched, h, stamped⟩ : ∃ touched h,
      Hierarchy.keepAliveAll w.now loaders w.hierarchy = (touched, h) := ⟨_, _, rfl⟩
  have plain' : ({ w with hierarchy := h } : World σ N L).processors.level = [] := plain
  obtain ⟨answers, worked⟩ := World.levelWorkerPhase_plain plain'
    (Level.stream config loaders w.tick w.now timeout) s
  have hierarchy : Hierarchy.mk (h.levels.map fun l =>
      (l.stream config loaders w.tick w.now timeout).2) = streamed.2 := by
    simp only [Level.stream_of_due due unlimited, streamed, Hierarchy.streamed, stamped,
      List.map_map]
    rfl
  have counts : { touched := touched } + StreamStats.total (h.levels.map fun l =>
      (l.stream config loaders w.tick w.now timeout).1) = streamed.1 := by
    have none_ : ∀ ls : List (Level N L), tally (ls.map fun _ => 0) = 0 := by
      intro ls
      induction ls with
      | nil => rfl
      | cons l ls ih => rw [List.map_cons, tally_cons, ih]
    simp only [Level.stream_of_due due unlimited, streamed, Hierarchy.streamed, stamped,
      List.map_map, StreamStats.total_eq, Function.comp_def, none_]
    exact congrArg₂ (StreamStats.mk _) (Nat.zero_add _) (Nat.zero_add _)
  generalize hleveled : World.levelWorkerPhase { w with hierarchy := h }
    (Level.stream config loaders w.tick w.now timeout) s = leveled at answers worked
  obtain ⟨grown, grows⟩ : ∃ grown, grown = leveled.2.1.createPhase := ⟨_, rfl⟩
  obtain ⟨first, loads⟩ : ∃ first, first = grown.2.loadPhase leveled.2.2 := ⟨_, rfl⟩
  obtain ⟨second, unloads⟩ : ∃ second, second = first.2.1.unloadPhase first.2.2 := ⟨_, rfl⟩
  obtain ⟨third, removes⟩ : ∃ third, third = second.2.1.destroyPhase second.2.2 := ⟨_, rfl⟩
  have result : w.streamTick config loaders timeout s =
      ({ toStreamStats := { touched := touched } + StreamStats.total leveled.1
         created := grown.1, loaded := first.1, unloaded := second.1, destroyed := third.1 },
        third.2.1, third.2.2) := by
    simp only [streamTick, stamped, hleveled, ← grows, ← loads, ← unloads, ← removes]
  have settled := phases_eq (w := { w with hierarchy := streamed.2 }) forgetful frozen streamed.1
    (grows.trans (by rw [worked, hierarchy])) loads unloads removes
  rw [result, answers, counts]
  exact settled

/-- A region that has nothing to flush and nothing to tick streams its hierarchy and turns it
over. -/
theorem Region.streamTick_eq {may : NodeEdit N L → Prop} {r : Region N L} (reached : r.Reached may)
    (unchanged : r.changed = ∅) (idle : ∀ i, r.hierarchy.pending i .tick = [])
    {ps : NodeProcessors σ N L} (forgetful : ps.Forgetful) (frozen : σ) (config : StreamConfig)
    (tick : UInt64) (now : SimTime) (timeout : Duration) (s : σ) :
    let streamed := r.hierarchy.streamed config r.loaderList tick now timeout
    ((r.streamTick ps config tick now timeout s).1,
        (r.streamTick ps config tick now timeout s).2.1.hierarchy) =
      streamed.2.turnOver r.factory (ps.load.map (Processor.frozen frozen))
        (ps.unload.map (Processor.frozen frozen)) { world := r.world, kind := .load, now, tick }
        streamed.1 := by
  intro streamed
  obtain ⟨stats, asked, streams⟩ : ∃ stats asked, r.stream config tick now = (stats, asked) :=
    ⟨_, _, rfl⟩
  obtain ⟨ticked, ticks⟩ : ∃ ticked, ticked = asked.tick ps tick now timeout s := ⟨_, rfl⟩
  have reached' : asked.Reached may := by
    have after := reached.stream config tick now
    rwa [streams] at after
  have idle' : ∀ i, asked.hierarchy.pending i .tick = [] := by
    intro i
    have kept := stream_pending r config tick now i
    rw [streams] at kept
    exact kept.trans (idle i)
  have first : (r.stream config tick now).1 = stats := by rw [streams]
  have second : (r.stream config tick now).2 = asked := by rw [streams]
  have unchanged' : asked.changed = ∅ := by
    rw [← unchanged, ← second]
    rfl
  obtain ⟨count, turned⟩ := tick_eq_turnOver forgetful frozen (reached'.kept (.trivial may)).1
    reached'.tracked unchanged' idle' streamed.1 ticks
  have result : r.streamTick ps config tick now timeout s =
      ({ toStreamStats := stats + { evicted := ticked.1.evicted }
         created := ticked.1.created, loaded := ticked.1.loaded
         unloaded := ticked.1.unloaded, destroyed := ticked.1.destroyed },
        ticked.2.1, ticked.2.2) := by
    simp only [streamTick, streams, ← ticks]
  have counts : stats + { evicted := ticked.1.evicted } = streamed.1 := by
    rw [count, ← first, ← second]
    exact congrArg (StreamStats.mk _ _) (Nat.zero_add _)
  have levels : streamed.2 =
      ⟨(asked.hierarchy.levels.map (Level.collectUnused now timeout none)).map (·.2)⟩ := by
    rw [← second]
    rfl
  have setting : asked.factory = r.factory ∧ asked.world = r.world := by
    rw [← second]
    exact ⟨rfl, rfl⟩
  rw [setting.1, setting.2] at turned
  rw [result, counts, levels]
  exact turned

/-- A region with the nodes and commands of a world, none of which waits to tick or to be
flushed. -/
structure Region.Mirrors (r : Region N L) (w : World σ N L) : Prop where
  world : r.world = w.id
  factory : r.factory = w.factory
  hierarchy : r.hierarchy = w.hierarchy
  idle : ∀ i, w.hierarchy.pending i .tick = []
  unchanged : r.changed = ∅

/-- A region streams like a world with the same nodes, commands and loaders: the two tick to the
same hierarchy and report the same counts, whatever state their processors start in. -/
theorem Region.streams_like_world {may : NodeEdit N L → Prop} {w : World σ N L} {r : Region N L}
    (reached : r.Reached may) (mirrors : r.Mirrors w)
    (forgetful : w.processors.toNodeProcessors.Forgetful) (plain : w.processors.level = [])
    {config : StreamConfig} (due : config.levelTickInterval ≤ 1)
    (unlimited : config.unloadBudget = none) (timeout : Duration) (s s' : σ) :
    (r.streamTick w.processors.toNodeProcessors config w.tick w.now timeout s').1 =
        (w.streamTick config r.loaderList timeout s).1 ∧
      (r.streamTick w.processors.toNodeProcessors config w.tick w.now timeout s').2.1.hierarchy =
        (w.streamTick config r.loaderList timeout s).2.1.hierarchy := by
  have idle : ∀ i, r.hierarchy.pending i .tick = [] := by
    rw [mirrors.hierarchy]
    exact mirrors.idle
  have left := Region.streamTick_eq reached mirrors.unchanged idle forgetful s config w.tick w.now
    timeout s'
  have right := World.streamTick_eq forgetful s plain due unlimited r.loaderList timeout s
  rw [mirrors.hierarchy, mirrors.factory, mirrors.world] at left
  obtain ⟨flow, hierarchy⟩ := Prod.mk.inj (left.trans right.symm)
  exact ⟨flow, hierarchy⟩

/-- A region of one level with one loaded node, which lies out of its loader's reach. -/
def Region.astray : Region Unit Unit :=
  (((Region.empty default default Box.everything PayloadFactory.plain 1).loadNode
    ⟨⟨9, 0, 0⟩, 0⟩ SimTime.zero).2.edit
      (.level 0 (.node ⟨⟨9, 0, 0⟩, 0⟩ (.setState .loaded)))).addLoader default {}

/-- A world with the nodes of that region, at a later time, whose load processor raises versions. -/
def World.astray : World Unit Unit Unit :=
  { (World.empty Region.astray.world {} Region.astray.factory : World Unit Unit Unit) with
    processors := { load := [.plain "count" fun _ _ s => ([.bumpVersion], s)] }
    hierarchy := Region.astray.hierarchy
    now := ⟨5⟩ }

namespace Region

theorem astray_reached : astray.Reached fun _ => True := by
  have loaded : RegionEdit.Allowed (fun _ => True)
      (.level 0 (.node ⟨⟨9, 0, 0⟩, 0⟩ (.setState .loaded)) : RegionEdit Unit Unit) := trivial
  exact (((Reached.empty _ _ _ _ _).loadNode _ _).edit _ loaded).addLoader _ _

theorem astray_mirrors : astray.Mirrors World.astray := by
  have waiting : ∀ l ∈ astray.hierarchy.levels, l.pending .tick = [] := by decide +kernel
  have unchanged : astray.changed = ∅ := by
    show (loadNode _ _ _).2.changed = ∅
    simp only [loadNode]
    split <;> rfl
  exact ⟨rfl, rfl, rfl, Hierarchy.pending_eq_nil waiting, unchanged⟩

/-- Region and world replace the node by the cells that the loader covers. -/
theorem astray_replaced :
    (astray.streamTick World.astray.processors.toNodeProcessors {} World.astray.tick
        World.astray.now Duration.zero ()).1 =
      { requested := 27, evicted := 1, created := 27, loaded := 27, unloaded := 1,
        destroyed := 1 } ∧
    (astray.streamTick World.astray.processors.toNodeProcessors {} World.astray.tick
        World.astray.now Duration.zero ()).1 =
      (World.astray.streamTick {} astray.loaderList Duration.zero ()).1 ∧
    (astray.streamTick World.astray.processors.toNodeProcessors {} World.astray.tick
        World.astray.now Duration.zero ()).2.1.hierarchy =
      (World.astray.streamTick {} astray.loaderList Duration.zero ()).2.1.hierarchy := by
  have forgetful : World.astray.processors.toNodeProcessors.Forgetful := by
    refine ⟨fun p mem => ?_, fun p mem => nomatch mem⟩
    rw [List.mem_singleton.mp mem]
    exact fun _ _ _ _ => rfl
  have due : ({} : StreamConfig).levelTickInterval ≤ 1 := by decide
  obtain ⟨flow, hierarchy⟩ :=
    streams_like_world astray_reached astray_mirrors forgetful rfl due rfl Duration.zero () ()
  exact ⟨by decide +kernel, flow, hierarchy⟩

end Region

end OctreeWorld
