import OctreeWorld.Proofs.Budgets
import OctreeWorld.Proofs.Protocol

/-!
# What a region's tick keeps

In its turn a region stamps what its loaders cover and requests what they miss, and then it ticks:
it flushes, evicts, creates, drains its levels one by one and destroys. Only eviction picks nodes to
go. It comes after the stamps of loaders and of the flush, so it passes over every node that
something needs, and what it passes over stays through the rest of the tick and is loaded in the
end.
-/

namespace OctreeWorld

variable {N L σ : Type} {may : NodeEdit N L → Prop}

/-! ### Flushes -/

namespace Level

/-- Each node that a list without repetitions names changes once. -/
theorem get?_modifyAll_of_nodup (l : Level N L) {cs : List Coord} (nodup : cs.Nodup)
    (f : Node N → Node N) (e : Coord) :
    (l.modifyAll cs f).get? e = if e ∈ cs then (l.get? e).map f else l.get? e := by
  induction cs generalizing l with
  | nil => simp [modifyAll]
  | cons c cs ih =>
    obtain ⟨away, nodup⟩ := List.nodup_cons.mp nodup
    change ((l.modify c f).modifyAll cs f).get? e = _
    rw [ih _ nodup, get?_modify]
    by_cases same : c = e
    · subst same
      simp [away]
    · simp [same, Ne.symm same]

theorem Edited.modify (l : Level N L) {cs : List Coord} {c : Coord} (named : c ∈ cs)
    {f : Node N → Node N} (edits : ∀ n, Node.Edited may n (f n)) :
    l.Edited may cs (l.modify c f) := by
  refine ⟨index_modify l c f, (bare_eq_iff.mp (bare_modify l c f)).2.1, fun x away => ?_,
    fun x => ?_⟩
  · rw [get?_modify, if_neg]
    rintro rfl
    exact away named
  · rw [get?_modify]
    cases l.get? x with
    | none => split <;> exact .none
    | some n =>
      split
      · exact .some (edits n)
      · exact .some .refl

/-- A change that consists of permitted edits edits the nodes of a list. -/
theorem Edited.modifyAll (l : Level N L) (cs : List Coord) {f : Node N → Node N}
    (edits : ∀ n, Node.Edited may n (f n)) : l.Edited may cs (l.modifyAll cs f) := by
  have each : ∀ ds, (∀ d ∈ ds, d ∈ cs) → ∀ l : Level N L, l.Edited may cs (l.modifyAll ds f) := by
    intro ds
    induction ds with
    | nil => exact fun _ l => .refl l
    | cons d ds ih =>
      intro among l
      exact (Edited.modify l (among d List.mem_cons_self) edits).trans
        (ih (fun c listed => among c (List.mem_cons_of_mem d listed)) _)
  exact each cs (fun _ listed => listed) l

end Level

/-- Raising the version of a node and stamping it are two edits. -/
theorem Node.edited_raise (n : Node N) (now : SimTime) :
    Node.Edited (NodeEdit.Calm (L := L)) n (n.bumpVersion.touch now) :=
  (Node.Edited.single (e := .bumpVersion) (fun _ => nofun) n).trans
    (Node.Edited.single (e := .touch now) (fun _ => nofun) n.bumpVersion)

/-- The count of changes goes up by one until it sticks. -/
theorem Node.toNat_version_bumpVersion (n : Node N) :
    n.bumpVersion.version.toNat = min (n.version.toNat + 1) 4294967295 := by
  have bound := n.version.toNat_lt
  unfold bumpVersion
  split
  · rename_i top
    rw [top]
    rfl
  · rename_i below
    have below : n.version.toNat ≠ 4294967295 := fun same => below (UInt32.toNat_inj.mp same)
    rw [UInt32.toNat_add, UInt32.toNat_one, Nat.mod_eq_of_lt (by omega)]
    omega

namespace Region

section Flush

variable {ps : NodeProcessors σ N L} {ctx : BatchContext} {changed : List Coord} {l : Level N L}

/-- What the processors of a flush are shown. -/
theorem get?_flushBatch (nodup : changed.Nodup) (s : σ) {c : Coord} {n : Node N}
    (listed : c ∈ changed) (found : l.get? c = some n) :
    (flushBatch ps ctx changed l s).level.get? c = some (n.bumpVersion.touch ctx.now) := by
  have named : c ∈ l.own changed := Level.mem_own.mpr ⟨listed, Level.level_eq_of_get? found⟩
  have raised := l.get?_modifyAll_of_nodup (nodup.filter fun c => c.level == l.index)
    (fun n => n.bumpVersion.touch ctx.now) c
  exact raised.trans ((if_pos named).trans (by rw [found, Option.map_some]))

/-- The batch of a flush edits what it is given. -/
theorem flushLevel_edited (obeys : ∀ p ∈ ps.tick, p.Obeys may) (s : σ) :
    (flushBatch ps ctx changed l s).level.Edited may (l.own changed)
      (flushLevel ps.tick ctx changed l s).2.1 :=
  runNodeBatch_edited obeys _ _ _ s

theorem flushLevel_retouched (calm : ∀ p ∈ ps.tick, p.Obeys NodeEdit.Calm) (s : σ) :
    Level.Retouched l (flushLevel ps.tick ctx changed l s).2.1 :=
  ⟨l.own changed, (Level.Edited.modifyAll l _ fun n => n.edited_raise ctx.now).trans
    (flushLevel_edited calm s)⟩

end Flush

variable {r : Region N L} {ps : NodeProcessors σ N L}

theorem flushChanged_levelwise (r : Region N L) (ps : NodeProcessors σ N L) (tick : UInt64)
    (now : SimTime) (s : σ) :
    Hierarchy.Levelwise (fun l m => ∃ s, m = (flushLevel ps.tick
        { world := r.world, kind := .tick, now, tick } r.changed.toList l s).2.1)
      r.hierarchy (r.flushChanged ps tick now s).2.1.hierarchy :=
  Hierarchy.sweepLevels_levelwise r.hierarchy (fun _ s => ⟨s, rfl⟩) s

theorem flushChanged_retouched (calm : ps.Obey NodeEdit.Calm) (r : Region N L) (tick : UInt64)
    (now : SimTime) (s : σ) :
    Hierarchy.Levelwise Level.Retouched r.hierarchy
      (r.flushChanged ps tick now s).2.1.hierarchy := by
  refine (r.flushChanged_levelwise ps tick now s).imp fun l m => ?_
  rintro ⟨t, rfl⟩
  exact flushLevel_retouched calm.tick t

/-- What a flush does to a changed node: the version goes up by one and the processors of ticks do
the rest. -/
theorem edited_flushChanged (obeys : ∀ p ∈ ps.tick, p.Obeys may) {c : Coord} {n : Node N}
    (listed : c ∈ r.changed) (found : r.hierarchy.get? c = some n) (tick : UInt64) (now : SimTime)
    (s : σ) : ∃ n', (r.flushChanged ps tick now s).2.1.hierarchy.get? c = some n' ∧
      Node.Edited may (n.bumpVersion.touch now) n' := by
  have levels := r.flushChanged_levelwise ps tick now s
  rcases levels.get? c with ⟨absent, -⟩ | ⟨l, m, ⟨t, step⟩, -, -, here, here'⟩
  · rw [absent] at found
    cases found
  · rw [here] at found
    let ctx : BatchContext := { world := r.world, kind := .tick, now, tick }
    have raised : (flushBatch ps ctx r.changed.toList l t).level.get? c =
        some (n.bumpVersion.touch now) :=
      get?_flushBatch (Level.nodup_toList r.changed) t (Std.ExtTreeSet.mem_toList.mpr listed) found
    obtain ⟨n', found', edited⟩ := (flushLevel_edited obeys t).get?_of_some raised
    exact ⟨n', by rw [here', step]; exact found', edited⟩

end Region

/-! ### Turns -/

namespace Level

/-- Requests, with what a region does to a level before and after them, and eviction in the end. -/
theorem turn_streamed {config : StreamConfig} {loaders : List Loader} {tick : UInt64}
    {now : SimTime} {timeout : Duration} {l k m : Level N L}
    (placed : ∀ c n, l.get? c = some n → n.coord = c) (stamped : Retouched l k)
    (flushed : Retouched (Region.requestLevel config loaders tick k).2 m) :
    ∃ requested evicted, Streamed config loaders tick now timeout requested evicted l
      (m.collectUnused now timeout none).2 := by
  obtain ⟨asked, asks⟩ : ∃ asked, asked = (Region.requestLevel config loaders tick k).2 := ⟨_, rfl⟩
  rw [← asks] at flushed
  obtain ⟨requested, requests, own, distinct, missing, enough⟩ : ∃ requested,
      asked = k.pushAll .create requested ∧ k.own requested = requested ∧ requested.Nodup ∧
      (∀ c ∈ requested, c ∈ k.wanted loaders tick ∧ k.contains c = false) ∧
      (config.levelDue tick k.index = true →
        (∀ c ∈ k.wanted loaders tick, k.contains c = false → c ∈ requested) ∨
          ∃ b, config.createBudget = some b ∧ b.toNat ≤ requested.length) := by
    rw [asks]
    unfold Region.requestLevel
    split
    · obtain ⟨requested, requests, own, distinct, missing, enough⟩ :=
        k.requestLoads_spec loaders tick config.createBudget
      exact ⟨requested, requests, own, distinct, missing, fun _ => enough⟩
    · rename_i idle
      exact ⟨[], (pushAll_nil k .create).symm, rfl, List.nodup_nil,
        fun _ none_ => absurd none_ List.not_mem_nil, fun due => absurd due idle⟩
  have placed_m : ∀ c n, m.get? c = some n → n.coord = c := by
    intro c n found
    obtain ⟨n₁, found₁, edited₁⟩ := flushed.back found
    rw [requests, get?_pushAll] at found₁
    obtain ⟨n₀, found₀, edited₀⟩ := stamped.back found₁
    rw [(Node.links_eq_iff.mp edited₁.links).1, (Node.links_eq_iff.mp edited₀.links).1]
    exact placed c n₀ found₀
  have collects := m.collectUnused_queued now timeout none
  rw [show takeBudget none (m.unused now timeout) = m.unused now timeout from rfl,
    own_unused placed_m] at collects
  have moved : Moved (fun _ n => n.state) k.get? m.get? := by
    rw [requests] at flushed
    exact flushed.moved
  refine ⟨requested, m.unused now timeout, .of_retouched stamped
    ⟨?_, ?_, fun q => ?_, distinct, missing, enough, fun c mem => ?_⟩⟩
  · rw [collects.index, flushed.index, requests]
    rfl
  · exact moved.trans (moved_modifyAll m _ .unloading) fun c n n' same => by simp only [same]
  · have same : m.queues = k.queues.append .create requested := by
      obtain ⟨cs, edited⟩ := flushed
      rw [edited.queues, requests, pushAll, own]
    rw [pending, collects.queues, same, Queues.append_nil]
    cases q <;> rfl
  · obtain ⟨n₂, found₂, unused⟩ := unused_of_collected placed_m
      (show c ∈ takeBudget none (m.unused now timeout) from mem)
    obtain ⟨n₁, found₁, edited⟩ := flushed.back found₂
    rw [requests, get?_pushAll] at found₁
    exact ⟨n₁, found₁, isUnused_of_edited edited unused⟩

end Level

namespace Region

/-- The nodes that a turn has queued for unloading are those that were unused after the flush. -/
theorem Turn.unused {config : StreamConfig} {tick : UInt64} {now : SimTime} {timeout : Duration}
    {r asked flushed evicted : Region N L}
    (turn : r.Turn config tick now timeout asked flushed evicted)
    (linked : flushed.hierarchy.Linked) (idle : ∀ i, r.hierarchy.pending i .unload = []) {i : UInt8}
    {c : Coord} (queued : c ∈ evicted.hierarchy.pending i .unload) :
    ∃ m, flushed.hierarchy.get? c = some m ∧ m.isUnused now timeout = true := by
  have asking : asked.hierarchy.pending i .unload = r.hierarchy.pending i .unload := by
    refine turn.asks.pending (f := fun cs => cs) rfl (fun l m => ?_) i
    rintro ⟨creates, queued, -⟩
    exact queued.pending_unload.trans (List.append_nil _)
  have flushing := turn.flushes.pending (f := fun cs => cs) rfl
    (fun l m queued => queued.pending_unload.trans (List.append_nil _)) i
  have none_ := flushing.trans (asking.trans (idle i))
  cases stored' : evicted.hierarchy.level? i with
  | none =>
    rw [Hierarchy.pending_of_level?_none stored'] at queued
    cases queued
  | some m =>
    obtain ⟨l, stored, evicts⟩ := turn.evicts.level?_back stored'
    rw [Hierarchy.pending_of_level? stored] at none_
    rw [Hierarchy.pending_of_level? stored', evicts.pending_unload, none_,
      List.nil_append] at queued
    obtain ⟨n, found, unused⟩ := Level.unused_of_collected
      (linked.placed_level (Hierarchy.mem_levels_of_level? stored))
      (show c ∈ takeBudget none (l.unused now timeout) from queued)
    have level : c.level = i :=
      (Level.level_eq_of_get? found).trans (linked.numbered.index i l stored)
    subst level
    exact ⟨n, (Hierarchy.get?_of_level? stored).trans found, unused⟩

section Turn

variable {r : Region N L} {ps : NodeProcessors σ N L} (reached : r.Reached may)
  (calm : ps.Obey NodeEdit.Calm)

theorem get?_stream (r : Region N L) (config : StreamConfig) (tick : UInt64) (now : SimTime)
    (c : Coord) : (r.stream config tick now).2.hierarchy.get? c =
      (Hierarchy.keepAliveAll now r.loaderList r.hierarchy).2.get? c := by
  have asks : Hierarchy.Levelwise (fun l m => m.get? c = l.get? c)
      (Hierarchy.keepAliveAll now r.loaderList r.hierarchy).2
      (r.stream config tick now).2.hierarchy := by
    refine Hierarchy.levelwise_map _ fun l => ?_
    unfold requestLevel
    split <;> rfl
  rcases asks.get? c with ⟨absent, absent'⟩ | ⟨l, m, same, -, -, here, here'⟩
  · exact absent'.trans absent.symm
  · exact here'.trans (same.trans here.symm)

include reached calm

/-- What a region's turn has made of its hierarchy when creation is next. -/
theorem Reached.streamed (idle : ∀ i, r.hierarchy.pending i .unload = []) (config : StreamConfig)
    (tick clock : UInt64) (now : SimTime) (timeout : Duration) (s : σ) :
    r.hierarchy.Streamed config r.loaderList tick now timeout
      (((r.stream config tick now).2.flushChanged ps clock now s).2.1.evictExpired now
        timeout).2.hierarchy := by
  let flushed := ((r.stream config tick now).2.flushChanged ps clock now s).2.1
  have linked := reached.linked
  have asked : (r.stream config tick now).2.Reached may := reached.stream config tick now
  have stamps := Hierarchy.keepAliveAll_retouched now r.loaderList r.hierarchy
  have placed := (List.forall₂_and_left _ _).mpr
    ⟨fun l mem => linked.placed_level (l := l) mem, stamps⟩
  have asks := Hierarchy.levelwise_map
    (R := fun l m => m = (requestLevel config r.loaderList tick l).2)
    (Hierarchy.keepAliveAll now r.loaderList r.hierarchy).2 fun _ => rfl
  have flushes := flushChanged_retouched calm (r.stream config tick now).2 clock now s
  have evicts := Hierarchy.levelwise_map
    (R := fun l m => m = (l.collectUnused now timeout none).2) flushed.hierarchy fun _ => rfl
  have tracked : flushed.Tracked := asked.tracked.flushChanged ps clock now s
  have linked' : flushed.hierarchy.Linked :=
    (flushChanged_evolved calm (r.stream config tick now).2 clock now s).linked asked.linked
  refine Hierarchy.streamed_of_levelwise linked.numbered idle ?_
  rw [tracked.evictExpired_levels linked']
  have last := forall₂_comp (T := fun l m => ∃ k, Level.Retouched l k ∧
      m = (k.collectUnused now timeout none).2)
    (fun l k m flushed evicted => ⟨k, flushed, evicted⟩) flushes evicts
  have rest := forall₂_comp (T := fun l m => ∃ k,
      Level.Retouched (requestLevel config r.loaderList tick l).2 k ∧
        m = (k.collectUnused now timeout none).2)
    (fun l k m asked step => asked ▸ step) asks last
  refine forall₂_comp (fun l k m => ?_) placed rest
  rintro ⟨placed, stamped⟩ ⟨k', flushed, rfl⟩
  exact Level.turn_streamed placed stamped flushed

/-- Creation comes after that, and nothing has gone yet. -/
theorem Reached.stocks (idle : ∀ i, r.hierarchy.pending i .unload = []) (config : StreamConfig)
    (tick clock : UInt64) (now : SimTime) (timeout : Duration) (s : σ) :
    r.hierarchy.Stocked config r.loaderList tick now timeout
      ((r.stream config tick now).2.stocked ps clock now timeout s).1 := by
  obtain ⟨evicted, evicts⟩ : ∃ evicted, evicted = (((r.stream config tick now).2.flushChanged ps
    clock now s).2.1.evictExpired now timeout).2 := ⟨_, rfl⟩
  have streamed := reached.streamed calm idle config tick clock now timeout s
  have linked : evicted.hierarchy.Linked := by
    rw [evicts]
    exact ((flushChanged_evolved calm _ clock now s).trans
      (evictExpired_evolved _ now timeout)).linked (reached.stream config tick now).linked
  obtain ⟨created, g, run, grown, -, all, -⟩ := linked.createPending evicted.factory now
  have creates : ((r.stream config tick now).2.stocked ps clock now timeout s).1 = g := by
    rw [stocked, ← evicts, run]
  rw [creates]
  rw [← evicts] at streamed
  exact streamed.stocked grown all

omit calm in
theorem Reached.unload_stocked (idle : ∀ i, r.hierarchy.pending i .unload = [])
    {config : StreamConfig} {tick clock : UInt64} {now : SimTime} {timeout : Duration} {s : σ}
    {i : UInt8} {c : Coord} (queued : c ∈
      ((r.stream config tick now).2.stocked ps clock now timeout s).1.pending i .unload) :
    ∃ m, ((r.stream config tick now).2.flushChanged ps clock now s).2.1.hierarchy.get? c = some m ∧
      m.isUnused now timeout = true := by
  have obey := ps.obey_any
  obtain ⟨flushed, flushes⟩ : ∃ flushed,
    flushed = ((r.stream config tick now).2.flushChanged ps clock now s).2.1 := ⟨_, rfl⟩
  have turn := reached.turn config tick now ps clock now timeout s
  have linked : flushed.hierarchy.Linked := by
    rw [flushes]
    exact (flushChanged_evolved obey _ clock now s).linked (reached.stream config tick now).linked
  simp only [← flushes] at turn ⊢
  rw [stocked, ← flushes] at queued
  have evicted : Hierarchy.Evolved (fun _ => True) _ _ := evictExpired_evolved flushed now timeout
  obtain ⟨created, g, run, grown, -⟩ :=
    (evicted.linked linked).createPending (flushed.evictExpired now timeout).2.factory now
  rw [run, grown.other i .unload (by decide) (by decide)] at queued
  exact turn.unused linked idle queued

end Turn

end Region

/-! ### Drains and destruction -/

namespace Level

variable {ps : NodeProcessors σ N L} {l : Level N L} {c : Coord} {n : Node N}

/-- Of a node that nobody wants unloaded, the drains of its level change the state only if it waits
for its load. -/
theorem tickLevel_spares (calm : ps.Obey NodeEdit.Calm) (ctx : BatchContext) (s : σ)
    (found : l.get? c = some n) (away : c ∉ l.pending .unload) :
    ∃ n', (Region.tickLevel ps ctx l s).2.1.get? c = some n' ∧ n'.state = l.loadedState c n := by
  obtain ⟨loaded, ticked, unloaded, load, tick, unload, result⟩ := tickLevel_eq ps ctx l s
  obtain ⟨n₁, found₁, -, state₁⟩ := (load_moved calm.load _ l s).of_some found
  rw [← load] at found₁
  obtain ⟨n₂, found₂, -, state₂⟩ :=
    (tick_edited calm.tick _ loaded.2.1 loaded.2.2).moved.of_some found₁
  rw [← tick] at found₂
  obtain ⟨n₃, found₃, -, state₃⟩ :=
    (unload_moved calm.unload _ ticked.2.1 ticked.2.2).of_some found₂
  rw [← unload] at found₃
  have still : c ∉ ticked.2.1.pending .unload := by
    rwa [tick, pending_tick, if_neg nofun, load, pending_load, if_neg nofun]
  refine ⟨n₃, by rw [result]; exact found₃, ?_⟩
  rw [state₃, unloadedState, if_neg fun both => still both.1, state₂, state₁]

/-- The drains of a level doom nobody but leaves that were to be unloaded. -/
theorem destroy_tickLevel (ctx : BatchContext) (s : σ)
    (queued : c ∈ (Region.tickLevel ps ctx l s).2.1.pending .destroy) :
    c ∈ l.pending .destroy ∨
      c ∈ l.pending .unload ∧ ∃ n, l.get? c = some n ∧ n.isLeaf = true := by
  obtain ⟨loaded, ticked, unloaded, load, tick, unload, result⟩ := tickLevel_eq ps ctx l s
  have loads : Step (fun _ => True) l loaded.2.1 := by
    rw [load]
    exact .load Processor.obeys_any _ s
  have ticks : Step (fun _ => True) loaded.2.1 ticked.2.1 := by
    rw [tick]
    exact .tick Processor.obeys_any _ loaded.2.2
  have same : ∀ q, q ≠ .load → q ≠ .tick → ticked.2.1.pending q = l.pending q := by
    intro q loading ticking
    rw [tick, pending_tick, if_neg (Ne.symm ticking), load, pending_load, if_neg (Ne.symm loading)]
  have last : c ∈ unloaded.2.1.pending .destroy := by rwa [result] at queued
  rw [unload, pending_unload, if_neg nofun, if_pos rfl, same .destroy nofun nofun] at last
  refine (List.mem_append.mp last).imp_right fun retired => ?_
  obtain ⟨named, m, found, -, leaf⟩ := mem_retiring.mp retired
  have links := (loads.sameLinks.trans ticks.sameLinks).2 c
  rw [found] at links
  obtain ⟨n, found', links⟩ := Option.map_eq_some_iff.mp links.symm
  refine ⟨by rwa [same .unload nofun nofun] at named, n, found', ?_⟩
  rwa [Node.isLeaf, (Node.links_eq_iff.mp links).2.2.1]

end Level

namespace Hierarchy

/-- What is not queued for unloading stays through the drains of a region's levels and the
destruction after them, when no destruction was pending before. -/
theorem Linked.survives {h : Hierarchy N L} (linked : h.Linked) {ps : NodeProcessors σ N L}
    (calm : ps.Obey NodeEdit.Calm) (idle : ∀ i, h.pending i .destroy = []) {c : Coord} {n : Node N}
    (found : h.get? c = some n) (away : c ∉ h.pending c.level .unload) (ctx ctx' : BatchContext)
    (s s' : σ) : let g : Hierarchy N L := ⟨(sweep (Region.tickLevel ps ctx) h.levels s).2.1⟩
    ∃ n', (g.destroyPending ps.unload ctx' s').2.1.get? c = some n' ∧
      n'.state = h.loadedState c n := by
  intro g
  obtain ⟨g, drains⟩ : ∃ k, k = g := ⟨_, rfl⟩
  have levels : Levelwise (fun l m => ∃ s, m = (Region.tickLevel ps ctx l s).2.1) h g := by
    rw [drains]
    exact forall₂_sweep (fun l _ s => ⟨s, rfl⟩) s
  have linked' : g.Linked := by
    rw [drains]
    exact Region.linked_tickLevels linked ps ctx s
  obtain ⟨n₁, found₁, state₁⟩ : ∃ n', g.get? c = some n' ∧ n'.state = h.loadedState c n := by
    rcases levels.get? c with ⟨absent, -⟩ | ⟨l, m, ⟨t, worked⟩, stored, -, here, here'⟩
    · rw [absent] at found
      cases found
    · rw [here] at found
      rw [worked] at here'
      rw [pending_of_level? stored] at away
      obtain ⟨n', found', state⟩ := Level.tickLevel_spares calm ctx t found away
      refine ⟨n', here'.trans found', ?_⟩
      rw [state, loadedState, pending_of_level? stored, Level.loadedState]
  have doomed : ∀ i, ∀ d ∈ g.pending i .destroy,
      d ∈ h.pending d.level .unload ∧ ∃ m, h.get? d = some m ∧ m.isLeaf = true := by
    refine fun i d => Levelwise.destroy_back linked.numbered (levels.imp ?_) (idle i)
    rintro l m ⟨t, worked⟩ e
    rw [worked]
    exact Level.destroy_tickLevel ctx t
  obtain ⟨removed, k, s'', run, pruned, -⟩ := linked'.destroyPending ps.unload ctx' s'
  have kept := pruned.kept c (linked.not_doomed doomed found (fun both => away both.1) _)
  obtain ⟨n₂, found₂, body⟩ := exists_of_body kept.symm found₁
  rw [← drains, run]
  exact ⟨n₂, found₂, (Node.state_congr body).trans state₁⟩

end Hierarchy

/-! ### What a tick needs -/

namespace Region

/-- Why a tick at a time has to keep the node of a cell: a loader covers it, somebody observes it,
it is to be flushed, it waits for its load, it has a child, or it has been touched within the
timeout. -/
inductive Needs (r : Region N L) (now : SimTime) (timeout : Duration) (c : Coord) (n : Node N) :
    Prop
  | covered {ld : Loader} (listed : ld ∈ r.loaderList) (cell : c ∈ ld.cells c.level)
  | observed (audience : n.observers ≠ 0)
  | changed (marked : c ∈ r.changed)
  | loading (state : n.state = .loading)
  | parent {d : Coord} (child : r.hierarchy.contains d = true) (up : d.parent = c)
  | recent (touched : n.isExpired now timeout = false)

/-- What is left of a region's nodes comes out of the destruction after the drains. -/
theorem hierarchy_tick (r : Region N L) (ps : NodeProcessors σ N L) (tick : UInt64) (now : SimTime)
    (timeout : Duration) (s : σ) :
    let stocked := r.stocked ps tick now timeout s
    let drained := sweep (tickLevel ps { world := r.world, kind := .load, now, tick })
      stocked.1.levels stocked.2
    (r.tick ps tick now timeout s).2.1.hierarchy = (Hierarchy.destroyPending ⟨drained.2.1⟩ ps.unload
      { world := r.world, kind := .unload, now, tick } drained.2.2).2.1 := by
  simp only [tick_parts, forget, drained]

section Needs

variable {r : Region N L} {ps : NodeProcessors σ N L} (reached : r.Reached may)
  (calm : ps.Obey NodeEdit.Calm) {now : SimTime} {timeout : Duration} {c : Coord} {n : Node N}

include reached calm

/-- What eviction finds unused, nothing needs. -/
theorem Reached.not_needed {config : StreamConfig} {tick clock : UInt64} {s : σ} {m : Node N}
    (found : r.hierarchy.get? c = some n)
    (flushed : ((r.stream config tick now).2.flushChanged ps clock now s).2.1.hierarchy.get? c =
      some m) (unused : m.isUnused now timeout = true) : ¬ r.Needs now timeout c n := by
  have asked := get?_stream r config tick now c
  obtain ⟨n₁, found₁, flush⟩ :=
    (flushChanged_retouched calm (r.stream config tick now).2 clock now s).retouched_back flushed
  rw [asked] at found₁
  obtain ⟨n₀, found₀, stamp⟩ :=
    (Hierarchy.keepAliveAll_retouched now r.loaderList r.hierarchy).retouched_back found₁
  obtain rfl : n₀ = n := Option.some.inj (found₀.symm.trans found)
  have before := Level.isUnused_of_edited (stamp.trans flush) unused
  simp only [Node.isUnused, Bool.and_eq_true, beq_iff_eq] at before unused
  obtain ⟨⟨⟨leaf, observers⟩, state⟩, expired⟩ := before
  have stamped : ¬ now.micros ≤ m.lastUpdate.micros := by
    intro stamped
    rw [Level.not_isExpired stamped] at unused
    exact Bool.false_ne_true unused.2
  intro needs
  cases needs with
  | covered listed cell =>
    exact stamped (UInt64.le_trans (Hierarchy.stamped_keepAliveAll found₁ listed cell)
      flush.lastUpdate_le)
  | observed audience => exact audience observers
  | changed marked =>
    obtain ⟨m', flushed', edited⟩ := edited_flushChanged (r := (r.stream config tick now).2)
      calm.tick (show c ∈ (r.stream config tick now).2.changed from marked) (asked.trans found₁)
      clock now s
    obtain rfl : m' = m := Option.some.inj (flushed'.symm.trans flushed)
    exact stamped (UInt64.le_trans (SimTime.le_latest_right _ now) edited.lastUpdate_le)
  | loading waits =>
    rw [state] at waits
    cases waits
  | parent child up => exact reached.linked.not_parent_of_isLeaf found leaf child up
  | recent touched =>
    rw [touched] at expired
    cases expired

variable (idle : ∀ i, r.hierarchy.pending i .unload = [] ∧ r.hierarchy.pending i .destroy = [])
  (config : StreamConfig) (tick clock : UInt64) (s : σ)

include idle

/-- What the turn has not queued for unloading is there when the tick is over. -/
theorem Reached.settles
    (found : ((r.stream config tick now).2.stocked ps clock now timeout s).1.get? c = some n)
    (away : c ∉ ((r.stream config tick now).2.stocked ps clock now timeout s).1.pending c.level
      .unload) :
    ∃ n', ((r.stream config tick now).2.tick ps clock now timeout s).2.1.hierarchy.get? c =
        some n' ∧
      n'.state =
        ((r.stream config tick now).2.stocked ps clock now timeout s).1.loadedState c n := by
  have stocks := reached.stocks calm (fun i => (idle i).1) config tick clock now timeout s
  have none_ : ∀ i, ((r.stream config tick now).2.stocked ps clock now timeout s).1.pending i
      .destroy = [] := fun i => (stocks.destroy i).trans (idle i).2
  rw [hierarchy_tick]
  exact stocks.linked.survives calm none_ found away _ _ _ _

/-- What something needs stays, and is loaded if it waits for that. -/
theorem Reached.tick_keeps (found : r.hierarchy.get? c = some n) (needs : r.Needs now timeout c n) :
    ∃ n', ((r.stream config tick now).2.tick ps clock now timeout s).2.1.hierarchy.get? c =
        some n' ∧ n'.state = r.hierarchy.loadedState c n := by
  have stocks := reached.stocks calm (fun i => (idle i).1) config tick clock now timeout s
  obtain ⟨n₁, found₁, state₁⟩ := stocks.node c n found
  have away : c ∉ ((r.stream config tick now).2.stocked ps clock now timeout s).1.pending c.level
      .unload := by
    intro queued
    obtain ⟨m, flushed, unused⟩ := reached.unload_stocked (fun i => (idle i).1) queued
    exact reached.not_needed calm found flushed unused needs
  rw [if_neg away] at state₁
  obtain ⟨n', found', state'⟩ := reached.settles calm idle config tick clock s found₁ away
  have load := stocks.load c (Hierarchy.contains_iff.mpr ⟨n, found⟩)
  exact ⟨n', found', by simp only [state', Hierarchy.loadedState, state₁, load]⟩

/-- What is created in a turn is loaded when the tick is over. -/
theorem Reached.tick_loads
    (here : ((r.stream config tick now).2.stocked ps clock now timeout s).1.contains c = true)
    (absent : r.hierarchy.contains c = false) :
    ((r.stream config tick now).2.tick ps clock now timeout s).2.1.hierarchy.isLoaded c = true := by
  have stocks := reached.stocks calm (fun i => (idle i).1) config tick clock now timeout s
  obtain ⟨n, found⟩ := Hierarchy.contains_iff.mp here
  obtain ⟨state, queued⟩ := stocks.newborn c n found absent
  have away : c ∉ ((r.stream config tick now).2.stocked ps clock now timeout s).1.pending c.level
      .unload := by
    intro doomed
    obtain ⟨m, before, -⟩ := stocks.unused c.level c doomed
    rw [Hierarchy.contains_iff.mpr ⟨m, before⟩] at absent
    cases absent
  obtain ⟨n', found', state'⟩ := reached.settles calm idle config tick clock s found away
  rw [Hierarchy.loadedState, if_pos ⟨state, queued⟩] at state'
  exact Hierarchy.isLoaded_iff.mpr ⟨n', found', state'⟩

end Needs

/-! ### What a flush hands out -/

/-- What a flush of a region's changed nodes is: its batches name each of them once and go to the
processors of ticks, which are shown the node with its version gone up by one and do the rest. -/
structure Flushes (ps : NodeProcessors σ N L) (bs : List (NodeBatch σ N L))
    (r flushed : Region N L) : Prop where
  once : (bs.flatMap (·.commands)).Perm r.changed.toList
  processors : ∀ b ∈ bs, b.processors = ps.tick ∧ b.context.kind = .tick
  raised : ∀ b ∈ bs, ∀ c ∈ b.commands, ∃ n m n', r.hierarchy.get? c = some n ∧
    b.level.get? c = some m ∧ flushed.hierarchy.get? c = some n' ∧
      m.version.toNat = min (n.version.toNat + 1) 4294967295 ∧
        Node.Edited (NodeEdit.Calm (L := L)) m n'

end Region

theorem NodeBatch.commands_handed (b : NodeBatch σ N L) :
    b.handed.flatMap (·.commands) = b.commands := by
  unfold handed
  cases none_ : b.commands with
  | nil => rfl
  | cons c cs => exact (List.flatMap_singleton _ _).trans none_

/-- What a sweep names, when a step names the same in every outer state. -/
theorem commands_sweepBatches {τ α : Type} {step : τ → σ → α × τ × σ}
    {batches : τ → σ → List (NodeBatch σ N L)} {cs : τ → List Coord}
    (each : ∀ t s, (batches t s).flatMap (·.commands) = cs t) (ts : List τ) (s : σ) :
    (sweepBatches step batches ts s).flatMap (·.commands) = ts.flatMap cs := by
  induction ts generalizing s with
  | nil => rfl
  | cons t ts ih => rw [sweepBatches, List.flatMap_append, each, ih, List.flatMap_cons]

/-- Stamps leave versions alone. -/
theorem Hierarchy.version_keepAliveAll (now : SimTime) (loaders : List Loader) (h : Hierarchy N L)
    (c : Coord) : ((keepAliveAll now loaders h).2.get? c).map (·.version) =
      (h.get? c).map (·.version) := by
  induction loaders generalizing h with
  | nil => rfl
  | cons ld lds ih =>
    have stamps : Levelwise (fun l m => (m.get? c).map (·.version) = (l.get? c).map (·.version)) h
        (h.keepAlive ld now).2 :=
      levelwise_map h fun l => Level.map_get?_modifyAll l _ (f := (·.touch now)) (fun _ => rfl) c
    have first : ((h.keepAlive ld now).2.get? c).map (·.version) = (h.get? c).map (·.version) := by
      rcases stamps.get? c with ⟨absent, absent'⟩ | ⟨l, m, same, -, -, here, here'⟩
      · rw [absent, absent']
      · rw [here, here', same]
    exact (ih _).trans first

namespace Region

variable {r : Region N L} {ps : NodeProcessors σ N L}

theorem Reached.flushes (reached : r.Reached may) (calm : ps.Obey NodeEdit.Calm)
    (config : StreamConfig) (tick clock : UInt64) (now : SimTime) (s : σ) :
    Flushes ps ((r.stream config tick now).2.flushBatches ps clock now s) r
      ((r.stream config tick now).2.flushChanged ps clock now s).2.1 := by
  have asked : (r.stream config tick now).2.Reached may := reached.stream config tick now
  have linked := asked.linked
  have resident := asked.flushable
  have nodup := Level.nodup_toList r.changed
  refine ⟨?_, ?_, ?_⟩
  · refine (List.Perm.of_eq (commands_sweepBatches (fun l t =>
      NodeBatch.commands_handed (flushBatch ps _ _ l t)) _ s)).trans ?_
    refine linked.numbered.perm_own nodup fun c listed => ?_
    exact linked.numbered.level_lt (resident c (Std.ExtTreeSet.mem_toList.mp listed))
  · refine forall_sweepBatches (fun l _ t b handed => ?_) s
    obtain ⟨rfl, -⟩ := NodeBatch.mem_handed.mp handed
    exact ⟨rfl, rfl⟩
  · refine forall_sweepBatches (fun l mem t b handed c named => ?_) s
    obtain ⟨rfl, -⟩ := NodeBatch.mem_handed.mp handed
    obtain ⟨listed, level⟩ := Level.mem_own.mp named
    have marked := Std.ExtTreeSet.mem_toList.mp listed
    obtain ⟨n₁, found₁⟩ := Hierarchy.contains_iff.mp (resident c marked)
    have stored := linked.numbered.level?_index mem
    rw [← level] at stored
    have here : l.get? c = some n₁ := (Hierarchy.get?_of_level? stored).symm.trans found₁
    obtain ⟨n', found', edited⟩ := edited_flushChanged calm.tick marked found₁ clock now s
    have versions := Hierarchy.version_keepAliveAll now r.loaderList r.hierarchy c
    rw [← get?_stream r config tick now c, found₁] at versions
    obtain ⟨n, found, same⟩ := Option.map_eq_some_iff.mp versions.symm
    refine ⟨n, _, n', found, get?_flushBatch nodup t listed here, found', ?_, edited⟩
    have same : n.version = n₁.version := same
    rw [same]
    exact n₁.toNat_version_bumpVersion

end Region

/-- A region in its turn, with nothing to unload or destroy and with processors that leave states
alone, keeps and loads every node that something needs. The flush of the turn raises the version of
each changed node once and hands the node once to the processors of ticks. Without a budget,
whatever active loaders cover on the levels that are due is resident and loaded in the end. -/
theorem region_keeps_needed {r : Region N L} (reached : r.Reached NodeEdit.Calm)
    (idle : ∀ i, r.hierarchy.pending i .unload = [] ∧ r.hierarchy.pending i .destroy = [])
    {ps : NodeProcessors σ N L} (calm : ps.Obey NodeEdit.Calm) (config : StreamConfig)
    (tick clock : UInt64) (now : SimTime) (timeout : Duration) (s : σ) :
    let asked := (r.stream config tick now).2
    let ticked := (asked.tick ps clock now timeout s).2.1
    let batches := asked.flushBatches ps clock now s
    (∀ c n, r.hierarchy.get? c = some n → r.Needs now timeout c n →
      ticked.hierarchy.isLoaded c = true) ∧
    (Region.Flushes ps batches r (asked.flushChanged ps clock now s).2.1 ∧
      ∃ later, (asked.tick ps.logged clock now timeout (s, [])).2.2.2 =
        (batches ++ later).flatMap NodeBatch.calls) ∧
    (config.createBudget = none → ∀ i < r.hierarchy.levelCount, config.levelDue tick i = true →
      ∀ ld ∈ r.loaderList, ld.isActive tick = true → ∀ c ∈ ld.cells i,
        ticked.hierarchy.isLoaded c = true) := by
  have attended := (reached.kept Hierarchy.attended_kept).2
  have kept : ∀ c n, r.hierarchy.get? c = some n → r.Needs now timeout c n →
      ((r.stream config tick now).2.tick ps clock now timeout s).2.1.hierarchy.isLoaded c =
        true := by
    intro c n found needs
    obtain ⟨n', found', state⟩ := reached.tick_keeps calm idle config tick clock s found needs
    rw [attended.loadedState found (idle _).1 (idle _).2] at state
    exact Hierarchy.isLoaded_iff.mpr ⟨n', found', state⟩
  refine ⟨kept, ⟨reached.flushes calm config tick clock now s, ?_⟩, ?_⟩
  · have asked := reached.stream config tick now
    obtain ⟨logs, -⟩ := Region.tick_logged ps asked.linked asked.flushable clock now timeout s []
    have log := congrArg (fun t => t.2.2.2) logs
    rw [NodeBatch.written, List.nil_append, Region.tickBatches, List.append_assoc] at log
    exact ⟨_, log⟩
  · intro unlimited i inside due ld listed active c cell
    by_cases resident : r.hierarchy.contains c = true
    · obtain ⟨n, found⟩ := Hierarchy.contains_iff.mp resident
      have level := Loader.level_of_mem_cells cell
      exact kept c n found (.covered listed (level ▸ cell))
    · have absent := Bool.eq_false_iff.mpr resident
      have stocks := reached.stocks calm (fun i => (idle i).1) config tick clock now timeout s
      obtain ⟨requested, -, made, enough⟩ := stocks.served i inside
      rcases enough due with all | ⟨b, budget, -⟩
      · exact reached.tick_loads calm idle config tick clock s
          (made c (all c ⟨ld, listed, active, cell⟩ absent)).1 absent
      · rw [unlimited] at budget
        cases budget

/-- A loaded cell with its parent, marked changed twice, another loaded node on the level of the
parent, and a loader elsewhere. -/
def Region.household : Region Unit Unit :=
  let c : Coord := ⟨⟨0, 0, 0⟩, 0⟩
  let furnished := ((Region.empty default default Box.everything PayloadFactory.plain 2).edit
    (.load c SimTime.zero)).edit (.load ⟨⟨5, 0, 0⟩, 1⟩ SimTime.zero)
  let loaded := furnished.edit (.tick {} 0 SimTime.zero Duration.zero)
  ((loaded.edit (.markChanged c)).edit (.markChanged c)).edit
    (.addLoader default { position := ⟨40, 0, 0⟩ })

theorem Region.household_reached : household.Reached NodeEdit.Calm := by
  have none_ : ({} : NodeProcessors Unit Unit Unit).Obey NodeEdit.Calm := ⟨nofun, nofun, nofun⟩
  have empty : (Region.empty default default Box.everything PayloadFactory.plain 2).Reached
      (NodeEdit.Calm (N := Unit) (L := Unit)) := .empty _ _ _ _ _
  have furnished := (empty.edit (.load ⟨⟨0, 0, 0⟩, 0⟩ SimTime.zero) trivial).edit
    (.load ⟨⟨5, 0, 0⟩, 1⟩ SimTime.zero) trivial
  have loaded := furnished.edit (.tick {} 0 SimTime.zero Duration.zero) none_
  exact ((loaded.edit (.markChanged _) trivial).edit (.markChanged _) trivial).edit
    (.addLoader _ _) trivial

/-- Long after the timeout the changed cell and its parent are kept, the node beside them goes, and
the cells around the loader arrive. -/
theorem region_keeps_household :
    let c : Coord := ⟨⟨0, 0, 0⟩, 0⟩
    let asked := (Region.household.stream {} 1 ⟨5⟩).2
    let ticked := (asked.tick ({} : NodeProcessors Unit Unit Unit) 1 ⟨5⟩ Duration.zero ()).2.1
    Region.household.Reached NodeEdit.Calm ∧
      (∀ i, Region.household.hierarchy.pending i .unload = [] ∧
        Region.household.hierarchy.pending i .destroy = []) ∧
      ticked.hierarchy.isLoaded c = true ∧ ticked.hierarchy.isLoaded c.parent = true ∧
      ((asked.flushBatches ({} : NodeProcessors Unit Unit Unit) 1 ⟨5⟩ ()).flatMap
        (·.commands)).Perm [c] ∧
      ticked.hierarchy.contains ⟨⟨5, 0, 0⟩, 1⟩ = false ∧
      ticked.hierarchy.isLoaded ⟨⟨41, 0, 0⟩, 0⟩ = true := by
  intro c
  dsimp only
  have none_ : ({} : NodeProcessors Unit Unit Unit).Obey NodeEdit.Calm := ⟨nofun, nofun, nofun⟩
  have empty : ∀ l ∈ Region.household.hierarchy.levels,
      l.pending .unload = [] ∧ l.pending .destroy = [] := by
    decide +kernel
  have idle : ∀ i, Region.household.hierarchy.pending i .unload = [] ∧
      Region.household.hierarchy.pending i .destroy = [] :=
    fun i => ⟨Hierarchy.pending_eq_nil (fun l mem => (empty l mem).1) i,
      Hierarchy.pending_eq_nil (fun l mem => (empty l mem).2) i⟩
  obtain ⟨kept, ⟨flushes, -⟩, loads⟩ :=
    region_keeps_needed Region.household_reached idle none_ {} 1 1 ⟨5⟩ Duration.zero ()
  have changed : Region.household.changed.toList = [c] := by decide +kernel
  have marked : c ∈ Region.household.changed :=
    Std.ExtTreeSet.mem_toList.mp (changed ▸ List.mem_cons_self)
  have child : Region.household.hierarchy.contains c = true := by decide +kernel
  have above : Region.household.hierarchy.contains c.parent = true := by decide +kernel
  obtain ⟨n, found⟩ := Hierarchy.contains_iff.mp child
  obtain ⟨p, found_p⟩ := Hierarchy.contains_iff.mp above
  have once := flushes.once
  rw [changed] at once
  refine ⟨Region.household_reached, idle, kept c n found (.changed marked),
    kept c.parent p found_p (.parent child rfl), once, by decide +kernel, ?_⟩
  have listed : { position := ⟨40, 0, 0⟩ } ∈ Region.household.loaderList := by decide +kernel
  exact loads rfl 0 (by decide +kernel) (by decide +kernel) _ listed (by decide +kernel) _
    (by decide +kernel)

end OctreeWorld
