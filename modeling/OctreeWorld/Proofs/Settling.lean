import OctreeWorld.Proofs.Attendance
import OctreeWorld.Proofs.Reached

/-!
# Ticks settle

Each phase of a tick empties one queue and refills only queues that a later phase empties, so after
a tick no command is pending anywhere. Together with attendance this leaves every node loaded.
-/

namespace OctreeWorld

variable {N L σ : Type}

namespace Hierarchy

/-- No command is pending on any level. -/
def Idle (h : Hierarchy N L) : Prop := ∀ i q, h.pending i q = []

/-- Nothing is pending and every resident node is loaded. -/
structure Settled (h : Hierarchy N L) : Prop where
  idle : h.Idle
  loaded : ∀ c n, h.get? c = some n → n.state = .loaded

theorem Attended.settled {h : Hierarchy N L} (attended : h.Attended) (idle : h.Idle) :
    h.Settled := by
  refine ⟨idle, fun c n found => ?_⟩
  obtain ⟨present, waits⟩ := attended c n found
  have nothing : ∀ q, n.state.awaits ≠ some q := by
    intro q waiting
    have queued := waits q waiting
    rw [idle] at queued
    cases queued
  cases state : n.state with
  | loaded => rfl
  | unloaded => exact absurd state present
  | loading => exact absurd (congrArg NodeState.awaits state) (nothing .load)
  | unloading => exact absurd (congrArg NodeState.awaits state) (nothing .unload)
  | deleting => exact absurd (congrArg NodeState.awaits state) (nothing .destroy)

end Hierarchy

/-! ### Regions -/

theorem Level.pending_tickLevel (ps : NodeProcessors σ N L) (ctx : BatchContext) (l : Level N L)
    (s : σ) (q : Queue) (early : q ≠ .destroy) : (Region.tickLevel ps ctx l s).2.1.pending q =
      if q = .create then l.pending .create else [] := by
  obtain ⟨first, second, third, h₁, h₂, h₃, result⟩ := tickLevel_eq ps ctx l s
  rw [result]
  simp only [h₃, pending_unload, if_neg (Ne.symm early)]
  simp only [h₂, pending_tick]
  simp only [h₁, pending_load]
  cases q <;> first | rfl | exact absurd rfl early

/-- A region has nothing to do after its tick. -/
theorem Region.tick_idle {r : Region N L} (linked : r.hierarchy.Linked)
    (ps : NodeProcessors σ N L) (tick : UInt64) (now : SimTime) (timeout : Duration) (s : σ) :
    (r.tick ps tick now timeout s).2.1.hierarchy.Idle := by
  obtain ⟨flushed, evicted, created, swept, destroyed, h₁, h₂, h₃, h₄, h₅, result⟩ :=
    tick_eq r ps tick now timeout s
  have obey := ps.obey_any
  have linked₂ : evicted.2.hierarchy.Linked := by
    rw [h₂, h₁]
    exact ((flushChanged_evolved obey r tick now s).trans
      (evictExpired_evolved _ now timeout)).linked linked
  obtain ⟨cells, g, run, grown, empty, -⟩ := linked₂.createPending evicted.2.factory now
  rw [run] at h₃
  have at_g : created.2 = g := by rw [h₃]
  have levels : Hierarchy.Levelwise (fun l m => l.SameLinks m ∧ ∀ q, q ≠ .destroy →
      m.pending q = if q = .create then l.pending .create else []) g ⟨swept.2.1⟩ := by
    rw [h₄, at_g]
    exact forall₂_sweep (fun l _ s => ⟨(Level.tickLevel_stepped obey _ l s).sameLinks,
      Level.pending_tickLevel ps _ l s⟩) _
  have linked₄ := grown.linked.levelwise (levels.imp fun _ _ both => both.1)
  obtain ⟨removed, k, s', removal, pruned, gone, -⟩ := linked₄.destroyPending ps.unload
    { world := evicted.2.world, kind := .unload, now, tick } swept.2.2
  rw [removal] at h₅
  rw [result, h₅]
  intro i q
  change k.pending i q = []
  by_cases destroy : q = .destroy
  · rw [destroy, gone]
  · rw [pruned.other i q destroy]
    by_cases create : q = .create
    · subst create
      have kept := levels.pending (f := fun cs => cs) rfl (fun l m both => both.2 .create destroy) i
      exact kept.trans (empty i)
    · exact levels.pending (f := fun _ => []) rfl
        (fun l m both => (both.2 q destroy).trans (if_neg create)) i

/-! ### Worlds -/

namespace World

/-- The regions of a world have nothing to do, and the named queues are empty on every level. -/
structure Drained (qs : List Queue) (w : World σ N L) : Prop where
  regions : ∀ r ∈ w.regions, r.hierarchy.Idle
  empty : ∀ q ∈ qs, ∀ i, w.hierarchy.pending i q = []

variable {qs : List Queue} {w : World σ N L}

theorem regionWorkerPhase_drained {α : Type} {may : NodeEdit N L → Prop} (reached : w.Reached may)
    {f : Region N L → α × Region N L} (operates : ∀ r, r.Reached may → (f r).2.Reached may)
    (s : σ) :
    (w.regionWorkerPhase f s).2.2.1.Drained [] := by
  have sound := reached.sound (.trivial may)
  refine ⟨?_, fun q listed => ?_⟩
  · rw [regionWorkerPhase_eq]
    intro r' listed
    have worked : ∀ r ∈ w.regions, ∀ s, (w.workRegion f r s).2.1.hierarchy.Idle := by
      intro r mem s
      have batch := runRegionBatch_reached sound.obey.region (w.batchContext .region)
        (sound.regions r mem) s
      unfold workRegion
      simp only
      exact Region.tick_idle ((operates _ batch).kept (.trivial may)).1 _ _ _ _ _
    have idle := forall₂_sweep (R := fun _ r' : Region N L => r'.hierarchy.Idle) worked s
    obtain ⟨r, -, settled⟩ := exists_of_forall₂ idle listed
    exact settled
  · cases listed

theorem drainLevels_drained (drained : w.Drained qs) (kind : CommandKind) {q : Queue}
    {step : BatchContext → Level N L → σ → Nat × Level N L × σ}
    (each : ∀ ctx l s p, p = q ∨ p ∈ qs →
      (step ctx l s).2.1.pending p = if q = p then [] else l.pending p) (s : σ) :
    (w.drainLevels kind step s).2.1.Drained (q :: qs) := by
  refine ⟨drained.regions, fun p listed i => ?_⟩
  have listed := List.mem_cons.mp listed
  have rel := w.drainLevels_levelwise
    (R := fun l m => m.pending p = if q = p then [] else l.pending p) kind
    (fun ctx l s => each ctx l s p listed) s
  rw [rel.pending (f := fun cs => if q = p then [] else cs) (by split <;> rfl) fun _ _ same => same]
  split
  · rfl
  · rename_i other
    exact drained.empty p (listed.resolve_left (Ne.symm other)) i

theorem worldWorkerPhase_drained (drained : w.Drained qs) (s : σ) :
    (w.worldWorkerPhase s).2.1.Drained (.tick :: qs) :=
  drainLevels_drained drained .tick (fun ctx l s p _ => Level.pending_tick _ ctx l s p) s

theorem createPhase_drained (linked : w.hierarchy.Linked) (drained : w.Drained qs)
    (later : .load ∉ qs) : w.createPhase.2.Drained (.create :: qs) := by
  obtain ⟨created, grown, empty, -⟩ := createPhase_grown linked
  refine ⟨drained.regions, fun q listed i => ?_⟩
  rcases List.mem_cons.mp listed with rfl | listed
  · exact empty i
  · by_cases create : q = .create
    · rw [create]
      exact empty i
    · have load : q ≠ .load := fun same => later (same ▸ listed)
      exact (grown.other i q create load).trans (drained.empty q listed i)

theorem loadPhase_drained (drained : w.Drained qs) (s : σ) :
    (w.loadPhase s).2.1.Drained (.load :: qs) :=
  drainLevels_drained drained .load (fun ctx l s p _ => Level.pending_load _ ctx l s p) s

theorem unloadPhase_drained (drained : w.Drained qs) (later : .destroy ∉ qs) (s : σ) :
    (w.unloadPhase s).2.1.Drained (.unload :: qs) := by
  refine drainLevels_drained drained .unload (fun ctx l s p listed => ?_) s
  have other : p ≠ .destroy := by
    rintro rfl
    exact listed.elim Queue.noConfusion later
  rw [Level.pending_unload, if_neg (Ne.symm other)]

theorem destroyPhase_drained (linked : w.hierarchy.Linked) (drained : w.Drained qs) (s : σ) :
    (w.destroyPhase s).2.1.Drained (.destroy :: qs) := by
  obtain ⟨pruned, empty⟩ := destroyPhase_pruned linked s
  refine ⟨drained.regions, fun q listed i => ?_⟩
  rcases List.mem_cons.mp listed with rfl | listed
  · exact empty i
  · by_cases destroy : q = .destroy
    · rw [destroy]
      exact empty i
    · exact (pruned.other i q destroy).trans (drained.empty q listed i)

end World

/-! ### Engines -/

namespace Engine

/-- From the region workers on, every phase adds to the queues that are empty for good. -/
theorem Ran.drained {may : NodeEdit N L → Prop} {e : Engine σ N L} {w w' : World σ N L}
    (ran : e.Ran (Phase.sequence 9 .loader) w w') (reached : w.Reached may) :
    w'.Drained [.destroy, .unload, .load, .create, .tick] := by
  obtain ⟨w₁, h₁, w₂, h₂, w₃, h₃, w₄, h₄, w₅, h₅, w₆, h₆, w₇, h₇, w₈, h₈, w₉, h₉, ends⟩ := ran
  have reached₂ := h₂.reached (h₁.reached reached)
  have reached₄ := h₄.reached (h₃.reached reached₂)
  have reached₇ := h₇.reached (h₆.reached (h₅.reached reached₄))
  have drained₃ : w₃.Drained [] := by
    obtain ⟨s, h₃⟩ := h₃
    rw [h₃, tickRegions_world]
    exact World.regionWorkerPhase_drained reached₂ (fun r reached => reached.stream _ _ _) s
  have drained₄ : w₄.Drained [.tick] := by
    obtain ⟨s, h₄⟩ := h₄
    rw [h₄]
    exact World.worldWorkerPhase_drained drained₃ s
  have drained₅ : w₅.Drained [.create, .tick] := by
    rw [show w₅ = w₄.createPhase.2 from h₅]
    exact World.createPhase_drained (reached₄.sound (.trivial may)).linked drained₄ (by decide)
  have drained₆ : w₆.Drained [.load, .create, .tick] := by
    obtain ⟨s, h₆⟩ := h₆
    rw [h₆]
    exact World.loadPhase_drained drained₅ s
  have drained₇ : w₇.Drained [.unload, .load, .create, .tick] := by
    obtain ⟨s, h₇⟩ := h₇
    rw [h₇]
    exact World.unloadPhase_drained drained₆ (by decide) s
  have drained₈ : w₈.Drained [.destroy, .unload, .load, .create, .tick] := by
    obtain ⟨s, h₈⟩ := h₈
    rw [h₈]
    exact World.destroyPhase_drained (reached₇.sound (.trivial may)).linked drained₇ s
  have last : w₉ = w₈ := h₉
  have final : w' = w₉ := ends
  rw [final, last]
  exact drained₈

theorem runTick_ran {e e' : Engine σ N L} {elapsed : Duration} {s s' : σ}
    (done : e.runTick elapsed s = .ok (e', s')) :
    List.Forall₂ (e.Ran (Phase.sequence 9 .loader)) e.worlds e'.worlds := by
  have ready : e.cursor.expected = .loader := by
    by_contra other
    rw [runTick, Phase.all, runPhases, runPhase_eq, if_neg (Ne.symm other)] at done
    cases done
  obtain ⟨e'', s'', run, worlds, -⟩ := runPhases_ran ready (n := 9) (by decide) elapsed s
  have same : e'' = e' := congrArg Prod.fst (Except.ok.inj (run.symm.trans done))
  rwa [← same]

end Engine

/-! ### Attendance and settling -/

/-- As long as no state is written by hand, every node of every region, world and engine is queued
for what it waits, and every tick that runs leaves nothing pending and every node loaded. -/
theorem attended_and_settled :
    (∀ r : Region N L, r.Reached NodeEdit.Calm → r.hierarchy.Attended) ∧
    (∀ w : World σ N L, w.Reached NodeEdit.Calm →
      w.hierarchy.Attended ∧ ∀ r ∈ w.regions, r.hierarchy.Attended) ∧
    ∀ e : Engine σ N L, e.Reached NodeEdit.Calm →
      (∀ w ∈ e.worlds, w.hierarchy.Attended ∧ ∀ r ∈ w.regions, r.hierarchy.Attended) ∧
      ∀ elapsed s e' s', e.runTick elapsed s = .ok (e', s') →
        ∀ w ∈ e'.worlds, w.hierarchy.Settled ∧ ∀ r ∈ w.regions, r.hierarchy.Settled := by
  have regions : ∀ r : Region N L, r.Reached NodeEdit.Calm → r.hierarchy.Attended :=
    fun r reached => (reached.kept Hierarchy.attended_kept).2
  have worlds : ∀ w : World σ N L, w.Reached NodeEdit.Calm →
      w.hierarchy.Attended ∧ ∀ r ∈ w.regions, r.hierarchy.Attended := by
    intro w reached
    have sound := reached.sound Hierarchy.attended_kept
    exact ⟨sound.kept, fun r listed => regions r (sound.regions r listed)⟩
  refine ⟨regions, worlds, fun e reached => ?_⟩
  refine ⟨fun w listed => worlds w (reached.worlds w listed), ?_⟩
  intro elapsed s e' s' done w' listed
  obtain ⟨w, before, ran⟩ := exists_of_forall₂ (Engine.runTick_ran done) listed
  have drained := ran.drained (reached.worlds w before)
  obtain ⟨attended, attended_regions⟩ := worlds w' (ran.reached (reached.worlds w before))
  refine ⟨attended.settled fun i q => drained.empty q (by cases q <;> decide) i, fun r mem => ?_⟩
  exact (attended_regions r mem).settled (drained.regions r mem)

/-- The first tick of a world in which one cell has been requested. -/
theorem settled_after_request :
    let e : Engine Unit Unit Unit :=
      (({ config := {}, threads := 1 } : Engine Unit Unit Unit).addWorld default
        PayloadFactory.plain).modifyWorld default (·.queueCreate ⟨⟨3, 0, 0⟩, 0⟩)
    e.Reached NodeEdit.Calm ∧ ∃ e' s', e.runTick Duration.zero () = .ok (e', s') ∧
      ∀ w ∈ e'.worlds, w.hierarchy.Settled ∧ ∀ r ∈ w.regions, r.hierarchy.Settled := by
  intro e
  have reached : e.Reached NodeEdit.Calm :=
    ((Engine.Reached.start {} 1).addWorld default PayloadFactory.plain).modifyWorld default
      fun w reached => reached.queueCreate _
  obtain ⟨e', s', done, -⟩ :=
    Engine.runPhases_ran (e := e) (p := .loader) rfl (n := 9) (by decide) Duration.zero ()
  exact ⟨reached, e', s', done, (attended_and_settled.2.2 e reached).2 _ _ e' s' done⟩

end OctreeWorld
