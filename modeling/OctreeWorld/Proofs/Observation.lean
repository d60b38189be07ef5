import OctreeWorld.Proofs.Commands
import OctreeWorld.Proofs.Eviction

/-!
# Observers and eviction

Eviction asks for the observers of a node once, when the level workers queue it. Between the phases
of a tick observers may come and go. A node that was observed when the level workers ran stays,
even if everybody leaves it right after. A node that nobody observed by then is committed to: from
there on only its children decide, and an observer who comes later does not save it.
-/

namespace OctreeWorld

variable {N L σ : Type}

namespace World

/-- A world after observers have come to its nodes and left them. -/
def Recounted : World σ N L → World σ N L → Prop :=
  Relation.ReflTransGen fun w v =>
    ∃ c count, w.observe c = .ok (count, v) ∨ w.release c = .ok (count, v)

/-- The phases of one tick of a world, with observers that come and go between any two of them: what
the level workers leave, what the unload phase finds and leaves, and what is left in the end. -/
structure Interleaved (config : StreamConfig) (loaders : List Loader) (tick : UInt64)
    (now : SimTime) (timeout : Duration) (w streamed ready retired cleared : World σ N L) :
    Prop where
  stream : ∃ s, streamed = (w.levelWorkerPhase (Level.stream config loaders tick now timeout) s).2.1
  wait : ∃ v₁ v₂ s, Recounted streamed v₁ ∧ Recounted v₁.createPhase.2 v₂ ∧
    Recounted (v₂.loadPhase s).2.1 ready
  unload : ∃ s, retired = (ready.unloadPhase s).2.1
  destroy : ∃ v s, Recounted retired v ∧ cleared = (v.destroyPhase s).2.1

/-- Between two worlds no command to unload or to destroy comes or goes, every node stays, and one
that is unloading stays so. -/
structure Waits (w v : World σ N L) : Prop where
  linked : v.hierarchy.Linked
  processors : v.processors = w.processors
  unload : ∀ i, v.hierarchy.pending i .unload = w.hierarchy.pending i .unload
  destroy : ∀ i, v.hierarchy.pending i .destroy = w.hierarchy.pending i .destroy
  node : ∀ c n, w.hierarchy.get? c = some n → ∃ m, v.hierarchy.get? c = some m ∧
    (n.state = .unloading → m.state = .unloading)

/-- Observers leave commands, links and states alone. -/
structure Same (w v : World σ N L) : Prop where
  linked : w.hierarchy.Linked → v.hierarchy.Linked
  processors : v.processors = w.processors
  pending : ∀ i q, v.hierarchy.pending i q = w.hierarchy.pending i q
  node : Moved (fun _ n => n.state) w.hierarchy.get? v.hierarchy.get?

variable {w v u : World σ N L}

theorem same_modifyNode {c : Coord} {f : Node N → Node N}
    (count : ∀ n, w.hierarchy.get? c = some n → ∃ k, f n = { n with observers := k }) :
    Same w (w.modifyNode c f) := by
  have frame := Hierarchy.frame_modify w.hierarchy c f
  refine ⟨fun linked => ?_, rfl, Hierarchy.pending_of_frame frame, fun x => ?_⟩
  · have evolved : Hierarchy.Evolved (fun _ => True) w.hierarchy (w.hierarchy.modify c f) :=
      .observers count
    exact evolved.linked linked
  · show ((w.hierarchy.modify c f).get? x).map Node.stage = _
    rw [Hierarchy.get?_modify]
    split
    · subst x
      cases found : w.hierarchy.get? c with
      | none => rfl
      | some n =>
        obtain ⟨k, counted⟩ := count n found
        simp only [Option.map_some, counted]
        rfl
    · rfl

theorem Recounted.same (recounted : Recounted w v) : Same w v := by
  induction recounted with
  | refl => exact ⟨fun linked => linked, rfl, fun _ _ => rfl, fun _ => rfl⟩
  | @tail v u _ step ih =>
    have last : Same v u := by
      obtain ⟨c, count, done | done⟩ := step
      · unfold observe at done
        split at done
        · cases done
        · cases done
          exact same_modifyNode fun n _ => ⟨_, rfl⟩
      · unfold release at done
        split at done
        · cases done
        · rename_i n found
          split at done
          · cases done
          · rename_i released taken
            cases done
            refine same_modifyNode fun m at_ => ?_
            rw [found, Option.some.injEq] at at_
            subst at_
            exact Node.removeObserver?_eq_some taken
    exact ⟨last.linked ∘ ih.linked, last.processors.trans ih.processors,
      fun i q => (last.pending i q).trans (ih.pending i q), ih.node.then_same last.node⟩

namespace Waits

theorem refl (linked : w.hierarchy.Linked) : Waits w w :=
  ⟨linked, rfl, fun _ => rfl, fun _ => rfl, fun _ n found => ⟨n, found, fun same => same⟩⟩

theorem trans (first : Waits w v) (second : Waits v u) : Waits w u := by
  refine ⟨second.linked, second.processors.trans first.processors,
    fun i => (second.unload i).trans (first.unload i),
    fun i => (second.destroy i).trans (first.destroy i), fun c n found => ?_⟩
  obtain ⟨m, found', kept⟩ := first.node c n found
  obtain ⟨k, found'', kept'⟩ := second.node c m found'
  exact ⟨k, found'', kept' ∘ kept⟩

theorem recounted (waits : Waits w v) (recounted : Recounted v u) : Waits w u := by
  have same := recounted.same
  refine waits.trans ⟨same.linked waits.linked, same.processors, fun i => same.pending i _,
    fun i => same.pending i _, fun c n found => ?_⟩
  obtain ⟨m, found', -, state⟩ := same.node.of_some found
  exact ⟨m, found', state.trans⟩

theorem create (waits : Waits w v) : Waits w v.createPhase.2 := by
  obtain ⟨created, grown, -⟩ := createPhase_grown waits.linked
  refine waits.trans ⟨grown.linked, rfl, fun i => grown.other i _ nofun nofun,
    fun i => grown.other i _ nofun nofun, fun c n found => ?_⟩
  have body := grown.old (Hierarchy.contains_iff.mpr ⟨n, found⟩)
  obtain ⟨m, found', same⟩ := Hierarchy.exists_of_body body.symm found
  exact ⟨m, found', fun unloading => (Node.state_congr same).trans unloading⟩

theorem load (waits : Waits w v) (calm : w.processors.toNodeProcessors.Obey NodeEdit.Calm)
    (s : σ) : Waits w (v.loadPhase s).2.1 := by
  have obeys : ∀ p ∈ v.processors.load, p.Obeys NodeEdit.Calm := by
    rw [waits.processors]
    exact calm.load
  refine waits.trans ⟨loadPhase_linked waits.linked s, rfl, fun i => ?_, fun i => ?_,
    fun c n found => ?_⟩
  · rw [pending_loadPhase, if_neg (by decide)]
  · rw [pending_loadPhase, if_neg (by decide)]
  · obtain ⟨m, found', -, state⟩ := (loadPhase_moved obeys s).of_some found
    refine ⟨m, found', fun unloading => ?_⟩
    rw [state, Hierarchy.loadedState, unloading, if_neg]
    exact fun both => NodeState.noConfusion both.1

end Waits

/-- Which cells are doomed shows in the destroy queues and in what is resident. -/
theorem Same.doomed (same : Same w v) (is : List UInt8) (c : Coord) :
    v.hierarchy.Doomed is c ↔ w.hierarchy.Doomed is c := by
  have resident : ∀ x, v.hierarchy.contains x = w.hierarchy.contains x := same.node.isSome
  simp only [Hierarchy.Doomed, same.pending, resident]

namespace Interleaved

variable {config : StreamConfig} {loaders : List Loader} {tick : UInt64} {now : SimTime}
  {timeout : Duration} {streamed ready retired cleared : World σ N L}

section Round

variable (round : Interleaved config loaders tick now timeout w streamed ready retired cleared)
  (linked : w.hierarchy.Linked) (calm : w.Undisturbed)

include round linked calm

/-- What the level workers of an undisturbed world leave. -/
theorem streams : streamed.hierarchy.Linked ∧ streamed.processors = w.processors ∧
    w.hierarchy.Streamed config loaders tick now timeout streamed.hierarchy := by
  obtain ⟨s, rfl⟩ := round.stream
  refine ⟨?_, by rw [levelWorkerPhase_eq],
    levelWorkerPhase_streamed linked calm.level calm.unload s⟩
  have allowed : ∀ p ∈ w.processors.level, p.Obeys (LevelEdit.Allowed NodeEdit.Calm) :=
    fun p mem ctx l t e given => (calm.level p mem ctx l t e given).allowed
  have called :=
    levelWorkerPhase_called allowed (Level.stream_called config loaders tick now timeout) s
  exact linked.levelwise (called.imp fun _ _ steps => (Level.Stepped.of_called steps).sameLinks)

theorem waits : Waits streamed ready := by
  obtain ⟨stays, processors, -⟩ := round.streams linked calm
  obtain ⟨v₁, v₂, s, first, second, third⟩ := round.wait
  have drained := (((Waits.refl stays).recounted first).create.recounted second).load
    (by rw [processors]; exact calm.node) s
  exact drained.recounted third

/-- After its last phase the world is as undisturbed as before the first. -/
theorem undisturbed : cleared.hierarchy.Linked ∧ cleared.Undisturbed := by
  have processors := (round.streams linked calm).2.1
  have waits := round.waits linked calm
  obtain ⟨s, rfl⟩ := round.unload
  obtain ⟨v, t, recounted, rfl⟩ := round.destroy
  have same := recounted.same
  obtain ⟨pruned, empty⟩ :=
    destroyPhase_pruned (same.linked (unloadPhase_linked waits.linked s)) t
  have registered : v.processors = w.processors :=
    same.processors.trans (waits.processors.trans processors)
  refine ⟨pruned.linked, fun i => ?_, empty, ?_, ?_⟩
  · rw [pruned.other i .unload nofun, same.pending, unload_unloadPhase]
  · rw [show (v.destroyPhase t).2.1.processors = _ from registered]
    exact calm.node
  · rw [show (v.destroyPhase t).2.1.processors = _ from registered]
    exact calm.level

/-- What the level workers queue for unloading is unused. -/
theorem unused {c : Coord} {n : Node N} (found : w.hierarchy.get? c = some n)
    (queued : c ∈ streamed.hierarchy.pending c.level .unload) : n.isUnused now timeout = true := by
  obtain ⟨-, -, streams⟩ := round.streams linked calm
  obtain ⟨n', at_, unused⟩ := streams.unused c.level c queued
  rw [found, Option.some.injEq] at at_
  rwa [at_]

/-- What becomes of a node in the unload and the destroy phase: queued leaves go, and nothing else
does. -/
theorem drains {c : Coord} {m : Node N} (found : ready.hierarchy.get? c = some m) :
    (∃ m', retired.hierarchy.get? c = some m' ∧
      m'.state = ready.hierarchy.unloadedState c m) ∧
    (¬ (c ∈ ready.hierarchy.pending c.level .unload ∧ m.isLeaf = true) →
      cleared.hierarchy.contains c = true) ∧
    (c ∈ ready.hierarchy.pending c.level .unload → m.isLeaf = true → m.state ≠ .deleting →
      cleared.hierarchy.contains c = false) := by
  obtain ⟨-, processors, streams⟩ := round.streams linked calm
  have waits := round.waits linked calm
  obtain ⟨s, rfl⟩ := round.unload
  obtain ⟨v, t, recounted, rfl⟩ := round.destroy
  have same := recounted.same
  have obeys : ∀ p ∈ ready.processors.unload, p.Obeys NodeEdit.Calm := by
    rw [waits.processors, processors]
    exact calm.node.unload
  have linked_v := same.linked (unloadPhase_linked waits.linked s)
  obtain ⟨m', found', -, state'⟩ := (unloadPhase_moved obeys s).of_some found
  obtain ⟨x, found_x, -⟩ := same.node.of_some found'
  refine ⟨⟨m', found', state'⟩, fun spared => ?_, fun queued leaf live => ?_⟩
  · have idle : ∀ i, ready.hierarchy.pending i .destroy = [] := fun i => by
      rw [waits.destroy, streams.pending i .destroy nofun nofun nofun, calm.destroy]
    have free : ∀ is, ¬ v.hierarchy.Doomed is c := fun is doomed =>
      not_doomed_unloadPhase waits.linked idle found spared s is ((same.doomed is c).mp doomed)
    obtain ⟨y, found_y, -⟩ := destroyPhase_kept linked_v found_x free t
    exact Hierarchy.contains_iff.mpr ⟨y, found_y⟩
  · have doomed := destroy_of_retiring found queued leaf live s
    rw [← same.pending] at doomed
    exact destroyPhase_gone linked_v (Hierarchy.contains_iff.mpr ⟨x, found_x⟩) doomed t

/-- From the level workers on, a node leaves if it has been queued and is a leaf when the unload
phase runs. Observers are of no account any more: a node that was observed when the level workers
ran has not been queued, and one that has been queued goes back to loaded only for its children. -/
theorem eviction : (cleared.hierarchy.Linked ∧ cleared.Undisturbed) ∧
    ∀ c n, w.hierarchy.get? c = some n →
      (n.observers ≠ 0 → c ∉ streamed.hierarchy.pending c.level .unload) ∧
      (c ∉ streamed.hierarchy.pending c.level .unload →
        (∃ m m', ready.hierarchy.get? c = some m ∧ retired.hierarchy.get? c = some m' ∧
          m'.state = m.state) ∧ cleared.hierarchy.contains c = true) ∧
      (c ∈ streamed.hierarchy.pending c.level .unload →
        n.isUnused now timeout = true ∧
        ∃ m m', ready.hierarchy.get? c = some m ∧ m.state = .unloading ∧
          retired.hierarchy.get? c = some m' ∧
          m'.state = (if m.isLeaf then .deleting else .loaded) ∧
          (cleared.hierarchy.contains c = true ↔ m.isLeaf = false)) := by
  refine ⟨round.undisturbed linked calm, fun c n found => ?_⟩
  obtain ⟨-, -, streams⟩ := round.streams linked calm
  have waits := round.waits linked calm
  obtain ⟨k, found_k, -, state_k⟩ := streams.node.of_some found
  obtain ⟨m, found_m, kept⟩ := waits.node c k found_k
  obtain ⟨⟨m', found', state'⟩, stays, goes⟩ := round.drains linked calm found_m
  rw [waits.unload] at stays goes
  rw [Hierarchy.unloadedState, waits.unload] at state'
  refine ⟨fun observed queued => ?_, fun away => ?_, fun queued => ?_⟩
  · have unused := round.unused linked calm found queued
    simp only [Node.isUnused, Bool.and_eq_true, beq_iff_eq] at unused
    exact observed unused.1.1.2
  · refine ⟨⟨m, m', found_m, found', ?_⟩, stays fun both => away both.1⟩
    rw [state', if_neg fun both => away both.1]
  · have unloading : m.state = .unloading := kept (by rw [state_k, if_pos queued])
    have live : m.state ≠ .deleting := by
      rw [unloading]
      exact NodeState.noConfusion
    rw [if_pos ⟨queued, live⟩] at state'
    refine ⟨round.unused linked calm found queued, m, m', found_m, unloading, found', state',
      fun there => ?_, fun parent => stays fun both => ?_⟩
    · by_contra leaf
      rw [goes queued (Bool.eq_true_of_not_eq_false leaf) live] at there
      cases there
    · rw [both.2] at parent
      cases parent

end Round

end Interleaved

theorem observe_eq {c : Coord} (resident : w.hierarchy.contains c = true) :
    ∃ count, w.observe c = .ok (count, w.modifyNode c (·.addObserver)) := by
  obtain ⟨n, found⟩ := Hierarchy.contains_iff.mp resident
  exact ⟨n.addObserver.observers, by rw [observe, found]⟩

/-- A world of one loaded node that nobody has needed for half a minute. -/
def deserted : World Unit Unit Unit :=
  ((((World.empty default { levelCount := 1 } PayloadFactory.plain).queueCreate
    ⟨⟨0, 0, 0⟩, 0⟩).createPhase.2.loadPhase ()).2.1).setTime 1 ⟨30000000⟩

theorem deserted_linked : deserted.hierarchy.Linked := by
  have reached : deserted.Reached fun _ => True :=
    ((((World.Reached.empty _ _ _).queueCreate _).createPhase).loadPhase ()).setTime _ _
  exact (reached.sound (.trivial _)).linked

theorem deserted_undisturbed : deserted.Undisturbed :=
  undisturbed_of_isEmpty rfl (by decide +kernel)

/-- The only node of a world is queued, and nobody comes. -/
theorem eviction_of_deserted :
    let c : Coord := ⟨⟨0, 0, 0⟩, 0⟩
    let timeout := deserted.config.evictionTimeout
    let streamed :=
      (deserted.levelWorkerPhase (Level.stream {} [] 1 ⟨30000000⟩ timeout) ()).2.1
    let ready := (streamed.createPhase.2.loadPhase ()).2.1
    let retired := (ready.unloadPhase ()).2.1
    let cleared := (retired.destroyPhase ()).2.1
    Interleaved {} [] 1 ⟨30000000⟩ timeout deserted streamed ready retired cleared ∧
      deserted.hierarchy.Linked ∧ deserted.Undisturbed ∧
      ∃ n m, deserted.hierarchy.get? c = some n ∧ n.isUnused ⟨30000000⟩ timeout = true ∧
        ready.hierarchy.get? c = some m ∧ m.state = .unloading ∧
        (cleared.hierarchy.contains c = true ↔ m.isLeaf = false) := by
  intro c timeout streamed ready retired cleared
  have round : Interleaved {} [] 1 ⟨30000000⟩ timeout deserted streamed ready retired cleared :=
    ⟨⟨(), rfl⟩, ⟨streamed, streamed.createPhase.2, (), .refl, .refl, .refl⟩, ⟨(), rfl⟩,
      retired, (), .refl, rfl⟩
  obtain ⟨n, found⟩ := Hierarchy.contains_iff.mp
    (show deserted.hierarchy.contains c = true by decide +kernel)
  have queued : c ∈ streamed.hierarchy.pending c.level .unload := by decide +kernel
  obtain ⟨unused, m, m', found_m, unloading, -, -, gone⟩ :=
    ((round.eviction deserted_linked deserted_undisturbed).2 c n found).2.2 queued
  exact ⟨round, deserted_linked, deserted_undisturbed, n, m, found, unused, found_m, unloading,
    gone⟩

/-- An observer comes after the level workers have queued the only node of a world. The node is
observed when the unload phase runs, and is retired and removed all the same. -/
theorem observer_comes_too_late :
    let c : Coord := ⟨⟨0, 0, 0⟩, 0⟩
    let timeout := deserted.config.evictionTimeout
    let streamed :=
      (deserted.levelWorkerPhase (Level.stream {} [] 1 ⟨30000000⟩ timeout) ()).2.1
    let ready := (streamed.createPhase.2.loadPhase ()).2.1.modifyNode c (·.addObserver)
    let retired := (ready.unloadPhase ()).2.1
    let cleared := (retired.destroyPhase ()).2.1
    Interleaved {} [] 1 ⟨30000000⟩ timeout deserted streamed ready retired cleared ∧
      deserted.hierarchy.Linked ∧ deserted.Undisturbed ∧
      deserted.hierarchy.pending 0 .unload = [] ∧ streamed.hierarchy.pending 0 .unload = [c] ∧
      (ready.hierarchy.get? c).map (fun n => (n.state, n.observers)) = some (.unloading, 1) ∧
      (retired.hierarchy.get? c).map (fun n => (n.state, n.observers)) = some (.deleting, 1) ∧
      cleared.hierarchy.contains c = false := by
  intro c timeout streamed ready retired cleared
  have waiting : (streamed.createPhase.2.loadPhase ()).2.1.hierarchy.contains c = true := by
    decide +kernel
  obtain ⟨count, observed⟩ := observe_eq waiting
  refine ⟨⟨⟨(), rfl⟩, ⟨streamed, streamed.createPhase.2, (), .refl, .refl, ?_⟩, ⟨(), rfl⟩,
    retired, (), .refl, rfl⟩, deserted_linked, deserted_undisturbed, by decide +kernel,
    by decide +kernel, by decide +kernel, by decide +kernel, by decide +kernel⟩
  exact .single ⟨c, count, Or.inl observed⟩

end World

end OctreeWorld
