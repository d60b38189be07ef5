import OctreeWorld.Proofs.Residency
import OctreeWorld.Proofs.Service

/-!
# Commands and the nodes they act on

Queues hold coordinates. A phase that drains them acts on the nodes that stand there by then,
whatever stood there when a command was queued, so that a node can answer for an earlier one at its
place. What bounds this is that a queue is drained as a whole: no command to unload or to destroy is
left after the two phases that drain these queues.
-/

namespace OctreeWorld

variable {N L σ : Type}

namespace World

variable {w : World σ N L}

theorem unload_unloadPhase (s : σ) (i : UInt8) :
    (w.unloadPhase s).2.1.hierarchy.pending i .unload = [] := by
  have rel := w.drainLevels_levelwise (R := fun _ m => m.pending .unload = []) .unload
    (fun ctx l s => Level.pending_unload w.processors.unload ctx l s .unload) s
  exact rel.pending (f := fun _ => []) rfl (fun _ _ same => same) i

/-- After draining the unload queues a node is deleting that was so before, or that is a leaf which
a queue named. -/
theorem deleting_unloadPhase (obeys : ∀ p ∈ w.processors.unload, p.Obeys NodeEdit.Calm) (s : σ)
    (c : Coord) :
    (∃ n, (w.unloadPhase s).2.1.hierarchy.get? c = some n ∧ n.state = .deleting) ↔
      ∃ n, w.hierarchy.get? c = some n ∧ (n.state = .deleting ∨
        c ∈ w.hierarchy.pending c.level .unload ∧ n.isLeaf = true) := by
  have moved := unloadPhase_moved obeys s
  have turns : ∀ n, w.hierarchy.unloadedState c n = .deleting ↔ n.state = .deleting ∨
      c ∈ w.hierarchy.pending c.level .unload ∧ n.isLeaf = true := by
    intro n
    unfold Hierarchy.unloadedState
    by_cases deleting : n.state = .deleting
    · simp [deleting]
    · by_cases queued : c ∈ w.hierarchy.pending c.level .unload <;> cases n.isLeaf <;>
        simp [deleting, queued]
  constructor
  · rintro ⟨n', found', state⟩
    obtain ⟨n, found, -, same⟩ := moved.back found'
    exact ⟨n, found, (turns n).mp (same.symm.trans state)⟩
  · rintro ⟨n, found, due⟩
    obtain ⟨n', found', -, same⟩ := moved.of_some found
    exact ⟨n', found', same.trans ((turns n).mpr due)⟩

/-- Which nodes the two phases that drain the queues retire and remove depends on what the queues
name by then, and none of it is left to be acted on later. -/
theorem Recorded.commands_spent {s : σ} {hist : History} (recorded : w.Recorded s hist) :
    let u := (w.unloadPhase s).2.1
    let d := (u.destroyPhase (w.unloadPhase s).2.2).2.1
    (∀ c, (∃ n, u.hierarchy.get? c = some n ∧ n.state = .deleting) ↔
      ∃ n, w.hierarchy.get? c = some n ∧ (n.state = .deleting ∨
        c ∈ w.hierarchy.pending c.level .unload ∧ n.isLeaf = true)) ∧
    (∀ c, d.hierarchy.contains c = true ↔
      u.hierarchy.contains c = true ∧ ¬ u.hierarchy.Doomed u.hierarchy.indices c) ∧
    ∀ i, d.hierarchy.pending i .unload = [] ∧ d.hierarchy.pending i .destroy = [] := by
  intro u d
  have faithful := recorded.faithful
  have linked : u.hierarchy.Linked := unloadPhase_linked faithful.linked s
  obtain ⟨removed, g, s', run, pruned, empty, -⟩ :=
    linked.destroyPending u.processors.unload (u.batchContext .unload) (w.unloadPhase s).2.2
  have result : d.hierarchy = g := by
    simp only [d, destroyPhase, run]
  rw [result]
  refine ⟨deleting_unloadPhase faithful.calm.node.unload s, fun c => pruned.contains c,
    fun i => ⟨?_, empty i⟩⟩
  rw [pruned.other i .unload (by decide)]
  exact unload_unloadPhase s i

/-- A leaf whose unload is pending leaves with the two phases, and its command with it. -/
theorem commands_spent_on_leaf :
    let c : Coord := ⟨⟨0, 0, 0⟩, 0⟩
    let run := (Run.idle .unload 1).on [.createNode c, .loadPhase, .queueUnload c]
    let u := (run.world.unloadPhase run.state).2.1
    let d := (u.destroyPhase (run.world.unloadPhase run.state).2.2).2.1
    run.world.Recorded run.state run.hist ∧ run.world.hierarchy.pending 0 .unload = [c] ∧
      (∃ n, u.hierarchy.get? c = some n ∧ n.state = .deleting) ∧
      u.hierarchy.pending 0 .destroy = [c] ∧ d.hierarchy.contains c = false ∧
      d.hierarchy.pending 0 .unload = [] ∧ d.hierarchy.pending 0 .destroy = [] := by
  intro c run u d
  have recorded : run.world.Recorded run.state run.hist :=
    (Run.idle_recorded .unload 1).on (by simp [Operation.Fair])
  have queued : run.world.hierarchy.pending 0 .unload = [c] := by decide +kernel
  have leaf : (run.world.hierarchy.get? c).any (·.isLeaf) = true := by decide +kernel
  have doomed : u.hierarchy.pending 0 .destroy = [c] := by decide +kernel
  have gone : d.hierarchy.contains c = false := by decide +kernel
  obtain ⟨n, found, leaf⟩ := (Option.any_eq_true ..).mp leaf
  have due : c ∈ run.world.hierarchy.pending c.level .unload := queued ▸ List.mem_singleton_self c
  have retired := (recorded.commands_spent.1 c).mpr ⟨n, found, Or.inr ⟨due, leaf⟩⟩
  have spent := recorded.commands_spent.2.2 0
  refine ⟨recorded, queued, retired, doomed, gone, ?_⟩
  simp only [d, u]
  exact spent

/-- A leaf is unloaded at once while a command to unload or to destroy it is pending, and is created
anew. The command retires or removes the new node, which nobody has asked to unload. -/
theorem commands_outlive_node :
    let c : Coord := ⟨⟨0, 0, 0⟩, 0⟩
    let state := fun run : Run Unit Unit Unit => (run.world.hierarchy.get? c).map (·.state)
    let queued := (Run.idle .unload 1).on [.createNode c, .loadPhase, .queueUnload c]
    let renewed := queued.on [.unloadNode c, .createNode c, .loadPhase]
    let retired := queued.on [.unloadPhase, .unloadNode c, .createNode c, .loadPhase]
    renewed.world.Recorded renewed.state renewed.hist ∧
      state renewed = some .loaded ∧ state (renewed.on [.unloadPhase]) = some .deleting ∧
      retired.world.Recorded retired.state retired.hist ∧
      state retired = some .loaded ∧ state (retired.on [.destroyPhase]) = none := by
  intro c state queued renewed retired
  have recorded : queued.world.Recorded queued.state queued.hist :=
    (Run.idle_recorded .unload 1).on (by simp [Operation.Fair])
  exact ⟨recorded.on (by simp [Operation.Fair]), by decide +kernel, by decide +kernel,
    recorded.on (by simp [Operation.Fair]), by decide +kernel, by decide +kernel⟩

end World

end OctreeWorld
