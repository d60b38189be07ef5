import OctreeWorld.Proofs.Calls

/-!
# What is handed to processors

The batches that a drain of a queue, an unloaded subtree or a drain of the destroy queues hands to
processors of nodes, listed along with the run. On levels whose nodes stand where they belong each
of them is orderly, and with the processors logged the run writes down their calls and nothing
else.
-/

namespace OctreeWorld

variable {N L σ : Type}

namespace NodeBatch

/-- An outer state with a log that goes on with the calls of some batches. -/
def written (bs : List (NodeBatch σ N L)) (log : CallLog) (s : σ) : σ × CallLog :=
  (s, log ++ bs.flatMap calls)

theorem written_nil (log : CallLog) (s : σ) :
    written ([] : List (NodeBatch σ N L)) log s = (s, log) :=
  Prod.ext rfl (List.append_nil log)

theorem written_append (as bs : List (NodeBatch σ N L)) (log : CallLog) (s : σ) :
    written bs (log ++ as.flatMap calls) s = written (as ++ bs) log s := by
  rw [written, written, List.flatMap_append, List.append_assoc]

end NodeBatch

open NodeBatch

theorem NodeProcessors.ofKind_logged (ps : NodeProcessors σ N L) (kind : CommandKind) :
    ps.logged.ofKind kind = logFrom kind 0 (ps.ofKind kind) := by
  cases kind <;> rfl

/-- A batch that can be carried out logs its calls. -/
theorem NodeBatch.Ready.run_logged {ps : NodeProcessors σ N L} {b : NodeBatch σ N L}
    (ready : b.Ready ps) {kind : CommandKind} (same : b.context.kind = kind) (log : CallLog) :
    runNodeBatch (ps.logged.ofKind kind) b.context b.level b.commands (b.state, log) =
      (b.run.1, written b.handed log b.run.2) := by
  subst same
  rw [NodeProcessors.ofKind_logged, ← ready.registered, b.run_logged ready.resident]
  rfl

/-! ### One level's queues -/

namespace Level

variable (ps : NodeProcessors σ N L) {ctx : BatchContext} {l : Level N L}

theorem holds_of_placed (placed : ∀ c n, l.get? c = some n → n.coord = c) {c : Coord}
    {test : Node N → Bool} (passed : (l.get? c).any test = true) : l.Holds c := by
  obtain ⟨n, found, -⟩ := (Option.any_eq_true test (l.get? c)).mp passed
  exact ⟨n, found, placed c n found⟩

/-- The batch of a drain of the load queue. -/
def loadBatch (ps : NodeProcessors σ N L) (ctx : BatchContext) (l : Level N L) (s : σ) :
    NodeBatch σ N L where
  processors := ps.load
  context := ctx
  level := l.clear .load
  commands := (l.drained .load).filter fun c => (l.get? c).any (·.state == .loading)
  state := s

/-- The batch of a drain of the tick queue. -/
def tickBatch (ps : NodeProcessors σ N L) (ctx : BatchContext) (l : Level N L) (s : σ) :
    NodeBatch σ N L where
  processors := ps.tick
  context := ctx
  level := l.clear .tick
  commands := (l.drained .tick).filter l.contains
  state := s

/-- The batch of a drain of the unload queue. -/
def unloadBatch (ps : NodeProcessors σ N L) (ctx : BatchContext) (l : Level N L) (s : σ) :
    NodeBatch σ N L where
  processors := ps.unload
  context := ctx
  level := (l.clear .unload).modifyAll l.sparing (·.withState .loaded)
  commands := l.retiring
  state := s

theorem shown_loadBatch (kind : ctx.kind = .load) (s : σ) (k : CommandKind) :
    shown k (loadBatch ps ctx l s).handed =
      if .load = k then (l.load ps.load ctx s).1 else 0 := by
  rw [shown_handed, ← kind]
  rfl

theorem shown_tickBatch (kind : ctx.kind = .tick) (s : σ) (k : CommandKind) :
    shown k (tickBatch ps ctx l s).handed =
      if .tick = k then (l.tick ps.tick ctx s).1 else 0 := by
  rw [shown_handed, ← kind]
  rfl

theorem shown_unloadBatch (kind : ctx.kind = .unload) (s : σ) (k : CommandKind) :
    shown k (unloadBatch ps ctx l s).handed =
      if .unload = k then (l.unload ps.unload ctx s).1 else 0 := by
  rw [shown_handed, ← kind]
  rfl

section Placed

variable (placed : ∀ c n, l.get? c = some n → n.coord = c) (aimed : ctx.level = some l.index)

include placed aimed

theorem loadBatch_ready (kind : ctx.kind = .load) (s : σ) : (loadBatch ps ctx l s).Ready ps where
  registered := (congrArg ps.ofKind kind).symm
  level := aimed
  nodup := (nodup_drained l .load).filter _
  resident := fun _ named => holds_of_placed placed (List.mem_filter.mp named).2

theorem tickBatch_ready (kind : ctx.kind = .tick) (s : σ) : (tickBatch ps ctx l s).Ready ps where
  registered := (congrArg ps.ofKind kind).symm
  level := aimed
  nodup := (nodup_drained l .tick).filter _
  resident := by
    intro c named
    obtain ⟨n, found⟩ := Option.isSome_iff_exists.mp (List.mem_filter.mp named).2
    exact ⟨n, found, placed c n found⟩

theorem unloadBatch_ready (kind : ctx.kind = .unload) (s : σ) :
    (unloadBatch ps ctx l s).Ready ps where
  registered := (congrArg ps.ofKind kind).symm
  level := aimed.trans (congrArg some (index_modifyAll (l.clear .unload) _ _).symm)
  nodup := ((nodup_drained l .unload).filter _).filter _
  resident := by
    intro c named
    obtain ⟨-, n, found, -⟩ := mem_retiring.mp named
    have spared : l.SameLinks ((l.clear .unload).modifyAll l.sparing (·.withState .loaded)) :=
      (SameLinks.clear l .unload).trans (.modifyAll _ _ fun _ => rfl)
    have stays := spared.2 c
    rw [found] at stays
    obtain ⟨n', found', -⟩ := Option.map_eq_some_iff.mp stays
    exact ⟨n', found', spared.placed placed c n' found'⟩

theorem load_logged (kind : ctx.kind = .load) (s : σ) (log : CallLog) :
    l.load ps.logged.load ctx (s, log) = ((l.load ps.load ctx s).1, (l.load ps.load ctx s).2.1,
      written (loadBatch ps ctx l s).handed log (l.load ps.load ctx s).2.2) := by
  have run := (loadBatch_ready ps placed aimed kind s).run_logged kind log
  exact congrArg (fun r => ((loadBatch ps ctx l s).commands.length,
    r.1.modifyAll (loadBatch ps ctx l s).commands (·.withState .loaded), r.2)) run

theorem tick_logged (kind : ctx.kind = .tick) (s : σ) (log : CallLog) :
    l.tick ps.logged.tick ctx (s, log) = ((l.tick ps.tick ctx s).1, (l.tick ps.tick ctx s).2.1,
      written (tickBatch ps ctx l s).handed log (l.tick ps.tick ctx s).2.2) := by
  have run := (tickBatch_ready ps placed aimed kind s).run_logged kind log
  exact congrArg (fun r => ((tickBatch ps ctx l s).commands.length, r)) run

theorem unload_logged (kind : ctx.kind = .unload) (s : σ) (log : CallLog) :
    l.unload ps.logged.unload ctx (s, log) =
      ((l.unload ps.unload ctx s).1, (l.unload ps.unload ctx s).2.1,
        written (unloadBatch ps ctx l s).handed log (l.unload ps.unload ctx s).2.2) := by
  have run := (unloadBatch_ready ps placed aimed kind s).run_logged kind log
  exact congrArg (fun r => (l.retiring.length,
    (r.1.modifyAll l.retiring (·.withState .deleting)).pushAll .destroy l.retiring, r.2)) run

end Placed

end Level

/-! ### Sweeps -/

/-- The batches of a step on every element of a list in turn. -/
def sweepBatches {τ α : Type} (step : τ → σ → α × τ × σ)
    (batches : τ → σ → List (NodeBatch σ N L)) : List τ → σ → List (NodeBatch σ N L)
  | [], _ => []
  | t :: ts, s => batches t s ++ sweepBatches step batches ts (step t s).2.2

section Sweep

variable {τ α : Type} {step : τ → σ → α × τ × σ}
  {step' : τ → σ × CallLog → α × τ × σ × CallLog} {batches : τ → σ → List (NodeBatch σ N L)}

theorem sweep_logged {ts : List τ}
    (each : ∀ t ∈ ts, ∀ s log, step' t (s, log) = ((step t s).1, (step t s).2.1,
      written (batches t s) log (step t s).2.2)) (s : σ) (log : CallLog) :
    sweep step' ts (s, log) = ((sweep step ts s).1, (sweep step ts s).2.1,
      written (sweepBatches step batches ts s) log (sweep step ts s).2.2) := by
  induction ts generalizing s log with
  | nil => rw [sweepBatches, written_nil, sweep, sweep]
  | cons t ts ih =>
    have rest := ih (fun u listed => each u (List.mem_cons_of_mem t listed)) (step t s).2.2
      (log ++ (batches t s).flatMap calls)
    rw [written_append] at rest
    simp only [sweep, each t List.mem_cons_self, sweepBatches]
    rw [written, rest]

theorem forall_sweepBatches {P : NodeBatch σ N L → Prop} {ts : List τ}
    (each : ∀ t ∈ ts, ∀ s, ∀ b ∈ batches t s, P b) (s : σ) :
    ∀ b ∈ sweepBatches step batches ts s, P b := by
  induction ts generalizing s with
  | nil => exact fun b listed => absurd listed List.not_mem_nil
  | cons t ts ih =>
    intro b listed
    rcases List.mem_append.mp listed with first | later
    · exact each t List.mem_cons_self s b first
    · exact ih (fun u named => each u (List.mem_cons_of_mem t named)) _ b later

/-- Where a step answers how many nodes it shows, a sweep does. -/
theorem shown_sweepBatches (step : τ → σ → α × τ × σ) (batches : τ → σ → List (NodeBatch σ N L))
    {kind : CommandKind} (count : α → Nat)
    (each : ∀ t s, shown kind (batches t s) = count (step t s).1) (ts : List τ) (s : σ) :
    shown kind (sweepBatches step batches ts s) = tally ((sweep step ts s).1.map count) := by
  induction ts generalizing s with
  | nil => rfl
  | cons t ts ih => rw [sweepBatches, shown_append, each, ih, sweep, List.map_cons, tally_cons]

end Sweep

/-! ### Subtrees -/

namespace Hierarchy

variable (ps : NodeProcessors σ N L) {ctx : BatchContext} {order : List Coord} {h : Hierarchy N L}

/-- The batch in which the nodes of a list that lie on one level are unloaded. -/
def retireBatch (ps : NodeProcessors σ N L) (ctx : BatchContext) (order : List Coord)
    (i : UInt8) (l : Level N L) (s : σ) : NodeBatch σ N L where
  processors := ps.unload
  context := ctx.atLevel i
  level := l
  commands := order.filter fun c => c.level == i && (l.get? c).any (·.state != .deleting)
  state := s

/-- What is handed out on one level when the nodes of a list are unloaded. -/
def retireBatchAt (ps : NodeProcessors σ N L) (ctx : BatchContext) (order : List Coord)
    (i : UInt8) (h : Hierarchy N L) (s : σ) : List (NodeBatch σ N L) :=
  (h.level? i).elim [] fun l => (retireBatch ps ctx order i l s).handed

/-- The batches in which the nodes of a list are unloaded, level by level. -/
def retireBatches (ps : NodeProcessors σ N L) (ctx : BatchContext) (order : List Coord) :
    List UInt8 → Hierarchy N L → σ → List (NodeBatch σ N L)
  | [], _, _ => []
  | i :: is, h, s =>
    retireBatchAt ps ctx order i h s ++
      retireBatches ps ctx order is (retireAt ps.unload ctx order i h s).1
        (retireAt ps.unload ctx order i h s).2

/-- The batches in which the subtree of a cell is unloaded. -/
def subtreeBatches (ps : NodeProcessors σ N L) (ctx : BatchContext) (h : Hierarchy N L)
    (root : Coord) (s : σ) : List (NodeBatch σ N L) :=
  match h.subtree root with
  | .error _ => []
  | .ok order =>
    retireBatches ps ctx order ((List.range (root.level.toNat + 1)).map UInt8.ofNat) h s

/-- The batches in which the subtrees of some cells are unloaded. -/
def destroyAllBatches (ps : NodeProcessors σ N L) (ctx : BatchContext) :
    List Coord → Hierarchy N L → σ → List (NodeBatch σ N L)
  | [], _, _ => []
  | c :: cs, h, s =>
    if h.contains c then
      subtreeBatches ps ctx h c s ++
        destroyAllBatches ps ctx cs (h.unloadSubtree ps.unload ctx c s).2.1
          (h.unloadSubtree ps.unload ctx c s).2.2
    else destroyAllBatches ps ctx cs h s

/-- The batches of draining the destroy queues of some levels. -/
def destroyAtBatches (ps : NodeProcessors σ N L) (ctx : BatchContext) :
    List UInt8 → Hierarchy N L → σ → List (NodeBatch σ N L)
  | [], _, _ => []
  | i :: is, h, s =>
    let doomed := CoordSet.sorted (h.pending i .destroy)
    let cleared := h.modifyLevel i (·.clear .destroy)
    let drained := (destroyAll ps.unload (ctx.atLevel i) doomed cleared s).2
    destroyAllBatches ps (ctx.atLevel i) doomed cleared s ++
      destroyAtBatches ps ctx is drained.1 drained.2

/-- The batches of draining all destroy queues. -/
def destroyBatches (ps : NodeProcessors σ N L) (ctx : BatchContext) (h : Hierarchy N L) (s : σ) :
    List (NodeBatch σ N L) :=
  destroyAtBatches ps ctx h.indices h s

variable (linked : h.Linked) (kind : ctx.kind = .unload)

include linked kind

theorem retireBatch_ready (nodup : order.Nodup) {i : UInt8} {l : Level N L}
    (stored : h.level? i = some l) (s : σ) : (retireBatch ps ctx order i l s).Ready ps where
  registered := (congrArg ps.ofKind kind).symm
  level := congrArg some (linked.numbered.index i l stored).symm
  nodup := nodup.filter _
  resident := by
    intro c named
    have chosen := (List.mem_filter.mp named).2
    rw [Bool.and_eq_true] at chosen
    exact Level.holds_of_placed (linked.placed_level (mem_levels_of_level? stored)) chosen.2

theorem retireAt_logged (nodup : order.Nodup) (i : UInt8) (s : σ) (log : CallLog) :
    retireAt ps.logged.unload ctx order i h (s, log) = ((retireAt ps.unload ctx order i h s).1,
      written (retireBatchAt ps ctx order i h s) log (retireAt ps.unload ctx order i h s).2) ∧
    ∀ b ∈ retireBatchAt ps ctx order i h s, b.Orderly ps := by
  cases stored : h.level? i with
  | none =>
    simp only [retireAt, retireBatchAt, stored, Option.elim_none, written_nil]
    exact ⟨trivial, fun b listed => absurd listed List.not_mem_nil⟩
  | some l =>
    have ready := retireBatch_ready ps linked kind nodup stored s
    have run := ready.run_logged kind log
    simp only [retireAt, retireBatchAt, stored, Option.elim_some]
    exact ⟨congrArg (fun r => (h.modifyLevel i fun _ => r.1.modifyAll
      (retireBatch ps ctx order i l s).commands (·.withState .deleting), r.2)) run, ready.orderly⟩

theorem retire_logged (nodup : order.Nodup) (is : List UInt8) (s : σ) (log : CallLog) :
    retire ps.logged.unload ctx order is h (s, log) = ((retire ps.unload ctx order is h s).1,
        written (retireBatches ps ctx order is h s) log (retire ps.unload ctx order is h s).2) ∧
      ∀ b ∈ retireBatches ps ctx order is h s, b.Orderly ps := by
  induction is generalizing h s log with
  | nil => exact ⟨Prod.ext rfl (written_nil log s).symm, List.forall_mem_nil _⟩
  | cons i is ih =>
    obtain ⟨first, orderly⟩ := retireAt_logged ps linked kind nodup i s log
    have retired := retireAt_retired ps.unload ctx order i h s
    obtain ⟨rest, orderly'⟩ := ih (linked_of_retired retired linked)
      (retireAt ps.unload ctx order i h s).2
      (log ++ (retireBatchAt ps ctx order i h s).flatMap calls)
    rw [written_append] at rest
    refine ⟨?_, List.forall_mem_append.mpr ⟨orderly, orderly'⟩⟩
    simp only [retire, first, retireBatches]
    rw [written, rest]

theorem unloadSubtree_logged (root : Coord) (s : σ) (log : CallLog) :
    h.unloadSubtree ps.logged.unload ctx root (s, log) =
        ((h.unloadSubtree ps.unload ctx root s).1, (h.unloadSubtree ps.unload ctx root s).2.1,
          written (subtreeBatches ps ctx h root s) log
            (h.unloadSubtree ps.unload ctx root s).2.2) ∧
      ∀ b ∈ subtreeBatches ps ctx h root s, b.Orderly ps := by
  cases walked : h.subtree root with
  | error e =>
    simp only [unloadSubtree, subtreeBatches, walked, written_nil]
    exact ⟨trivial, List.forall_mem_nil _⟩
  | ok order =>
    have nodup : order.Nodup := by
      rw [subtree_eq linked.numbered] at walked
      split at walked
      · rename_i resident
        rw [← Except.ok.inj walked]
        exact linked.nodup_postOrderFrom resident root.level.toNat_lt
      · split at walked <;> cases walked
    obtain ⟨same, orderly⟩ := retire_logged ps linked kind nodup
      ((List.range (root.level.toNat + 1)).map UInt8.ofNat) s log
    simp only [unloadSubtree, subtreeBatches, walked, same]
    exact ⟨trivial, orderly⟩

theorem destroyAll_logged (cs : List Coord) (s : σ) (log : CallLog) :
    destroyAll ps.logged.unload ctx cs h (s, log) = ((destroyAll ps.unload ctx cs h s).1,
        (destroyAll ps.unload ctx cs h s).2.1, written (destroyAllBatches ps ctx cs h s) log
          (destroyAll ps.unload ctx cs h s).2.2) ∧
      ∀ b ∈ destroyAllBatches ps ctx cs h s, b.Orderly ps := by
  induction cs generalizing h s log with
  | nil => exact ⟨Prod.ext rfl (Prod.ext rfl (written_nil log s).symm), List.forall_mem_nil _⟩
  | cons c cs ih =>
    by_cases resident : h.contains c = true
    · obtain ⟨first, orderly⟩ := unloadSubtree_logged ps linked kind c s log
      have unloaded : Evolved (fun _ => True) h _ := linked.unloadSubtree_evolved ps.unload ctx c s
      obtain ⟨rest, orderly'⟩ := ih (unloaded.linked linked)
        (h.unloadSubtree ps.unload ctx c s).2.2 (log ++ (subtreeBatches ps ctx h c s).flatMap calls)
      rw [written_append] at rest
      simp only [destroyAll, destroyAllBatches, if_pos resident, first]
      refine ⟨?_, List.forall_mem_append.mpr ⟨orderly, orderly'⟩⟩
      rw [written, rest]
    · simp only [destroyAll, destroyAllBatches, if_neg resident]
      exact ih linked s log

theorem destroyAt_logged (is : List UInt8) (s : σ) (log : CallLog) :
    destroyAt ps.logged.unload ctx is h (s, log) = ((destroyAt ps.unload ctx is h s).1,
        (destroyAt ps.unload ctx is h s).2.1, written (destroyAtBatches ps ctx is h s) log
          (destroyAt ps.unload ctx is h s).2.2) ∧
      ∀ b ∈ destroyAtBatches ps ctx is h s, b.Orderly ps := by
  induction is generalizing h s log with
  | nil => exact ⟨Prod.ext rfl (Prod.ext rfl (written_nil log s).symm), List.forall_mem_nil _⟩
  | cons i is ih =>
    have cleared := linked.clear i .destroy
    have aimed : (ctx.atLevel i).kind = .unload := kind
    obtain ⟨first, orderly⟩ := destroyAll_logged ps cleared aimed
      (CoordSet.sorted (h.pending i .destroy)) s log
    obtain ⟨removed, k, s', run, pruned, -⟩ := linked.destroyLevel ps.unload (ctx.atLevel i) i s
    obtain ⟨rest, orderly'⟩ := ih pruned.linked s'
      (log ++ (destroyAllBatches ps (ctx.atLevel i) (CoordSet.sorted (h.pending i .destroy))
        (h.modifyLevel i (·.clear .destroy)) s).flatMap calls)
    rw [written_append] at rest
    simp only [destroyAt_cons, destroyAtBatches, first, run]
    refine ⟨?_, List.forall_mem_append.mpr ⟨orderly, orderly'⟩⟩
    rw [written, rest]

/-- Draining the destroy queues hands out orderly batches and logs their calls. -/
theorem destroyPending_logged (s : σ) (log : CallLog) :
    h.destroyPending ps.logged.unload ctx (s, log) = ((h.destroyPending ps.unload ctx s).1,
        (h.destroyPending ps.unload ctx s).2.1, written (destroyBatches ps ctx h s) log
          (h.destroyPending ps.unload ctx s).2.2) ∧
      ∀ b ∈ destroyBatches ps ctx h s, b.Orderly ps :=
  destroyAt_logged ps linked kind h.indices s log

end Hierarchy

end OctreeWorld
