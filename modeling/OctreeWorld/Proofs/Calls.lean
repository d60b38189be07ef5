import OctreeWorld.Proofs.Watching

/-!
# Calls of processors

What processors of nodes notice of a run is the sequence of their calls. A logged processor writes
down the calls that it receives, beside the state that it threads along, and changes nothing else.
A batch whose commands all have nodes comes out as one block: every processor is started, every
command is shown to every processor, and every processor is finished.
-/

namespace OctreeWorld

variable {N L V E σ : Type}

/-- A call that a processor of nodes receives. Processors of one kind are numbered in the order of
their registration. -/
inductive ProcessorCall where
  | start (kind : CommandKind) (i : Nat) (ctx : BatchContext)
  | process (kind : CommandKind) (i : Nat) (ctx : BatchContext) (c : Coord)
  | finish (kind : CommandKind) (i : Nat) (ctx : BatchContext)
deriving DecidableEq

/-- Calls, the oldest first. -/
abbrev CallLog := List ProcessorCall

/-! ### Logged processors -/

namespace Processor

/-- The processor of nodes, with a log of the calls that it receives. -/
def logged (kind : CommandKind) (i : Nat) (p : NodeProcessor σ N L) :
    NodeProcessor (σ × CallLog) N L where
  name := p.name
  start ctx t := (p.start ctx t.1, t.2 ++ [.start kind i ctx])
  process ctx v t := ((p.process ctx v t.1).1, (p.process ctx v t.1).2,
    t.2 ++ [.process kind i ctx v.node.coord])
  finish ctx t := (p.finish ctx t.1, t.2 ++ [.finish kind i ctx])

/-- The processor beside a log that it leaves alone. -/
def unlogged (p : Processor σ V E) : Processor (σ × CallLog) V E where
  name := p.name
  start ctx t := (p.start ctx t.1, t.2)
  process ctx v t := ((p.process ctx v t.1).1, (p.process ctx v t.1).2, t.2)
  finish ctx t := (p.finish ctx t.1, t.2)

/-- With a log beside it, the processor lies over the one that leaves the log alone. -/
theorem over_unlogged (log : CallLog) (p : Processor σ V E) :
    p.Over (fun s => (s, log)) p.unlogged :=
  ⟨fun _ _ => rfl, fun _ _ _ => rfl, fun _ _ => rfl⟩

theorem forall₂_over_unlogged (log : CallLog) (ps : List (Processor σ V E)) :
    List.Forall₂ (Processor.Over fun s => (s, log)) ps (ps.map unlogged) :=
  List.forall₂_map_right_iff.mpr (List.forall₂_same.mpr fun p _ => p.over_unlogged log)

end Processor

/-- Log the calls of processors of a kind, numbered from `i` on. -/
def logFrom (kind : CommandKind) : Nat → List (NodeProcessor σ N L) →
    List (NodeProcessor (σ × CallLog) N L)
  | _, [] => []
  | i, p :: ps => p.logged kind i :: logFrom kind (i + 1) ps

namespace NodeProcessors

/-- The processors of a kind of command, none for levels and regions. -/
def ofKind (ps : NodeProcessors σ N L) : CommandKind → List (NodeProcessor σ N L)
  | .load => ps.load
  | .unload => ps.unload
  | .tick => ps.tick
  | .level => []
  | .region => []

/-- The processors with a log of their calls. -/
def logged (ps : NodeProcessors σ N L) : NodeProcessors (σ × CallLog) N L where
  load := logFrom .load 0 ps.load
  unload := logFrom .unload 0 ps.unload
  tick := logFrom .tick 0 ps.tick

end NodeProcessors

/-! ### Batches -/

/-- A batch that is handed to processors of nodes. -/
structure NodeBatch (σ N L : Type) where
  processors : List (NodeProcessor σ N L)
  context : BatchContext
  level : Level N L
  commands : List Coord
  state : σ

namespace NodeBatch

/-- What the batch makes of its level and of the outer state. -/
def run (b : NodeBatch σ N L) : Level N L × σ :=
  runNodeBatch b.processors b.context b.level b.commands b.state

/-- The level when some of the commands have been dispatched. -/
def after (b : NodeBatch σ N L) (n : Nat) : Level N L :=
  (runNodeBatch b.processors b.context b.level (b.commands.take n) b.state).1

/-- The batch, if there is something to hand out. -/
def handed (b : NodeBatch σ N L) : List (NodeBatch σ N L) :=
  if b.commands.isEmpty then [] else [b]

/-- One call for each processor, in the order of registration. -/
def each (b : NodeBatch σ N L) (call : CommandKind → Nat → BatchContext → ProcessorCall) :
    CallLog :=
  (List.range b.processors.length).map fun i => call b.context.kind i b.context

/-- The calls of a batch: every processor is started, every command is shown to every processor,
and every processor is finished. -/
def calls (b : NodeBatch σ N L) : CallLog :=
  b.each .start ++ b.commands.flatMap (fun c => b.each fun kind i ctx => .process kind i ctx c) ++
    b.each .finish

/-- How many nodes the batches of a kind show. -/
def shown (kind : CommandKind) (bs : List (NodeBatch σ N L)) : Nat :=
  tally ((bs.filter (·.context.kind == kind)).map (·.commands.length))

/-- The batch can be carried out: no command repeats, and each has a node on the level at which the
batch is aimed. -/
structure Ready (ps : NodeProcessors σ N L) (b : NodeBatch σ N L) : Prop where
  registered : b.processors = ps.ofKind b.context.kind
  level : b.context.level = some b.level.index
  nodup : b.commands.Nodup
  resident : ∀ c ∈ b.commands, b.level.Holds c

/-- The batch goes to all processors of its kind, it has a command, no command repeats, and from
its start to its end each command has a node on the level at which the batch is aimed. -/
structure Orderly (ps : NodeProcessors σ N L) (b : NodeBatch σ N L) : Prop where
  registered : b.processors = ps.ofKind b.context.kind
  level : b.context.level = some b.level.index
  nonempty : b.commands ≠ []
  nodup : b.commands.Nodup
  resident : ∀ n, ∀ c ∈ b.commands, (b.after n).Holds c

theorem mem_handed {b b' : NodeBatch σ N L} : b' ∈ b.handed ↔ b' = b ∧ b.commands ≠ [] := by
  unfold handed
  cases b.commands <;> simp

theorem shown_append (kind : CommandKind) (as bs : List (NodeBatch σ N L)) :
    shown kind (as ++ bs) = shown kind as + shown kind bs := by
  rw [shown, List.filter_append, List.map_append, tally_append]
  rfl

theorem shown_handed (kind : CommandKind) (b : NodeBatch σ N L) :
    shown kind b.handed = if b.context.kind = kind then b.commands.length else 0 := by
  unfold handed shown
  cases none_ : b.commands with
  | nil => simp
  | cons c cs =>
    by_cases same : b.context.kind = kind <;> simp [none_, same]

/-- No edit takes a node away, so a batch that can begin can go on. -/
theorem Ready.orderly {ps : NodeProcessors σ N L} {b : NodeBatch σ N L} (ready : b.Ready ps) :
    ∀ b' ∈ b.handed, b'.Orderly ps := by
  intro b' listed
  obtain ⟨rfl, some_⟩ := mem_handed.mp listed
  refine ⟨ready.registered, ready.level, some_, ready.nodup, fun n c named => ?_⟩
  exact (runNodeBatch_edited Processor.obeys_any b'.context b'.level _ b'.state).holds
    (ready.resident c named)

end NodeBatch

/-! ### What a batch logs -/

section Logged

variable {kind : CommandKind} {ctx : BatchContext} {l : Level N L}

theorem foldl_logged (kind : CommandKind) (call : Nat → ProcessorCall)
    {f : NodeProcessor σ N L → σ → σ}
    {g : NodeProcessor (σ × CallLog) N L → σ × CallLog → σ × CallLog}
    (each : ∀ i p s log, g (Processor.logged kind i p) (s, log) = (f p s, log ++ [call i]))
    (i : Nat) (ps : List (NodeProcessor σ N L)) (s : σ) (log : CallLog) :
    (logFrom kind i ps).foldl (fun t p => g p t) (s, log) =
      (ps.foldl (fun s p => f p s) s, log ++ (List.range' i ps.length).map call) := by
  induction ps generalizing i s log with
  | nil => exact Prod.ext rfl (List.append_nil log).symm
  | cons p ps ih =>
    rw [logFrom, List.foldl_cons, each, ih, List.length_cons, List.range'_succ, List.map_cons,
      List.append_assoc]
    rfl

/-- A node is shown to every processor in turn. -/
theorem offer_logged {c : Coord} (holds : l.Holds c) (i : Nat) (ps : List (NodeProcessor σ N L))
    (s : σ) (log : CallLog) : offer nodeAddressing ctx c (logFrom kind i ps) l (s, log) =
      ((offer nodeAddressing ctx c ps l s).1, (offer nodeAddressing ctx c ps l s).2,
        log ++ (List.range' i ps.length).map (ProcessorCall.process kind · ctx c)) := by
  induction ps generalizing i l s log with
  | nil => exact Prod.ext rfl (Prod.ext rfl (List.append_nil log).symm)
  | cons p ps ih =>
    obtain ⟨n, found, place⟩ := holds
    let edits := (p.process ctx ⟨l.data, n⟩ s).1
    have plain : offerTo nodeAddressing ctx c p l s =
        (edits.foldl (nodeAddressing.edit c) l, (p.process ctx ⟨l.data, n⟩ s).2) := by
      simp only [offerTo, nodeAddressing, found, Option.map_some, edits]
    have shown : offerTo nodeAddressing ctx c (p.logged kind i) l (s, log) =
        (edits.foldl (nodeAddressing.edit c) l, (p.process ctx ⟨l.data, n⟩ s).2,
          log ++ [.process kind i ctx c]) := by
      simp only [offerTo, nodeAddressing, found, Option.map_some, Processor.logged, place, edits]
    have edited := (Level.Edited.respects (fun _ => True) [c]).foldl List.mem_cons_self
      (fun e (_ : e ∈ edits) => trivial) l
    simp only [logFrom, offer, shown, plain]
    rw [ih (edited.holds ⟨n, found, place⟩), List.length_cons, List.range'_succ, List.map_cons,
      List.append_assoc]
    rfl

theorem dispatch_logged {cs : List Coord} (holds : ∀ c ∈ cs, l.Holds c)
    (ps : List (NodeProcessor σ N L)) (s : σ) (log : CallLog) :
    dispatch nodeAddressing ctx (logFrom kind 0 ps) cs l (s, log) =
      ((dispatch nodeAddressing ctx ps cs l s).1, (dispatch nodeAddressing ctx ps cs l s).2,
        log ++ cs.flatMap fun c =>
          (List.range ps.length).map (ProcessorCall.process kind · ctx c)) := by
  induction cs generalizing l s log with
  | nil => exact Prod.ext rfl (Prod.ext rfl (List.append_nil log).symm)
  | cons c cs ih =>
    have edited : l.Edited (fun _ => True) [c] (offer nodeAddressing ctx c ps l s).1 :=
      (Level.Edited.respects _ _).offer Processor.obeys_any List.mem_cons_self ctx l s
    simp only [dispatch, offer_logged (holds c List.mem_cons_self)]
    rw [ih fun d listed => edited.holds (holds d (List.mem_cons_of_mem c listed)),
      List.flatMap_cons, List.range_eq_range', List.append_assoc]

/-- With its processors logged, a batch does what it does without, and logs its calls. -/
theorem NodeBatch.run_logged (b : NodeBatch σ N L) (holds : ∀ c ∈ b.commands, b.level.Holds c)
    (log : CallLog) :
    runNodeBatch (logFrom b.context.kind 0 b.processors) b.context b.level b.commands
      (b.state, log) = (b.run.1, b.run.2, log ++ b.handed.flatMap calls) := by
  unfold NodeBatch.run runNodeBatch runBatch handed
  split
  · exact Prod.ext rfl (Prod.ext rfl (List.append_nil log).symm)
  · have starts := foldl_logged b.context.kind (fun i => .start b.context.kind i b.context)
      (f := fun p s => p.start b.context s) (g := fun p t => p.start b.context t)
      (fun _ _ _ _ => rfl) 0 b.processors
    have finishes := foldl_logged b.context.kind (fun i => .finish b.context.kind i b.context)
      (f := fun p s => p.finish b.context s) (g := fun p t => p.finish b.context t)
      (fun _ _ _ _ => rfl) 0 b.processors
    simp only [starts, dispatch_logged holds, finishes]
    simp only [List.flatMap_singleton, calls, each, List.range_eq_range', List.append_assoc]

end Logged

end OctreeWorld
