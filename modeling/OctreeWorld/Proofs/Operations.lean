import OctreeWorld.Proofs.Reached

/-!
# Operations

What a caller can do to the hierarchy of a world, as data. An operation can be performed whatever
state the processors of the world thread along, and what it does to the world depends only on what
the processors do: where each of them lies over one on a smaller state, the larger run lies over the
smaller one.
-/

namespace OctreeWorld

variable {N L V E σ τ : Type}

/-! ### Larger states -/

/-- `p'` keeps more than `p` does, and forgetting the rest it is `p`. -/
structure Processor.Over (forget : τ → σ) (p' : Processor τ V E) (p : Processor σ V E) : Prop where
  start : ∀ ctx t, p.start ctx (forget t) = forget (p'.start ctx t)
  process : ∀ ctx v t, p.process ctx v (forget t) =
    ((p'.process ctx v t).1, forget (p'.process ctx v t).2)
  finish : ∀ ctx t, p.finish ctx (forget t) = forget (p'.finish ctx t)

variable {forget : τ → σ}

section Batch

variable {κ α : Type} {addr : Addressing κ α V E} {ps' : List (Processor τ V E)}
  {ps : List (Processor σ V E)}

theorem foldl_over {β : Type} {g : τ → β → τ} {f : σ → α → σ} {bs : List β} {as : List α}
    (above : List.Forall₂ (fun b a => ∀ t, f (forget t) a = forget (g t b)) bs as) (t : τ) :
    as.foldl f (forget t) = forget (bs.foldl g t) := by
  induction above generalizing t with
  | nil => rfl
  | cons first _ ih =>
    rw [List.foldl_cons, first]
    exact ih _

theorem offer_over (above : List.Forall₂ (Processor.Over forget) ps' ps) (ctx : BatchContext)
    (c : κ) (a : α) (t : τ) : offer addr ctx c ps a (forget t) =
      ((offer addr ctx c ps' a t).1, forget (offer addr ctx c ps' a t).2) := by
  induction above generalizing a t with
  | nil => rfl
  | @cons p' p _ _ first _ ih =>
    have shown : offerTo addr ctx c p a (forget t) =
        ((offerTo addr ctx c p' a t).1, forget (offerTo addr ctx c p' a t).2) := by
      unfold offerTo
      cases addr.view c a with
      | none => rfl
      | some v => simp only [first.process]
    rw [offer, shown]
    exact ih _ _

theorem dispatch_over (above : List.Forall₂ (Processor.Over forget) ps' ps) (ctx : BatchContext)
    (cs : List κ) (a : α) (t : τ) : dispatch addr ctx ps cs a (forget t) =
      ((dispatch addr ctx ps' cs a t).1, forget (dispatch addr ctx ps' cs a t).2) := by
  induction cs generalizing a t with
  | nil => rfl
  | cons c cs ih =>
    rw [dispatch, offer_over above]
    exact ih _ _

theorem runBatch_over (above : List.Forall₂ (Processor.Over forget) ps' ps) (ctx : BatchContext)
    (cs : List κ) (a : α) (t : τ) : runBatch addr ctx ps cs a (forget t) =
      ((runBatch addr ctx ps' cs a t).1, forget (runBatch addr ctx ps' cs a t).2) := by
  unfold runBatch
  split
  · rfl
  · have starts := foldl_over (f := fun s p => p.start ctx s) (g := fun t p => p.start ctx t)
      (above.imp fun _ _ lies => lies.start ctx) t
    simp only [starts, dispatch_over above]
    rw [foldl_over (f := fun s p => p.finish ctx s) (g := fun t p => p.finish ctx t)
      (above.imp fun _ _ lies => lies.finish ctx)]

theorem sweep_over {β : Type} {step' : α → τ → β × α × τ} {step : α → σ → β × α × σ}
    (each : ∀ a t, step a (forget t) = ((step' a t).1, (step' a t).2.1, forget (step' a t).2.2))
    (as : List α) (t : τ) : sweep step as (forget t) =
      ((sweep step' as t).1, (sweep step' as t).2.1, forget (sweep step' as t).2.2) := by
  induction as generalizing t with
  | nil => rfl
  | cons a as ih => simp only [sweep, each, ih]

end Batch

section Nodes

variable {ps' : List (NodeProcessor τ N L)} {ps : List (NodeProcessor σ N L)}
  (above : List.Forall₂ (Processor.Over forget) ps' ps) (ctx : BatchContext)

include above

theorem runNodeBatch_over (l : Level N L) (cs : List Coord) (t : τ) :
    runNodeBatch ps ctx l cs (forget t) =
      ((runNodeBatch ps' ctx l cs t).1, forget (runNodeBatch ps' ctx l cs t).2) :=
  runBatch_over above ctx cs l t

theorem Level.load_over (l : Level N L) (t : τ) : l.load ps ctx (forget t) =
    ((l.load ps' ctx t).1, (l.load ps' ctx t).2.1, forget (l.load ps' ctx t).2.2) := by
  simp only [Level.load, runNodeBatch_over above]

theorem Level.unload_over (l : Level N L) (t : τ) : l.unload ps ctx (forget t) =
    ((l.unload ps' ctx t).1, (l.unload ps' ctx t).2.1, forget (l.unload ps' ctx t).2.2) := by
  simp only [Level.unload, runNodeBatch_over above]

theorem Level.tick_over (l : Level N L) (t : τ) : l.tick ps ctx (forget t) =
    ((l.tick ps' ctx t).1, (l.tick ps' ctx t).2.1, forget (l.tick ps' ctx t).2.2) := by
  simp only [Level.tick, runNodeBatch_over above]

namespace Hierarchy

theorem retireAt_over (order : List Coord) (i : UInt8) (h : Hierarchy N L) (t : τ) :
    retireAt ps ctx order i h (forget t) =
      ((retireAt ps' ctx order i h t).1, forget (retireAt ps' ctx order i h t).2) := by
  simp only [retireAt]
  cases h.level? i with
  | none => rfl
  | some l => simp only [runNodeBatch_over above]

theorem retire_over (order : List Coord) (is : List UInt8) (h : Hierarchy N L) (t : τ) :
    retire ps ctx order is h (forget t) =
      ((retire ps' ctx order is h t).1, forget (retire ps' ctx order is h t).2) := by
  induction is generalizing h t with
  | nil => rfl
  | cons i is ih => simp only [retire, retireAt_over above, ih]

theorem unloadSubtree_over (h : Hierarchy N L) (c : Coord) (t : τ) :
    h.unloadSubtree ps ctx c (forget t) = ((h.unloadSubtree ps' ctx c t).1,
      (h.unloadSubtree ps' ctx c t).2.1, forget (h.unloadSubtree ps' ctx c t).2.2) := by
  simp only [unloadSubtree]
  cases h.subtree c with
  | error e => rfl
  | ok order => simp only [retire_over above]

theorem destroyAll_over (cs : List Coord) (h : Hierarchy N L) (t : τ) :
    destroyAll ps ctx cs h (forget t) = ((destroyAll ps' ctx cs h t).1,
      (destroyAll ps' ctx cs h t).2.1, forget (destroyAll ps' ctx cs h t).2.2) := by
  induction cs generalizing h t with
  | nil => rfl
  | cons c cs ih =>
    simp only [destroyAll]
    split
    · simp only [unloadSubtree_over above, ih]
    · exact ih h t

theorem destroyAt_over (is : List UInt8) (h : Hierarchy N L) (t : τ) :
    destroyAt ps ctx is h (forget t) = ((destroyAt ps' ctx is h t).1,
      (destroyAt ps' ctx is h t).2.1, forget (destroyAt ps' ctx is h t).2.2) := by
  induction is generalizing h t with
  | nil => rfl
  | cons i is ih => simp only [destroyAt_cons, destroyAll_over above, ih]

end Hierarchy

end Nodes

theorem Level.runLevelBatch_over {ps' : List (LevelProcessor τ N L)}
    {ps : List (LevelProcessor σ N L)} (above : List.Forall₂ (Processor.Over forget) ps' ps)
    (ctx : BatchContext) (l : Level N L) (t : τ) : runLevelBatch ps ctx l (forget t) =
      ((runLevelBatch ps' ctx l t).1, forget (runLevelBatch ps' ctx l t).2) :=
  runBatch_over above ctx [()] l t

/-- Processor by processor, one registry keeps more than the other. -/
structure ProcessorRegistry.Over (forget : τ → σ) (ps' : ProcessorRegistry τ N L)
    (ps : ProcessorRegistry σ N L) : Prop where
  load : List.Forall₂ (Processor.Over forget) ps'.load ps.load
  unload : List.Forall₂ (Processor.Over forget) ps'.unload ps.unload
  tick : List.Forall₂ (Processor.Over forget) ps'.tick ps.tick
  level : List.Forall₂ (Processor.Over forget) ps'.level ps.level

namespace World

/-- The world with other processors. -/
def withProcessors (w : World σ N L) (ps : ProcessorRegistry τ N L) : World τ N L :=
  { w with processors := ps }

/-- With the same step on each level, draining a queue does the same. -/
theorem drainLevels_over {w : World σ N L} (ps' : ProcessorRegistry τ N L) (kind : CommandKind)
    {step' : BatchContext → Level N L → τ → Nat × Level N L × τ}
    {step : BatchContext → Level N L → σ → Nat × Level N L × σ}
    (each : ∀ ctx l t, step ctx l (forget t) =
      ((step' ctx l t).1, (step' ctx l t).2.1, forget (step' ctx l t).2.2)) (t : τ) :
    (w.drainLevels kind step (forget t)).2 =
      (((w.withProcessors ps').drainLevels kind step' t).2.1.withProcessors w.processors,
        forget ((w.withProcessors ps').drainLevels kind step' t).2.2) := by
  simp only [drainLevels, Hierarchy.sweepLevels, sweep_over fun l t => each _ l t]
  rfl

/-! ### Operations -/

/-- An operation on a world's own hierarchy, or on its clock. -/
inductive Operation (N L : Type) where
  | setTime (tick : UInt64) (now : SimTime)
  | createNode (c : Coord)
  | unloadNode (c : Coord)
  | observe (c : Coord)
  | release (c : Coord)
  | queueCreate (c : Coord)
  | queueUnload (c : Coord)
  | queueTick (c : Coord)
  | levelWorkerPhase (f : Level N L → Level N L)
  | worldWorkerPhase
  | createPhase
  | loadPhase
  | unloadPhase
  | destroyPhase

namespace Operation

/-- What an operation leaves. One that is refused leaves all as it was. -/
def perform (w : World σ N L) (s : σ) : Operation N L → World σ N L × σ
  | setTime tick now => (w.setTime tick now, s)
  | createNode c =>
    match w.createNode c with
    | .error _ => (w, s)
    | .ok w => (w, s)
  | unloadNode c => (w.unloadNode c s).2
  | observe c =>
    match w.observe c with
    | .error _ => (w, s)
    | .ok (_, w) => (w, s)
  | release c =>
    match w.release c with
    | .error _ => (w, s)
    | .ok (_, w) => (w, s)
  | queueCreate c => (w.queueCreate c, s)
  | queueUnload c => (w.queueUnload c, s)
  | queueTick c => (w.queueTick c, s)
  | levelWorkerPhase f => (w.levelWorkerPhase (fun l => ((), f l)) s).2
  | worldWorkerPhase => (w.worldWorkerPhase s).2
  | createPhase => (w.createPhase.2, s)
  | loadPhase => (w.loadPhase s).2
  | unloadPhase => (w.unloadPhase s).2
  | destroyPhase => (w.destroyPhase s).2

/-- An operation concerns the hierarchy and the clock of a world, and time does not move back. -/
theorem perform_parts (w : World σ N L) (op : Operation N L) (s : σ) : ∃ h tick now,
    (op.perform w s).1 = { w with hierarchy := h, tick, now } ∧ w.now.micros ≤ now.micros := by
  have own : ∀ h, ∃ h' tick now, { w with hierarchy := h } =
      { w with hierarchy := h', tick, now } ∧ w.now.micros ≤ now.micros :=
    fun h => ⟨h, w.tick, w.now, rfl, UInt64.le_refl _⟩
  cases op with
  | setTime tick now => exact ⟨_, _, _, rfl, SimTime.le_latest_left _ _⟩
  | createNode c =>
    simp only [perform, World.createNode]
    cases w.hierarchy.insert (Node.fresh c (w.factory.node c)) <;> exact own _
  | observe c =>
    simp only [perform, World.observe]
    cases w.hierarchy.get? c <;> exact own _
  | release c =>
    simp only [perform, World.release]
    cases w.hierarchy.get? c with
    | none => exact own _
    | some n =>
      simp only
      cases n.removeObserver? <;> exact own _
  | _ => exact own _

/-- An operation on the world's own hierarchy leaves the regions alone. -/
theorem perform_regions (w : World σ N L) (op : Operation N L) (s : σ) :
    (op.perform w s).1.regions = w.regions := by
  obtain ⟨h, tick, now, result, -⟩ := perform_parts w op s
  rw [result]

theorem perform_processors (w : World σ N L) (op : Operation N L) (s : σ) :
    (op.perform w s).1.processors = w.processors := by
  obtain ⟨h, tick, now, result, -⟩ := perform_parts w op s
  rw [result]

theorem perform_over {w : World σ N L} {ps' : ProcessorRegistry τ N L}
    (above : ps'.Over forget w.processors) (op : Operation N L) (t : τ) :
    perform w (forget t) op = ((perform (w.withProcessors ps') t op).1.withProcessors w.processors,
      forget (perform (w.withProcessors ps') t op).2) := by
  cases op with
  | setTime tick now => rfl
  | createNode c =>
    simp only [perform, World.createNode, withProcessors]
    cases w.hierarchy.insert (Node.fresh c (w.factory.node c)) <;> rfl
  | unloadNode c =>
    simp only [perform, World.unloadNode]
    rw [Hierarchy.unloadSubtree_over above.unload]
    rfl
  | observe c =>
    simp only [perform, World.observe, withProcessors]
    cases w.hierarchy.get? c <;> rfl
  | release c =>
    simp only [perform, World.release, withProcessors]
    cases w.hierarchy.get? c with
    | none => rfl
    | some n =>
      simp only
      cases n.removeObserver? <;> rfl
  | queueCreate c => rfl
  | queueUnload c => rfl
  | queueTick c => rfl
  | levelWorkerPhase f =>
    have each : ∀ l t, w.workLevel (fun l => ((), f l)) l (forget t) =
        (((w.withProcessors ps').workLevel (fun l => ((), f l)) l t).1,
          ((w.withProcessors ps').workLevel (fun l => ((), f l)) l t).2.1,
          forget ((w.withProcessors ps').workLevel (fun l => ((), f l)) l t).2.2) := by
      intro l t
      simp only [workLevel, Level.runLevelBatch_over above.level]
      rfl
    simp only [perform, levelWorkerPhase_eq, sweep_over each]
    rfl
  | worldWorkerPhase => exact drainLevels_over ps' .tick (Level.tick_over above.tick) t
  | createPhase => rfl
  | loadPhase => exact drainLevels_over ps' .load (Level.load_over above.load) t
  | unloadPhase => exact drainLevels_over ps' .unload (Level.unload_over above.unload) t
  | destroyPhase =>
    simp only [perform, World.destroyPhase, Hierarchy.destroyPending]
    rw [Hierarchy.destroyAt_over above.unload]
    rfl

/-- The functions handed to an operation change levels by permitted calls. -/
def Fair (may : NodeEdit N L → Prop) : Operation N L → Prop
  | levelWorkerPhase f => ∀ l, Level.Called may l (f l)
  | _ => True

theorem perform_reached {may : NodeEdit N L → Prop} {w : World σ N L} (reached : w.Reached may)
    (op : Operation N L) (fair : op.Fair may) (s : σ) : (op.perform w s).1.Reached may := by
  cases op with
  | setTime tick now => exact reached.setTime tick now
  | createNode c =>
    rw [perform]
    split
    · exact reached
    · rename_i done
      exact reached.createNode done
  | unloadNode c => exact reached.unloadNode c s
  | observe c =>
    rw [perform]
    split
    · exact reached
    · rename_i done
      exact reached.observe done
  | release c =>
    rw [perform]
    split
    · exact reached
    · rename_i done
      exact reached.release done
  | queueCreate c => exact reached.queueCreate c
  | queueUnload c => exact reached.queueUnload c
  | queueTick c => exact reached.queueTick c
  | levelWorkerPhase f => exact reached.levelWorkerPhase (f := fun l => ((), f l)) fair s
  | worldWorkerPhase => exact reached.worldWorkerPhase s
  | createPhase => exact reached.createPhase
  | loadPhase => exact reached.loadPhase s
  | unloadPhase => exact reached.unloadPhase s
  | destroyPhase => exact reached.destroyPhase s

section Fair

variable {may : NodeEdit N L → Prop} {w : World σ N L} (linked : w.hierarchy.Linked)
  (node : w.processors.toNodeProcessors.Obey may)
  (level : ∀ p ∈ w.processors.level, p.Obeys (LevelEdit.Allowed may)) {op : Operation N L}
  (fair : op.Fair may) (s : σ)

include linked node level fair

/-- Every operation is one change of the hierarchy. -/
theorem perform_change : Hierarchy.Change may w.hierarchy (op.perform w s).1.hierarchy := by
  have push : ∀ q c, Hierarchy.Change may w.hierarchy
      (w.hierarchy.modifyLevel c.level (·.push q c)) := fun q c =>
    .modifyLevel fun _ _ => .call (.edit (.push q c) trivial)
  cases op with
  | setTime tick now => exact .refl _
  | createNode c =>
    rw [perform]
    split
    · exact .refl _
    · rename_i w' done
      obtain ⟨g, rfl, grown⟩ := createNode_eq linked done
      exact .grown grown
  | unloadNode c => exact linked.unloadSubtree_change _ _ c s
  | observe c =>
    rw [perform, World.observe]
    cases w.hierarchy.get? c with
    | none => exact .refl _
    | some n => exact .observers fun _ _ => ⟨_, rfl⟩
  | release c =>
    rw [perform, World.release]
    cases found : w.hierarchy.get? c with
    | none => exact .refl _
    | some n =>
      simp only
      cases taken : n.removeObserver? with
      | none => exact .refl _
      | some released =>
        refine .observers fun m at_ => ?_
        rw [found, Option.some.injEq] at at_
        subst at_
        exact Node.removeObserver?_eq_some taken
  | queueCreate c => exact push .create c
  | queueUnload c => exact .modifyLevel fun _ _ => .doom c
  | queueTick c => exact push .tick c
  | levelWorkerPhase f =>
    have called := levelWorkerPhase_called level (f := fun l => ((), f l)) fair s
    exact .steps (called.imp fun _ _ => Level.Stepped.of_called)
  | worldWorkerPhase => exact drainLevels_change w .tick (fun _ _ s => .tick node.tick _ s) s
  | createPhase => exact linked.createPending_change w.factory w.now
  | loadPhase => exact drainLevels_change w .load (fun _ _ s => .load node.load _ s) s
  | unloadPhase => exact drainLevels_change w .unload (fun _ _ s => .unload node.unload _ s) s
  | destroyPhase => exact linked.destroyPending_change _ _ s

theorem perform_evolved : Hierarchy.Evolved may w.hierarchy (op.perform w s).1.hierarchy :=
  .single (perform_change linked node level fair s)

end Fair

end Operation

/-- What the level workers do to the world does not depend on what `f` answers. -/
theorem levelWorkerPhase_silent {α : Type} (w : World σ N L) (f : Level N L → α × Level N L)
    (s : σ) : (w.levelWorkerPhase f s).2 = (w.levelWorkerPhase (fun l => ((), (f l).2)) s).2 := by
  have each : ∀ (ls : List (Level N L)) (s : σ), (sweep (w.workLevel f) ls s).2 =
      (sweep (w.workLevel fun l => ((), (f l).2)) ls s).2 := by
    intro ls
    induction ls with
    | nil => exact fun s => rfl
    | cons l ls ih =>
      intro s
      simp only [sweep, ih]
      rfl
  rw [levelWorkerPhase_eq, levelWorkerPhase_eq]
  simp only [each]

end World

/-- Phases other than those of loaders and regions perform an operation on each world, if any. -/
theorem Engine.Works.performs {e : Engine σ N L} {p : Phase} {w w' : World σ N L}
    (works : e.Works p w w') (may : NodeEdit N L → Prop) (s : σ) (stamps : p ≠ .loader)
    (regions : p ≠ .regionWorker) :
    w' = w ∨ ∃ (op : World.Operation N L) (s : σ), op.Fair may ∧ w' = (op.perform w s).1 := by
  cases p with
  | loader => exact absurd rfl stamps
  | levelWorker =>
    obtain ⟨s, rfl⟩ := works
    rw [streamWorld_world, World.levelWorkerPhase_silent]
    exact .inr ⟨.levelWorkerPhase _, s, fun l => Level.stream_called .., rfl⟩
  | regionWorker => exact absurd rfl regions
  | worldWorker =>
    obtain ⟨s, rfl⟩ := works
    exact .inr ⟨.worldWorkerPhase, s, trivial, rfl⟩
  | create => exact .inr ⟨.createPhase, s, trivial, works⟩
  | load =>
    obtain ⟨s, rfl⟩ := works
    exact .inr ⟨.loadPhase, s, trivial, rfl⟩
  | unload =>
    obtain ⟨s, rfl⟩ := works
    exact .inr ⟨.unloadPhase, s, trivial, rfl⟩
  | destroy =>
    obtain ⟨s, rfl⟩ := works
    exact .inr ⟨.destroyPhase, s, trivial, rfl⟩
  | finish => exact .inl works

end OctreeWorld
