import OctreeWorld.Streaming
import OctreeWorld.Proofs.Removal

/-!
# Steps of a level

Whatever happens to one level between creations and removals is a sequence of `Level.Step`s: calls
that a user or a processor of levels makes, batches of the life of nodes, and the marks that the
queues of a world and the eviction of a region leave. No step touches a link.

`may` says which edits processors of nodes make; a property that needs them to leave something
alone says so about `may`.
-/

namespace OctreeWorld

variable {N L σ : Type}

/-! ### What processors are allowed to do -/

/-- An edit of a level that makes only permitted edits of nodes. -/
def LevelEdit.Allowed (may : NodeEdit N L → Prop) : LevelEdit N L → Prop
  | .node _ e => may e
  | _ => True

/-- Processors of nodes that make only permitted edits. -/
structure NodeProcessors.Obey (may : NodeEdit N L → Prop) (ps : NodeProcessors σ N L) : Prop where
  load : ∀ p ∈ ps.load, p.Obeys may
  unload : ∀ p ∈ ps.unload, p.Obeys may
  tick : ∀ p ∈ ps.tick, p.Obeys may

theorem NodeProcessors.obey_any (ps : NodeProcessors σ N L) : ps.Obey fun _ => True :=
  ⟨Processor.obeys_any, Processor.obeys_any, Processor.obeys_any⟩

namespace Level

variable {may : NodeEdit N L → Prop}

/-! ### Calls and steps -/

/-- One call of an operation on a level. -/
inductive Call (may : NodeEdit N L → Prop) : Level N L → Level N L → Prop
  | edit {l} (e : LevelEdit N L) (allowed : e.Allowed may) : Call may l (l.edit e)
  | keepAlive {l} (loader : Loader) (now : SimTime) : Call may l (l.keepAlive loader now).2
  | requestLoads {l} (loaders : List Loader) (tick : UInt64) (budget : Option UInt64) :
      Call may l (l.requestLoads loaders tick budget).2
  | collectUnused {l} (now : SimTime) (timeout : Duration) (budget : Option UInt64) :
      Call may l (l.collectUnused now timeout budget).2

/-- A level after some calls. -/
def Called (may : NodeEdit N L → Prop) : Level N L → Level N L → Prop :=
  Relation.ReflTransGen (Call may)

/-- One step in the life of a level. -/
inductive Step (may : NodeEdit N L → Prop) : Level N L → Level N L → Prop
  | call {l m} (call : Call may l m) : Step may l m
  | load {σ : Type} {l} {ps : List (NodeProcessor σ N L)} (obeys : ∀ p ∈ ps, p.Obeys may)
      (ctx : BatchContext) (s : σ) : Step may l (l.load ps ctx s).2.1
  | unload {σ : Type} {l} {ps : List (NodeProcessor σ N L)} (obeys : ∀ p ∈ ps, p.Obeys may)
      (ctx : BatchContext) (s : σ) : Step may l (l.unload ps ctx s).2.1
  | tick {σ : Type} {l} {ps : List (NodeProcessor σ N L)} (obeys : ∀ p ∈ ps, p.Obeys may)
      (ctx : BatchContext) (s : σ) : Step may l (l.tick ps ctx s).2.1
  | flush {σ : Type} {l} {ps : List (NodeProcessor σ N L)} (obeys : ∀ p ∈ ps, p.Obeys may)
      (ctx : BatchContext) (changed : List Coord) (s : σ) :
      Step may l (Region.flushLevel ps ctx changed l s).2.1
  | observers {l} (c : Coord) (f : Node N → Node N)
      (same : ∀ n, l.get? c = some n → ∃ count, f n = { n with observers := count }) :
      Step may l (l.modify c f)
  | doom {l} (c : Coord) : Step may l ((l.modify c fun n =>
      if n.state = .deleting then n else n.withState .unloading).push .unload c)
  | evict {l} (c : Coord) :
      Step may l ((l.modify c (·.withState .unloading)).push .unload c)

/-- A level after some steps. -/
def Stepped (may : NodeEdit N L → Prop) : Level N L → Level N L → Prop :=
  Relation.ReflTransGen (Step may)

namespace Stepped

variable {l m k : Level N L}

theorem refl (l : Level N L) : Stepped may l l := Relation.ReflTransGen.refl

theorem single (step : Step may l m) : Stepped may l m := Relation.ReflTransGen.single step

theorem trans (first : Stepped may l m) (second : Stepped may m k) : Stepped may l k :=
  Relation.ReflTransGen.trans first second

theorem of_called (called : Called may l m) : Stepped may l m := by
  induction called with
  | refl => exact refl l
  | tail _ call ih => exact ih.tail (.call call)

end Stepped

/-- What every step keeps, all steps keep. -/
theorem Stepped.induct {P : Level N L → Prop} (step : ∀ l m, Step may l m → P l → P m)
    {l m : Level N L} (stepped : Stepped may l m) (before : P l) : P m := by
  induction stepped with
  | refl => exact before
  | tail _ next ih => exact step _ _ next ih

/-! ### Composite operations as steps -/

theorem runLevelBatch_called {ps : List (LevelProcessor σ N L)}
    (obeys : ∀ p ∈ ps, p.Obeys (LevelEdit.Allowed may)) (ctx : BatchContext) (l : Level N L)
    (s : σ) : Called may l (runLevelBatch ps ctx l s).1 := by
  have respects : levelAddressing.Respects (LevelEdit.Allowed may) [()]
      (Called may (N := N) (L := L)) :=
    ⟨fun _ => Relation.ReflTransGen.refl, fun _ _ _ => Relation.ReflTransGen.trans,
      fun _ _ l e allowed => Relation.ReflTransGen.single (.edit e allowed)⟩
  exact respects.runBatch obeys ctx l s

theorem stream_called (config : StreamConfig) (loaders : List Loader) (tick : UInt64)
    (now : SimTime) (timeout : Duration) (l : Level N L) :
    Called may l (l.stream config loaders tick now timeout).2 := by
  unfold Level.stream
  split
  · exact (Relation.ReflTransGen.single (.requestLoads loaders tick config.createBudget)).tail
      (.collectUnused now timeout config.unloadBudget)
  · exact Relation.ReflTransGen.refl

theorem requestLevel_called (config : StreamConfig) (loaders : List Loader) (tick : UInt64)
    (l : Level N L) : Called may l (Region.requestLevel config loaders tick l).2 := by
  unfold Region.requestLevel
  split
  · exact Relation.ReflTransGen.single (.requestLoads loaders tick config.createBudget)
  · exact Relation.ReflTransGen.refl

/-- The three batches of a region's tick, each with what it is given and what it leaves. -/
theorem tickLevel_eq (ps : NodeProcessors σ N L) (ctx : BatchContext) (l : Level N L) (s : σ) :
    ∃ (first second third : Nat × Level N L × σ),
      first = l.load ps.load ((ctx.atLevel l.index).withKind .load) s ∧
      second = first.2.1.tick ps.tick ((ctx.atLevel l.index).withKind .tick) first.2.2 ∧
      third = second.2.1.unload ps.unload ((ctx.atLevel l.index).withKind .unload) second.2.2 ∧
      Region.tickLevel ps ctx l s = ((first.1, second.1, third.1), third.2.1, third.2.2) := by
  refine ⟨_, _, _, rfl, rfl, rfl, ?_⟩
  simp only [Region.tickLevel]

theorem tickLevel_stepped {ps : NodeProcessors σ N L} (obey : ps.Obey may) (ctx : BatchContext)
    (l : Level N L) (s : σ) : Stepped may l (Region.tickLevel ps ctx l s).2.1 := by
  obtain ⟨first, second, third, h₁, h₂, h₃, result⟩ := tickLevel_eq ps ctx l s
  have loaded : Step may l first.2.1 := by
    rw [h₁]
    exact .load obey.load _ s
  have ticked : Step may first.2.1 second.2.1 := by
    rw [h₂]
    exact .tick obey.tick _ first.2.2
  have unloaded : Step may second.2.1 third.2.1 := by
    rw [h₃]
    exact .unload obey.unload _ second.2.2
  rw [result]
  exact ((Stepped.single loaded).tail ticked).tail unloaded

/-! ### Steps and links -/

theorem batch_sameLinks {ps : List (NodeProcessor σ N L)} (obeys : ∀ p ∈ ps, p.Obeys may)
    (ctx : BatchContext) {l m : Level N L} (before : l.SameLinks m) (cs : List Coord) (s : σ) :
    l.SameLinks (runNodeBatch ps ctx m cs s).1 :=
  before.trans (runNodeBatch_edited obeys ctx m cs s).sameLinks

theorem SameLinks.clear (l : Level N L) (q : Queue) : l.SameLinks (l.clear q) :=
  .of_get? rfl fun _ => rfl

theorem SameLinks.pushAll (l : Level N L) (q : Queue) (cs : List Coord) :
    l.SameLinks (l.pushAll q cs) := .of_get? rfl fun _ => rfl

theorem Call.sameLinks {l m : Level N L} (call : Call may l m) : l.SameLinks m := by
  cases call with
  | edit e _ => exact .edit l e
  | keepAlive loader now => exact .modifyAll l _ (f := (·.touch now)) fun _ => rfl
  | requestLoads loaders tick budget => exact .pushAll l .create _
  | collectUnused now timeout budget =>
    exact (SameLinks.modifyAll l _ (f := (·.withState .unloading)) fun _ => rfl).trans
      (.pushAll _ .unload _)

theorem Step.sameLinks {l m : Level N L} (step : Step may l m) : l.SameLinks m := by
  cases step with
  | call call => exact call.sameLinks
  | load obeys ctx s =>
    refine SameLinks.trans ?_ (.modifyAll _ _ (f := (·.withState .loaded)) fun _ => rfl)
    exact batch_sameLinks obeys ctx (.clear l .load) _ s
  | unload obeys ctx s =>
    refine SameLinks.trans ?_ (.pushAll _ .destroy _)
    refine SameLinks.trans ?_ (.modifyAll _ _ (f := (·.withState .deleting)) fun _ => rfl)
    refine batch_sameLinks obeys ctx ?_ _ s
    exact (SameLinks.clear l .unload).trans
      (.modifyAll _ _ (f := (·.withState .loaded)) fun _ => rfl)
  | tick obeys ctx s => exact batch_sameLinks obeys ctx (.clear l .tick) _ s
  | flush obeys ctx changed s =>
    refine batch_sameLinks obeys _ ?_ _ s
    exact .modifyAll l _ (f := fun n => n.bumpVersion.touch ctx.now) fun _ => rfl
  | observers c f same =>
    refine ⟨index_modify l c f, fun e => ?_⟩
    rw [get?_modify]
    split
    · rename_i at_
      subst at_
      cases found : l.get? c with
      | none => rfl
      | some n =>
        obtain ⟨count, change⟩ := same n found
        rw [Option.map_some, change]
        rfl
    · rfl
  | doom c =>
    have change : ∀ n : Node N, (if n.state = .deleting then n
        else n.withState .unloading).links = n.links := by
      intro n
      split <;> rfl
    exact (SameLinks.modify l c change).trans (.pushAll _ .unload _)
  | evict c =>
    exact (SameLinks.modify l c (f := (·.withState .unloading)) fun _ => rfl).trans
      (.pushAll _ .unload _)

theorem Stepped.sameLinks {l m : Level N L} (stepped : Stepped may l m) : l.SameLinks m :=
  stepped.induct (fun _ _ step before => before.trans step.sameLinks) (.refl l)

end Level

end OctreeWorld
