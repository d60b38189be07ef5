import Mathlib.Logic.Relation
import OctreeWorld.Proofs.Level

/-!
# What a batch can do

A batch applies the edits its processors answer with and nothing else. So a relation that every
permitted edit respects holds between the target before a batch and the target after it, whatever
the processors compute and whatever state they thread along. For nodes this gives `Level.Edited`:
only nodes that are named change, each by permitted edits, and the queues stay as they are.
-/

namespace OctreeWorld

/-- Whatever the processor is shown, its answer consists of permitted edits. -/
def Processor.Obeys {σ V E : Type} (may : E → Prop) (p : Processor σ V E) : Prop :=
  ∀ ctx v s, ∀ e ∈ (p.process ctx v s).1, may e

section Batch

variable {κ τ V E σ : Type} {addr : Addressing κ τ V E} {may : E → Prop} {cs : List κ}
  {R : τ → τ → Prop} {ps : List (Processor σ V E)}

/-- A relation that can be followed through the permitted edits of some commands. -/
structure Addressing.Respects (addr : Addressing κ τ V E) (may : E → Prop) (cs : List κ)
    (R : τ → τ → Prop) : Prop where
  refl : ∀ t, R t t
  trans : ∀ t u v, R t u → R u v → R t v
  edit : ∀ c ∈ cs, ∀ t e, may e → R t (addr.edit c t e)

namespace Addressing.Respects

theorem foldl (respects : addr.Respects may cs R) {c : κ} (named : c ∈ cs) {es : List E}
    (permitted : ∀ e ∈ es, may e) (t : τ) : R t (es.foldl (addr.edit c) t) := by
  induction es generalizing t with
  | nil => exact respects.refl t
  | cons e es ih =>
    have first := respects.edit c named t e (permitted e List.mem_cons_self)
    have rest := ih (fun e' listed => permitted e' (List.mem_cons_of_mem _ listed))
      (addr.edit c t e)
    exact respects.trans _ _ _ first rest

theorem offer (respects : addr.Respects may cs R) (obeys : ∀ p ∈ ps, p.Obeys may) {c : κ}
    (named : c ∈ cs) (ctx : BatchContext) (t : τ) (s : σ) : R t (offer addr ctx c ps t s).1 := by
  induction ps generalizing t s with
  | nil => exact respects.refl t
  | cons p ps ih =>
    have first : R t (offerTo addr ctx c p t s).1 := by
      unfold offerTo
      cases addr.view c t with
      | none => exact respects.refl t
      | some v => exact respects.foldl named (obeys p List.mem_cons_self ctx v s) t
    exact respects.trans _ _ _ first
      (ih (fun q listed => obeys q (List.mem_cons_of_mem _ listed)) _ _)

theorem dispatch (respects : addr.Respects may cs R) (obeys : ∀ p ∈ ps, p.Obeys may) {ds : List κ}
    (named : ∀ d ∈ ds, d ∈ cs) (ctx : BatchContext) (t : τ) (s : σ) :
    R t (dispatch addr ctx ps ds t s).1 := by
  induction ds generalizing t s with
  | nil => exact respects.refl t
  | cons d ds ih =>
    have first := respects.offer obeys (named d List.mem_cons_self) ctx t s
    exact respects.trans _ _ _ first
      (ih (fun c listed => named c (List.mem_cons_of_mem _ listed)) _ _)

theorem runBatch (respects : addr.Respects may cs R) (obeys : ∀ p ∈ ps, p.Obeys may)
    (ctx : BatchContext) (t : τ) (s : σ) : R t (runBatch addr ctx ps cs t s).1 := by
  unfold OctreeWorld.runBatch
  split
  · exact respects.refl t
  · exact respects.dispatch obeys (fun _ listed => listed) ctx t _

end Addressing.Respects

end Batch

variable {N L σ : Type} {may : NodeEdit N L → Prop}

/-! ### Nodes -/

/-- A node after some permitted edits. -/
def Node.Edited (may : NodeEdit N L → Prop) : Node N → Node N → Prop :=
  Relation.ReflTransGen fun n m => ∃ e, may e ∧ m = n.edit e

namespace Node.Edited

variable {n m : Node N}

theorem single {e : NodeEdit N L} (permitted : may e) (n : Node N) : Edited may n (n.edit e) :=
  Relation.ReflTransGen.single ⟨e, permitted, rfl⟩

theorem keeps {α : Type} {view : Node N → α}
    (same : ∀ e : NodeEdit N L, may e → ∀ n, view (n.edit e) = view n) (edited : Edited may n m) :
    view m = view n := by
  induction edited with
  | refl => rfl
  | tail _ step ih =>
    obtain ⟨e, permitted, rfl⟩ := step
    exact (same e permitted _).trans ih

theorem links (edited : Edited may n m) : m.links = n.links :=
  edited.keeps fun e _ n => links_edit n e

theorem observers (edited : Edited may n m) : m.observers = n.observers :=
  edited.keeps fun e _ n => observers_edit n e

theorem state (calm : ∀ s, ¬ may (.setState s)) (edited : Edited may n m) : m.state = n.state := by
  refine edited.keeps fun e permitted n => ?_
  cases e with
  | setState s => exact absurd permitted (calm s)
  | _ => rfl

theorem version_le (edited : Edited may n m) : n.version ≤ m.version := by
  induction edited with
  | refl => exact UInt32.le_refl _
  | tail _ step ih =>
    obtain ⟨e, -, rfl⟩ := step
    exact UInt32.le_trans ih (version_le_edit _ e)

theorem lastUpdate_le (edited : Edited may n m) : n.lastUpdate.micros ≤ m.lastUpdate.micros := by
  induction edited with
  | refl => exact UInt64.le_refl _
  | tail _ step ih =>
    obtain ⟨e, -, rfl⟩ := step
    refine UInt64.le_trans ih ?_
    cases e with
    | touch now => exact SimTime.le_latest_left _ now
    | _ => exact UInt64.le_refl _

end Node.Edited

/-! ### Levels -/

namespace Level

/-- The named nodes have been edited, and nothing else but the payload of the level. -/
structure Edited (may : NodeEdit N L → Prop) (cs : List Coord) (l m : Level N L) : Prop where
  index : m.index = l.index
  queues : m.queues = l.queues
  away : ∀ c, c ∉ cs → m.get? c = l.get? c
  node : ∀ c, Option.Rel (Node.Edited may) (l.get? c) (m.get? c)

namespace Edited

variable {cs : List Coord} {l m k : Level N L}

theorem refl (l : Level N L) : l.Edited may cs l :=
  ⟨rfl, rfl, fun _ _ => rfl, Nodewise.of_get? (fun _ => .refl) fun _ => rfl⟩

theorem trans (first : l.Edited may cs m) (second : m.Edited may cs k) : l.Edited may cs k :=
  ⟨second.index.trans first.index, second.queues.trans first.queues,
    fun c away => (second.away c away).trans (first.away c away),
    Nodewise.trans (fun _ _ _ => Relation.ReflTransGen.trans) first.node second.node⟩

theorem editNode (l : Level N L) {c : Coord} (named : c ∈ cs) {e : NodeEdit N L}
    (permitted : may e) : l.Edited may cs (l.editNode c e) := by
  refine ⟨index_editNode l c e, queues_editNode l c e, fun x away => ?_, fun x => ?_⟩
  · rw [get?_editNode, if_neg]
    rintro rfl
    exact away named
  · rw [get?_editNode]
    cases l.get? x with
    | none => split <;> exact .none
    | some n =>
      split
      · exact .some (Node.Edited.single permitted n)
      · exact .some .refl

theorem get?_of_some (edited : l.Edited may cs m) {c : Coord} {n : Node N}
    (found : l.get? c = some n) : ∃ n', m.get? c = some n' ∧ Node.Edited may n n' := by
  have rel := edited.node c
  rw [found] at rel
  generalize m.get? c = y at rel
  cases rel with
  | some step => exact ⟨_, rfl, step⟩

theorem get?_back (edited : l.Edited may cs m) {c : Coord} {n' : Node N}
    (found : m.get? c = some n') : ∃ n, l.get? c = some n ∧ Node.Edited may n n' := by
  have rel := edited.node c
  rw [found] at rel
  generalize l.get? c = x at rel
  cases rel with
  | some step => exact ⟨_, rfl, step⟩

/-- What no permitted edit changes in a node, a batch changes in none. -/
theorem map_eq {α : Type} {view : Node N → α}
    (same : ∀ n m, Node.Edited may n m → view m = view n) (edited : l.Edited may cs m) (c : Coord) :
    (m.get? c).map view = (l.get? c).map view := by
  have rel := edited.node c
  generalize l.get? c = x at rel
  generalize m.get? c = y at rel
  cases rel with
  | none => rfl
  | some step => exact congrArg some (same _ _ step)

theorem respects (may : NodeEdit N L → Prop) (cs : List Coord) :
    nodeAddressing.Respects may cs (Level.Edited may cs) :=
  ⟨refl, fun _ _ _ => trans, fun _ named l _ permitted => editNode l named permitted⟩

end Edited

end Level

theorem runNodeBatch_edited {ps : List (NodeProcessor σ N L)} (obeys : ∀ p ∈ ps, p.Obeys may)
    (ctx : BatchContext) (l : Level N L) (cs : List Coord) (s : σ) :
    l.Edited may cs (runNodeBatch ps ctx l cs s).1 :=
  (Level.Edited.respects may cs).runBatch obeys ctx l s

end OctreeWorld
