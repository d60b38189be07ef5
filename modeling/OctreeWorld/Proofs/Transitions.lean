import OctreeWorld.Proofs.Steps

/-!
# Transitions of one level

What draining a queue does to a level, node by node: which state each node is in afterwards, and
which commands are pending. Links stay as they are. All of it supposes that processors leave the
states of nodes alone.
-/

namespace OctreeWorld

variable {N L σ : Type}

/-- What the life of a node depends on. -/
def Node.stage (n : Node N) : (Coord × Option UInt8 × ChildMask × NeighbourMask) × NodeState :=
  (n.links, n.state)

/-- Edits that leave the states of nodes alone. -/
def NodeEdit.Calm (e : NodeEdit N L) : Prop := ∀ s, e ≠ .setState s

theorem Node.Edited.stage {n m : Node N} (edited : Node.Edited (NodeEdit.Calm (L := L)) n m) :
    m.stage = n.stage :=
  Prod.ext_iff.mpr ⟨edited.links, edited.state fun s calm => calm s rfl⟩

/-! ### States after a transition -/

/-- Between two ways to look nodes up, nodes and links stay, and each node is in the state that
`next` names. -/
def Moved (next : Coord → Node N → NodeState) (before after : Coord → Option (Node N)) : Prop :=
  ∀ c, (after c).map Node.stage = (before c).map fun n => (n.links, next c n)

namespace Moved

variable {next : Coord → Node N → NodeState} {before after : Coord → Option (Node N)} {c : Coord}

theorem of_some (moved : Moved next before after) {n : Node N} (found : before c = some n) :
    ∃ n', after c = some n' ∧ n'.links = n.links ∧ n'.state = next c n := by
  have stage := moved c
  rw [found] at stage
  obtain ⟨n', found', same⟩ := Option.map_eq_some_iff.mp stage
  obtain ⟨links, state⟩ := Prod.ext_iff.mp same
  exact ⟨n', found', links, state⟩

theorem back (moved : Moved next before after) {n' : Node N} (found : after c = some n') :
    ∃ n, before c = some n ∧ n'.links = n.links ∧ n'.state = next c n := by
  have stage := moved c
  rw [found] at stage
  obtain ⟨n, found', same⟩ := Option.map_eq_some_iff.mp stage.symm
  obtain ⟨links, state⟩ := Prod.ext_iff.mp same
  exact ⟨n, found', links.symm, state.symm⟩

theorem isSome (moved : Moved next before after) (c : Coord) :
    (after c).isSome = (before c).isSome := by
  rw [← Option.isSome_map (f := Node.stage), moved c, Option.isSome_map]

theorem congr (moved : Moved next before after) {other : Coord → Node N → NodeState}
    (same : ∀ c n, before c = some n → next c n = other c n) : Moved other before after := by
  intro c
  rw [moved c]
  cases found : before c with
  | none => rfl
  | some n => rw [Option.map_some, Option.map_some, same c n found]

/-- Nothing moves a node after it has moved. -/
theorem then_same {between : Coord → Option (Node N)} (first : Moved next before between)
    (second : Moved (fun _ n => n.state) between after) : Moved next before after :=
  fun c => (second c).trans (first c)

/-- Two transitions in turn, the later of which looks at nothing but the state. -/
theorem trans {later : Coord → Node N → NodeState} {between : Coord → Option (Node N)}
    (first : Moved next before between) (second : Moved later between after)
    (view : ∀ c n m, n.state = m.state → later c n = later c m) :
    Moved (fun c n => later c (n.withState (next c n))) before after := by
  intro c
  rw [second c]
  cases found : before c with
  | none =>
    have gone := first.isSome c
    rw [found, Option.isSome_none, Option.isSome_eq_false_iff, Option.isNone_iff_eq_none] at gone
    rw [gone]
    rfl
  | some n =>
    obtain ⟨m, found', links, state⟩ := first.of_some found
    rw [found', Option.map_some, Option.map_some, links, view c m (n.withState (next c n)) state]

end Moved

namespace Level

theorem Edited.moved {cs : List Coord} {l m : Level N L} (edited : l.Edited NodeEdit.Calm cs m) :
    Moved (fun _ n => n.state) l.get? m.get? := edited.map_eq fun _ _ same => same.stage

theorem moved_modifyAll (l : Level N L) (cs : List Coord) (s : NodeState) :
    Moved (fun c n => if c ∈ cs then s else n.state) l.get?
      (l.modifyAll cs (·.withState s)).get? := by
  intro c
  rw [get?_modifyAll _ _ (f := (·.withState s)) fun _ => rfl]
  by_cases named : c ∈ cs
  · simp only [if_pos named]
    cases l.get? c <;> rfl
  · simp only [if_neg named]
    cases l.get? c <;> rfl

/-- Edits that leave states alone, followed by a state for some of the nodes. -/
theorem moved_edited {l m : Level N L} {cs ds : List Coord} {next : Coord → Node N → NodeState}
    {before : Coord → Option (Node N)} (moved : Moved next before l.get?)
    (edited : l.Edited NodeEdit.Calm cs m) (s : NodeState) :
    Moved (fun c n => if c ∈ ds then s else next c n) before
      (m.modifyAll ds (·.withState s)).get? := by
  refine (moved.then_same edited.moved).trans (moved_modifyAll m ds s) fun c n n' same => ?_
  simp only [same]

/-! ### Loading -/

/-- The state in which draining the load queue leaves a node. -/
def loadedState (l : Level N L) (c : Coord) (n : Node N) : NodeState :=
  if n.state = .loading ∧ c ∈ l.pending .load then .loaded else n.state

section Drains

variable {ps : List (NodeProcessor σ N L)}

theorem load_moved (obeys : ∀ p ∈ ps, p.Obeys NodeEdit.Calm) (ctx : BatchContext) (l : Level N L)
    (s : σ) : Moved l.loadedState l.get? (l.load ps ctx s).2.1.get? := by
  let cs := (l.drained .load).filter fun c => (l.get? c).any (·.state == .loading)
  have edited : (l.clear .load).Edited NodeEdit.Calm cs
      (runNodeBatch ps ctx (l.clear .load) cs s).1 :=
    runNodeBatch_edited obeys ctx _ cs s
  have chosen : ∀ c n, l.get? c = some n →
      (c ∈ cs ↔ n.state = .loading ∧ c ∈ l.pending .load) := by
    intro c n found
    simp only [cs, List.mem_filter, mem_drained, found, Option.any_some, beq_iff_eq, and_comm]
  have before : Moved (fun _ n => n.state) l.get? (l.clear .load).get? := fun _ => rfl
  refine (moved_edited before edited .loaded).congr fun c n found => ?_
  change (if c ∈ cs then NodeState.loaded else n.state) = _
  simp only [chosen c n found, loadedState]

theorem pending_load (ps : List (NodeProcessor σ N L)) (ctx : BatchContext) (l : Level N L) (s : σ)
    (q : Queue) : (l.load ps ctx s).2.1.pending q = if .load = q then [] else l.pending q := by
  rw [← pending_clear]
  refine pending_congr ?_ q
  exact (queues_modifyAll _ _ _).trans
    (runNodeBatch_edited Processor.obeys_any ctx (l.clear .load) _ s).queues

/-! ### Ticking -/

theorem tick_edited {may : NodeEdit N L → Prop} (obeys : ∀ p ∈ ps, p.Obeys may)
    (ctx : BatchContext) (l : Level N L) (s : σ) :
    (l.clear .tick).Edited may ((l.drained .tick).filter l.contains) (l.tick ps ctx s).2.1 :=
  runNodeBatch_edited obeys ctx (l.clear .tick) _ s

theorem pending_tick (ps : List (NodeProcessor σ N L)) (ctx : BatchContext) (l : Level N L) (s : σ)
    (q : Queue) : (l.tick ps ctx s).2.1.pending q = if .tick = q then [] else l.pending q := by
  rw [← pending_clear]
  exact pending_congr (tick_edited Processor.obeys_any ctx l s).queues q

/-! ### Unloading -/

/-- The leaves that draining the unload queue retires, each once and in order. -/
def retiring (l : Level N L) : List Coord :=
  ((l.drained .unload).filter fun c => (l.get? c).any (·.state != .deleting)).filter
    fun c => (l.get? c).any (·.isLeaf)

/-- The nodes with children that draining the unload queue spares. -/
def sparing (l : Level N L) : List Coord :=
  ((l.drained .unload).filter fun c => (l.get? c).any (·.state != .deleting)).filter
    fun c => !(l.get? c).any (·.isLeaf)

theorem mem_retiring {l : Level N L} {c : Coord} : c ∈ l.retiring ↔
    c ∈ l.pending .unload ∧ ∃ n, l.get? c = some n ∧ n.state ≠ .deleting ∧ n.isLeaf = true := by
  simp only [retiring, List.mem_filter, mem_drained]
  cases l.get? c with
  | none => simp
  | some n => simp [and_assoc]

theorem mem_sparing {l : Level N L} {c : Coord} {n : Node N} (found : l.get? c = some n) :
    c ∈ l.sparing ↔ c ∈ l.pending .unload ∧ n.state ≠ .deleting ∧ n.isLeaf = false := by
  simp only [sparing, List.mem_filter, mem_drained, found, Option.any_some, bne_iff_ne,
    Bool.not_eq_true', and_assoc]

/-- The state in which draining the unload queue leaves a node. -/
def unloadedState (l : Level N L) (c : Coord) (n : Node N) : NodeState :=
  if c ∈ l.pending .unload ∧ n.state ≠ .deleting then
    if n.isLeaf then .deleting else .loaded
  else n.state

/-- The parts of an unload, each with what it is given and what it leaves. -/
theorem unload_eq (ps : List (NodeProcessor σ N L)) (ctx : BatchContext) (l : Level N L) (s : σ) :
    ∃ spared worked,
      spared = (l.clear .unload).modifyAll l.sparing (·.withState .loaded) ∧
      worked = (runNodeBatch ps ctx spared l.retiring s).1 ∧
      (l.unload ps ctx s).2.1 =
        (worked.modifyAll l.retiring (·.withState .deleting)).pushAll .destroy l.retiring :=
  ⟨_, _, rfl, rfl, rfl⟩

theorem unload_moved (obeys : ∀ p ∈ ps, p.Obeys NodeEdit.Calm) (ctx : BatchContext) (l : Level N L)
    (s : σ) : Moved l.unloadedState l.get? (l.unload ps ctx s).2.1.get? := by
  obtain ⟨spared, worked, h₁, h₂, result⟩ := unload_eq ps ctx l s
  have edited : spared.Edited NodeEdit.Calm l.retiring worked := by
    rw [h₂]
    exact runNodeBatch_edited obeys ctx spared _ s
  have before : Moved (fun c n => if c ∈ l.sparing then .loaded else n.state) l.get?
      spared.get? := by
    rw [h₁]
    exact moved_modifyAll (l.clear .unload) l.sparing .loaded
  rw [result]
  refine Moved.congr (moved_edited before edited .deleting) fun c n found => ?_
  have retire : c ∈ l.retiring ↔
      c ∈ l.pending .unload ∧ n.state ≠ .deleting ∧ n.isLeaf = true := by
    rw [mem_retiring, found]
    simp
  simp only [retire, mem_sparing found, unloadedState]
  by_cases live : c ∈ l.pending .unload ∧ n.state ≠ .deleting
  · cases n.isLeaf <;> simp [live]
  · rw [if_neg live, if_neg fun all => live ⟨all.1, all.2.1⟩,
      if_neg fun all => live ⟨all.1, all.2.1⟩]

theorem own_retiring (l : Level N L) : l.own l.retiring = l.retiring := by
  refine List.filter_eq_self.mpr fun c listed => ?_
  obtain ⟨n, found, -⟩ := (mem_retiring.mp listed).2
  exact beq_iff_eq.mpr (level_eq_of_get? found)

theorem pending_unload (ps : List (NodeProcessor σ N L)) (ctx : BatchContext) (l : Level N L)
    (s : σ) (q : Queue) : (l.unload ps ctx s).2.1.pending q =
      if .unload = q then [] else if .destroy = q then l.pending .destroy ++ l.retiring
      else l.pending q := by
  obtain ⟨spared, worked, h₁, h₂, result⟩ := unload_eq ps ctx l s
  have edited : spared.Edited (fun _ => True) l.retiring worked := by
    rw [h₂]
    exact runNodeBatch_edited Processor.obeys_any ctx spared _ s
  have queues : (worked.modifyAll l.retiring (·.withState .deleting)).queues =
      (l.clear .unload).queues := by
    rw [queues_modifyAll, edited.queues, h₁, queues_modifyAll]
  have own : (worked.modifyAll l.retiring (·.withState .deleting)).own l.retiring = l.retiring := by
    rw [own, index_modifyAll, edited.index, h₁, index_modifyAll]
    exact own_retiring l
  rw [result, pending_pushAll, own, pending_congr queues, pending_clear]
  cases q <;> rfl

end Drains

end Level

end OctreeWorld
