import OctreeWorld.Proofs.History
import OctreeWorld.Proofs.Operations
import OctreeWorld.Proofs.Transitions

/-!
# Watched runs

The runs of processors are recorded by the processors themselves. Each of them is watched, which
puts a record beside the state that it threads along and changes nothing else. Everything else in
the history of a run is read off the hierarchies before and after an operation.
-/

namespace OctreeWorld

variable {N L V E σ : Type}

/-! ### Watched processors -/

namespace Processor

/-- The processor beside a record that it leaves alone. -/
def beside (p : Processor σ V E) : Processor (σ × History) V E where
  name := p.name
  start ctx t := (p.start ctx t.1, t.2)
  process ctx v t := ((p.process ctx v t.1).1, (p.process ctx v t.1).2, t.2)
  finish ctx t := (p.finish ctx t.1, t.2)

/-- The processor of nodes, with a record of the cells it runs on. -/
def watched (kind : CommandKind) (i : Nat) (p : NodeProcessor σ N L) :
    NodeProcessor (σ × History) N L :=
  { p.beside with
    process := fun ctx v t => ((p.process ctx v t.1).1, (p.process ctx v t.1).2,
      .ran kind i v.node.coord :: t.2) }

theorem beside_over (p : Processor σ V E) : p.beside.Over Prod.fst p :=
  ⟨fun _ _ => rfl, fun _ _ _ => rfl, fun _ _ => rfl⟩

theorem watched_over (kind : CommandKind) (i : Nat) (p : NodeProcessor σ N L) :
    (p.watched kind i).Over Prod.fst p :=
  ⟨fun _ _ => rfl, fun _ _ _ => rfl, fun _ _ => rfl⟩

end Processor

/-- Watch processors of a kind, numbered from `i` on. -/
def watchFrom (kind : CommandKind) : Nat → List (NodeProcessor σ N L) →
    List (NodeProcessor (σ × History) N L)
  | _, [] => []
  | i, p :: ps => p.watched kind i :: watchFrom kind (i + 1) ps

theorem watchFrom_over (kind : CommandKind) (i : Nat) (ps : List (NodeProcessor σ N L)) :
    List.Forall₂ (Processor.Over Prod.fst) (watchFrom kind i ps) ps := by
  induction ps generalizing i with
  | nil => exact .nil
  | cons p ps ih => exact .cons (p.watched_over kind i) (ih (i + 1))

theorem mem_watchFrom {kind : CommandKind} {i : Nat} {ps : List (NodeProcessor σ N L)}
    {q : NodeProcessor (σ × History) N L} (listed : q ∈ watchFrom kind i ps) :
    ∃ j, ∃ p ∈ ps, q = p.watched kind j := by
  induction ps generalizing i with
  | nil => cases listed
  | cons p ps ih =>
    rcases List.mem_cons.mp listed with rfl | listed
    · exact ⟨i, p, List.mem_cons_self, rfl⟩
    · obtain ⟨j, p, among, same⟩ := ih listed
      exact ⟨j, p, List.mem_cons_of_mem _ among, same⟩

theorem watchFrom_obeys {may : NodeEdit N L → Prop} {ps : List (NodeProcessor σ N L)}
    (obeys : ∀ p ∈ ps, p.Obeys may) (kind : CommandKind) (i : Nat) :
    ∀ p ∈ watchFrom kind i ps, p.Obeys may := by
  intro q listed
  obtain ⟨j, p, among, rfl⟩ := mem_watchFrom listed
  exact fun ctx v t => obeys p among ctx v t.1

namespace ProcessorRegistry

/-- The registry with its processors of nodes watched. -/
def watched (ps : ProcessorRegistry σ N L) : ProcessorRegistry (σ × History) N L where
  load := watchFrom .load 0 ps.load
  unload := watchFrom .unload 0 ps.unload
  tick := watchFrom .tick 0 ps.tick
  level := ps.level.map Processor.beside
  region := ps.region.map Processor.beside

theorem watched_over (ps : ProcessorRegistry σ N L) : ps.watched.Over Prod.fst ps where
  load := watchFrom_over .load 0 ps.load
  unload := watchFrom_over .unload 0 ps.unload
  tick := watchFrom_over .tick 0 ps.tick
  level := List.forall₂_map_left_iff.mpr (List.forall₂_same.mpr fun p _ => p.beside_over)

end ProcessorRegistry

/-! ### What a batch records -/

/-- The record of a batch of a kind in which each of `n` processors ran on each of some cells. -/
def showings (kind : CommandKind) (n : Nat) (cs : List Coord) : History :=
  (cs.flatMap fun c => (List.range n).map (Event.ran kind · c)).reverse

theorem mem_showings {kind : CommandKind} {n : Nat} {cs : List Coord} {e : Event} :
    e ∈ showings kind n cs ↔ ∃ c ∈ cs, ∃ i < n, Event.ran kind i c = e := by
  simp [showings]

theorem count_showings {cs : List Coord} (nodup : cs.Nodup) (kind k : CommandKind) (n i : Nat)
    (c : Coord) : (showings kind n cs).count (.ran k i c) =
      if k = kind ∧ i < n ∧ c ∈ cs then 1 else 0 := by
  have apart : (showings kind n cs).Nodup := by
    refine List.nodup_reverse.mpr (List.nodup_flatMap.mpr ⟨fun d _ => ?_, ?_⟩)
    · exact List.nodup_range.map fun i j same => (Event.ran.inj same).2.1
    · refine nodup.imp fun {a b} differ e one other => ?_
      obtain ⟨i, -, rfl⟩ := List.mem_map.mp one
      obtain ⟨j, -, same⟩ := List.mem_map.mp other
      exact differ (Event.ran.inj same).2.2.symm
  rw [apart.count]
  refine if_congr ?_ rfl rfl
  rw [mem_showings]
  constructor
  · rintro ⟨d, listed, j, below, same⟩
    cases same
    exact ⟨rfl, below, listed⟩
  · rintro ⟨rfl, below, listed⟩
    exact ⟨c, listed, i, below, rfl⟩

theorem showings_cons (kind : CommandKind) (n : Nat) (c : Coord) (cs : List Coord) :
    showings kind n (c :: cs) =
      showings kind n cs ++ ((List.range n).map (Event.ran kind · c)).reverse := by
  simp [showings]

section Watched

variable {kind : CommandKind} {ctx : BatchContext} {l : Level N L}

/-- A resident that stands where its coordinate says. -/
def Level.Holds (l : Level N L) (c : Coord) : Prop := ∃ n, l.get? c = some n ∧ n.coord = c

theorem Level.Edited.holds {may : NodeEdit N L → Prop} {cs : List Coord} {m : Level N L}
    (edited : l.Edited may cs m) {c : Coord} (holds : l.Holds c) : m.Holds c := by
  obtain ⟨n, found, place⟩ := holds
  obtain ⟨n', found', same⟩ := edited.get?_of_some found
  exact ⟨n', found', (Node.links_eq_iff.mp same.links).1.trans place⟩

/-- Every watched processor that is shown a node records it. -/
theorem offer_watched {c : Coord} (holds : l.Holds c) (i : Nat) (ps : List (NodeProcessor σ N L))
    (t : σ × History) : (offer nodeAddressing ctx c (watchFrom kind i ps) l t).2.2 =
      ((List.range' i ps.length).map (Event.ran kind · c)).reverse ++ t.2 := by
  induction ps generalizing i l t with
  | nil => rfl
  | cons p ps ih =>
    obtain ⟨n, found, place⟩ := holds
    let edits := (p.process ctx ⟨l.data, n⟩ t.1).1
    have shown : offerTo nodeAddressing ctx c (p.watched kind i) l t =
        (edits.foldl (nodeAddressing.edit c) l,
          (p.process ctx ⟨l.data, n⟩ t.1).2, .ran kind i c :: t.2) := by
      simp only [offerTo, nodeAddressing, found, Option.map_some, Processor.watched, place, edits]
    have edited := (Level.Edited.respects (fun _ => True) [c]).foldl List.mem_cons_self
      (fun e (_ : e ∈ edits) => trivial) l
    rw [watchFrom, offer, shown, ih (edited.holds ⟨n, found, place⟩), List.length_cons,
      List.range'_succ, List.map_cons, List.reverse_cons, List.append_assoc]
    rfl

theorem dispatch_watched {cs : List Coord} (holds : ∀ c ∈ cs, l.Holds c)
    (ps : List (NodeProcessor σ N L)) (t : σ × History) :
    (dispatch nodeAddressing ctx (watchFrom kind 0 ps) cs l t).2.2 =
      showings kind ps.length cs ++ t.2 := by
  induction cs generalizing l t with
  | nil => rfl
  | cons c cs ih =>
    have edited : l.Edited (fun _ => True) [c]
        (offer nodeAddressing ctx c (watchFrom kind 0 ps) l t).1 :=
      (Level.Edited.respects _ _).offer Processor.obeys_any List.mem_cons_self ctx l t
    rw [dispatch, ih fun d listed => edited.holds (holds d (List.mem_cons_of_mem c listed)),
      offer_watched (holds c List.mem_cons_self), showings_cons, List.range_eq_range',
      List.append_assoc]

theorem foldl_record {P : Type} {f : P → σ × History → σ × History} {ps : List P}
    (keeps : ∀ p ∈ ps, ∀ t, (f p t).2 = t.2) (t : σ × History) :
    (ps.foldl (fun t p => f p t) t).2 = t.2 := by
  induction ps generalizing t with
  | nil => rfl
  | cons p ps ih =>
    rw [List.foldl_cons, ih fun q listed => keeps q (List.mem_cons_of_mem _ listed)]
    exact keeps p List.mem_cons_self t

/-- A batch of watched processors records each processor once on each of its cells. -/
theorem runNodeBatch_watched {cs : List Coord} (holds : ∀ c ∈ cs, l.Holds c)
    (ps : List (NodeProcessor σ N L)) (t : σ × History) :
    (runNodeBatch (watchFrom kind 0 ps) ctx l cs t).2.2 =
      showings kind ps.length cs ++ t.2 := by
  have starts : ∀ p ∈ watchFrom kind 0 ps, ∀ t, (p.start ctx t).2 = t.2 := by
    intro q listed t
    obtain ⟨j, p, -, rfl⟩ := mem_watchFrom listed
    rfl
  have finishes : ∀ p ∈ watchFrom kind 0 ps, ∀ t, (p.finish ctx t).2 = t.2 := by
    intro q listed t
    obtain ⟨j, p, -, rfl⟩ := mem_watchFrom listed
    rfl
  unfold runNodeBatch runBatch
  cases cs with
  | nil => rfl
  | cons c cs =>
    simp only [List.isEmpty_cons, Bool.false_eq_true, if_false]
    rw [foldl_record finishes, dispatch_watched holds, foldl_record starts]

/-- A batch of a level records nothing. -/
theorem runLevelBatch_beside (ps : List (LevelProcessor σ N L)) (t : σ × History) :
    (runLevelBatch (ps.map Processor.beside) ctx l t).2.2 = t.2 := by
  have starts : ∀ p ∈ ps.map Processor.beside, ∀ t, (p.start ctx t).2 = t.2 := by
    intro q listed t
    obtain ⟨p, -, rfl⟩ := List.mem_map.mp listed
    rfl
  have finishes : ∀ p ∈ ps.map Processor.beside, ∀ t, (p.finish ctx t).2 = t.2 := by
    intro q listed t
    obtain ⟨p, -, rfl⟩ := List.mem_map.mp listed
    rfl
  have shown : ∀ (ps : List (LevelProcessor σ N L)) (l : Level N L) (t : σ × History),
      (offer levelAddressing ctx () (ps.map Processor.beside) l t).2.2 = t.2 := by
    intro ps
    induction ps with
    | nil => exact fun _ _ => rfl
    | cons p ps ih => exact fun _ _ => ih _ _
  simp only [runLevelBatch, runBatch, List.isEmpty_cons, Bool.false_eq_true, if_false, dispatch]
  rw [foldl_record finishes, shown, foldl_record starts]

end Watched

/-! ### Recorded runs -/

namespace Node

/-- Whether there is a node that is not deleting. -/
def serves (n : Option (Node N)) : Bool := n.any (·.state != .deleting)

/-- Whether there is a node that is loading. -/
def waits (n : Option (Node N)) : Bool := n.any (·.state == .loading)

end Node

namespace Hierarchy

/-- The resident cells, finest level first and ordered by position. -/
def coords (h : Hierarchy N L) : List Coord := h.nodeList.map (·.coord)

/-- The residents that stopped loading between two hierarchies, if there is a way to do so. -/
def exits (h g : Hierarchy N L) : Option Exit → History
  | none => []
  | some exit => (g.coords.filter fun c =>
      Node.waits (h.get? c) && !Node.waits (g.get? c)).map (Event.left exit)

/-- What happened to nodes between two hierarchies short of removal, given how nodes could stop
loading and what the processors recorded. -/
def turns (h g : Hierarchy N L) (exit : Option Exit) (record : History) : History :=
  (h.coords.filter fun c => Node.serves (h.get? c) && !Node.serves (g.get? c)).map Event.retired ++
    (h.exits g exit ++ (record ++ (g.coords.filter fun c => !h.contains c).map Event.created))

/-- What happened to nodes between two hierarchies. -/
def changes (h g : Hierarchy N L) (exit : Option Exit) (record : History) : History :=
  (h.coords.filter fun c => !g.contains c).map Event.removed ++ h.turns g exit record

end Hierarchy

/-- The registry with one more processor of nodes, behind those of its kind. Levels and regions take
no processors of nodes. -/
def ProcessorRegistry.add (ps : ProcessorRegistry σ N L) (p : NodeProcessor σ N L) :
    CommandKind → ProcessorRegistry σ N L
  | .load => { ps with load := ps.load ++ [p] }
  | .unload => { ps with unload := ps.unload ++ [p] }
  | .tick => { ps with tick := ps.tick ++ [p] }
  | .level => ps
  | .region => ps

namespace World

/-- The world with its processors watched. -/
def watched (w : World σ N L) : World (σ × History) N L := w.withProcessors w.processors.watched

/-- Watching changes nothing: the operation does to the world and to the outer state what it does
with the processors watched. -/
theorem perform_watched (w : World σ N L) (s : σ) (op : Operation N L) :
    op.perform w s = ((op.perform w.watched (s, [])).1.withProcessors w.processors,
      (op.perform w.watched (s, [])).2.1) :=
  Operation.perform_over w.processors.watched_over op (s, [])

/-- How nodes can stop loading in an operation and yet stay. -/
def Operation.exit : Operation N L → Option Exit
  | loadPhase => some .loaded
  | queueUnload _ | unloadPhase => some .withdrawn
  | _ => none

/-- What happens in an operation. -/
def record (w : World σ N L) (s : σ) (op : Operation N L) : History :=
  w.hierarchy.changes (op.perform w s).1.hierarchy op.exit (op.perform w.watched (s, [])).2.2

/-- A world and an outer state that a run leads to, with the history of the run. Nobody writes a
state by hand: neither processors nor the functions handed to phases do. Between operations the
outer state and the regions of the world may change in any way. -/
inductive Recorded : World σ N L → σ → History → Prop
  | empty (id : WorldId) (config : WorldConfig) (factory : PayloadFactory N L) (s : σ) :
      Recorded (World.empty id config factory) s []
  | perform {w s hist} (recorded : Recorded w s hist) (op : Operation N L)
      (fair : op.Fair NodeEdit.Calm) :
      Recorded (op.perform w s).1 (op.perform w s).2 (w.record s op ++ hist)
  | register {w s hist} (recorded : Recorded w s hist) (kind : CommandKind)
      {p : NodeProcessor σ N L} (obeys : p.Obeys NodeEdit.Calm) :
      Recorded { w with processors := w.processors.add p kind } s
        (.registered kind (w.processors.ofKind kind).length :: hist)
  | registerLevel {w s hist} (recorded : Recorded w s hist) {p : LevelProcessor σ N L}
      (obeys : p.Obeys (LevelEdit.Allowed NodeEdit.Calm)) :
      Recorded { w with processors := { w.processors with level := w.processors.level ++ [p] } } s
        hist
  | elsewhere {w s hist} (recorded : Recorded w s hist) (regions : List (Region N L))
      (ps : List (RegionProcessor σ N L)) (s' : σ) :
      Recorded { w with regions, processors := { w.processors with region := ps } } s' hist

/-- A world, an outer state and the history of the run to them. -/
structure Run (σ N L : Type) where
  world : World σ N L
  state : σ
  hist : History

/-- Carry a run on by some operations. -/
def Run.on (run : Run σ N L) (ops : List (Operation N L)) : Run σ N L :=
  ops.foldl (fun run op => ⟨(op.perform run.world run.state).1, (op.perform run.world run.state).2,
    run.world.record run.state op ++ run.hist⟩) run

theorem Recorded.on {run : Run σ N L} (recorded : run.world.Recorded run.state run.hist)
    {ops : List (Operation N L)} (fair : ∀ op ∈ ops, op.Fair NodeEdit.Calm) :
    (run.on ops).world.Recorded (run.on ops).state (run.on ops).hist := by
  induction ops generalizing run with
  | nil => exact recorded
  | cons op ops ih =>
    exact ih (recorded.perform op (fair op List.mem_cons_self))
      fun op listed => fair op (List.mem_cons_of_mem _ listed)

/-- An empty world with a processor of one kind that does nothing. -/
def Run.idle (kind : CommandKind) (levels : UInt8) : Run Unit Unit Unit where
  world :=
    let w := World.empty default { levelCount := levels } PayloadFactory.plain
    { w with processors := w.processors.add (.plain "idle" fun _ _ s => ([], s)) kind }
  state := ()
  hist := [.registered kind 0]

theorem Run.idle_recorded (kind : CommandKind) (levels : UInt8) :
    (Run.idle kind levels).world.Recorded () (Run.idle kind levels).hist := by
  have obeys : (Processor.plain "idle" fun _ _ s => ([], s) :
      NodeProcessor Unit Unit Unit).Obeys NodeEdit.Calm :=
    fun _ _ _ _ listed => absurd listed List.not_mem_nil
  have recorded := Recorded.register
    (.empty default { levelCount := levels } PayloadFactory.plain ()) kind obeys
  cases kind <;> exact recorded

end World

end OctreeWorld
