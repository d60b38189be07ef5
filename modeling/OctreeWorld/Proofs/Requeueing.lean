import OctreeWorld.Proofs.Agreement
import OctreeWorld.Proofs.Protocol

/-!
# Queues as sets

A queue lists requests in the order in which they came, as often as they came. A drain sorts it and
drops the repetitions, so what is done depends on the set of commands only: levels and hierarchies
that differ at most in the order and the number of their pending commands answer alike, call their
processors alike, and differ at most in that afterwards.
-/

namespace OctreeWorld

variable {N L σ : Type}

/-- The same commands are pending in each queue, in any order and number. -/
def Queues.Same (qs rs : Queues) : Prop := ∀ q c, c ∈ rs.get q ↔ c ∈ qs.get q

/-- Lists with the same members are the same when sorted. -/
theorem CoordSet.sorted_congr {cs ds : List Coord} (same : ∀ c, c ∈ ds ↔ c ∈ cs) :
    CoordSet.sorted ds = CoordSet.sorted cs := by
  have sets : (Std.ExtTreeSet.ofList ds : CoordSet) = Std.ExtTreeSet.ofList cs :=
    Std.ExtTreeSet.ext_mem fun c => by
      simp only [Std.ExtTreeSet.mem_ofList, List.contains_iff_mem, same]
  rw [CoordSet.sorted, sets]
  rfl

/-! ### Levels -/

namespace Level

/-- The level with other pending commands. -/
def withQueues (l : Level N L) (qs : Queues) : Level N L := { l with queues := qs }

/-- Two levels that differ at most in the order and the number of their pending commands. -/
def Requeued (l m : Level N L) : Prop := ∃ qs, l.queues.Same qs ∧ m = l.withQueues qs

/-- A change that neither reads nor writes pending commands. -/
def Oblivious (f : Level N L → Level N L) : Prop :=
  ∀ l qs, f (l.withQueues qs) = (f l).withQueues qs

theorem Oblivious.queues {f : Level N L → Level N L} (oblivious : Oblivious f) (l : Level N L) :
    (f l).queues = l.queues := by
  have same : f l = (f l).withQueues l.queues := oblivious l l.queues
  rw [same]
  rfl

theorem oblivious_foldl {α : Type} {f : Level N L → α → Level N L}
    (each : ∀ a, Oblivious fun l => f l a) (as : List α) : Oblivious fun l => as.foldl f l := by
  induction as with
  | nil => exact fun _ _ => rfl
  | cons a as ih => exact fun l qs => (congrArg (as.foldl f) (each a l qs)).trans (ih (f l a) qs)

theorem oblivious_modify (c : Coord) (f : Node N → Node N) :
    Oblivious fun l : Level N L => l.modify c f := by
  intro l qs
  change (if c.level = l.index then _ else _) = (l.modify c f).withQueues qs
  unfold modify
  split <;> rfl

theorem oblivious_modifyAll (cs : List Coord) (f : Node N → Node N) :
    Oblivious fun l : Level N L => l.modifyAll cs f :=
  oblivious_foldl (fun c => oblivious_modify c f) cs

theorem oblivious_editNode (c : Coord) (e : NodeEdit N L) :
    Oblivious fun l : Level N L => l.editNode c e := by
  cases e with
  | setLevelData d => exact fun _ _ => rfl
  | _ => exact oblivious_modify c _

/-! #### Batches -/

theorem offer_withQueues (ctx : BatchContext) (c : Coord) (ps : List (NodeProcessor σ N L))
    (l : Level N L) (qs : Queues) (s : σ) : offer nodeAddressing ctx c ps (l.withQueues qs) s =
      ((offer nodeAddressing ctx c ps l s).1.withQueues qs,
        (offer nodeAddressing ctx c ps l s).2) := by
  induction ps generalizing l s with
  | nil => rfl
  | cons p ps ih =>
    have shown : offerTo nodeAddressing ctx c p (l.withQueues qs) s =
        ((offerTo nodeAddressing ctx c p l s).1.withQueues qs,
          (offerTo nodeAddressing ctx c p l s).2) := by
      have view : nodeAddressing.view c (l.withQueues qs) = nodeAddressing.view c l := rfl
      simp only [offerTo, view]
      cases nodeAddressing.view c l with
      | none => rfl
      | some v =>
        have edits := oblivious_foldl (oblivious_editNode (N := N) (L := L) c)
          (p.process ctx v s).1 l qs
        exact Prod.ext edits rfl
    simp only [offer, shown, ih]

theorem dispatch_withQueues (ctx : BatchContext) (ps : List (NodeProcessor σ N L))
    (cs : List Coord) (l : Level N L) (qs : Queues) (s : σ) :
    dispatch nodeAddressing ctx ps cs (l.withQueues qs) s =
      ((dispatch nodeAddressing ctx ps cs l s).1.withQueues qs,
        (dispatch nodeAddressing ctx ps cs l s).2) := by
  induction cs generalizing l s with
  | nil => rfl
  | cons c cs ih => simp only [dispatch, offer_withQueues, ih]

/-- A batch of nodes neither reads nor writes pending commands. -/
theorem runNodeBatch_withQueues (ps : List (NodeProcessor σ N L)) (ctx : BatchContext)
    (l : Level N L) (qs : Queues) (cs : List Coord) (s : σ) :
    runNodeBatch ps ctx (l.withQueues qs) cs s =
      ((runNodeBatch ps ctx l cs s).1.withQueues qs, (runNodeBatch ps ctx l cs s).2) := by
  unfold runNodeBatch runBatch
  split
  · rfl
  · simp only [dispatch_withQueues]

namespace Requeued

variable {l m : Level N L} (same : l.Requeued m)

theorem refl (l : Level N L) : l.Requeued l := ⟨l.queues, fun _ _ => Iff.rfl, rfl⟩

include same

theorem index : m.index = l.index := by
  obtain ⟨qs, -, rfl⟩ := same
  rfl

theorem nodes : m.nodes = l.nodes := by
  obtain ⟨qs, -, rfl⟩ := same
  rfl

theorem get? : m.get? = l.get? := by
  obtain ⟨qs, -, rfl⟩ := same
  rfl

theorem contains : m.contains = l.contains := by
  obtain ⟨qs, -, rfl⟩ := same
  rfl

theorem drained (q : Queue) : m.drained q = l.drained q := by
  obtain ⟨qs, sets, rfl⟩ := same
  exact CoordSet.sorted_congr fun c => sets q c

theorem map {f : Level N L → Level N L} (oblivious : Oblivious f) : (f l).Requeued (f m) := by
  obtain ⟨qs, sets, rfl⟩ := same
  refine ⟨qs, ?_, oblivious l qs⟩
  rw [oblivious.queues]
  exact sets

theorem clear (q : Queue) : (l.clear q).Requeued (m.clear q) := by
  obtain ⟨qs, sets, rfl⟩ := same
  refine ⟨qs.set q [], fun p c => ?_, rfl⟩
  change c ∈ (qs.set q []).get p ↔ c ∈ (l.queues.set q []).get p
  rw [Queues.get_set, Queues.get_set]
  split
  · exact Iff.rfl
  · exact sets p c

theorem pushAll (q : Queue) (cs : List Coord) : (l.pushAll q cs).Requeued (m.pushAll q cs) := by
  obtain ⟨qs, sets, rfl⟩ := same
  refine ⟨qs.append q (l.own cs), fun p c => ?_, rfl⟩
  change c ∈ (qs.append q (l.own cs)).get p ↔ c ∈ (l.queues.append q (l.own cs)).get p
  rw [Queues.get_append, Queues.get_append]
  split
  · rw [List.mem_append, List.mem_append, sets]
  · exact sets p c

theorem batch (ps : List (NodeProcessor σ N L)) (ctx : BatchContext) (cs : List Coord) (s : σ) :
    (runNodeBatch ps ctx l cs s).1.Requeued (runNodeBatch ps ctx m cs s).1 ∧
      (runNodeBatch ps ctx m cs s).2 = (runNodeBatch ps ctx l cs s).2 := by
  have kept := (runNodeBatch_withQueues ps ctx l l.queues cs s)
  obtain ⟨qs, sets, rfl⟩ := same
  rw [runNodeBatch_withQueues]
  refine ⟨⟨qs, ?_, rfl⟩, rfl⟩
  rw [show (runNodeBatch ps ctx l cs s).1.queues = l.queues from congrArg (·.1.queues) kept]
  exact sets

/-! #### Drains -/

theorem load (ps : List (NodeProcessor σ N L)) (ctx : BatchContext) (s : σ) :
    Agree Requeued (l.load ps ctx s) (m.load ps ctx s) := by
  obtain ⟨run, state⟩ := (same.clear .load).batch ps ctx
    ((l.drained .load).filter fun c => (l.get? c).any (·.state == .loading)) s
  simp only [Level.load, same.drained, same.get?]
  exact ⟨rfl, run.map (oblivious_modifyAll _ _), state⟩

theorem tick (ps : List (NodeProcessor σ N L)) (ctx : BatchContext) (s : σ) :
    Agree Requeued (l.tick ps ctx s) (m.tick ps ctx s) := by
  obtain ⟨run, state⟩ := (same.clear .tick).batch ps ctx ((l.drained .tick).filter l.contains) s
  simp only [Level.tick, same.drained, same.contains]
  exact ⟨rfl, run, state⟩

theorem unload (ps : List (NodeProcessor σ N L)) (ctx : BatchContext) (s : σ) :
    Agree Requeued (l.unload ps ctx s) (m.unload ps ctx s) := by
  have spared := (same.clear .unload).map (oblivious_modifyAll l.sparing (·.withState .loaded))
  obtain ⟨run, state⟩ := spared.batch ps ctx l.retiring s
  have retiring : m.retiring = l.retiring := by
    simp only [Level.retiring, same.drained, same.get?]
  have sparing : m.sparing = l.sparing := by
    simp only [Level.sparing, same.drained, same.get?]
  have parts : ∀ k : Level N L, k.unload ps ctx s =
      let spared := (k.clear .unload).modifyAll k.sparing (·.withState .loaded)
      let worked := runNodeBatch ps ctx spared k.retiring s
      (k.retiring.length, (worked.1.modifyAll k.retiring (·.withState .deleting)).pushAll .destroy
        k.retiring, worked.2) := fun _ => rfl
  rw [parts, parts, retiring, sparing]
  exact ⟨rfl, (run.map (oblivious_modifyAll _ _)).pushAll .destroy l.retiring, state⟩

/-! #### Streaming -/

theorem collectMissing (budget : Option UInt64) (cs : List Coord) (found : CoordSet) :
    m.collectMissing budget cs found = l.collectMissing budget cs found := by
  induction cs generalizing found with
  | nil => rfl
  | cons c cs ih => simp only [Level.collectMissing, same.contains, ih]

theorem stream (config : StreamConfig) (loaders : List Loader) (tick : UInt64) (now : SimTime)
    (timeout : Duration) :
    (m.stream config loaders tick now timeout).1 = (l.stream config loaders tick now timeout).1 ∧
      (l.stream config loaders tick now timeout).2.Requeued
        (m.stream config loaders tick now timeout).2 := by
  have wanted : m.wanted loaders tick = l.wanted loaders tick := by
    rw [Level.wanted, Level.wanted, same.index]
  simp only [Level.stream, same.index]
  split
  · have requests : (m.requestLoads loaders tick config.createBudget).1 =
          (l.requestLoads loaders tick config.createBudget).1 ∧
        (l.requestLoads loaders tick config.createBudget).2.Requeued
          (m.requestLoads loaders tick config.createBudget).2 := by
      simp only [requestLoads, wanted, same.collectMissing]
      exact ⟨trivial, same.pushAll .create _⟩
    generalize l.requestLoads loaders tick config.createBudget = x at requests
    generalize m.requestLoads loaders tick config.createBudget = y at requests
    obtain ⟨counts, asked⟩ := requests
    have listed : y.2.nodeList = x.2.nodeList := by rw [nodeList, asked.nodes, nodeList]
    simp only [counts, collectUnused, listed, true_and]
    exact (asked.map (oblivious_modifyAll _ _)).pushAll .unload _
  · exact ⟨rfl, same⟩

end Requeued

end Level

/-! ### Hierarchies -/

namespace Hierarchy

/-- Two hierarchies that differ at most in the order and the number of their pending commands. -/
abbrev Requeued (h g : Hierarchy N L) : Prop := Levelwise Level.Requeued h g

/-- The same refusal, or hierarchies that differ at most in their pending commands. -/
inductive Matched : Except OctreeError (Hierarchy N L) → Except OctreeError (Hierarchy N L) → Prop
  | error (e : OctreeError) : Matched (.error e) (.error e)
  | ok {h g : Hierarchy N L} (same : h.Requeued g) : Matched (.ok h) (.ok g)

theorem oblivious_linkBack (c : Coord) (faces : List Direction) :
    Level.Oblivious fun l : Level N L => linkBack l c faces :=
  Level.oblivious_foldl (fun _ _ _ => rfl) faces

theorem oblivious_unlinkBack (c : Coord) (faces : List Direction) :
    Level.Oblivious fun l : Level N L => unlinkBack l c faces :=
  Level.oblivious_foldl (fun _ _ _ => rfl) faces

theorem postOrderFrom_congr {h g : Hierarchy N L} (same : ∀ c, g.get? c = h.get? c) (fuel : Nat)
    (c : Coord) : g.postOrderFrom fuel c = h.postOrderFrom fuel c := by
  induction fuel generalizing c with
  | zero => rfl
  | succ fuel ih => rw [postOrderFrom, postOrderFrom, same, funext ih]

namespace Requeued

variable {h g : Hierarchy N L} (same : h.Requeued g)

include same

theorem get? (c : Coord) : g.get? c = h.get? c := by
  rcases Levelwise.get? same c with ⟨before, after⟩ | ⟨l, m, related, -, -, before, after⟩
  · rw [before, after]
  · rw [before, after, related.get?]

theorem contains (c : Coord) : g.contains c = h.contains c := by
  rw [Hierarchy.contains, Hierarchy.contains, same.get?]

theorem levelCount : g.levelCount = h.levelCount := by
  rw [Hierarchy.levelCount, Hierarchy.levelCount, same.length_eq]

theorem coarsest : g.coarsest = h.coarsest := by
  rw [Hierarchy.coarsest, Hierarchy.coarsest, same.levelCount]

theorem indices : g.indices = h.indices := by
  rw [Hierarchy.indices, Hierarchy.indices, same.levelCount]

theorem checkLevel (i : UInt8) : g.checkLevel i = h.checkLevel i := by
  rw [Hierarchy.checkLevel, Hierarchy.checkLevel, same.levelCount]

theorem modifyLevel {f f' : Level N L → Level N L}
    (each : ∀ l m, l.Requeued m → (f l).Requeued (f' m)) (i : UInt8) :
    (h.modifyLevel i f).Requeued (g.modifyLevel i f') := by
  have related : List.Forall₂ Level.Requeued h.levels g.levels := same
  refine List.forall₂_iff_get.mpr ⟨?_, fun j hj hj' => ?_⟩
  · simp only [Hierarchy.modifyLevel, List.length_modify, related.length_eq]
  · simp only [List.get_eq_getElem, Hierarchy.modifyLevel, List.getElem_modify]
    have here := related.get (i := j) (by simpa [Hierarchy.modifyLevel] using hj)
      (by simpa [Hierarchy.modifyLevel] using hj')
    split
    · exact each _ _ here
    · exact here

theorem mapLevel {f : Level N L → Level N L} (oblivious : Level.Oblivious f) (i : UInt8) :
    (h.modifyLevel i f).Requeued (g.modifyLevel i f) := by
  refine same.modifyLevel (fun l m related => ?_) i
  exact related.map oblivious

theorem modify (c : Coord) (f : Node N → Node N) : (h.modify c f).Requeued (g.modify c f) :=
  same.mapLevel (Level.oblivious_modify c f) c.level

theorem clear (i : UInt8) (q : Queue) :
    (h.modifyLevel i (·.clear q)).Requeued (g.modifyLevel i (·.clear q)) :=
  same.modifyLevel (fun _ _ related => related.clear q) i

theorem drained (i : UInt8) (q : Queue) :
    CoordSet.sorted (g.pending i q) = CoordSet.sorted (h.pending i q) := by
  cases stored : h.level? i with
  | none => rw [pending_of_level?_none stored, pending_of_level?_none (same.level?_none stored)]
  | some l =>
    obtain ⟨m, found, related⟩ := same.level? stored
    rw [pending_of_level? stored, pending_of_level? found]
    exact related.drained q

/-! #### Insertion and creation -/

theorem linked (n : Node N) : g.linked n = h.linked n := by
  rw [Hierarchy.linked, Hierarchy.linked, same.coarsest]
  cases stored : h.level? n.coord.level with
  | none => rw [same.level?_none stored]
  | some l =>
    obtain ⟨m, found, related⟩ := same.level? stored
    have faces : residentFaces m n.coord = residentFaces l n.coord := by
      simp only [residentFaces, related.nodes]
    rw [found]
    simp only [faces]

theorem insert (n : Node N) : Matched (h.insert n) (g.insert n) := by
  have refusal : g.insertError? n.coord = h.insertError? n.coord := by
    simp only [insertError?, same.levelCount, same.contains, same.coarsest]
  rw [Hierarchy.insert, Hierarchy.insert, refusal]
  cases h.insertError? n.coord with
  | some e => exact .error e
  | none =>
    let c := n.coord
    let welcomed (k : Hierarchy N L) :=
      k.modifyLevel c.level fun l => linkBack l c (residentFaces l c)
    have first : (welcomed h).Requeued (welcomed g) :=
      same.mapLevel (fun l qs => oblivious_linkBack c (residentFaces l c) l qs) c.level
    let adopted (k : Hierarchy N L) :=
      if c.level < k.coarsest then k.modify c.parent (·.linkChild c.octant) else k
    have second : (adopted (welcomed h)).Requeued (adopted (welcomed g)) := by
      simp only [adopted, first.coarsest]
      split
      · exact first.modify c.parent (·.linkChild c.octant)
      · exact first
    rw [same.linked n]
    exact .ok (second.mapLevel (fun _ _ => rfl) c.level)

theorem createCell (factory : PayloadFactory N L) (now : SimTime) (c : Coord) :
    Matched (h.createCell factory now c) (g.createCell factory now c) := by
  have inserted := same.insert (Node.fresh c (factory.node c))
  rw [Hierarchy.createCell, Hierarchy.createCell]
  generalize h.insert (Node.fresh c (factory.node c)) = x at inserted ⊢
  generalize g.insert (Node.fresh c (factory.node c)) = y at inserted ⊢
  cases inserted with
  | error e => exact .error e
  | ok related =>
    refine .ok (related.modifyLevel (fun l m near => ?_) c.level)
    have stamped : Level.Oblivious fun l : Level N L =>
        l.modifyAt c.pos fun n => (n.withState .loading).touch now := fun _ _ => rfl
    exact (near.map stamped).pushAll .load [c]

theorem createChain (factory : PayloadFactory N L) (now : SimTime) (cs : List Coord) :
    (createChain factory now cs g).1 = (createChain factory now cs h).1 ∧
      (createChain factory now cs g).2.1 = (createChain factory now cs h).2.1 ∧
      (createChain factory now cs h).2.2.Requeued (createChain factory now cs g).2.2 := by
  induction cs generalizing h g with
  | nil => exact ⟨rfl, rfl, same⟩
  | cons c cs ih =>
    simp only [Hierarchy.createChain, same.contains]
    split
    · exact ih same
    · have made := same.createCell factory now c
      generalize h.createCell factory now c = x at made ⊢
      generalize g.createCell factory now c = y at made ⊢
      cases made with
      | error e => exact ⟨rfl, rfl, same⟩
      | ok related =>
        obtain ⟨answer, created, rest⟩ := ih related
        exact ⟨answer, congrArg (c :: ·) created, rest⟩

theorem ensure (factory : PayloadFactory N L) (now : SimTime) (c : Coord) :
    (g.ensure factory now c).1 = (h.ensure factory now c).1 ∧
      (g.ensure factory now c).2.1 = (h.ensure factory now c).2.1 ∧
      (h.ensure factory now c).2.2.Requeued (g.ensure factory now c).2.2 := by
  have lineage : g.lineage c = h.lineage c := by
    rw [Hierarchy.lineage, Hierarchy.lineage, same.coarsest]
  simp only [Hierarchy.ensure, same.checkLevel, same.contains, lineage]
  split
  · exact ⟨rfl, rfl, same⟩
  · split
    · exact ⟨rfl, rfl, same⟩
    · obtain ⟨answer, created, rest⟩ := same.createChain factory now (h.lineage c)
      exact ⟨congrArg (Except.map fun _ => true) answer, created, rest⟩

theorem ensureAll (factory : PayloadFactory N L) (now : SimTime) (cs : List Coord) :
    (ensureAll factory now cs g).1 = (ensureAll factory now cs h).1 ∧
      (ensureAll factory now cs h).2.Requeued (ensureAll factory now cs g).2 := by
  induction cs generalizing h g with
  | nil => exact ⟨rfl, same⟩
  | cons c cs ih =>
    obtain ⟨-, created, first⟩ := same.ensure factory now c
    obtain ⟨more, rest⟩ := ih first
    simp only [Hierarchy.ensureAll, created, more]
    exact ⟨trivial, rest⟩

theorem createAt (factory : PayloadFactory N L) (now : SimTime) (is : List UInt8) :
    (createAt factory now is g).1 = (createAt factory now is h).1 ∧
      (createAt factory now is h).2.Requeued (createAt factory now is g).2 := by
  induction is generalizing h g with
  | nil => exact ⟨rfl, same⟩
  | cons i is ih =>
    obtain ⟨created, first⟩ := (same.clear i .create).ensureAll factory now
      (CoordSet.sorted (h.pending i .create))
    obtain ⟨more, rest⟩ := ih first
    simp only [createAt_cons, same.drained, created, more]
    exact ⟨trivial, rest⟩

theorem createPending (factory : PayloadFactory N L) (now : SimTime) :
    (g.createPending factory now).1 = (h.createPending factory now).1 ∧
      (h.createPending factory now).2.Requeued (g.createPending factory now).2 := by
  rw [Hierarchy.createPending, Hierarchy.createPending, same.indices]
  exact same.createAt factory now h.indices.reverse

/-! #### Removal -/

theorem remove (c : Coord) : Matched (h.remove c) (g.remove c) := by
  rw [Hierarchy.remove, Hierarchy.remove, same.checkLevel, same.get?]
  cases h.checkLevel c.level with
  | error e => exact .error e
  | ok _ =>
    simp only [bind, Except.bind]
    cases h.get? c with
    | none => exact .error _
    | some n =>
      cases leaf : n.isLeaf with
      | false => simpa [leaf] using Matched.error _
      | true =>
        have erased : Level.Oblivious fun l : Level N L =>
            let l := unlinkBack l c (Direction.all.filter n.hasNeighbour)
            { l with nodes := l.nodes.erase c.pos } := by
          intro l qs
          simp only [oblivious_unlinkBack c (Direction.all.filter n.hasNeighbour) l qs]
          rfl
        have dropped := same.mapLevel erased c.level
        cases index : n.parentIndex with
        | none => simpa [leaf, index] using Matched.ok dropped
        | some i =>
          simpa [leaf, index] using
            Matched.ok (dropped.modify c.parent (·.unlinkChild (.ofIndex i)))

theorem retireAt (ps : List (NodeProcessor σ N L)) (ctx : BatchContext) (order : List Coord)
    (i : UInt8) (s : σ) :
    (retireAt ps ctx order i h s).1.Requeued (retireAt ps ctx order i g s).1 ∧
      (retireAt ps ctx order i g s).2 = (retireAt ps ctx order i h s).2 := by
  cases stored : h.level? i with
  | none =>
    simp only [Hierarchy.retireAt, stored, same.level?_none stored]
    exact ⟨same, trivial⟩
  | some l =>
    obtain ⟨m, found, related⟩ := same.level? stored
    obtain ⟨run, state⟩ := related.batch ps (ctx.atLevel i)
      (order.filter fun c => c.level == i && (l.get? c).any (·.state != .deleting)) s
    simp only [Hierarchy.retireAt, stored, found, related.get?]
    exact ⟨same.modifyLevel (fun _ _ _ => run.map (Level.oblivious_modifyAll _ _)) i, state⟩

theorem retire (ps : List (NodeProcessor σ N L)) (ctx : BatchContext) (order : List Coord)
    (is : List UInt8) (s : σ) :
    (retire ps ctx order is h s).1.Requeued (retire ps ctx order is g s).1 ∧
      (retire ps ctx order is g s).2 = (retire ps ctx order is h s).2 := by
  induction is generalizing h g s with
  | nil => exact ⟨same, rfl⟩
  | cons i is ih =>
    obtain ⟨first, state⟩ := same.retireAt ps ctx order i s
    simp only [Hierarchy.retire, state]
    exact ih first _

theorem removeAll (cs : List Coord) : (removeAll cs g).1 = (removeAll cs h).1 ∧
    (removeAll cs h).2.Requeued (removeAll cs g).2 := by
  induction cs generalizing h g with
  | nil => exact ⟨rfl, same⟩
  | cons c cs ih =>
    have gone := same.remove c
    simp only [Hierarchy.removeAll]
    generalize h.remove c = x at gone ⊢
    generalize g.remove c = y at gone ⊢
    cases gone with
    | error e => exact ⟨rfl, same⟩
    | ok related => exact ih related

theorem subtree (c : Coord) : g.subtree c = h.subtree c := by
  rw [Hierarchy.subtree, Hierarchy.subtree, same.checkLevel, same.contains,
    postOrderFrom_congr same.get?]

theorem unloadSubtree (ps : List (NodeProcessor σ N L)) (ctx : BatchContext) (c : Coord) (s : σ) :
    Agree Requeued (h.unloadSubtree ps ctx c s) (g.unloadSubtree ps ctx c s) := by
  simp only [Hierarchy.unloadSubtree, same.subtree]
  cases h.subtree c with
  | error e => exact ⟨rfl, same, rfl⟩
  | ok order =>
    obtain ⟨retired, state⟩ := same.retire ps ctx order
      ((List.range (c.level.toNat + 1)).map UInt8.ofNat) s
    obtain ⟨answer, rest⟩ := retired.removeAll order
    exact ⟨congrArg (Except.map fun _ => order) answer, rest, state⟩

theorem destroyAll (ps : List (NodeProcessor σ N L)) (ctx : BatchContext) (cs : List Coord)
    (s : σ) : Agree Requeued (destroyAll ps ctx cs h s) (destroyAll ps ctx cs g s) := by
  induction cs generalizing h g s with
  | nil => exact ⟨rfl, same, rfl⟩
  | cons c cs ih =>
    simp only [Hierarchy.destroyAll, same.contains]
    split
    · obtain ⟨answer, first, state⟩ := same.unloadSubtree ps ctx c s
      obtain ⟨more, rest, state'⟩ := ih first (h.unloadSubtree ps ctx c s).2.2
      simp only [answer, state]
      exact ⟨by rw [more], rest, state'⟩
    · exact ih same s

theorem destroyAt (ps : List (NodeProcessor σ N L)) (ctx : BatchContext) (is : List UInt8)
    (s : σ) : Agree Requeued (destroyAt ps ctx is h s) (destroyAt ps ctx is g s) := by
  induction is generalizing h g s with
  | nil => exact ⟨rfl, same, rfl⟩
  | cons i is ih =>
    obtain ⟨answer, first, state⟩ := (same.clear i .destroy).destroyAll ps (ctx.atLevel i)
      (CoordSet.sorted (h.pending i .destroy)) s
    obtain ⟨more, rest, state'⟩ := ih first (Hierarchy.destroyAll ps (ctx.atLevel i)
      (CoordSet.sorted (h.pending i .destroy)) (h.modifyLevel i (·.clear .destroy)) s).2.2
    simp only [destroyAt_cons, same.drained, answer, state]
    exact ⟨by rw [more], rest, state'⟩

theorem destroyPending (ps : List (NodeProcessor σ N L)) (ctx : BatchContext) (s : σ) :
    Agree Requeued (h.destroyPending ps ctx s) (g.destroyPending ps ctx s) := by
  rw [Hierarchy.destroyPending, Hierarchy.destroyPending, same.indices]
  exact same.destroyAt ps ctx h.indices s

/-- Steps on levels that agree add up to sweeps that agree. -/
theorem sweepLevels {step step' : Level N L → σ → Nat × Level N L × σ}
    (each : ∀ l m s, l.Requeued m → Agree Level.Requeued (step l s) (step' m s)) (s : σ) :
    Agree Requeued (h.sweepLevels step s) (g.sweepLevels step' s) := by
  obtain ⟨counts, levels, state⟩ := agree_sweep (show List.Forall₂ _ h.levels g.levels from same)
    (fun l _ m s related => each l m s related) s
  exact ⟨congrArg tally counts, levels, state⟩

end Requeued

end Hierarchy

end OctreeWorld
