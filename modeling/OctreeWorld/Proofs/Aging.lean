import OctreeWorld.Proofs.Uniformity

/-!
# Nodes only get older

Versions and stamps are written in many places: by flushes, by stamps of loaders, by processors, by
restored archives and by merges, each with a clock of its own. All of them go through a few edits of
a node, none of which lowers either. So a node that stays resident through an operation is no
earlier afterwards, and the copy that a merge leaves is no earlier than those it was made of.

A node that is removed and made anew starts again. An operation of a region makes nodes before it
removes any, so this cannot happen within one.
-/

namespace OctreeWorld

variable {N L σ : Type} {may : NodeEdit N L → Prop}

/-! ### Nodes -/

/-- The second node shows neither a lower version nor an earlier stamp than the first. -/
structure Node.Precedes (n m : Node N) : Prop where
  version : n.version ≤ m.version
  lastUpdate : n.lastUpdate.micros ≤ m.lastUpdate.micros

namespace Node

variable {n m k : Node N}

theorem Precedes.refl (n : Node N) : n.Precedes n := ⟨UInt32.le_refl _, UInt64.le_refl _⟩

theorem Precedes.trans (first : n.Precedes m) (second : m.Precedes k) : n.Precedes k :=
  ⟨UInt32.le_trans first.version second.version,
    UInt64.le_trans first.lastUpdate second.lastUpdate⟩

/-- Links have no part in it. -/
theorem Precedes.of_clearLinks (same : m.clearLinks = n.clearLinks) : n.Precedes m := by
  have version : n.version = m.version := congrArg (·.version) same.symm
  have lastUpdate : n.lastUpdate = m.lastUpdate := congrArg (·.lastUpdate) same.symm
  exact ⟨version ▸ UInt32.le_refl _, lastUpdate ▸ UInt64.le_refl _⟩

theorem Edited.precedes (edited : Edited may n m) : n.Precedes m :=
  ⟨edited.version_le, edited.lastUpdate_le⟩

/-- Neither of two copies is ahead of the one they are folded into. -/
theorem precedes_absorb (n m : Node N) : n.Precedes (n.absorb m) ∧ m.Precedes (n.absorb m) := by
  have stamp := SimTime.le_latest_left n.lastUpdate m.lastUpdate
  have stamp' := SimTime.le_latest_right n.lastUpdate m.lastUpdate
  unfold absorb
  by_cases newer : n.version < m.version
  · simp only [if_pos newer]
    exact ⟨⟨UInt32.le_of_lt newer, stamp⟩, ⟨UInt32.le_refl _, stamp'⟩⟩
  · simp only [if_neg newer]
    exact ⟨⟨UInt32.le_refl _, stamp⟩, ⟨UInt32.not_lt.mp newer, stamp'⟩⟩

end Node

/-! ### Levels -/

namespace Level

variable {l m k : Level N L}

theorem Nodewise.later (first : l.Nodewise Node.Precedes m)
    (second : m.Nodewise Node.Precedes k) : l.Nodewise Node.Precedes k :=
  first.trans (fun _ _ _ => Node.Precedes.trans) second

theorem precedes_of_get? (same : ∀ c, m.get? c = l.get? c) : l.Nodewise Node.Precedes m :=
  .of_get? .refl same

theorem precedes_clear (l : Level N L) (q : Queue) : l.Nodewise Node.Precedes (l.clear q) :=
  precedes_of_get? fun _ => rfl

theorem precedes_pushAll (l : Level N L) (q : Queue) (cs : List Coord) :
    l.Nodewise Node.Precedes (l.pushAll q cs) := precedes_of_get? fun _ => rfl

theorem precedes_modify (l : Level N L) (c : Coord) {f : Node N → Node N}
    (each : ∀ n, l.get? c = some n → n.Precedes (f n)) :
    l.Nodewise Node.Precedes (l.modify c f) := .modify .refl l c each

theorem precedes_modifyAll (l : Level N L) (cs : List Coord) {f : Node N → Node N}
    (each : ∀ n : Node N, n.Precedes (f n)) : l.Nodewise Node.Precedes (l.modifyAll cs f) :=
  .modifyAll .refl (fun _ _ _ => .trans) l cs each

/-- A change of states leaves versions and stamps alone. -/
theorem precedes_states (l : Level N L) (cs : List Coord) (state : NodeState) :
    l.Nodewise Node.Precedes (l.modifyAll cs (·.withState state)) :=
  l.precedes_modifyAll cs fun _ => ⟨UInt32.le_refl _, UInt64.le_refl _⟩

theorem Edited.precedes {cs : List Coord} (edited : l.Edited may cs m) :
    l.Nodewise Node.Precedes m :=
  Nodewise.imp (fun _ _ => Node.Edited.precedes) edited.node

theorem Call.precedes (call : Call may l m) : l.Nodewise Node.Precedes m := by
  cases call with
  | edit e allowed =>
    cases e with
    | setData d => exact precedes_of_get? fun _ => rfl
    | push q c => exact l.precedes_pushAll q [c]
    | node c e => exact (Edited.editNode l (List.mem_singleton_self c) allowed).precedes
  | keepAlive loader now =>
    exact l.precedes_modifyAll _ (f := (·.touch now))
      fun _ => ⟨UInt32.le_refl _, SimTime.le_latest_left _ _⟩
  | requestLoads loaders tick budget => exact l.precedes_pushAll .create _
  | collectUnused now timeout budget =>
    exact (l.precedes_states _ .unloading).later (precedes_pushAll _ .unload _)

/-- No step of a level takes a version or a stamp back, whatever clock it goes by. -/
theorem Step.precedes (step : Step may l m) : l.Nodewise Node.Precedes m := by
  cases step with
  | call call => exact call.precedes
  | load obeys ctx s =>
    refine ((l.precedes_clear .load).later ?_).later (precedes_states _ _ .loaded)
    exact (runNodeBatch_edited obeys ctx _ _ s).precedes
  | unload obeys ctx s =>
    refine Nodewise.later ?_ (precedes_pushAll _ .destroy _)
    refine Nodewise.later ?_ (precedes_states _ _ .deleting)
    refine Nodewise.later ?_ (runNodeBatch_edited obeys ctx _ _ s).precedes
    exact (l.precedes_clear .unload).later (precedes_states _ _ .loaded)
  | tick obeys ctx s =>
    exact (l.precedes_clear .tick).later (runNodeBatch_edited obeys ctx _ _ s).precedes
  | flush obeys ctx changed s =>
    refine Nodewise.later ?_ (runNodeBatch_edited obeys _ _ _ s).precedes
    exact l.precedes_modifyAll _ (f := fun n => n.bumpVersion.touch ctx.now) fun n =>
      ⟨n.version_le_edit (.bumpVersion : NodeEdit N L), SimTime.le_latest_left _ _⟩
  | observers c f same =>
    refine l.precedes_modify c fun n found => ?_
    obtain ⟨count, only⟩ := same n found
    rw [only]
    exact ⟨UInt32.le_refl _, UInt64.le_refl _⟩
  | doom c =>
    refine Nodewise.later (l.precedes_modify c fun n _ => ?_) (precedes_pushAll _ .unload [c])
    split <;> exact ⟨UInt32.le_refl _, UInt64.le_refl _⟩
  | evict c =>
    exact (l.precedes_states [c] .unloading).later (precedes_pushAll _ .unload [c])

theorem Stepped.precedes (stepped : Stepped may l m) : l.Nodewise Node.Precedes m :=
  stepped.induct (fun _ _ step before => before.later step.precedes) (precedes_of_get? fun _ => rfl)

end Level

/-! ### Hierarchies -/

/-- Each of two copies is no later than what a merge makes of them. -/
theorem precedes_combined {x y : Option (Node N)} {n : Node N} (given : x = some n ∨ y = some n) :
    ∃ k, combined x y = some k ∧ n.Precedes k := by
  cases x with
  | none => exact ⟨n, given.resolve_left nofun, .refl n⟩
  | some a =>
    cases y with
    | none => exact ⟨n, given.resolve_right nofun, .refl n⟩
    | some b =>
      obtain ⟨own, other⟩ := a.precedes_absorb b
      refine ⟨a.absorb b, rfl, ?_⟩
      rcases given with same | same
      · exact Option.some.inj same ▸ own
      · exact Option.some.inj same ▸ other

namespace Hierarchy

variable {h g k : Hierarchy N L}

/-- Each node of the first is still there in the second, and no earlier. -/
def Carries (h g : Hierarchy N L) : Prop :=
  ∀ c n, h.get? c = some n → ∃ m, g.get? c = some m ∧ n.Precedes m

/-- Each node that both have is no earlier in the second. -/
def Onward (h g : Hierarchy N L) : Prop :=
  ∀ c n m, h.get? c = some n → g.get? c = some m → n.Precedes m

namespace Carries

theorem refl (h : Hierarchy N L) : h.Carries h := fun _ n found => ⟨n, found, .refl n⟩

theorem trans (first : h.Carries g) (second : g.Carries k) : h.Carries k := by
  intro c n found
  obtain ⟨m, there, precedes⟩ := first c n found
  obtain ⟨m', there', precedes'⟩ := second c m there
  exact ⟨m', there', precedes.trans precedes'⟩

theorem contains (carries : h.Carries g) {c : Coord} (resident : h.contains c = true) :
    g.contains c = true := by
  obtain ⟨n, found⟩ := Hierarchy.contains_iff.mp resident
  obtain ⟨m, there, -⟩ := carries c n found
  exact Hierarchy.contains_iff.mpr ⟨m, there⟩

/-- What has been carried along can be looked at again later. -/
theorem andOnward (carries : h.Carries g) (onward : g.Onward k) : h.Onward k := by
  intro c n m found found'
  obtain ⟨m', there, precedes⟩ := carries c n found
  exact precedes.trans (onward c m' m there found')

end Carries

theorem Onward.refl (h : Hierarchy N L) : h.Onward h := by
  intro c n m found found'
  rw [found, Option.some.injEq] at found'
  exact found' ▸ .refl n

theorem Carries.onward (carries : h.Carries g) : h.Onward g := carries.andOnward (.refl g)

theorem Levelwise.carries (stepped : Levelwise (Level.Stepped fun _ => True) h g) :
    h.Carries g := by
  intro c n found
  have rel := (stepped.imp fun _ _ => Level.Stepped.precedes).nodewise c
  rw [found] at rel
  generalize g.get? c = y at rel
  cases rel with
  | some precedes => exact ⟨_, rfl, precedes⟩

theorem Grown.carries {factory : PayloadFactory N L} {now : SimTime} {drained : List UInt8}
    {created : List Coord} (grown : Grown factory now drained created h g) : h.Carries g := by
  intro c n found
  have body := grown.old (Hierarchy.contains_iff.mpr ⟨n, found⟩)
  obtain ⟨m, there, same⟩ := exists_of_body body.symm found
  exact ⟨m, there, .of_clearLinks same⟩

theorem Pruned.onward {drained : List UInt8} {gone : Coord → Prop}
    (pruned : Pruned drained gone h g) : h.Onward g := by
  intro c n m found found'
  have stays := ((pruned.contains c).mp (Hierarchy.contains_iff.mpr ⟨m, found'⟩)).2
  obtain ⟨m', there, same⟩ := exists_of_body (pruned.kept c stays).symm found
  rw [found', Option.some.injEq] at there
  exact there ▸ .of_clearLinks same

/-- No change makes a node anew that it has removed. -/
theorem Change.onward (change : Change (fun _ => True) h g) : h.Onward g := by
  cases change with
  | steps stepped => exact (Levelwise.carries stepped).onward
  | grown grown => exact grown.carries.onward
  | pruned pruned _ => exact pruned.onward

/-- A merge carries the nodes of both hierarchies along, whether they collide or not. -/
theorem Merged.precedes {source into spent : Hierarchy N L} {stats : MergeStats}
    (merged : Merged source.levels.length source into spent g stats) {c : Coord} {n : Node N}
    (given : into.get? c = some n ∨ source.get? c = some n) :
    ∃ k, g.get? c = some k ∧ n.Precedes k := by
  have bodies : into.body c = some n.clearLinks ∨ source.body c = some n.clearLinks :=
    given.imp (congrArg (Option.map Node.clearLinks)) (congrArg (Option.map Node.clearLinks))
  obtain ⟨b, made, precedes⟩ := precedes_combined bodies
  have body := (merged.body_combined c).trans made
  obtain ⟨k, there, rfl⟩ := Option.map_eq_some_iff.mp body
  exact ⟨k, there, precedes.version, precedes.lastUpdate⟩

end Hierarchy

/-! ### Regions -/

/-- One operation on a region. One that is refused leaves the region as it was. -/
inductive Region.Next : Region N L → Region N L → Prop
  | edit {r} (e : RegionEdit N L) (allowed : e.Allowed fun _ => True) : Next r (r.edit e)
  | unloadNode {σ : Type} {r} (ps : NodeProcessors σ N L) (c : Coord) (tick : UInt64)
      (now : SimTime) (s : σ) : Next r (r.unloadNode ps c tick now s).2.1
  | tick {σ : Type} {r} (ps : NodeProcessors σ N L) (tick : UInt64) (now : SimTime)
      (timeout : Duration) (s : σ) : Next r (r.tick ps tick now timeout s).2.1
  | modifyLoader {r} (id : LoaderId) (f : Loader → Loader) : Next r (r.modifyLoader id f)
  | calls {r h} (called : Hierarchy.Levelwise (Level.Called fun _ => True) r.hierarchy h) :
      Next r { r with hierarchy := h }
  | mergeSource {r r'} (reached : r'.Reached fun _ => True) : Next r (Region.merge r r').2.1

/-- Edits of a region that remove no node. -/
def RegionEdit.Retains : RegionEdit N L → Prop
  | .unload .. => False
  | .tick .. => False
  | _ => True

namespace Region

variable {r r' : Region N L}

/-- A tick removes nodes, but only after it has made the new ones. -/
theorem tick_onward (linked : r.hierarchy.Linked) (ps : NodeProcessors σ N L) (tick : UInt64)
    (now : SimTime) (timeout : Duration) (s : σ) :
    r.hierarchy.Onward (r.tick ps tick now timeout s).2.1.hierarchy := by
  have obey := ps.obey_any
  obtain ⟨flushed, evicted, created, swept, destroyed, h₁, h₂, h₃, h₄, h₅, result⟩ :=
    tick_eq r ps tick now timeout s
  have flush : Hierarchy.Levelwise (Level.Stepped fun _ => True) r.hierarchy
      flushed.2.1.hierarchy := by
    rw [h₁]
    exact flushChanged_stepped obey r tick now s
  have evict : Hierarchy.Levelwise (Level.Stepped fun _ => True) flushed.2.1.hierarchy
      evicted.2.hierarchy := by
    rw [h₂]
    exact evictExpired_stepped _ now timeout
  have linked₂ := (Hierarchy.Evolved.steps (flush.trans (fun _ _ _ => .trans) evict)).linked linked
  obtain ⟨new, g, run, grown, -⟩ := linked₂.createPending evicted.2.factory now
  rw [run] at h₃
  have drain : Hierarchy.Levelwise (Level.Stepped fun _ => True) g ⟨swept.2.1⟩ := by
    rw [h₄, h₃]
    exact forall₂_sweep (fun l _ s => Level.tickLevel_stepped obey _ l s) _
  have linked₄ := (Hierarchy.Evolved.steps drain).linked grown.linked
  have destroy : Hierarchy.Change (fun _ => True) ⟨swept.2.1⟩ destroyed.2.1 := by
    rw [h₅]
    exact linked₄.destroyPending_change _ _ _
  rw [result]
  have carried := (flush.carries.trans evict.carries).trans (grown.carries.trans drain.carries)
  exact carried.andOnward destroy.onward

/-- A merge leaves nothing in its source and carries the nodes of both along. -/
theorem merge_carries (linked : r.hierarchy.Linked) (linked' : r'.hierarchy.Linked) :
    r.hierarchy.Onward (Region.merge r r').2.1.hierarchy ∧
      r'.hierarchy.Carries (Region.merge r r').2.2.hierarchy := by
  by_cases mergeable : r.id ≠ r'.id ∧ r.hierarchy.levelCount = r'.hierarchy.levelCount
  · obtain ⟨stats, spent, g, merged, result⟩ := merge_eq linked linked' mergeable.1 mergeable.2
    rw [result]
    refine ⟨fun c n m _ found' => ?_, fun c n found => merged.precedes (.inl found)⟩
    rw [merged.spent_get?] at found'
    cases found'
  · rw [(merge_refused mergeable).2]
    exact ⟨.refl _, .refl _⟩

/-- What a merge leaves in a cell is no earlier than either region had it there. -/
theorem merge_precedes (linked : r.hierarchy.Linked) (linked' : r'.hierarchy.Linked)
    {stats : MergeStats} (done : (Region.merge r r').1 = .ok stats) {c : Coord} {n : Node N}
    (given : r.hierarchy.get? c = some n ∨ r'.hierarchy.get? c = some n) :
    ∃ k, (Region.merge r r').2.2.hierarchy.get? c = some k ∧ n.Precedes k := by
  by_cases mergeable : r.id ≠ r'.id ∧ r.hierarchy.levelCount = r'.hierarchy.levelCount
  · obtain ⟨stats, spent, g, merged, result⟩ := merge_eq linked linked' mergeable.1 mergeable.2
    rw [result]
    exact merged.precedes given.symm
  · exact absurd done ((merge_refused mergeable).1 stats)

section Reached

variable (reached : r.Reached fun _ => True)

include reached

theorem Reached.edit_carries {e : RegionEdit N L} (allowed : e.Allowed fun _ => True)
    (retains : e.Retains) : r.hierarchy.Carries (r.edit e).hierarchy := by
  cases e with
  | load c now =>
    obtain ⟨g, run, grown, -⟩ := reached.linked.ensure r.factory now c
    change r.hierarchy.Carries (r.loadNode c now).2.hierarchy
    rw [loadNode_hierarchy, run]
    exact grown.carries
  | unload ps c tick now => exact retains.elim
  | markChanged c =>
    simp only [Region.edit, Region.markChanged]
    split <;> exact .refl _
  | observe c =>
    simp only [Region.edit]
    cases done : r.observe c with
    | error e => exact .refl _
    | ok result => exact Hierarchy.Levelwise.carries (observe_stepped done)
  | release c =>
    simp only [Region.edit]
    cases done : r.release c with
    | error e => exact .refl _
    | ok result => exact Hierarchy.Levelwise.carries (release_stepped done)
  | addLoader id l => exact .refl _
  | removeLoader id => exact .refl _
  | level i e =>
    exact (Hierarchy.stepped_modifyLevel fun l _ => .call (.edit e allowed)).carries
  | stream config tick now =>
    exact ((stream_called r config tick now).imp fun _ _ => Level.Stepped.of_called).carries
  | tick ps tick now timeout => exact retains.elim
  | merge source => exact (merge_carries (Reached.linked allowed) reached.linked).2

/-- Whatever an operation is, what it leaves in a region is no earlier than before. -/
theorem Reached.onward (next : Next r r') : r.hierarchy.Onward r'.hierarchy := by
  cases next with
  | edit e allowed =>
    have retained : e.Retains → r.hierarchy.Onward (r.edit e).hierarchy := fun retains =>
      (reached.edit_carries allowed retains).onward
    cases e with
    | unload ps c tick now =>
      rw [Region.edit, unloadNode_hierarchy]
      exact (reached.linked.unloadSubtree_change _ _ c ()).onward
    | tick ps tick now timeout =>
      rw [Region.edit]
      exact tick_onward reached.linked ps tick now timeout ()
    | _ => exact retained trivial
  | unloadNode ps c tick now s =>
    rw [unloadNode_hierarchy]
    exact (reached.linked.unloadSubtree_change _ _ c s).onward
  | tick ps tick now timeout s => exact tick_onward reached.linked ps tick now timeout s
  | modifyLoader id f => exact .refl _
  | calls called => exact (called.imp fun _ _ => Level.Stepped.of_called).carries.onward
  | mergeSource other => exact (merge_carries reached.linked other.linked).1

theorem Reached.next (next : Next r r') : r.Succeeds (fun _ => True) r' := by
  cases next with
  | edit e allowed => exact reached.succeeds_edit allowed
  | unloadNode ps c tick now s => exact reached.succeeds_unloadNode ps.obey_any c tick now s
  | tick ps tick now timeout s => exact reached.succeeds_tick ps.obey_any tick now timeout s
  | modifyLoader id f => exact ⟨reached.modifyLoader id f, rfl, rfl⟩
  | calls called => exact ⟨reached.calls called, rfl, called.length_eq⟩
  | mergeSource other =>
    exact ⟨.mergeSource reached other, (merge_id _ _).1,
      (merge_length reached.linked other.linked).1⟩

end Reached

end Region

end OctreeWorld
