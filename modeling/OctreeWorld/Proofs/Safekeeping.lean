import OctreeWorld.Proofs.Accounts
import OctreeWorld.Proofs.Archiving

/-!
# What an archive keeps for the cells of a hierarchy

The archive owes each cell something that depends on the state of its node. While there is no node,
or one that has not loaded yet, it owes the content of the last node that was removed; while a node
is in use, it only owes not to be ahead of it; and while a node waits for its removal, it owes the
content of that node. Loading, unloading and removal pass these debts on to one another, and changes
of a node in use can only raise its version.
-/

namespace OctreeWorld

variable {σ N L : Type}

namespace Node

theorem content_congr {n m : Node N} (same : n.clearLinks = m.clearLinks) :
    n.content = m.content :=
  show n.clearLinks.content = m.clearLinks.content from congrArg content same

/-- Neither loading nor about to be removed. -/
def InUse (n : Node N) : Prop := n.state ≠ .loading ∧ n.state ≠ .deleting

/-- A later stage of a node: the version has not gone back, and the state has changed to unloading
if at all. -/
def Ages (n m : Node N) : Prop := n.version ≤ m.version ∧ (m.state = n.state ∨ m.state = .unloading)

theorem Ages.refl (n : Node N) : n.Ages n := ⟨UInt32.le_refl _, Or.inl rfl⟩

theorem Ages.trans {n m k : Node N} (first : n.Ages m) (second : m.Ages k) : n.Ages k :=
  ⟨UInt32.le_trans first.1 second.1, second.2.elim (fun same => same ▸ first.2) Or.inr⟩

theorem Ages.inUse {n m : Node N} (ages : n.Ages m) (inUse : n.InUse) : m.InUse := by
  rcases ages.2 with same | unloading
  · rw [InUse, same]
    exact inUse
  · rw [InUse, unloading]
    exact ⟨NodeState.noConfusion, NodeState.noConfusion⟩

theorem Edited.ages {n m : Node N} (edited : Node.Edited (NodeEdit.Calm (L := L)) n m) :
    n.Ages m := ⟨edited.version_le, Or.inl (edited.state fun s calm => calm s rfl)⟩

end Node

namespace Level

variable {l m : Level N L}

theorem Edited.ages {cs : List Coord} (edited : l.Edited NodeEdit.Calm cs m) :
    l.Nodewise Node.Ages m :=
  Nodewise.imp (fun _ _ => Node.Edited.ages) edited.node

theorem Call.ages (call : Call NodeEdit.Calm l m) : l.Nodewise Node.Ages m := by
  cases call with
  | edit e allowed =>
    cases e with
    | setData d => exact .of_get? .refl fun _ => rfl
    | push q c => exact .of_get? .refl fun _ => rfl
    | node c e => exact (Edited.editNode l (List.mem_singleton_self c) allowed).ages
  | keepAlive loader now =>
    exact .modifyAll .refl (fun _ _ _ => .trans) l _ (f := (·.touch now))
      fun n => ⟨UInt32.le_refl _, Or.inl rfl⟩
  | requestLoads loaders tick budget => exact .of_get? .refl fun _ => rfl
  | collectUnused now timeout budget =>
    exact .modifyAll .refl (fun _ _ _ => .trans) l _ (f := (·.withState .unloading))
      fun n => ⟨UInt32.le_refl _, Or.inr rfl⟩

theorem Called.ages (called : Called NodeEdit.Calm l m) : l.Nodewise Node.Ages m := by
  induction called with
  | refl => exact .of_get? .refl fun _ => rfl
  | tail _ call ih => exact ih.trans (fun _ _ _ => .trans) call.ages

end Level

/-! ### One cell -/

namespace Archive

variable [ArchiveFormat] {encoding : Encoding N Bytes} {a b : Archive} {c : Coord} {made : N}
  {kept : Option (UInt32 × N)} {n m : Node N}

/-- The archive has for a cell what it owes it: `kept` is the content of the node that was last
removed from it, if there was one, and `made` the payload of a new node. -/
def Backs (encoding : Encoding N Bytes) (a : Archive) (c : Coord) (made : N)
    (kept : Option (UInt32 × N)) : Option (Node N) → Prop
  | none => a.restore encoding c 0 = .ok kept
  | some n => match n.state with
    | .loading => n.content = (0, made) ∧ a.restore encoding c 0 = .ok kept
    | .deleting => a.restore encoding c 0 = .ok (some n.content)
    | _ => ∀ held, a.version? c = some held → held ≤ n.version

theorem backs_congr (same : b.record? c = a.record? c) (node : Option (Node N)) :
    Backs encoding b c made kept node ↔ Backs encoding a c made kept node := by
  cases node with
  | none => rw [Backs, Backs, restore_congr same]
  | some n =>
    rw [Backs, Backs]
    cases n.state <;> simp only [restore_congr same, version?_congr same]

theorem backs_loading (loading : n.state = .loading) : Backs encoding a c made kept (some n) ↔
    n.content = (0, made) ∧ a.restore encoding c 0 = .ok kept := by
  rw [Backs, loading]

theorem backs_inUse (inUse : n.InUse) : Backs encoding a c made kept (some n) ↔
    ∀ held, a.version? c = some held → held ≤ n.version := by
  obtain ⟨loaded, live⟩ := inUse
  rw [Backs]
  cases state : n.state with
  | loading => exact absurd state loaded
  | deleting => exact absurd state live
  | _ => rfl

theorem backs_deleting (deleting : n.state = .deleting) : Backs encoding a c made kept (some n) ↔
    a.restore encoding c 0 = .ok (some n.content) := by
  rw [Backs, deleting]

/-- The archive is not ahead of a node that comes after one in use. -/
theorem Backs.ages (backs : Backs encoding a c made kept (some n)) (inUse : n.InUse)
    (ages : n.Ages m) : Backs encoding a c made kept (some m) :=
  (backs_inUse (ages.inUse inUse)).mpr fun held found =>
    UInt32.le_trans ((backs_inUse inUse).mp backs held found) ages.1

/-- What was kept for a cell does not matter while its node has loaded. -/
theorem Backs.forget (backs : Backs encoding a c made kept (some n)) (loaded : n.state ≠ .loading)
    (kept' : Option (UInt32 × N)) : Backs encoding a c made kept' (some n) := by
  rw [Backs] at backs ⊢
  cases state : n.state with
  | loading => exact absurd state loaded
  | _ =>
    rw [state] at backs
    exact backs

/-- Only state and content of the node matter. -/
theorem Backs.congr (backs : Backs encoding a c made kept (some n))
    (content : m.content = n.content) (state : m.state = n.state) :
    Backs encoding a c made kept (some m) := by
  have version : m.version = n.version := congrArg Prod.fst content
  rw [Backs] at backs ⊢
  rw [state, content, version]
  exact backs

/-- The content that a node will have once it has loaded. -/
def due (made : N) (kept : Option (UInt32 × N)) (n : Node N) : UInt32 × N :=
  if n.state = .loading then kept.getD (0, made) else n.content

/-- A node that loads gets what was kept for its cell, and the archive is not ahead of it. -/
theorem Backs.load (backs : Backs encoding a c made kept (some n)) (loading : n.state = .loading)
    (place : n.coord = c) :
    Backs encoding a c made kept (some ((revive encoding a n).withState .loaded)) ∧
      (revive encoding a n).content = kept.getD (0, made) := by
  subst place
  obtain ⟨fresh, given⟩ := (backs_loading loading).mp backs
  obtain ⟨version, data⟩ := Prod.mk.inj fresh
  rw [backs_inUse ⟨NodeState.noConfusion, NodeState.noConfusion⟩, version?_of_restore given]
  rw [← version] at given
  cases kept with
  | none =>
    have same : revive encoding a n = n := revive_of_not fun found other => by
      rw [given] at other
      cases other
    rw [same]
    exact ⟨nofun, fresh⟩
  | some found =>
    rw [revive_of_restore given]
    refine ⟨fun held same => ?_, rfl⟩
    cases same
    exact UInt32.le_refl _

/-! ### All cells -/

/-- The archive has for every cell what it owes it, nothing is loading, and `worth` is what each
cell has or, without a node, had last. -/
structure Shelters (encoding : Encoding N Bytes) (made : Coord → N)
    (worth : Coord → Option (UInt32 × N)) (a : Archive) (view : Coord → Option (Node N)) : Prop where
  backs : ∀ c, Backs encoding a c (made c) (worth c) (view c)
  worth : ∀ c n, view c = some n → worth c = some n.content
  loaded : ∀ c n, view c = some n → n.state ≠ .loading

namespace Shelters

variable {made : Coord → N} {worth : Coord → Option (UInt32 × N)}
  {view after : Coord → Option (Node N)} {cs : List Coord}

/-- Nodes in use are not behind the archive, so that they can be filed. -/
theorem ready (shelters : Shelters encoding made worth a view) (placed : ∀ n, view c = some n →
    n.coord = c) (serving : Node.serves (view c) = true) :
    ∃ n, view c = some n ∧ n.coord = c ∧ ∀ held, a.version? c = some held → held ≤ n.version := by
  obtain ⟨n, found, live⟩ := (Option.any_eq_true ..).mp serving
  have backs := shelters.backs c
  rw [found, backs_inUse ⟨shelters.loaded c n found, bne_iff_ne.mp live⟩] at backs
  exact ⟨n, found, placed n found, backs⟩

/-- Some nodes are filed and wait for their removal. -/
theorem retire (shelters : Shelters encoding made worth a view) (filed : Filed encoding view cs a b)
    (changed : ∀ c, after c = if c ∈ cs then (view c).map (·.withState .deleting) else view c) :
    Shelters encoding made worth b after := by
  have each : ∀ c, (after c = view c ∧ b.record? c = a.record? c) ∨
      ∃ n, view c = some n ∧ after c = some (n.withState .deleting) ∧
        b.restore encoding c 0 = .ok (some n.content) := by
    intro c
    rw [changed]
    split
    · rename_i named
      obtain ⟨n, found, given⟩ := filed.stored c named
      exact Or.inr ⟨n, found, by rw [found]; rfl, given⟩
    · rename_i away
      exact Or.inl ⟨rfl, filed.rest c away⟩
  refine ⟨fun c => ?_, fun c m there => ?_, fun c m there => ?_⟩
  all_goals rcases each c with ⟨here, record⟩ | ⟨n, found, now, given⟩
  · rw [here, backs_congr record]
    exact shelters.backs c
  · rw [now]
    exact (backs_deleting rfl).mpr given
  · exact shelters.worth c m (here ▸ there)
  · cases now.symm.trans there
    exact shelters.worth c n found
  · exact shelters.loaded c m (here ▸ there)
  · cases now.symm.trans there
    exact NodeState.noConfusion

/-- Some nodes in use are loaded again. -/
theorem spare (shelters : Shelters encoding made worth a view)
    (live : ∀ c ∈ cs, ∀ n, view c = some n → n.state ≠ .deleting)
    (changed : ∀ c, after c = if c ∈ cs then (view c).map (·.withState .loaded) else view c) :
    Shelters encoding made worth a after := by
  have each : ∀ c, after c = view c ∨
      ∃ n, view c = some n ∧ n.InUse ∧ after c = some (n.withState .loaded) := by
    intro c
    rw [changed]
    split
    · rename_i named
      cases found : view c with
      | none => exact Or.inl rfl
      | some n => exact Or.inr ⟨n, rfl, ⟨shelters.loaded c n found, live c named n found⟩, rfl⟩
    · exact Or.inl rfl
  refine ⟨fun c => ?_, fun c m there => ?_, fun c m there => ?_⟩
  all_goals rcases each c with here | ⟨n, found, inUse, now⟩
  · rw [here]
    exact shelters.backs c
  · have backs := shelters.backs c
    rw [found, backs_inUse inUse] at backs
    rw [now]
    exact (backs_inUse ⟨NodeState.noConfusion, NodeState.noConfusion⟩).mpr backs
  · exact shelters.worth c m (here ▸ there)
  · cases now.symm.trans there
    exact shelters.worth c n found
  · exact shelters.loaded c m (here ▸ there)
  · cases now.symm.trans there
    exact NodeState.noConfusion

/-- Nodes that have been filed leave, and the others stay but for their links. -/
theorem prune (shelters : Shelters encoding made worth a view) {gone : Coord → Prop}
    (absent : ∀ c, gone c → after c = none)
    (kept : ∀ c, ¬ gone c → (after c).map Node.clearLinks = (view c).map Node.clearLinks)
    (retired : ∀ c, gone c → Node.serves (view c) = false) :
    Shelters encoding made worth a after := by
  have each : ∀ c, (after c = none ∧ Node.serves (view c) = false) ∨
      ∃ n m, view c = some n ∧ after c = some m ∧ m.clearLinks = n.clearLinks := by
    intro c
    by_cases left : gone c
    · exact Or.inl ⟨absent c left, retired c left⟩
    · have same := kept c left
      cases found : view c with
      | none =>
        rw [found, Option.map_none, Option.map_eq_none_iff] at same
        exact Or.inl ⟨same, rfl⟩
      | some n =>
        rw [found] at same
        obtain ⟨m, there, links⟩ := Option.map_eq_some_iff.mp same
        exact Or.inr ⟨n, m, rfl, there, links⟩
  refine ⟨fun c => ?_, fun c k there => ?_, fun c k there => ?_⟩
  all_goals rcases each c with ⟨now, quiet⟩ | ⟨n, m, found, now, links⟩
  · rw [now]
    have backs := shelters.backs c
    cases found : view c with
    | none => rwa [found] at backs
    | some n =>
      rw [found, Node.serves, Option.any_some, bne_eq_false_iff_eq] at quiet
      rw [found, backs_deleting quiet, ← shelters.worth c n found] at backs
      exact backs
  · have backs := shelters.backs c
    rw [found] at backs
    rw [now]
    exact backs.congr (Node.content_congr links) (Node.state_congr links)
  · cases now.symm.trans there
  · cases now.symm.trans there
    rw [Node.content_congr links]
    exact shelters.worth c n found
  · cases now.symm.trans there
  · cases now.symm.trans there
    rw [Node.state_congr links]
    exact shelters.loaded c n found

end Shelters

end Archive

/-! ### Hierarchies -/

namespace Hierarchy

open Archive

variable {slot : Slot σ Archive} {encoding : Encoding N Bytes} {made : Coord → N}
  {worth : Coord → Option (UInt32 × N)} {h : Hierarchy N L} {l : Level N L} {i : UInt8}

theorem Linked.replace (linked : h.Linked) (stored : h.level? i = some l) {m : Level N L}
    (same : l.SameLinks m) : (h.modifyLevel i fun _ => m).Linked := by
  refine linked.levelwise (levelwise_modifyLevel Level.SameLinks.refl fun k at_ => ?_)
  rw [stored, Option.some.injEq] at at_
  rwa [← at_]

/-- What a change of nodes on one level does to the nodes of the hierarchy. -/
theorem get?_modifyLevel_modifyAll (stored : h.level? i = some l) {m : Level N L}
    (same : ∀ c, m.get? c = l.get? c) {cs : List Coord} (own : ∀ c ∈ cs, c.level = i)
    {f : Node N → Node N} (twice : ∀ n, f (f n) = f n) (c : Coord) :
    (h.modifyLevel i fun _ => m.modifyAll cs f).get? c =
      if c ∈ cs then (h.get? c).map f else h.get? c := by
  rw [get?_modifyLevel_of_level? stored]
  by_cases level : i = c.level
  · subst level
    rw [if_pos rfl, Level.get?_modifyAll _ _ twice, same, get?_of_level? stored]
  · rw [if_neg level, if_neg fun named => level (own c named).symm]

section Unloading

variable [ArchiveFormat] (lawful : slot.Lawful) (lossless : Lossless encoding)
  (ctx : BatchContext)

include lawful lossless

/-- Nodes of one level that are not deleting are filed and marked deleting. -/
theorem Linked.retire_sheltered (linked : h.Linked) {s : σ}
    (shelters : Shelters encoding made worth (slot.get s) h.get?) (stored : h.level? i = some l)
    {cs : List Coord} (serving : ∀ c ∈ cs, Node.serves (l.get? c) = true) :
    Shelters encoding made worth
      (slot.get (runNodeBatch [unloadProcessor slot encoding] ctx l cs s).2)
      (h.modifyLevel i fun _ =>
        (runNodeBatch [unloadProcessor slot encoding] ctx l cs s).1.modifyAll cs
          (·.withState .deleting)).get? := by
  obtain ⟨same, archive⟩ := runNodeBatch_unloadProcessor lawful encoding ctx l cs s
  have here : ∀ c ∈ cs, c.level = i ∧ h.get? c = l.get? c := by
    intro c named
    obtain ⟨n, found, -⟩ := (Option.any_eq_true ..).mp (serving c named)
    have level := (Level.level_eq_of_get? found).trans (linked.numbered.index i l stored)
    subst level
    exact ⟨rfl, get?_of_level? stored⟩
  have filed : Filed encoding l.get? cs (slot.get s) (cs.foldl _ (slot.get s)) :=
    filed_foldl lossless ctx.now fun c named => by
      have serving := serving c named
      rw [← (here c named).2] at serving ⊢
      exact shelters.ready (linked.placed c) serving
  rw [same, archive]
  refine shelters.retire ⟨fun c named => ?_, filed.rest⟩
    (get?_modifyLevel_modifyAll stored (fun _ => rfl) (fun c named => (here c named).1)
      fun _ => rfl)
  rw [(here c named).2]
  exact filed.stored c named

/-- Draining the unload queue of a level. -/
theorem Linked.unload_sheltered (linked : h.Linked) {s : σ}
    (shelters : Shelters encoding made worth (slot.get s) h.get?) (stored : h.level? i = some l) :
    Shelters encoding made worth (slot.get (l.unload [unloadProcessor slot encoding] ctx s).2.2)
      (h.modifyLevel i fun _ => (l.unload [unloadProcessor slot encoding] ctx s).2.1).get? := by
  let spared := (l.clear .unload).modifyAll l.sparing (·.withState .loaded)
  let g := h.modifyLevel i fun _ => spared
  have index : l.index = i := linked.numbered.index i l stored
  have spares : ∀ c ∈ l.sparing, c.level = i ∧ ∀ n, h.get? c = some n → n.state ≠ .deleting := by
    intro c named
    cases found : l.get? c with
    | none =>
      have live := (List.mem_filter.mp (List.mem_filter.mp named).1).2
      rw [found] at live
      cases live
    | some n =>
      have level := (Level.level_eq_of_get? found).trans index
      subst level
      refine ⟨rfl, fun m there => ?_⟩
      rw [get?_of_level? stored, found, Option.some.injEq] at there
      rw [← there]
      exact ((Level.mem_sparing found).mp named).2.1
  have view : ∀ c, g.get? c = if c ∈ l.sparing then (h.get? c).map (·.withState .loaded)
      else h.get? c :=
    get?_modifyLevel_modifyAll stored (Level.get?_clear l .unload)
      (fun c named => (spares c named).1) (f := (·.withState .loaded)) fun _ => rfl
  have stored_g : g.level? i = some spared := by
    rw [level?_modifyLevel, if_pos rfl, stored]
    rfl
  have linked_g : g.Linked := linked.replace stored
    ((Level.SameLinks.clear l .unload).trans (.modifyAll _ _ fun _ => rfl))
  let worked := (runNodeBatch [unloadProcessor slot encoding] ctx spared l.retiring s).1
  have same : (h.modifyLevel i fun _ => (l.unload [unloadProcessor slot encoding] ctx s).2.1).get? =
      (g.modifyLevel i fun _ => worked.modifyAll l.retiring (·.withState .deleting)).get? := by
    funext c
    rw [get?_modifyLevel_of_level? stored_g, get?_modifyLevel_of_level? stored]
    split
    · rfl
    · rename_i level
      exact ((get?_modifyLevel_of_level? stored spared c).trans (if_neg level)).symm
  rw [same]
  exact linked_g.retire_sheltered lawful lossless ctx
    (shelters.spare (fun c named => (spares c named).2) view) stored_g
    fun c => Level.serves_of_retiring

/-- Draining every unload queue. -/
theorem Linked.unloads_sheltered (linked : h.Linked) {s : σ}
    (shelters : Shelters encoding made worth (slot.get s) h.get?) :
    Shelters encoding made worth
      (slot.get (h.sweepLevels (fun l =>
        l.unload [unloadProcessor slot encoding] (ctx.atLevel l.index)) s).2.2)
      (h.sweepLevels (fun l =>
        l.unload [unloadProcessor slot encoding] (ctx.atLevel l.index)) s).2.1.get? := by
  refine (sweep_induct (P := fun g t => g.Linked ∧ Shelters encoding made worth (slot.get t) g.get?)
    linked.numbered.length_lt (fun l _ g i t stored before => ?_) ⟨linked, shelters⟩).2
  obtain ⟨linked, shelters⟩ := before
  have step : Level.Step (fun _ => True) l
      (l.unload [unloadProcessor slot encoding] (ctx.atLevel l.index) t).2.1 :=
    .unload Processor.obeys_any _ t
  exact ⟨linked.replace stored step.sameLinks,
    linked.unload_sheltered lawful lossless (ctx.atLevel l.index) shelters stored⟩

theorem Linked.retireAt_sheltered (linked : h.Linked) {s : σ}
    (shelters : Shelters encoding made worth (slot.get s) h.get?) (order : List Coord) (i : UInt8) :
    Shelters encoding made worth
        (slot.get (retireAt [unloadProcessor slot encoding] ctx order i h s).2)
      (retireAt [unloadProcessor slot encoding] ctx order i h s).1.get? := by
  cases stored : h.level? i with
  | none =>
    simp only [retireAt, stored]
    exact shelters
  | some l =>
    simp only [retireAt, stored]
    exact linked.retire_sheltered lawful lossless (ctx.atLevel i) shelters stored fun c named =>
      (Bool.and_eq_true_iff.mp (List.mem_filter.mp named).2).2

theorem Linked.retireList_sheltered (linked : h.Linked) {s : σ}
    (shelters : Shelters encoding made worth (slot.get s) h.get?) (order : List Coord)
    (is : List UInt8) :
    Shelters encoding made worth
        (slot.get (retire [unloadProcessor slot encoding] ctx order is h s).2)
      (retire [unloadProcessor slot encoding] ctx order is h s).1.get? := by
  induction is generalizing h s with
  | nil => exact shelters
  | cons i is ih =>
    exact ih (linked_of_retired (retireAt_retired _ ctx order i h s) linked)
      (linked.retireAt_sheltered lawful lossless ctx shelters order i)

/-- Unloading a subtree at once files every node of it before it is removed. -/
theorem Linked.unloadSubtree_sheltered (linked : h.Linked) {s : σ}
    (shelters : Shelters encoding made worth (slot.get s) h.get?) (root : Coord) :
    Shelters encoding made worth
      (slot.get (h.unloadSubtree [unloadProcessor slot encoding] ctx root s).2.2)
      (h.unloadSubtree [unloadProcessor slot encoding] ctx root s).2.1.get? := by
  by_cases resident : h.contains root = true
  · let order := h.postOrderFrom walkFuel root
    let levels := (List.range (root.level.toNat + 1)).map UInt8.ofNat
    have retired := retire_retired [unloadProcessor slot encoding] ctx order levels h s
    obtain ⟨g, run, pruned⟩ := linked.removeAll_postOrder resident root.level.toNat_lt
      (linked_of_retired retired linked) fun x _ => contains_of_retired retired x
    rw [linked.numbered.unloadSubtree _ ctx resident rfl run]
    exact (linked.retireList_sheltered lawful lossless ctx shelters order levels).prune
      (fun c under => contains_eq_false_iff.mp (pruned.absent c under)) pruned.kept
      fun c => linked.retired_subtree resident _ ctx s
  · rw [unloadSubtree_of_absent linked.numbered _ ctx (Bool.eq_false_iff.mpr resident)]
    exact shelters

theorem Linked.destroyAll_sheltered (linked : h.Linked) {s : σ}
    (shelters : Shelters encoding made worth (slot.get s) h.get?) (cs : List Coord) :
    Shelters encoding made worth
      (slot.get (Hierarchy.destroyAll [unloadProcessor slot encoding] ctx cs h s).2.2)
      (Hierarchy.destroyAll [unloadProcessor slot encoding] ctx cs h s).2.1.get? := by
  induction cs generalizing h s with
  | nil => exact shelters
  | cons c cs ih =>
    rw [Hierarchy.destroyAll]
    split
    · have evolved : Evolved (fun _ => True) h
          (h.unloadSubtree [unloadProcessor slot encoding] ctx c s).2.1 :=
        linked.unloadSubtree_evolved _ ctx c s
      exact ih (evolved.linked linked)
        (linked.unloadSubtree_sheltered lawful lossless ctx shelters c)
    · exact ih linked shelters

theorem Linked.destroyAt_sheltered (linked : h.Linked) {s : σ}
    (shelters : Shelters encoding made worth (slot.get s) h.get?) (is : List UInt8) :
    Shelters encoding made worth
      (slot.get (Hierarchy.destroyAt [unloadProcessor slot encoding] ctx is h s).2.2)
      (Hierarchy.destroyAt [unloadProcessor slot encoding] ctx is h s).2.1.get? := by
  induction is generalizing h s with
  | nil => exact shelters
  | cons i is ih =>
    obtain ⟨removed, k, s', run, pruned, -⟩ :=
      linked.destroyLevel [unloadProcessor slot encoding] (ctx.atLevel i) i s
    have cleared : (h.modifyLevel i (·.clear .destroy)).get? = h.get? :=
      funext (get?_modifyLevel_of_get? i fun l c => Level.get?_clear l .destroy c)
    rw [← cleared] at shelters
    have first := (linked.clear i .destroy).destroyAll_sheltered lawful lossless (ctx.atLevel i)
      shelters (CoordSet.sorted (h.pending i .destroy))
    rw [run] at first
    rw [destroyAt_cons, run]
    exact ih pruned.linked first

end Unloading

section Loading

variable [ArchiveFormat] (ctx : BatchContext) {kept : Coord → Option (UInt32 × N)} {s : σ}

/-- Draining the load queue of a level leaves the archive alone, and each node gets the content that
it is due. -/
theorem Linked.load_backed (linked : h.Linked) (stored : h.level? i = some l)
    (backs : ∀ c, Backs encoding (slot.get s) c (made c) (kept c) (h.get? c)) :
    (l.load [loadProcessor slot encoding] ctx s).2.2 = s ∧ ∀ c,
      Backs encoding (slot.get s) c (made c) (kept c)
        ((h.modifyLevel i fun _ => (l.load [loadProcessor slot encoding] ctx s).2.1).get? c) ∧
      ((h.modifyLevel i fun _ => (l.load [loadProcessor slot encoding] ctx s).2.1).get? c).map
        (due (made c) (kept c)) = (h.get? c).map (due (made c) (kept c)) := by
  let cs := (l.drained .load).filter fun c => (l.get? c).any (·.state == .loading)
  obtain ⟨state, revived⟩ := runNodeBatch_loadProcessor slot encoding ctx (l.clear .load) cs s
  have view : ∀ c, (l.load [loadProcessor slot encoding] ctx s).2.1.get? c = if c ∈ cs
      then (l.get? c).map fun n => (revive encoding (slot.get s) n).withState .loaded
      else l.get? c := by
    intro c
    have changed := Level.get?_modifyAll
      (runNodeBatch [loadProcessor slot encoding] ctx (l.clear .load) cs s).1 cs
      (f := (·.withState .loaded)) (fun _ => rfl) c
    refine changed.trans ?_
    rw [revived, Level.get?_clear]
    split
    · rw [Option.map_map]
      rfl
    · rfl
  refine ⟨state, fun c => ?_⟩
  rw [get?_modifyLevel_of_level? stored, view]
  by_cases level : i = c.level
  · subst level
    have backs := backs c
    have placed := linked.placed c
    rw [get?_of_level? stored] at backs placed ⊢
    rw [if_pos rfl]
    split
    · rename_i named
      obtain ⟨n, found, waits⟩ := (Option.any_eq_true ..).mp (List.mem_filter.mp named).2
      have loading : n.state = .loading := beq_iff_eq.mp waits
      rw [found] at backs ⊢
      obtain ⟨loaded, content⟩ := backs.load loading (placed n found)
      refine ⟨loaded, congrArg some ?_⟩
      rw [due, due, if_pos loading, if_neg NodeState.noConfusion]
      exact content
    · exact ⟨backs, rfl⟩
  · rw [if_neg level]
    exact ⟨backs c, rfl⟩

/-- Draining every load queue. -/
theorem Linked.loads_backed (linked : h.Linked)
    (backs : ∀ c, Backs encoding (slot.get s) c (made c) (kept c) (h.get? c)) :
    (h.sweepLevels (fun l => l.load [loadProcessor slot encoding] (ctx.atLevel l.index)) s).2.2 =
        s ∧
      ∀ c, Backs encoding (slot.get s) c (made c) (kept c) ((h.sweepLevels (fun l =>
          l.load [loadProcessor slot encoding] (ctx.atLevel l.index)) s).2.1.get? c) ∧
        ((h.sweepLevels (fun l =>
          l.load [loadProcessor slot encoding] (ctx.atLevel l.index)) s).2.1.get? c).map
            (due (made c) (kept c)) = (h.get? c).map (due (made c) (kept c)) := by
  refine (sweep_induct (P := fun g t => g.Linked ∧ t = s ∧ ∀ c,
      Backs encoding (slot.get s) c (made c) (kept c) (g.get? c) ∧
        (g.get? c).map (due (made c) (kept c)) = (h.get? c).map (due (made c) (kept c)))
    linked.numbered.length_lt (fun l _ g i t stored before => ?_)
    ⟨linked, rfl, fun c => ⟨backs c, rfl⟩⟩).2
  obtain ⟨linked, rfl, before⟩ := before
  have step : Level.Step (fun _ => True) l
      (l.load [loadProcessor slot encoding] (ctx.atLevel l.index) t).2.1 :=
    .load Processor.obeys_any _ t
  obtain ⟨state, after⟩ :=
    linked.load_backed (ctx.atLevel l.index) stored fun c => (before c).1
  exact ⟨linked.replace stored step.sameLinks, state, fun c =>
    ⟨(after c).1, (after c).2.trans (before c).2⟩⟩

end Loading

/-- A creation passes the debts of the cells on to their new nodes. -/
theorem Grown.backed [ArchiveFormat] {factory : PayloadFactory N L} {now : SimTime}
    {drained : List UInt8} {created : List Coord} {g : Hierarchy N L}
    (grown : Grown factory now drained created h g) {a : Archive}
    {kept : Coord → Option (UInt32 × N)} {c : Coord}
    (backs : Backs encoding a c (factory.node c) (kept c) (h.get? c)) :
    Backs encoding a c (factory.node c) (kept c) (g.get? c) := by
  cases before : h.get? c with
  | none =>
    rw [before] at backs
    cases found : g.get? c with
    | none => exact backs
    | some n =>
      have newborn := (grown.young (contains_eq_false_iff.mpr before) found).2
      have content : n.content = (0, factory.node c) := Node.content_congr newborn
      rw [backs_loading (Node.state_congr newborn)]
      exact ⟨content, backs⟩
  | some m =>
    rw [before] at backs
    have body := grown.old (Hierarchy.contains_iff.mpr ⟨m, before⟩)
    obtain ⟨n, found, same⟩ := exists_of_body body.symm before
    rw [found]
    exact backs.congr (Node.content_congr same) (Node.state_congr same)

end Hierarchy

end OctreeWorld
