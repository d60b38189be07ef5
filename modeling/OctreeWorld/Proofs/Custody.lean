import OctreeWorld.Proofs.Safekeeping
import OctreeWorld.Proofs.Service
import OctreeWorld.Proofs.Settling

/-!
# A world and its archive

A world whose nodes are loaded from an archive and unloaded to it, and that uses the archive for
nothing else, owes each cell the content of the last node that was removed from it. Each phase of a
tick is shown to pass this on, together with what it does to the nodes that are there.
-/

namespace OctreeWorld

variable {σ N L : Type}

/-! ### Processors beside the archive -/

/-- A processor that leaves alone what is in a slot. -/
structure Processor.Spares {V E α : Type} (slot : Slot σ α) (p : Processor σ V E) : Prop where
  start : ∀ ctx s, slot.get (p.start ctx s) = slot.get s
  process : ∀ ctx v s, slot.get (p.process ctx v s).2 = slot.get s
  finish : ∀ ctx s, slot.get (p.finish ctx s) = slot.get s

section Sparing

variable {α : Type} {slot : Slot σ α}

theorem foldl_spares {P : Type} {f : σ → P → σ} {ps : List P}
    (spares : ∀ p ∈ ps, ∀ s, slot.get (f s p) = slot.get s) (s : σ) :
    slot.get (ps.foldl f s) = slot.get s := by
  induction ps generalizing s with
  | nil => rfl
  | cons p ps ih =>
    rw [List.foldl_cons, ih fun q listed => spares q (List.mem_cons_of_mem p listed)]
    exact spares p List.mem_cons_self s

variable {κ τ V E : Type} {addr : Addressing κ τ V E} {ps : List (Processor σ V E)}
  (spares : ∀ p ∈ ps, p.Spares slot) (ctx : BatchContext)

include spares

theorem offer_spares (c : κ) (t : τ) (s : σ) :
    slot.get (offer addr ctx c ps t s).2 = slot.get s := by
  induction ps generalizing t s with
  | nil => rfl
  | cons p ps ih =>
    have first : slot.get (offerTo addr ctx c p t s).2 = slot.get s := by
      unfold offerTo
      cases addr.view c t with
      | none => rfl
      | some v => exact (spares p List.mem_cons_self).process ctx v s
    exact (ih (fun q listed => spares q (List.mem_cons_of_mem p listed)) _ _).trans first

/-- A batch of such processors leaves it alone. -/
theorem runBatch_spares (cs : List κ) (t : τ) (s : σ) :
    slot.get (runBatch addr ctx ps cs t s).2 = slot.get s := by
  have dispatched : ∀ (cs : List κ) t s,
      slot.get (dispatch addr ctx ps cs t s).2 = slot.get s := by
    intro cs
    induction cs with
    | nil => exact fun _ _ => rfl
    | cons c cs ih => exact fun t s => (ih _ _).trans (offer_spares spares ctx c t s)
  unfold runBatch
  split
  · rfl
  · refine (foldl_spares (fun p listed => (spares p listed).finish ctx) _).trans ?_
    exact (dispatched cs t _).trans (foldl_spares (fun p listed => (spares p listed).start ctx) s)

end Sparing

theorem sweep_spares {α β τ : Type} {slot : Slot σ α} {step : τ → σ → β × τ × σ}
    (each : ∀ t s, slot.get (step t s).2.2 = slot.get s) (ts : List τ) (s : σ) :
    slot.get (sweep step ts s).2.2 = slot.get s := by
  induction ts generalizing s with
  | nil => rfl
  | cons t ts ih => exact (ih (step t s).2.2).trans (each t s)

/-- Nodes load from the archive in a slot and unload to it, the other processors leave it alone, and
no processor writes states. -/
structure ProcessorRegistry.Archives [ArchiveFormat] (slot : Slot σ Archive)
    (encoding : Encoding N Bytes) (ps : ProcessorRegistry σ N L) : Prop where
  load : ps.load = [Archive.loadProcessor slot encoding]
  unload : ps.unload = [Archive.unloadProcessor slot encoding]
  tick : ∀ p ∈ ps.tick, p.Obeys NodeEdit.Calm ∧ p.Spares slot
  level : ∀ p ∈ ps.level, p.Obeys (LevelEdit.Allowed NodeEdit.Calm) ∧ p.Spares slot
  region : ∀ p ∈ ps.region, p.Obeys (RegionEdit.Allowed NodeEdit.Calm)

theorem ProcessorRegistry.Archives.obey [ArchiveFormat] {slot : Slot σ Archive}
    {encoding : Encoding N Bytes} {ps : ProcessorRegistry σ N L}
    (archives : ps.Archives slot encoding) : ps.Obey NodeEdit.Calm := by
  refine ⟨⟨?_, ?_, fun p listed => (archives.tick p listed).1⟩,
    fun p listed => (archives.level p listed).1, archives.region⟩
  · rw [archives.load]
    intro p listed ctx view s e given
    rw [List.mem_singleton.mp listed] at given
    simp only [Archive.loadProcessor, Processor.plain] at given
    split at given
    · rcases List.mem_cons.mp given with rfl | given
      · intro s same
        cases same
      · rw [List.mem_singleton.mp given]
        intro s same
        cases same
    · cases given
  · rw [archives.unload]
    intro p listed ctx view s e given
    rw [List.mem_singleton.mp listed] at given
    cases given

/-! ### What a phase does to nodes -/

/-- The content of the node last removed from each cell, when nodes have changed, given what it was
before. -/
def departed (before after : Coord → Option (Node N)) (kept : Coord → Option (UInt32 × N))
    (c : Coord) : Option (UInt32 × N) :=
  match before c, after c with
  | some n, none => some n.content
  | _, _ => kept c

section Departed

variable {before after : Coord → Option (Node N)} {kept : Coord → Option (UInt32 × N)} {c : Coord}

theorem departed_of_absent (absent : before c = none) : departed before after kept c = kept c := by
  rw [departed, absent]

theorem departed_of_stays (stays : (before c).isSome = true → (after c).isSome = true) :
    departed before after kept c = kept c := by
  cases found : before c with
  | none => exact departed_of_absent found
  | some n =>
    obtain ⟨m, there⟩ := Option.isSome_iff_exists.mp (stays (by rw [found]; rfl))
    rw [departed, found, there]

theorem departed_eq (stays : ∀ c, (before c).isSome = true → (after c).isSome = true) :
    departed before after kept = kept := funext fun c => departed_of_stays (stays c)

end Departed

/-- What each cell has or, without a node, had last. -/
def estate (view : Coord → Option (Node N)) (kept : Coord → Option (UInt32 × N)) (c : Coord) :
    Option (UInt32 × N) := ((view c).map Node.content).or (kept c)

/-- What has been unloaded or removed under an archive's protection is there for the cells. -/
theorem Archive.Shelters.backs_departed [ArchiveFormat] {encoding : Encoding N Bytes}
    {made : Coord → N} {before after : Coord → Option (Node N)}
    {kept : Coord → Option (UInt32 × N)} {b : Archive}
    (shelters : Shelters encoding made (estate before kept) b after) (c : Coord) :
    Backs encoding b c (made c) (departed before after kept c) (after c) := by
  have backs := shelters.backs c
  cases there : after c with
  | none =>
    rw [there, estate] at backs
    rw [departed, there]
    cases found : before c with
    | none =>
      rw [found] at backs
      exact backs
    | some n =>
      rw [found] at backs
      exact backs
  | some m =>
    rw [there] at backs
    exact backs.forget (shelters.loaded c m there) _

/-- What a phase does to nodes, given what was kept for the cells: only creation makes nodes, which
are loading then, only the load phase loads them, only the destroy phase removes them, and from
creation on each node that stays has in the end what it is due. -/
structure Handled (made : Coord → N) (kept : Coord → Option (UInt32 × N)) (p : Phase)
    (before after : Coord → Option (Node N)) : Prop where
  newborn : ∀ c n, before c = none → after c = some n → p = .create ∧ n.state = .loading
  stays : p ≠ .destroy → ∀ c, (before c).isSome = true → (after c).isSome = true
  loaded : p = .load → ∀ c n m, before c = some n → after c = some m → n.state = .loading →
    m.state = .loaded
  due : 4 ≤ p.index → ∀ c n m, before c = some n → after c = some m →
    Archive.due (made c) (kept c) m = Archive.due (made c) (kept c) n

namespace World

open Archive

variable {slot : Slot σ Archive} {encoding : Encoding N Bytes} {factory : PayloadFactory N L}
  {p : Phase} {kept : Coord → Option (UInt32 × N)} {w w' : World σ N L} {s s' : σ}

/-- A world without regions and its archive when a phase is next: the archive has for each cell what
it owes it, nodes are loading only before the load phase, and deleting only before the destroy
phase. -/
structure Archived [ArchiveFormat] (slot : Slot σ Archive) (encoding : Encoding N Bytes)
    (factory : PayloadFactory N L) (p : Phase) (kept : Coord → Option (UInt32 × N)) (s : σ)
    (w : World σ N L) : Prop where
  reached : w.Reached NodeEdit.Calm
  processors : w.processors.Archives slot encoding
  origin : w.factory = factory
  regions : w.regions = []
  backs : ∀ c, Backs encoding (slot.get s) c (factory.node c) (kept c) (w.hierarchy.get? c)
  loading : ∀ c n, w.hierarchy.get? c = some n → n.state = .loading → p = .load
  deleting : ∀ c n, w.hierarchy.get? c = some n → n.state = .deleting → p = .destroy

/-- A world that an operation leads to, with the processors and the factory that it had. -/
structure Follows (w w' : World σ N L) : Prop where
  reached : w'.Reached NodeEdit.Calm
  processors : w'.processors = w.processors
  factory : w'.factory = w.factory
  regions : w'.regions = w.regions

/-- A phase leaves the archive with what it owes the cells when the next one is due. -/
structure Passes [ArchiveFormat] (slot : Slot σ Archive) (encoding : Encoding N Bytes)
    (factory : PayloadFactory N L) (p : Phase) (kept : Coord → Option (UInt32 × N))
    (w w' : World σ N L) (s' : σ) : Prop where
  next : w'.Archived slot encoding factory p.next
    (departed w.hierarchy.get? w'.hierarchy.get? kept) s'
  handled : Handled factory.node kept p w.hierarchy.get? w'.hierarchy.get?

namespace Archived

variable [ArchiveFormat] (archived : w.Archived slot encoding factory p kept s)

include archived

theorem linked : w.hierarchy.Linked := (archived.reached.sound (.trivial NodeEdit.Calm)).linked

/-- Before and after loading and removal every node is in use. -/
theorem inUse (load : p ≠ .load) (destroy : p ≠ .destroy) {c : Coord} {n : Node N}
    (found : w.hierarchy.get? c = some n) : n.InUse :=
  ⟨fun loading => load (archived.loading c n found loading),
    fun deleting => destroy (archived.deleting c n found deleting)⟩

/-- Nodes in use that come to a later stage leave the archive behind them. -/
theorem aged (load : p ≠ .load) (destroy : p ≠ .destroy) (follows : w.Follows w')
    (ages : ∀ c, Option.Rel Node.Ages (w.hierarchy.get? c) (w'.hierarchy.get? c))
    (archive : slot.get s' = slot.get s) (q : Phase) :
    w'.Archived slot encoding factory q kept s' := by
  have each : ∀ c m, w'.hierarchy.get? c = some m →
      m.InUse ∧ Backs encoding (slot.get s) c (factory.node c) (kept c) (some m) := by
    intro c m there
    have older := ages c
    have backs := archived.backs c
    rw [there] at older
    cases found : w.hierarchy.get? c with
    | none =>
      rw [found] at older
      cases older
    | some n =>
      rw [found] at older backs
      cases older with
      | some older =>
        have inUse := archived.inUse load destroy found
        exact ⟨older.inUse inUse, backs.ages inUse older⟩
  refine ⟨follows.reached, follows.processors ▸ archived.processors,
    follows.factory.trans archived.origin, follows.regions.trans archived.regions, fun c => ?_,
    fun c m there loading => absurd loading (each c m there).1.1,
    fun c m there deleting => absurd deleting (each c m there).1.2⟩
  rw [archive]
  cases there : w'.hierarchy.get? c with
  | some m => exact (each c m there).2
  | none =>
    have older := ages c
    have backs := archived.backs c
    rw [there] at older
    generalize w.hierarchy.get? c = node at older backs
    cases older
    exact backs

/-- The phases before creation. -/
theorem age (early : p.index < 4) (follows : w.Follows w')
    (ages : ∀ c, Option.Rel Node.Ages (w.hierarchy.get? c) (w'.hierarchy.get? c))
    (archive : slot.get s' = slot.get s) : w.Passes slot encoding factory p kept w' s' := by
  have stays : ∀ c, (w'.hierarchy.get? c).isSome = (w.hierarchy.get? c).isSome := by
    intro c
    have older := ages c
    generalize w.hierarchy.get? c = before at older
    generalize w'.hierarchy.get? c = after at older
    cases older <;> rfl
  have load : p ≠ .load := by
    rintro rfl
    exact absurd early (by decide)
  have destroy : p ≠ .destroy := by
    rintro rfl
    exact absurd early (by decide)
  refine ⟨?_, ⟨fun c m absent there => ?_, fun _ c => (stays c).trans,
    fun same => absurd same load, fun late => absurd early (Nat.not_lt.mpr late)⟩⟩
  · rw [departed_eq fun c => (stays c).trans]
    exact archived.aged load destroy follows ages archive p.next
  · rw [(Option.isSome_eq_isSome.mp (stays c)).mpr absent] at there
    cases there

theorem shelters (loaded : p ≠ .load) :
    Shelters encoding factory.node (estate w.hierarchy.get? kept) (slot.get s)
      w.hierarchy.get? := by
  have ready : ∀ c n, w.hierarchy.get? c = some n → n.state ≠ .loading :=
    fun c n found loading => loaded (archived.loading c n found loading)
  refine ⟨fun c => ?_, fun c n found => ?_, ready⟩
  · have backs := archived.backs c
    rw [estate]
    cases found : w.hierarchy.get? c with
    | none =>
      rw [found] at backs
      exact backs
    | some n =>
      rw [found] at backs
      exact backs.forget (ready c n found) _
  · rw [estate, found]
    rfl

/-- What unloads or removes nodes under the protection of the archive. -/
theorem kept_safe (follows : w.Follows w')
    (sheltered : Shelters encoding factory.node (estate w.hierarchy.get? kept) (slot.get s')
      w'.hierarchy.get?) {q : Phase}
    (deleting : ∀ c n, w'.hierarchy.get? c = some n → n.state = .deleting → q = .destroy) :
    w'.Archived slot encoding factory q (departed w.hierarchy.get? w'.hierarchy.get? kept) s' :=
  ⟨follows.reached, follows.processors ▸ archived.processors,
    follows.factory.trans archived.origin, follows.regions.trans archived.regions,
    sheltered.backs_departed, fun c m there loading => absurd loading (sheltered.loaded c m there),
    deleting⟩

/-- The phases after loading. -/
theorem put (loaded : p ≠ .load) (follows : w.Follows w')
    (sheltered : Shelters encoding factory.node (estate w.hierarchy.get? kept) (slot.get s')
      w'.hierarchy.get?)
    (deleting : ∀ c n, w'.hierarchy.get? c = some n → n.state = .deleting → p.next = .destroy)
    (absent : ∀ c, w.hierarchy.get? c = none → w'.hierarchy.get? c = none)
    (stays : p ≠ .destroy → ∀ c, (w.hierarchy.get? c).isSome = true →
      (w'.hierarchy.get? c).isSome = true) :
    w.Passes slot encoding factory p kept w' s' := by
  refine ⟨archived.kept_safe follows sheltered deleting, ⟨fun c m away there => ?_, stays,
    fun same => absurd same loaded, fun _ c n m found there => ?_⟩⟩
  · rw [absent c away] at there
    cases there
  · have same := sheltered.worth c m there
    rw [estate, found] at same
    have loaded_n : n.state ≠ .loading :=
      fun loading => loaded (archived.loading c n found loading)
    rw [due, due, if_neg (sheltered.loaded c m there), if_neg loaded_n]
    exact (Option.some.inj same).symm

omit archived

theorem stream (archived : w.Archived slot encoding factory .levelWorker kept s) {α : Type}
    {f : Level N L → α × Level N L} (calls : ∀ l, Level.Called NodeEdit.Calm l (f l).2)
    (follows : w.Follows (w.levelWorkerPhase f s).2.1) :
    w.Passes slot encoding factory .levelWorker kept (w.levelWorkerPhase f s).2.1
      (w.levelWorkerPhase f s).2.2 := by
  have called := levelWorkerPhase_called archived.processors.obey.level calls s
  refine archived.age (by decide) follows
    (called.imp fun _ _ => Level.Called.ages).nodewise ?_
  rw [levelWorkerPhase_eq]
  exact sweep_spares (fun l s => runBatch_spares
    (fun p listed => (archived.processors.level p listed).2) _ _ l s) w.hierarchy.levels s

theorem work (archived : w.Archived slot encoding factory .worldWorker kept s)
    (follows : w.Follows (w.worldWorkerPhase s).2.1) :
    w.Passes slot encoding factory .worldWorker kept (w.worldWorkerPhase s).2.1
      (w.worldWorkerPhase s).2.2 := by
  have ages := w.drainLevels_levelwise .tick (fun ctx l s =>
    (Level.Nodewise.of_get? .refl (Level.get?_clear l .tick)).trans (fun _ _ _ => .trans)
      (Level.tick_edited archived.processors.obey.node.tick ctx l s).ages) s
  refine archived.age (by decide) follows ages.nodewise ?_
  exact sweep_spares (fun l s => runBatch_spares
    (fun p listed => (archived.processors.tick p listed).2) _ _ _ s) w.hierarchy.levels s

/-- Creation makes nodes that are loading, and leaves the others alone but for their links. -/
theorem create (archived : w.Archived slot encoding factory .create kept s)
    (follows : w.Follows w.createPhase.2) :
    w.Passes slot encoding factory .create kept w.createPhase.2 s := by
  obtain ⟨created, grown, -⟩ := createPhase_grown archived.linked
  have origin := archived.origin
  subst origin
  have old : ∀ c n, w.hierarchy.get? c = some n → ∃ m,
      w.createPhase.2.hierarchy.get? c = some m ∧ m.clearLinks = n.clearLinks :=
    fun c n found => Hierarchy.exists_of_body
      (grown.old (Hierarchy.contains_iff.mpr ⟨n, found⟩)).symm found
  have young : ∀ c m, w.hierarchy.get? c = none → w.createPhase.2.hierarchy.get? c = some m →
      m.state = .loading := fun c m absent there =>
    Node.state_congr (grown.young (Hierarchy.contains_eq_false_iff.mpr absent) there).2
  have stays : ∀ c, (w.hierarchy.get? c).isSome = true →
      (w.createPhase.2.hierarchy.get? c).isSome = true := fun c => grown.contains
  refine ⟨⟨follows.reached, archived.processors, rfl, archived.regions, fun c => ?_,
    fun _ _ _ _ => rfl, fun c m there deleting => ?_⟩,
    ⟨fun c m absent there => ⟨rfl, young c m absent there⟩, fun _ => stays, nofun,
      fun _ c n m found there => ?_⟩⟩
  · rw [departed_of_stays (stays c)]
    exact grown.backed (archived.backs c)
  · cases found : w.hierarchy.get? c with
    | none =>
      rw [young c m found there] at deleting
      cases deleting
    | some n =>
      obtain ⟨m', there', same⟩ := old c n found
      cases there.symm.trans there'
      rw [Node.state_congr same] at deleting
      cases archived.deleting c n found deleting
  · obtain ⟨m', there', same⟩ := old c n found
    cases there.symm.trans there'
    rw [due, due, Node.state_congr same, Node.content_congr same]

/-- A load leaves no node loading, and each gets what it is due. -/
theorem load (archived : w.Archived slot encoding factory .load kept s)
    (follows : w.Follows (w.loadPhase s).2.1) :
    w.Passes slot encoding factory .load kept (w.loadPhase s).2.1 (w.loadPhase s).2.2 := by
  obtain ⟨state, nodes⟩ := archived.linked.loads_backed (w.batchContext .load) archived.backs
  have result : (w.loadPhase s).2.1.hierarchy = (w.hierarchy.sweepLevels (fun l =>
      l.load [loadProcessor slot encoding] ((w.batchContext .load).atLevel l.index)) s).2.1 := by
    rw [loadPhase, archived.processors.load]
    rfl
  have archive : (w.loadPhase s).2.2 = s := by
    rw [loadPhase, archived.processors.load]
    exact state
  have moved := loadPhase_moved archived.processors.obey.node.load s
  have loaded : ∀ c m, (w.loadPhase s).2.1.hierarchy.get? c = some m → m.state ≠ .loading := by
    -- The load of a loading node would be queued still, but the queues have been drained.
    intro c m there loading
    have attended := (follows.reached.sound Hierarchy.attended_kept).kept
    have queued := (attended c m there).2 .load (by rw [loading]; rfl)
    rw [pending_loadPhase, if_pos rfl] at queued
    cases queued
  have stays : ∀ c, ((w.loadPhase s).2.1.hierarchy.get? c).isSome =
      (w.hierarchy.get? c).isSome := moved.isSome
  rw [archive]
  refine ⟨⟨follows.reached, archived.processors, archived.origin, archived.regions, fun c => ?_,
    fun c m there loading => absurd loading (loaded c m there), fun c m there deleting => ?_⟩,
    ⟨fun c m absent there => ?_, fun _ c => (stays c).trans,
      fun _ c n m found there loading => ?_, fun _ c n m found there => ?_⟩⟩
  · rw [departed_of_stays (stays c).trans, result]
    exact (nodes c).1
  · obtain ⟨n, found, -, after⟩ := moved.back there
    rw [deleting, Hierarchy.loadedState] at after
    split at after
    · cases after
    · cases archived.deleting c n found after.symm
  · rw [(Option.isSome_eq_isSome.mp (stays c)).mpr absent] at there
    cases there
  · obtain ⟨n', found', -, after⟩ := moved.back there
    cases found.symm.trans found'
    rw [Hierarchy.loadedState] at after
    split at after
    · exact after
    · exact absurd (after.trans loading) (loaded c m there)
  · have same := (nodes c).2
    rw [← result, there, found] at same
    exact Option.some.inj same

theorem unload (archived : w.Archived slot encoding factory .unload kept s) (lawful : slot.Lawful)
    (lossless : Lossless encoding) (follows : w.Follows (w.unloadPhase s).2.1) :
    w.Passes slot encoding factory .unload kept (w.unloadPhase s).2.1 (w.unloadPhase s).2.2 := by
  have sheltered := archived.linked.unloads_sheltered lawful lossless (w.batchContext .unload)
    (archived.shelters Phase.noConfusion)
  have stays := (unloadPhase_moved archived.processors.obey.node.unload s).isSome
  refine archived.put Phase.noConfusion follows ?_ (fun _ _ _ _ => rfl)
    (fun c => (Option.isSome_eq_isSome.mp (stays c)).mpr) fun _ c => (stays c).trans
  rw [unloadPhase, archived.processors.unload]
  exact sheltered

theorem destroy (archived : w.Archived slot encoding factory .destroy kept s) (lawful : slot.Lawful)
    (lossless : Lossless encoding) (follows : w.Follows (w.destroyPhase s).2.1) :
    w.Passes slot encoding factory .destroy kept (w.destroyPhase s).2.1 (w.destroyPhase s).2.2 := by
  have sheltered := archived.linked.destroyAt_sheltered lawful lossless (w.batchContext .unload)
    (archived.shelters Phase.noConfusion) w.hierarchy.indices
  obtain ⟨pruned, empty⟩ := destroyPhase_pruned archived.linked s
  refine archived.put Phase.noConfusion follows ?_ (fun c n there deleting => ?_)
    (fun c absent => ?_) fun other => absurd rfl other
  · rw [destroyPhase, archived.processors.unload]
    exact sheltered
  · -- As after loading: a deleting node would be named by a queue.
    have attended := (follows.reached.sound Hierarchy.attended_kept).kept
    have queued := (attended c n there).2 .destroy (by rw [deleting]; rfl)
    rw [empty] at queued
    cases queued
  · refine Hierarchy.contains_eq_false_iff.mp (Bool.eq_false_iff.mpr fun there => ?_)
    have before := ((pruned.contains c).mp there).1
    rw [Hierarchy.contains_eq_false_iff.mpr absent] at before
    cases before

theorem finish (archived : w.Archived slot encoding factory .finish kept s) :
    w.Passes slot encoding factory .finish kept w s := by
  refine archived.put Phase.noConfusion ⟨archived.reached, rfl, rfl, rfl⟩
    (archived.shelters Phase.noConfusion) (fun c n found deleting => ?_) (fun _ absent => absent)
    fun _ _ resident => resident
  cases archived.deleting c n found deleting

/-! ### Between ticks -/

/-- Edits of nodes that do not write states. -/
theorem calls (archived : w.Archived slot encoding factory .loader kept s) {h : Hierarchy N L}
    (called : Hierarchy.Levelwise (Level.Called NodeEdit.Calm) w.hierarchy h) :
    ({ w with hierarchy := h } : World σ N L).Archived slot encoding factory .loader kept s :=
  archived.aged Phase.noConfusion Phase.noConfusion ⟨archived.reached.calls called, rfl, rfl, rfl⟩
    (called.imp fun _ _ => Level.Called.ages).nodewise rfl .loader

theorem queueCreate (archived : w.Archived slot encoding factory .loader kept s) (c : Coord) :
    (w.queueCreate c).Archived slot encoding factory .loader kept s :=
  archived.calls (Hierarchy.levelwise_modifyLevel (fun _ => .refl) fun _ _ =>
    .single (.edit (.push .create c) trivial))

theorem edit (archived : w.Archived slot encoding factory .loader kept s) (c : Coord)
    {e : NodeEdit N L} (calm : e.Calm) :
    (w.modifyLevel c.level (·.editNode c e)).Archived slot encoding factory .loader kept s :=
  archived.calls (Hierarchy.levelwise_modifyLevel (fun _ => .refl) fun _ _ =>
    .single (.edit (.node c e) calm))

theorem unloadNode (archived : w.Archived slot encoding factory .loader kept s)
    (lawful : slot.Lawful) (lossless : Lossless encoding) (c : Coord) :
    (w.unloadNode c s).2.1.Archived slot encoding factory .loader
      (departed w.hierarchy.get? (w.unloadNode c s).2.1.hierarchy.get? kept)
      (w.unloadNode c s).2.2 := by
  have sheltered := archived.linked.unloadSubtree_sheltered lawful lossless
    (w.batchContext .unload) (archived.shelters Phase.noConfusion) c
  have reached := archived.reached.unloadNode c s
  refine archived.kept_safe ⟨reached, rfl, rfl, rfl⟩ ?_ fun d n there deleting => ?_
  · rw [World.unloadNode, archived.processors.unload]
    exact sheltered
  · have before : ∀ m, w.hierarchy.get? d = some m → m.state ≠ .deleting := fun m found other =>
      Phase.noConfusion (archived.deleting d m found other)
    by_cases resident : w.hierarchy.contains c = true
    · obtain ⟨g, s', run, pruned, -⟩ :=
        archived.linked.unloadSubtree w.processors.unload (w.batchContext .unload) resident s
      rw [World.unloadNode, run] at there
      have outside := ((pruned.contains d).mp (Hierarchy.contains_iff.mpr ⟨n, there⟩)).2
      obtain ⟨m, found, same⟩ := Hierarchy.exists_of_body (pruned.kept d outside) there
      exact absurd ((Node.state_congr same).trans deleting) (before m found)
    · rw [World.unloadNode, Hierarchy.unloadSubtree_of_absent archived.linked.numbered _ _
        (Bool.eq_false_iff.mpr resident)] at there
      exact absurd deleting (before n there)

end Archived

end World

end OctreeWorld
