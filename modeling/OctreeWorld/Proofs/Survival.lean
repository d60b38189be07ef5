import OctreeWorld.Archive.Standard
import OctreeWorld.Proofs.Custody
import OctreeWorld.Proofs.Frames

/-!
# Payloads survive their nodes

An engine drives one world whose nodes are loaded from an archive and unloaded to it. Ticks run,
loaders come, move and go, cells are requested and unloaded, and nodes are edited, in any order: the
archive never gets ahead of a node in use, and each node that loads gets version and payload of the
node that was last removed from its cell.
-/

namespace OctreeWorld

variable {σ N L : Type}

namespace Engine

/-! ### An engine with one world -/

/-- What a phase does to one world and to the state of the processors. -/
def work (e : Engine σ N L) : Phase → World σ N L → σ → World σ N L × σ
  | .loader, w, s => (e.stampWorld w, s)
  | .levelWorker, w, s => (e.streamWorld w s).2
  | .regionWorker, w, s => (e.tickRegions w s).2
  | .worldWorker, w, s => (w.worldWorkerPhase s).2
  | .create, w, s => (w.createPhase.2, s)
  | .load, w, s => (w.loadPhase s).2
  | .unload, w, s => (w.unloadPhase s).2
  | .destroy, w, s => (w.destroyPhase s).2
  | .finish, w, s => (w, s)

variable {e : Engine σ N L} {p : Phase} {w w' : World σ N L}

theorem work_works (e : Engine σ N L) (p : Phase) (w : World σ N L) (s : σ) :
    e.Works p w (e.work p w s).1 := by
  cases p with
  | loader | create | finish => rfl
  | _ => exact ⟨s, rfl⟩

theorem perform_of_single (single : e.worlds = [w]) (p : Phase) (elapsed : Duration) (s : σ) :
    (e.perform p elapsed s).2.1.worlds = [(e.work p w s).1] ∧
      (e.perform p elapsed s).2.2 = (e.work p w s).2 := by
  cases p with
  | loader =>
    refine ⟨?_, rfl⟩
    change e.loaderPhase.2.worlds = _
    rw [loaderPhase_worlds, single]
    rfl
  | levelWorker | regionWorker =>
    simp only [perform, levelWorkerPhase, regionWorkerPhase, single]
    exact ⟨rfl, rfl⟩
  | finish => exact ⟨single, rfl⟩
  | _ =>
    simp only [perform, worldPhase, single]
    exact ⟨rfl, rfl⟩

theorem Works.follows (works : e.Works p w w') (reached : w.Reached NodeEdit.Calm)
    (regions : w.regions = []) : w.Follows w' := by
  have same : w'.regions = w.regions := by
    cases p with
    | regionWorker =>
      obtain ⟨s, rfl⟩ := works
      rw [tickRegions_world, World.regionWorkerPhase_eq, regions]
      rfl
    | _ =>
      obtain ⟨h, regions', tick, now, rfl, others, -⟩ := works.parts
      exact others nofun
  obtain ⟨h, regions', tick, now, rfl, -⟩ := works.parts
  exact ⟨works.reached reached, rfl, rfl, same⟩

end Engine

namespace World

variable [ArchiveFormat] {slot : Slot σ Archive} {encoding : Encoding N Bytes}
  {factory : PayloadFactory N L} {p : Phase} {kept : Coord → Option (UInt32 × N)}
  {w : World σ N L} {s : σ}

/-- Every phase passes on what the archive owes the cells. -/
theorem Archived.passes (archived : w.Archived slot encoding factory p kept s)
    (lawful : slot.Lawful) (lossless : Archive.Lossless encoding) (e : Engine σ N L) :
    w.Passes slot encoding factory p kept (e.work p w s).1 (e.work p w s).2 := by
  have follows := (e.work_works p w s).follows archived.reached archived.regions
  cases p with
  | loader =>
    exact archived.age (by decide) follows
      ((Hierarchy.keepAliveAll_levelwise e.now e.loaderList w.hierarchy).imp
        fun _ _ => Level.Called.ages (N := N)).nodewise rfl
  | levelWorker =>
    exact archived.stream (fun l => Level.stream_called _ _ _ _ _ l) follows
  | regionWorker =>
    refine archived.age (by decide) follows (fun c => ?_) ?_
    · change Option.Rel Node.Ages (w.hierarchy.get? c) (w.hierarchy.get? c)
      cases w.hierarchy.get? c with
      | none => exact .none
      | some n => exact .some (.refl n)
    · simp only [Engine.work, Engine.tickRegions, regionWorkerPhase_eq, archived.regions]
      rfl
  | worldWorker => exact archived.work follows
  | create => exact archived.create follows
  | load => exact archived.load follows
  | unload => exact archived.unload lawful lossless follows
  | destroy => exact archived.destroy lawful lossless follows
  | finish => exact archived.finish

end World

/-! ### Cells through a tick -/

/-- A cell without a node when a tick begins, after some phases of it: still without, or with a node
that gets what was kept for the cell. -/
def Renewed (made : N) (first : Option (UInt32 × N)) (phases : Nat)
    (kept : Option (UInt32 × N)) : Option (Node N) → Prop
  | none => phases ≤ 4 → kept = first
  | some m => 5 ≤ phases ∧ Archive.due made kept m = first.getD (0, made)

theorem Handled.renewed {made : Coord → N} {kept : Coord → Option (UInt32 × N)} {p : Phase}
    {before after : Coord → Option (Node N)} (handled : Handled made kept p before after)
    {c : Coord} {first : Option (UInt32 × N)}
    (renewed : Renewed (made c) first p.index (kept c) (before c)) :
    Renewed (made c) first (p.index + 1) (departed before after kept c) (after c) := by
  cases found : before c with
  | none =>
    rw [found] at renewed
    rw [departed_of_absent found]
    cases there : after c with
    | none => exact fun early => renewed (by omega)
    | some m =>
      -- The phase is creation, before which nothing has been removed from the cell in this tick.
      obtain ⟨rfl, loading⟩ := handled.newborn c m found there
      rw [Renewed, Archive.due, if_pos loading, renewed (Nat.le_refl 4)]
      exact ⟨Nat.le_refl 5, rfl⟩
  | some n =>
    rw [found] at renewed
    obtain ⟨late, same⟩ := renewed
    cases there : after c with
    | none => exact fun early => by omega
    | some m =>
      rw [departed_of_stays fun _ => by rw [there]; rfl, Renewed,
        handled.due (by omega) c n m found there]
      exact ⟨by omega, same⟩

/-! ### Runs -/

namespace Engine

/-- The node at a coordinate, of whatever world has one there. -/
def node? (e : Engine σ N L) (c : Coord) : Option (Node N) :=
  e.worlds.findSome? (·.hierarchy.get? c)

/-- Unload the subtree of a cell at once, in the world of an identifier. -/
def unloadNode (e : Engine σ N L) (id : WorldId) (c : Coord) (s : σ) : Engine σ N L × σ :=
  match e.world? id with
  | none => (e, s)
  | some w => (e.modifyWorld id fun _ => (w.unloadNode c s).2.1, (w.unloadNode c s).2.2)

theorem modifyWorld_of_single {e : Engine σ N L} {w : World σ N L} (single : e.worlds = [w])
    (id : WorldId) (f : World σ N L → World σ N L) :
    (e.modifyWorld id f).worlds = [if w.id = id then f w else w] := by
  rw [modifyWorld, single]
  rfl

theorem unloadNode_of_single {e : Engine σ N L} {w : World σ N L} (single : e.worlds = [w])
    (id : WorldId) (c : Coord) (s : σ) : e.unloadNode id c s = if w.id = id then
        (e.modifyWorld id fun _ => (w.unloadNode c s).2.1, (w.unloadNode c s).2.2)
      else (e, s) := by
  rw [unloadNode, world?, single, List.find?_singleton]
  by_cases named : w.id = id
  · rw [if_pos (beq_iff_eq.mpr named), if_pos named]
  · rw [if_neg (mt beq_iff_eq.mp named), if_neg named]

theorem node?_of_single {e : Engine σ N L} {w : World σ N L} (single : e.worlds = [w]) :
    e.node? = w.hierarchy.get? := by
  funext c
  rw [node?, single, List.findSome?_cons, List.findSome?_nil]
  cases w.hierarchy.get? c <;> rfl

/-- The runs of an engine with one world without regions, whose nodes load from an archive that is
empty at first and used for nothing else, and unload to it. Phases run in turn, loaders come, move
and go, and time moves on; between ticks cells are requested and unloaded, and nodes are edited in
whatever way does not write states. A run is followed by the content that the node last removed from
each cell had. -/
inductive Archiving [ArchiveFormat] (slot : Slot σ Archive) (encoding : Encoding N Bytes)
    (factory : PayloadFactory N L) :
    Engine σ N L → σ → (Coord → Option (UInt32 × N)) → Prop
  | start {e : Engine σ N L} {s : σ} (vacant : e.worlds = [])
      (between : e.cursor.expected = .loader) (id : WorldId) (shape : WorldConfig) (bounds : Box)
      {processors : ProcessorRegistry σ N L}
      (archives : processors.Archives slot encoding) (empty : slot.get s = Archive.empty) :
      Archiving slot encoding factory
        (e.insertWorld { (World.empty id shape factory : World σ N L) with bounds, processors }) s
        fun _ => none
  | phase {e s kept e' s' n} (run : Archiving slot encoding factory e s kept) {p : Phase}
      {elapsed : Duration} (done : e.runPhase p elapsed s = .ok (n, e', s')) :
      Archiving slot encoding factory e' s' (departed e.node? e'.node? kept)
  | queueCreate {e s kept} (run : Archiving slot encoding factory e s kept)
      (between : e.cursor.expected = .loader) (id : WorldId) (c : Coord) :
      Archiving slot encoding factory (e.modifyWorld id (·.queueCreate c)) s kept
  | unloadNode {e s kept} (run : Archiving slot encoding factory e s kept)
      (between : e.cursor.expected = .loader) (id : WorldId) (c : Coord) :
      Archiving slot encoding factory (e.unloadNode id c s).1 (e.unloadNode id c s).2
        (departed e.node? (e.unloadNode id c s).1.node? kept)
  | edit {e s kept} (run : Archiving slot encoding factory e s kept)
      (between : e.cursor.expected = .loader) (id : WorldId) (c : Coord) (edit : NodeEdit N L)
      (calm : edit.Calm) :
      Archiving slot encoding factory
        (e.modifyWorld id (·.modifyLevel c.level (·.editNode c edit))) s kept
  | addLoader {e s kept} (run : Archiving slot encoding factory e s kept) (id : LoaderId)
      (l : Loader) : Archiving slot encoding factory (e.addLoader id l) s kept
  | modifyLoader {e s kept} (run : Archiving slot encoding factory e s kept) (id : LoaderId)
      (f : Loader → Loader) : Archiving slot encoding factory (e.modifyLoader id f) s kept
  | removeLoader {e s kept} (run : Archiving slot encoding factory e s kept) (id : LoaderId) :
      Archiving slot encoding factory (e.removeLoader id) s kept
  | advanceTime {e s kept} (run : Archiving slot encoding factory e s kept) (d : Duration) :
      Archiving slot encoding factory (e.advanceTime d) s kept

section Survival

variable [ArchiveFormat] {slot : Slot σ Archive} {encoding : Encoding N Bytes}
  {factory : PayloadFactory N L}
  {kept : Coord → Option (UInt32 × N)} {e e' : Engine σ N L} {w : World σ N L} {s s' : σ}

/-- The new world of an engine. -/
theorem archived_start (e : Engine σ N L) (id : WorldId) (shape : WorldConfig) (bounds : Box)
    {processors : ProcessorRegistry σ N L} (archives : processors.Archives slot encoding)
    (empty : slot.get s = Archive.empty) :
    ({ (World.empty id shape factory : World σ N L) with bounds, processors }.setTime
      e.tick e.now).Archived slot encoding factory .loader (fun _ => none) s := by
  have absent : ∀ c, (Hierarchy.empty factory shape.levelCount).get? c = none :=
    Hierarchy.empty_get? factory shape.levelCount
  refine ⟨?_, archives, rfl, rfl, fun c => ?_, fun c n found => ?_, fun c n found => ?_⟩
  · exact (((World.Reached.empty id shape factory).bounds bounds).register archives.obey).setTime
      e.tick e.now
  · change Archive.Backs encoding (slot.get s) c _ none
      ((Hierarchy.empty factory shape.levelCount).get? c)
    rw [absent, Archive.Backs, empty]
    rfl
  · cases (absent c).symm.trans found
  · cases (absent c).symm.trans found

variable (lawful : slot.Lawful) (lossless : Archive.Lossless encoding)

include lawful lossless

/-- One phase of an engine with one world. -/
theorem passes_of_runPhase (single : e.worlds = [w])
    (archived : w.Archived slot encoding factory e.cursor.expected kept s) {p : Phase}
    {elapsed : Duration} {n : Nat} (done : e.runPhase p elapsed s = .ok (n, e', s')) :
    p = e.cursor.expected ∧ e'.cursor.expected = p.next ∧
      ∃ w', e'.worlds = [w'] ∧ w.Passes slot encoding factory p kept w' s' := by
  rw [runPhase_eq] at done
  split at done
  · rename_i expected
    subst expected
    have result := Except.ok.inj done
    have worked := perform_of_single (e := { e with cursor := ⟨e.cursor.expected.next⟩ }) single
      e.cursor.expected elapsed s
    have cursor := perform_cursor { e with cursor := ⟨e.cursor.expected.next⟩ } e.cursor.expected
      elapsed s
    rw [result] at worked cursor
    refine ⟨rfl, congrArg PhaseCursor.expected cursor, _, worked.1, ?_⟩
    rw [show s' = _ from worked.2]
    exact archived.passes lawful lossless _
  · cases done

/-- In every run the archive has for each cell what it owes it. -/
theorem Archiving.archived (run : Archiving slot encoding factory e s kept) :
    ∃ w, e.worlds = [w] ∧ w.Archived slot encoding factory e.cursor.expected kept s := by
  induction run with
  | start vacant between id shape bounds archives empty =>
    refine ⟨_, congrArg (· ++ [_]) vacant, ?_⟩
    rw [insertWorld, between]
    exact archived_start _ id shape bounds archives empty
  | phase run done ih =>
    obtain ⟨w, single, archived⟩ := ih
    obtain ⟨-, cursor, w', single', passes⟩ :=
      passes_of_runPhase lawful lossless single archived done
    refine ⟨w', single', ?_⟩
    rw [cursor, node?_of_single single, node?_of_single single']
    exact passes.next
  | queueCreate run between id c ih =>
    obtain ⟨w, single, archived⟩ := ih
    refine ⟨_, modifyWorld_of_single single id _, ?_⟩
    rw [between] at archived
    rw [modifyWorld, between]
    split
    · exact archived.queueCreate c
    · exact archived
  | @unloadNode e s kept run between id c ih =>
    obtain ⟨w, single, archived⟩ := ih
    rw [between] at archived
    rw [unloadNode_of_single single]
    split
    · rename_i named
      have single' := modifyWorld_of_single single id fun _ => (w.unloadNode c s).2.1
      rw [if_pos named] at single'
      refine ⟨_, single', ?_⟩
      rw [node?_of_single single', node?_of_single single, modifyWorld, between]
      exact archived.unloadNode lawful lossless c
    · rw [departed_eq fun _ resident => resident, between]
      exact ⟨w, single, archived⟩
  | edit run between id c edit calm ih =>
    obtain ⟨w, single, archived⟩ := ih
    refine ⟨_, modifyWorld_of_single single id _, ?_⟩
    rw [between] at archived
    rw [modifyWorld, between]
    split
    · exact archived.edit c calm
    · exact archived
  | addLoader run id l ih => exact ih
  | modifyLoader run id f ih => exact ih
  | removeLoader run id ih => exact ih
  | advanceTime run d ih => exact ih

/-- Phases in turn, the given number of them into a tick: at each cell without a node when the tick
began, a node gets what was kept for the cell. -/
theorem Archiving.renewed (run : Archiving slot encoding factory e s kept) {i : Nat}
    (turn : e.cursor.expected.index = i % 9) {ps : List Phase} (room : i + ps.length ≤ 9)
    {elapsed : Duration} (done : runPhases elapsed ps e s = .ok (e', s')) :
    ∃ kept', Archiving slot encoding factory e' s' kept' ∧
      e'.cursor.expected.index = (i + ps.length) % 9 ∧
      ∀ c first, Renewed (factory.node c) first i (kept c) (e.node? c) →
        Renewed (factory.node c) first (i + ps.length) (kept' c) (e'.node? c) := by
  induction ps generalizing i e s kept with
  | nil =>
    cases done
    exact ⟨kept, run, turn, fun c first renewed => renewed⟩
  | cons p ps ih =>
    rw [List.length_cons] at room
    rw [runPhases] at done
    cases result : e.runPhase p elapsed s with
    | error err =>
      rw [result] at done
      cases done
    | ok result' =>
      obtain ⟨n, e₁, s₁⟩ := result'
      rw [result] at done
      obtain ⟨w, single, archived⟩ := run.archived lawful lossless
      obtain ⟨expected, cursor, w₁, single₁, passes⟩ :=
        passes_of_runPhase lawful lossless single archived result
      have index : p.index = i := by
        rw [expected, turn]
        exact Nat.mod_eq_of_lt (by omega)
      have turn₁ : e₁.cursor.expected.index = (i + 1) % 9 := by
        rw [cursor, Phase.index_next, index]
      obtain ⟨kept', run', turn', later⟩ := ih (run.phase result) turn₁ (by omega) done
      have count : i + (p :: ps).length = i + 1 + ps.length := by
        rw [List.length_cons]
        omega
      rw [count]
      refine ⟨kept', run', turn', fun c first renewed => later c first ?_⟩
      rw [node?_of_single single] at renewed ⊢
      rw [node?_of_single single₁]
      subst index
      exact passes.handled.renewed renewed

/-- A tick runs, and each node that it leaves at a cell that had none gets what was kept for it. -/
theorem Archiving.tick (run : Archiving slot encoding factory e s kept)
    (between : e.cursor.expected = .loader) (elapsed : Duration) :
    ∃ e' s' kept', e.runTick elapsed s = .ok (e', s') ∧
      Archiving slot encoding factory e' s' kept' ∧
      ∀ c m, e.node? c = none → e'.node? c = some m →
        m.InUse ∧ m.content = (kept c).getD (0, factory.node c) := by
  obtain ⟨e', s', done, -⟩ := runPhases_ran between (n := 9) (by decide) elapsed s
  obtain ⟨kept', run', turn, renewed⟩ := run.renewed lawful lossless (i := 0)
    (by rw [between]; rfl) (by decide) done
  refine ⟨e', s', kept', done, run', fun c m absent there => ?_⟩
  obtain ⟨w, single, archived⟩ := run'.archived lawful lossless
  have between' : e'.cursor.expected = .loader := Phase.index_injective turn
  have last := renewed c (kept c) (by rw [absent]; exact fun _ => rfl)
  rw [there] at last
  rw [node?_of_single single] at there
  rw [between'] at archived
  have inUse := archived.inUse Phase.noConfusion Phase.noConfusion there
  refine ⟨inUse, ?_⟩
  rw [← last.2, Archive.due, if_neg inUse.1]

/-- Whatever is done in whatever order, payloads survive the removal of their nodes: the archive is
never ahead of a node in use, so that no unload is refused; it has the content of each node that is
gone or about to go; each node that loads, and each that a tick leaves at a cell that had none, gets
the content of the node last removed from there, or is as the factory makes it if there was none;
and between ticks every node is in use and the next tick runs. -/
theorem payloads_survive (run : Archiving slot encoding factory e s kept) :
    (∀ c n, e.node? c = some n → n.InUse →
      (∀ held, (slot.get s).version? c = some held → held ≤ n.version) ∧
        ∀ now, ((slot.get s).store encoding c n.version now n.data).1 = true) ∧
    (∀ c, e.node? c = none → (slot.get s).restore encoding c 0 = .ok (kept c)) ∧
    (∀ c n, e.node? c = some n → n.state = .deleting →
      (slot.get s).restore encoding c 0 = .ok (some n.content)) ∧
    (∀ elapsed count e' s', e.runPhase .load elapsed s = .ok (count, e', s') →
      ∀ c n, e.node? c = some n → n.state = .loading → ∃ m, e'.node? c = some m ∧
        m.state = .loaded ∧ m.content = (kept c).getD (0, factory.node c)) ∧
    (e.cursor.expected = .loader →
      (∀ c n, e.node? c = some n → n.InUse) ∧
      ∀ elapsed, ∃ e' s' kept', e.runTick elapsed s = .ok (e', s') ∧
        Archiving slot encoding factory e' s' kept' ∧
        ∀ c m, e.node? c = none → e'.node? c = some m →
          m.InUse ∧ m.content = (kept c).getD (0, factory.node c)) := by
  obtain ⟨w, single, archived⟩ := run.archived lawful lossless
  rw [node?_of_single single]
  refine ⟨fun c n found inUse => ?_, fun c absent => ?_, fun c n found deleting => ?_,
    fun elapsed count e' s' done c n found loading => ?_, fun between => ⟨fun c n found => ?_,
      fun elapsed => ?_⟩⟩
  · have backs := archived.backs c
    rw [found, Archive.backs_inUse inUse] at backs
    exact ⟨backs, fun now => by rw [Archive.store_of_accepted backs]⟩
  · have backs := archived.backs c
    rwa [absent] at backs
  · have backs := archived.backs c
    rwa [found, Archive.backs_deleting deleting] at backs
  · obtain ⟨-, -, w', single', passes⟩ := passes_of_runPhase lawful lossless single archived done
    rw [node?_of_single single']
    obtain ⟨m, there⟩ := Option.isSome_iff_exists.mp
      (passes.handled.stays Phase.noConfusion c (by rw [found]; rfl))
    have loaded := passes.handled.loaded rfl c n m found there loading
    have same := passes.handled.due (by decide) c n m found there
    rw [Archive.due, Archive.due, if_pos loading, loaded, if_neg NodeState.noConfusion] at same
    exact ⟨m, there, loaded, same⟩
  · rw [between] at archived
    exact archived.inUse Phase.noConfusion Phase.noConfusion found
  · rw [← node?_of_single single]
    exact run.tick lawful lossless between elapsed

end Survival

/-! ### A mark -/

namespace Marking

/-- A world of one level that keeps a mark for each cell, at first not set. -/
def world : World Archive Bool Unit :=
  { (World.empty default { levelCount := 1 } ⟨fun _ => false, fun _ => ()⟩ :
      World Archive Bool Unit) with
    processors :=
      { load := [Archive.loadProcessor (.whole Archive) Codec.bool]
        unload := [Archive.unloadProcessor (.whole Archive) Codec.bool] } }

def engine : Engine Archive Bool Unit :=
  ({ config := {}, threads := 1 } : Engine Archive Bool Unit).insertWorld world

def cell : Coord := ⟨⟨0, 0, 0⟩, 0⟩

/-- A tick of no duration on request of the cell. -/
def reload (e : Engine Archive Bool Unit) (a : Archive) :
    Except OutOfOrder (Engine Archive Bool Unit × Archive) :=
  (e.modifyWorld default (·.queueCreate cell)).runTick Duration.zero a

def loaded : Engine Archive Bool Unit × Archive :=
  (reload engine Archive.empty).toOption.getD (engine, Archive.empty)

/-- The cell has its mark and a version. -/
def marked : Engine Archive Bool Unit :=
  (loaded.1.modifyWorld default (·.modifyLevel cell.level (·.editNode cell (.setData true))))
    |>.modifyWorld default (·.modifyLevel cell.level (·.editNode cell .bumpVersion))

def unloaded : Engine Archive Bool Unit × Archive := marked.unloadNode default cell loaded.2

end Marking

open Marking in
/-- A cell that is marked, unloaded and requested again has its mark again. -/
theorem mark_survives :
    ∃ kept, Archiving (.whole Archive) Codec.bool world.factory unloaded.1 unloaded.2 kept ∧
      unloaded.1.node? cell = none ∧
      ∃ e s m, reload unloaded.1 unloaded.2 = .ok (e, s) ∧ e.node? cell = some m ∧
        m.content = (1, true) := by
  have lawful : (Slot.whole Archive).Lawful := fun _ _ => rfl
  have lossless : Archive.Lossless (N := Bool) Codec.bool := by
    refine ⟨Zstandard.encoding_lossless, fun mark => ?_⟩
    cases mark <;> rfl
  have start : Archiving (.whole Archive) Codec.bool world.factory engine Archive.empty
      fun _ => none :=
    .start rfl rfl default { levelCount := 1 } Box.everything ⟨rfl, rfl, nofun, nofun, nofun⟩ rfl
  have between : engine.cursor.expected = .loader := rfl
  obtain ⟨e, s, kept, done, run, -⟩ := (payloads_survive lawful lossless
    (start.queueCreate between default cell)).2.2.2.2 between |>.2 Duration.zero
  have first : loaded = (e, s) := by
    rw [loaded, show reload engine Archive.empty = .ok (e, s) from done]
    rfl
  obtain rfl : e = loaded.1 := by rw [first]
  obtain rfl : s = loaded.2 := by rw [first]
  have between₁ : loaded.1.cursor.expected = .loader := by decide +kernel
  have removed : Archiving (.whole Archive) Codec.bool world.factory unloaded.1 unloaded.2
      (departed marked.node? unloaded.1.node? kept) :=
    ((run.edit between₁ default cell (.setData true) nofun).edit between₁ default cell
      .bumpVersion nofun).unloadNode between₁ default cell
  have gone : unloaded.1.node? cell = none := Option.isNone_iff_eq_none.mp (by decide +kernel)
  have mark : (marked.node? cell).map Node.content = some (1, true) := by decide +kernel
  have left : departed marked.node? unloaded.1.node? kept cell = some (1, true) := by
    obtain ⟨n, found, content⟩ := Option.map_eq_some_iff.mp mark
    rw [departed, found, gone, ← content]
  have between₂ : unloaded.1.cursor.expected = .loader := by decide +kernel
  obtain ⟨e, s, -, again, -, back⟩ := (payloads_survive lawful lossless
    (removed.queueCreate between₂ default cell)).2.2.2.2 between₂ |>.2 Duration.zero
  have resident : ((reload unloaded.1 unloaded.2).toOption.bind fun r =>
      r.1.node? cell).isSome = true := by decide +kernel
  rw [show reload unloaded.1 unloaded.2 = .ok (e, s) from again] at resident
  obtain ⟨m, found⟩ := Option.isSome_iff_exists.mp resident
  have away : (unloaded.1.modifyWorld default (·.queueCreate cell)).node? cell = none :=
    Option.isNone_iff_eq_none.mp (by decide +kernel)
  have content := (back cell m away found).2
  rw [left] at content
  exact ⟨_, removed, gone, e, s, m, again, found, content⟩

end Engine

end OctreeWorld
