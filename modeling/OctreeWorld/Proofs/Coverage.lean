import Mathlib.Data.Finset.Card
import OctreeWorld.Proofs.Service
import OctreeWorld.Proofs.Settling

/-!
# Loaders get what they cover

A tick that starts with nothing to unload or destroy keeps every node that a loader covers, loads as
many of the missing cells as the budget grants, and removes only leaves that eviction picked and
that are leaves still when creation is over.
-/

namespace OctreeWorld

variable {N L σ : Type}

/-- How many of a number of missing cells one level may request. -/
def StreamConfig.granted (config : StreamConfig) (count : Nat) : Nat :=
  match config.createBudget with
  | none => count
  | some b => min b.toNat count

/-- Whether the cell is resident and loaded. -/
def Hierarchy.isLoaded (h : Hierarchy N L) (c : Coord) : Bool :=
  (h.get? c).any (·.state == .loaded)

theorem Hierarchy.isLoaded_iff {h : Hierarchy N L} {c : Coord} :
    h.isLoaded c = true ↔ ∃ n, h.get? c = some n ∧ n.state = .loaded := by
  rw [isLoaded, Option.any_eq_true]
  simp only [beq_iff_eq]

namespace Engine

/-- Some loader covers the cell, whether or not it is active. -/
def Covers (e : Engine σ N L) (c : Coord) : Prop := ∃ ld ∈ e.loaderList, c ∈ ld.cells c.level

/-- The cells of a level that active loaders cover and that are not resident. -/
def missing (e : Engine σ N L) (w : World σ N L) (i : UInt8) : Finset Coord :=
  (((e.loaderList.filter (·.isActive e.tick)).flatMap (·.cells i)).filter
    (!w.hierarchy.contains ·)).toFinset

/-- The world at an index once the phases have run in turn. -/
def Leaves (e : Engine σ N L) (elapsed : Duration) (s : σ) (ps : List Phase) (k : Nat)
    (w : World σ N L) : Prop :=
  ∃ e' s', runPhases elapsed ps e s = .ok (e', s') ∧ e'.worlds[k]? = some w

/-- What a tick does for the loaders of an engine in a world that was `w` before it, `w₁` when the
level workers began, `w₅` when creation was over, and `w'` in the end. -/
structure Serves (e : Engine σ N L) (w w₁ w₅ w' : World σ N L) : Prop where
  kept : ∀ c n, w.hierarchy.get? c = some n → e.Covers c →
    ∃ n', w'.hierarchy.get? c = some n' ∧ n'.state = w.hierarchy.loadedState c n
  granted : ∀ i < w.hierarchy.levelCount, e.config.stream.levelDue e.tick i = true →
    e.config.stream.granted (e.missing w i).card ≤
      ((e.missing w i).filter fun c => w'.hierarchy.isLoaded c).card
  complete : e.config.stream.createBudget = none → ∀ i < w.hierarchy.levelCount,
    e.config.stream.levelDue e.tick i = true →
      ∀ c ∈ e.missing w i, w'.hierarchy.isLoaded c = true
  removed : ∀ c, w.hierarchy.contains c = true ∨ w₅.hierarchy.contains c = true →
    w'.hierarchy.contains c = false →
      (∃ n, w₁.hierarchy.get? c = some n ∧ n.state = .loaded ∧ n.isLeaf = true ∧
        n.observers = 0 ∧ n.isExpired e.now w.config.evictionTimeout = true) ∧
      ¬ e.Covers c ∧ ∃ n, w₅.hierarchy.get? c = some n ∧ n.isLeaf = true

theorem mem_missing {e : Engine σ N L} {w : World σ N L} {i : UInt8} {c : Coord} :
    c ∈ e.missing w i ↔ (∃ ld ∈ e.loaderList, ld.isActive e.tick = true ∧ c ∈ ld.cells i) ∧
      w.hierarchy.contains c = false := by
  simp only [missing, List.mem_toFinset, List.mem_filter, List.mem_flatMap, and_assoc,
    Bool.not_eq_true']

namespace Prepared

variable {e : Engine σ N L} {w w₅ w' : World σ N L}

/-- No node that a loader covers is queued for unloading. -/
theorem not_covers (prepared : e.Prepared w w₅) {c : Coord}
    (queued : c ∈ w₅.hierarchy.pending c.level .unload) : ¬ e.Covers c := by
  rintro ⟨ld, listed, covered⟩
  obtain ⟨n, found, unused⟩ := prepared.unused c queued
  have stamped : e.now.micros ≤ n.lastUpdate.micros :=
    Hierarchy.stamped_keepAliveAll found listed covered
  rw [Level.not_isUnused stamped] at unused
  cases unused

/-- Only nodes that were resident before are queued for unloading. -/
theorem resident (prepared : e.Prepared w w₅) {c : Coord}
    (queued : c ∈ w₅.hierarchy.pending c.level .unload) : w.hierarchy.contains c = true := by
  obtain ⟨n, found, -⟩ := prepared.unused c queued
  obtain ⟨m, before, -⟩ := (stampWorld_retouched e w).retouched_back found
  exact Hierarchy.contains_iff.mpr ⟨m, before⟩

section Rest

variable (prepared : e.Prepared w w₅) (calm : w₅.processors.toNodeProcessors.Obey NodeEdit.Calm)
  (ran : e.Ran [.load, .unload, .destroy, .finish] w₅ w')

include prepared calm ran

theorem settles {c : Coord} {n : Node N} (found : w₅.hierarchy.get? c = some n)
    (away : c ∉ w₅.hierarchy.pending c.level .unload) :
    ∃ n', w'.hierarchy.get? c = some n' ∧ n'.state = w₅.hierarchy.loadedState c n := by
  obtain ⟨n', found', state⟩ :=
    ran.settled prepared.linked calm prepared.destroy found fun both => away both.1
  exact ⟨n', found', state away⟩

theorem kept {c : Coord} {n : Node N} (found : w.hierarchy.get? c = some n) (covered : e.Covers c) :
    ∃ n', w'.hierarchy.get? c = some n' ∧ n'.state = w.hierarchy.loadedState c n := by
  obtain ⟨n₅, found₅, state₅⟩ := prepared.node c n found
  have away : c ∉ w₅.hierarchy.pending c.level .unload :=
    fun queued => prepared.not_covers queued covered
  rw [if_neg away] at state₅
  obtain ⟨n', found', state'⟩ := prepared.settles calm ran found₅ away
  refine ⟨n', found', ?_⟩
  have load := prepared.load c (Hierarchy.contains_iff.mpr ⟨n, found⟩)
  simp only [state', Hierarchy.loadedState, state₅, load]

/-- What was created in this tick is loaded in this tick. -/
theorem loads {c : Coord} (here : w₅.hierarchy.contains c = true)
    (absent : w.hierarchy.contains c = false) : w'.hierarchy.isLoaded c = true := by
  obtain ⟨n, found⟩ := Hierarchy.contains_iff.mp here
  obtain ⟨state, queued⟩ := prepared.newborn c n found absent
  have away : c ∉ w₅.hierarchy.pending c.level .unload := by
    intro doomed
    rw [prepared.resident doomed] at absent
    cases absent
  obtain ⟨n', found', state'⟩ := prepared.settles calm ran found away
  rw [Hierarchy.loadedState, if_pos ⟨state, queued⟩] at state'
  exact Hierarchy.isLoaded_iff.mpr ⟨n', found', state'⟩

/-- The requests of a due level that are loaded in the end: all missing cells, or as many as the
budget allows. -/
theorem loaded {i : UInt8} (inside : i < w.hierarchy.levelCount)
    (due : e.config.stream.levelDue e.tick i = true) :
    (∀ c ∈ e.missing w i, w'.hierarchy.isLoaded c = true) ∨
      ∃ b, e.config.stream.createBudget = some b ∧
        b.toNat ≤ ((e.missing w i).filter fun c => w'.hierarchy.isLoaded c).card := by
  obtain ⟨requested, distinct, asked, enough⟩ := prepared.served i inside
  rcases enough due with all | ⟨b, budget, full⟩
  · refine Or.inl fun c mem => ?_
    obtain ⟨wanted, absent⟩ := mem_missing.mp mem
    exact prepared.loads calm ran (asked c (all c wanted absent)).1 absent
  · refine Or.inr ⟨b, budget, ?_⟩
    have subset : requested.toFinset ⊆
        (e.missing w i).filter fun c => w'.hierarchy.isLoaded c := by
      intro c mem
      obtain ⟨here, absent, wanted⟩ := asked c (List.mem_toFinset.mp mem)
      exact Finset.mem_filter.mpr
        ⟨mem_missing.mpr ⟨wanted, absent⟩, prepared.loads calm ran here absent⟩
    have count := Finset.card_le_card subset
    rw [List.toFinset_card_of_nodup distinct] at count
    omega

theorem granted {i : UInt8} (inside : i < w.hierarchy.levelCount)
    (due : e.config.stream.levelDue e.tick i = true) :
    e.config.stream.granted (e.missing w i).card ≤
      ((e.missing w i).filter fun c => w'.hierarchy.isLoaded c).card := by
  rcases prepared.loaded calm ran inside due with all | ⟨b, budget, full⟩
  · rw [Finset.filter_true_of_mem all]
    unfold StreamConfig.granted
    split
    · exact Nat.le_refl _
    · exact Nat.min_le_right _ _
  · rw [StreamConfig.granted, budget]
    exact (Nat.min_le_left _ _).trans full

theorem removed {c : Coord}
    (before : w.hierarchy.contains c = true ∨ w₅.hierarchy.contains c = true)
    (gone : w'.hierarchy.contains c = false) :
    c ∈ w₅.hierarchy.pending c.level .unload ∧
      ∃ n, w₅.hierarchy.get? c = some n ∧ n.isLeaf = true := by
  have here : w₅.hierarchy.contains c = true := by
    rcases before with before | before
    · obtain ⟨n, found⟩ := Hierarchy.contains_iff.mp before
      obtain ⟨n₅, found₅, -⟩ := prepared.node c n found
      exact Hierarchy.contains_iff.mpr ⟨n₅, found₅⟩
    · exact before
  obtain ⟨n, found⟩ := Hierarchy.contains_iff.mp here
  have doomed : c ∈ w₅.hierarchy.pending c.level .unload ∧ n.isLeaf = true := by
    by_contra stays
    obtain ⟨n', found', -⟩ := ran.settled prepared.linked calm prepared.destroy found stays
    rw [Hierarchy.contains_eq_false_iff, found'] at gone
    cases gone
  exact ⟨doomed.1, n, found, doomed.2⟩

/-- The rest of the tick finishes what the phases up to creation have prepared. -/
theorem serves : e.Serves w (e.stampWorld w) w₅ w' := by
  refine ⟨fun c n found covered => prepared.kept calm ran found covered,
    fun i inside due => prepared.granted calm ran inside due, ?_, ?_⟩
  · intro unlimited i inside due
    rcases prepared.loaded calm ran inside due with all | ⟨b, budget, -⟩
    · exact all
    · rw [unlimited] at budget
      cases budget
  · intro c before gone
    obtain ⟨queued, leaf⟩ := prepared.removed calm ran before gone
    obtain ⟨n, found, unused⟩ := prepared.unused c queued
    simp only [Node.isUnused, Bool.and_eq_true, beq_iff_eq] at unused
    obtain ⟨⟨⟨leaf₁, observers⟩, state⟩, expired⟩ := unused
    exact ⟨⟨n, found, state, leaf₁, observers, expired⟩, prepared.not_covers queued, leaf⟩

end Rest

end Prepared

theorem worlds_of_insertWorld (config : EngineConfig) (threads : Nat) (w : World σ N L)
    (id : LoaderId) (l : Loader) :
    ((({ config, threads } : Engine σ N L).insertWorld w).addLoader id l).worlds[0]? =
      some (w.setTime 0 SimTime.zero) := rfl

/-! ### The phases of a tick -/

/-- A tick whose turn it is runs to its end, and takes each world through its phases. -/
theorem tick_leaves {e : Engine σ N L} (ready : e.cursor.expected = .loader) {k : Nat}
    {w : World σ N L} (at_ : e.worlds[k]? = some w) (elapsed : Duration) (s : σ) :
    ∃ w₅ w', e.Leaves elapsed s [.loader] k (e.stampWorld w) ∧
      e.Leaves elapsed s [.loader, .levelWorker, .regionWorker, .worldWorker, .create] k w₅ ∧
      e.Leaves elapsed s Phase.all k w' ∧
      e.Ran [.levelWorker, .regionWorker, .worldWorker, .create] (e.stampWorld w) w₅ ∧
      e.Ran [.load, .unload, .destroy, .finish] w₅ w' := by
  obtain ⟨e₁, s₁, run₁, worlds₁, ends₁⟩ := runPhases_ran ready (n := 1) (by decide) elapsed s
  obtain ⟨setting₁, index₁⟩ := ends₁ (by decide)
  have ready₁ : e₁.cursor.expected = .levelWorker := Phase.index_injective index₁
  obtain ⟨e₅, s₅, run₅, worlds₅, ends₅⟩ := runPhases_ran ready₁ (n := 4) (by decide) elapsed s₁
  obtain ⟨setting₅, index₅⟩ := ends₅ (by decide)
  have ready₅ : e₅.cursor.expected = .load := Phase.index_injective index₅
  obtain ⟨e', s', run, worlds, -⟩ := runPhases_ran ready₅ (n := 4) (by decide) elapsed s₅
  rw [ran_congr setting₁] at worlds₅
  rw [ran_congr (setting₅.trans setting₁)] at worlds
  obtain ⟨w₁, at₁, v, stamps, ends⟩ := getElem?_of_forall₂ worlds₁ at_
  obtain ⟨w₅, at₅, ran₅⟩ := getElem?_of_forall₂ worlds₅ at₁
  obtain ⟨w', at', ran'⟩ := getElem?_of_forall₂ worlds at₅
  have stamped : w₁ = e.stampWorld w := Eq.trans ends stamps
  rw [stamped] at at₁ ran₅
  have created : runPhases elapsed
      [.loader, .levelWorker, .regionWorker, .worldWorker, .create] e s = .ok (e₅, s₅) := by
    refine (runPhases_append elapsed (Phase.sequence 1 .loader) (Phase.sequence 4 .levelWorker) e
      s).trans ?_
    rw [run₁]
    exact run₅
  have completed : runPhases elapsed Phase.all e s = .ok (e', s') := by
    refine (runPhases_append elapsed [.loader, .levelWorker, .regionWorker, .worldWorker, .create]
      (Phase.sequence 4 .load) e s).trans ?_
    rw [created]
    exact run
  exact ⟨w₅, w', ⟨e₁, s₁, run₁, at₁⟩, ⟨e₅, s₅, created, at₅⟩, ⟨e', s', completed, at'⟩, ran₅, ran'⟩

/-- A tick that starts with nothing to unload or destroy, and with processors that leave states and
queues alone, serves the loaders. -/
theorem Reached.serves {e : Engine σ N L} (reached : e.Reached fun _ => True)
    (ready : e.cursor.expected = .loader) {k : Nat} {w : World σ N L} (at_ : e.worlds[k]? = some w)
    (calm : w.Undisturbed) (elapsed : Duration) (s : σ) :
    ∃ w₁ w₅ w', e.Leaves elapsed s [.loader] k w₁ ∧
      e.Leaves elapsed s [.loader, .levelWorker, .regionWorker, .worldWorker, .create] k w₅ ∧
      e.Leaves elapsed s Phase.all k w' ∧ e.Serves w w₁ w₅ w' := by
  obtain ⟨w₅, w', first, created, done, ran₅, ran'⟩ := tick_leaves ready at_ elapsed s
  have prepared := ran₅.prepared (reached.worlds w (List.mem_of_getElem? at_)) calm
  have keeps : w₅.processors = w.processors := ran₅.keeps.1
  exact ⟨e.stampWorld w, w₅, w', first, created, done,
    prepared.serves (by rw [keeps]; exact calm.node) ran'⟩

end Engine

/-- A node that waits for nothing but its load is loaded by the load phase. -/
theorem Hierarchy.Attended.loadedState {h : Hierarchy N L} (attended : h.Attended) {c : Coord}
    {n : Node N} (found : h.get? c = some n) (unload : h.pending c.level .unload = [])
    (destroy : h.pending c.level .destroy = []) : h.loadedState c n = .loaded := by
  obtain ⟨present, waits⟩ := attended c n found
  unfold Hierarchy.loadedState
  cases state : n.state with
  | loaded => rfl
  | unloaded => exact absurd state present
  | loading =>
    have queued := waits .load (by rw [state]; rfl)
    exact if_pos ⟨rfl, queued⟩
  | unloading =>
    have queued := waits .unload (by rw [state]; rfl)
    rw [unload] at queued
    cases queued
  | deleting =>
    have queued := waits .destroy (by rw [state]; rfl)
    rw [destroy] at queued
    cases queued

/-! ### What a tick guarantees -/

/-- Between ticks, with nothing to unload or destroy and with processors that leave states and
queues alone, a tick serves the loaders; a covered node whose state nobody wrote by hand is loaded
afterwards. -/
theorem tick_serves_loaders {e : Engine σ N L} (reached : e.Reached fun _ => True)
    (ready : e.cursor.expected = .loader) {k : Nat} {w : World σ N L} (at_ : e.worlds[k]? = some w)
    (calm : w.Undisturbed) (elapsed : Duration) (s : σ) :
    ∃ w₁ w₅ w' e' s', e.Leaves elapsed s [.loader] k w₁ ∧
      e.Leaves elapsed s [.loader, .levelWorker, .regionWorker, .worldWorker, .create] k w₅ ∧
      e.runTick elapsed s = .ok (e', s') ∧ e'.worlds[k]? = some w' ∧ e.Serves w w₁ w₅ w' ∧
      (e.Reached NodeEdit.Calm → ∀ c, w.hierarchy.contains c = true → e.Covers c →
        w'.hierarchy.isLoaded c = true) := by
  obtain ⟨w₁, w₅, w', first, created, ⟨e', s', done, at'⟩, serves⟩ :=
    reached.serves ready at_ calm elapsed s
  refine ⟨w₁, w₅, w', e', s', first, created, done, at', serves, ?_⟩
  intro unwritten c resident covered
  obtain ⟨n, found⟩ := Hierarchy.contains_iff.mp resident
  obtain ⟨n', found', state⟩ := serves.kept c n found covered
  have attended : w.hierarchy.Attended :=
    ((unwritten.worlds w (List.mem_of_getElem? at_)).sound Hierarchy.attended_kept).kept
  rw [attended.loadedState found (calm.unload _) (calm.destroy _)] at state
  exact Hierarchy.isLoaded_iff.mpr ⟨n', found', state⟩

/-- The first tick of a loader around a cell that has just been created. -/
theorem serves_around_cell :
    let c : Coord := ⟨⟨0, 0, 0⟩, 0⟩
    let e := (({ config := {}, threads := 1 } : Engine Unit Unit Unit).insertWorld
      ((World.empty default { levelCount := 2 } PayloadFactory.plain).queueCreate
        c).createPhase.2).addLoader default {}
    e.Reached (fun _ => True) ∧ e.cursor.expected = .loader ∧
      ∃ w, e.worlds[0]? = some w ∧ w.Undisturbed ∧ w.hierarchy.contains c = true ∧ e.Covers c ∧
        (e.missing w 0).card = 26 ∧
        ∃ w₁ w₅ w' e' s', e.Leaves Duration.zero () [.loader] 0 w₁ ∧
          e.Leaves Duration.zero ()
            [.loader, .levelWorker, .regionWorker, .worldWorker, .create] 0 w₅ ∧
          e.runTick Duration.zero () = .ok (e', s') ∧ e'.worlds[0]? = some w' ∧
          e.Serves w w₁ w₅ w' ∧
          (e.Reached NodeEdit.Calm → ∀ c, w.hierarchy.contains c = true → e.Covers c →
            w'.hierarchy.isLoaded c = true) := by
  intro c e
  let v : World Unit Unit Unit :=
    ((World.empty default { levelCount := 2 } PayloadFactory.plain).queueCreate c).createPhase.2
  have world : v.Reached fun _ => True := ((World.Reached.empty _ _ _).queueCreate c).createPhase
  have reached : e.Reached fun _ => True := by
    refine Engine.Reached.addLoader ?_ default {}
    exact Engine.Reached.insertWorld (.start {} 1) world
  have inserted := Engine.worlds_of_insertWorld {} 1 v default {}
  have calm : (v.setTime 0 SimTime.zero).Undisturbed :=
    World.undisturbed_of_isEmpty (by decide) (by decide)
  exact ⟨reached, rfl, v.setTime 0 SimTime.zero, inserted, calm, by decide,
    ⟨{}, by decide, by decide⟩, by decide,
    tick_serves_loaders reached rfl inserted calm Duration.zero ()⟩

/-- A covered node that was unloaded by hand stays unloaded, although nothing is pending. -/
theorem unloaded_by_hand :
    let c : Coord := ⟨⟨0, 0, 0⟩, 0⟩
    let created : World Unit Unit Unit :=
      ((World.empty default { levelCount := 1 } PayloadFactory.plain).queueCreate c).createPhase.2
    let e := (({ config := {}, threads := 1 } : Engine Unit Unit Unit).insertWorld
      ((created.loadPhase ()).2.1.modifyNode c (·.withState .unloaded))).addLoader default {}
    e.Reached (fun _ => True) ∧ e.cursor.expected = .loader ∧
      ∃ w, e.worlds[0]? = some w ∧ w.Undisturbed ∧
        (∀ c n, w.hierarchy.get? c = some n → n.state ≠ .unloading ∧ n.state ≠ .deleting) ∧
        w.hierarchy.contains c = true ∧ e.Covers c ∧
        ∃ e' s' w', e.runTick Duration.zero () = .ok (e', s') ∧ e'.worlds[0]? = some w' ∧
          w'.hierarchy.isLoaded c = false := by
  intro c created e
  let v := (created.loadPhase ()).2.1.modifyNode c (·.withState .unloaded)
  have world : v.Reached fun _ => True := by
    refine World.Reached.setState ?_ c trivial
    refine World.Reached.loadPhase ?_ ()
    exact ((World.Reached.empty _ _ _).queueCreate c).createPhase
  have reached : e.Reached fun _ => True := by
    refine Engine.Reached.addLoader ?_ default {}
    exact Engine.Reached.insertWorld (.start {} 1) world
  have inserted := Engine.worlds_of_insertWorld {} 1 v default {}
  have calm : (v.setTime 0 SimTime.zero).Undisturbed :=
    World.undisturbed_of_isEmpty (by decide) (by decide)
  have covered : e.Covers c := ⟨{}, by decide, by decide⟩
  have linked : v.hierarchy.Linked := (world.sound (.trivial _)).linked
  have steady : ∀ n ∈ v.hierarchy.nodeList, n.state = .unloaded := by decide
  have states : ∀ c n, v.hierarchy.get? c = some n → n.state = .unloaded :=
    fun c n found => steady n (linked.numbered.mem_nodeList.mpr ⟨c, found⟩)
  obtain ⟨n, found⟩ : ∃ n, v.hierarchy.get? c = some n := Option.isSome_iff_exists.mp (by decide)
  obtain ⟨w₁, w₅, w', -, -, ⟨e', s', done, at'⟩, serves⟩ :=
    reached.serves rfl inserted calm Duration.zero ()
  refine ⟨reached, rfl, v.setTime 0 SimTime.zero, inserted, calm, fun c n found => ?_,
    Hierarchy.contains_iff.mpr ⟨n, found⟩, covered, e', s', w', done, at', ?_⟩
  · rw [states c n found]
    exact ⟨NodeState.noConfusion, NodeState.noConfusion⟩
  · obtain ⟨n', found', state⟩ := serves.kept c n found covered
    rw [Hierarchy.isLoaded, found', Option.any_some, state, Hierarchy.loadedState, states c n found]
    rfl

end OctreeWorld
