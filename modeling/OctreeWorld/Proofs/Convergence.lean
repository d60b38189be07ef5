import Mathlib.Algebra.Group.Nat.Defs
import OctreeWorld.Proofs.Eviction

/-!
# Streaming converges

With loaders that stay where they are and without budgets, a world whose other nodes nobody needs
any more shrinks and grows to exactly what the loaders want: the cells they cover, with all their
ancestors. Every level is due once in a period. A due level requests all of its missing cells, so
one period is enough for what is missing; but eviction takes only leaves, so it clears the levels
one after the other, from the finest on, one in each period.
-/

namespace OctreeWorld

variable {N L σ : Type}

/-! ### When levels are due -/

/-- What happens every so many ticks, zero and one both meaning every tick, happens on the multiples
of that number or of one. -/
theorem every_iff (every : UInt32) (tick : UInt64) :
    (decide (every ≤ 1) || tick % every.toUInt64 == 0) = true ↔ max 1 every.toNat ∣ tick.toNat := by
  rw [Bool.or_eq_true, decide_eq_true_iff, beq_iff_eq, UInt32.le_iff_toNat_le, ← UInt64.toNat_inj,
    UInt64.toNat_mod, UInt32.toNat_toUInt64, UInt32.toNat_one, UInt64.toNat_zero]
  by_cases always : every.toNat ≤ 1
  · simp [always]
  · rw [Nat.max_eq_right (by omega), Nat.dvd_iff_mod_eq_zero]
    exact or_iff_right always

namespace StreamConfig

/-- The number of ticks in a row among which every level is due on one. -/
def period (config : StreamConfig) : Nat := max 1 config.levelTickInterval.toNat

theorem levelDue_iff {config : StreamConfig} {tick : UInt64} {level : UInt8}
    (room : tick.toNat + level.toNat < 2 ^ 64) :
    config.levelDue tick level = true ↔ config.period ∣ tick.toNat + level.toNat := by
  have sum : (tick + level.toUInt64).toNat = tick.toNat + level.toNat := by
    rw [UInt64.toNat_add, UInt8.toNat_toUInt64, Nat.mod_eq_of_lt room]
  rw [levelDue, every_iff, sum, period]

theorem exists_levelDue (config : StreamConfig) {tick : UInt64} (level : UInt8)
    (room : tick.toNat + config.period + 255 ≤ 2 ^ 64) :
    ∃ j < config.period, config.levelDue (tick + UInt64.ofNat j) level = true := by
  have positive : 0 < config.period := by unfold period; omega
  have small := level.toNat_lt
  have rest := Nat.mod_lt (tick.toNat + level.toNat) positive
  -- The distance from the tick to the next multiple of the interval.
  let j := (config.period - (tick.toNat + level.toNat) % config.period) % config.period
  have near : j < config.period := Nat.mod_lt _ positive
  have later : (tick + UInt64.ofNat j).toNat = tick.toNat + j := by
    simp only [UInt64.toNat_add, UInt64.toNat_ofNat']
    omega
  have meets : (tick.toNat + j + level.toNat) % config.period = 0 := by
    have whole : tick.toNat + j + level.toNat = tick.toNat + level.toNat + j := by omega
    rw [whole, Nat.add_mod]
    rcases Nat.eq_zero_or_pos ((tick.toNat + level.toNat) % config.period) with none_ | some_
    · simp [j, none_]
    · have distance : j = config.period - (tick.toNat + level.toNat) % config.period :=
        Nat.mod_eq_of_lt (by omega)
      rw [Nat.mod_eq_of_lt near, distance, Nat.add_sub_cancel' (by omega), Nat.mod_self]
  refine ⟨j, near, (levelDue_iff (by omega)).mpr ?_⟩
  rw [later]
  exact Nat.dvd_of_mod_eq_zero meets

end StreamConfig

namespace SimTime

theorem le_advance (t : SimTime) (d : Duration) : t.micros ≤ (t.advance d).micros := by
  have bound := t.micros.toNat_lt
  rw [UInt64.le_iff_toNat_le, advance, ofMicrosNat, UInt64.toNat_ofNat']
  have size : UInt64.size = 2 ^ 64 := rfl
  omega

end SimTime

/-- What has expired stays so. -/
theorem Node.isExpired_of_le {n : Node N} {now later : SimTime} (le : now.micros ≤ later.micros)
    {timeout : Duration} (expired : n.isExpired now timeout = true) :
    n.isExpired later timeout = true := by
  have le := UInt64.le_iff_toNat_le.mp le
  refine decide_eq_true (Nat.lt_of_lt_of_le (of_decide_eq_true expired) ?_)
  exact Nat.mul_le_mul_right 1000 (Nat.sub_le_sub_right le _)

namespace Engine

/-! ### Ticks of one world -/

/-- A tick takes the engine and one of its worlds to `e'` and `w'`. -/
structure Ticks (e : Engine σ N L) (w : World σ N L) (e' : Engine σ N L) (w' : World σ N L) :
    Prop where
  setting : e'.setting = (e.config, e.loaders, e.tick + 1, e.now.advance e.config.tickInterval)
  ran : e.Ran (Phase.sequence 9 .loader) w w'

/-- A number of ticks with nothing between them. -/
inductive Spans : Nat → Engine σ N L → World σ N L → Engine σ N L → World σ N L → Prop
  | none (e w) : Spans 0 e w e w
  | tick {n e w e₁ w₁ e' w'} (first : Ticks e w e₁ w₁) (rest : Spans n e₁ w₁ e' w') :
      Spans (n + 1) e w e' w'

/-- Run one tick for each of some measured durations. -/
def runEach : List Duration → Engine σ N L → σ → Except OutOfOrder (Engine σ N L × σ)
  | [], e, s => .ok (e, s)
  | elapsed :: rest, e, s =>
    match e.runTick elapsed s with
    | .error err => .error err
    | .ok (e, s) => runEach rest e s

/-- A tick whose turn it is runs, and the next one is due after it. -/
theorem runTick_ticks {e : Engine σ N L} (ready : e.cursor.expected = .loader) (elapsed : Duration)
    (s : σ) : ∃ e' s', e.runTick elapsed s = .ok (e', s') ∧ e'.cursor.expected = .loader ∧
      ∀ (k : Nat) (w : World σ N L), e.worlds[k]? = some w →
        ∃ w', e'.worlds[k]? = some w' ∧ e.Ticks w e' w' := by
  obtain ⟨e₈, s₈, run, -, ends⟩ := runPhases_ran ready (n := 8) (by decide) elapsed s
  obtain ⟨setting, index⟩ := ends (by decide)
  have last : e₈.cursor.expected = .finish := Phase.index_injective index
  let e' := { e₈ with cursor := ⟨.loader⟩ }.finishPhase elapsed
  have done : e.runTick elapsed s = .ok (e', s₈) := by
    refine (runPhases_append elapsed (Phase.sequence 8 .loader) [.finish] e s).trans ?_
    rw [run]
    simp only [runPhases, runPhase_eq, last, if_true]
    rfl
  refine ⟨e', s₈, done, rfl, fun k w at_ => ?_⟩
  obtain ⟨w', at', ran⟩ := getElem?_of_forall₂ (runTick_ran done) at_
  obtain ⟨config, rest⟩ := Prod.mk.inj setting
  obtain ⟨loaders, rest⟩ := Prod.mk.inj rest
  obtain ⟨tick, now⟩ := Prod.mk.inj rest
  refine ⟨w', at', ?_, ran⟩
  change (e₈.config, e₈.loaders, e₈.tick + 1, e₈.now.advance e₈.config.tickInterval) = _
  rw [config, loaders, tick, now]

theorem runEach_spans {e : Engine σ N L} (ready : e.cursor.expected = .loader) {k : Nat}
    {w : World σ N L} (at_ : e.worlds[k]? = some w) (durations : List Duration) (s : σ) :
    ∃ e' s' w', e.runEach durations s = .ok (e', s') ∧ e'.worlds[k]? = some w' ∧
      Spans durations.length e w e' w' := by
  induction durations generalizing e w s with
  | nil => exact ⟨e, s, w, rfl, at_, .none e w⟩
  | cons elapsed durations ih =>
    obtain ⟨e₁, s₁, done, ready₁, worlds⟩ := runTick_ticks ready elapsed s
    obtain ⟨w₁, at₁, ticks⟩ := worlds k w at_
    obtain ⟨e', s', w', run, at', spans⟩ := ih ready₁ at₁ s₁
    refine ⟨e', s', w', ?_, at', .tick ticks spans⟩
    rw [runEach, done]
    exact run

/-! ### What loaders want -/

/-- The cell lies in the hierarchy and is covered by a loader or an ancestor of a covered cell. -/
def Wanted (e : Engine σ N L) (h : Hierarchy N L) (c : Coord) : Prop :=
  c.level < h.levelCount ∧ ∃ x, e.Covers x ∧ x.Under c

/-- Without budgets, with loaders that are active on every tick and processors that touch neither
states nor stamps nor queues: a settled world in which whatever the loaders do not want is
unobserved and untouched for longer than the timeout. -/
structure LeftAlone (e : Engine σ N L) (w : World σ N L) : Prop where
  reached : w.Reached fun _ => True
  active : ∀ ld ∈ e.loaderList, ld.cadence ≤ 1
  createBudget : e.config.stream.createBudget = none
  unloadBudget : e.config.stream.unloadBudget = none
  still : w.processors.Still
  settled : w.hierarchy.Settled
  unneeded : ∀ c n, w.hierarchy.get? c = some n → ¬ e.Wanted w.hierarchy c →
    n.observers = 0 ∧ n.isExpired e.now w.config.evictionTimeout = true

variable {e e' : Engine σ N L} {w w' : World σ N L} {c : Coord}

theorem Wanted.covered (covered : e.Covers c) {h : Hierarchy N L}
    (inside : c.level < h.levelCount) :
    e.Wanted h c := ⟨inside, c, covered, .refl c⟩

/-- With a cell its parent is wanted. -/
theorem Wanted.parent {h : Hierarchy N L} (wanted : e.Wanted h c)
    (inside : c.parent.level < h.levelCount) : e.Wanted h c.parent := by
  obtain ⟨below, x, covered, under⟩ := wanted
  exact ⟨inside, x, covered, under.trans (.parent (Coord.level_ne_of_lt below))⟩

/-- On a hierarchy in which all covered cells are resident, what is wanted is resident. -/
theorem Wanted.resident (wanted : e.Wanted w.hierarchy c) (linked : w.hierarchy.Linked)
    (all : ∀ x, e.Covers x → x.level < w.hierarchy.levelCount → w.hierarchy.contains x = true) :
    w.hierarchy.contains c = true := by
  obtain ⟨inside, x, covered, under⟩ := wanted
  have below : x.level < w.hierarchy.levelCount :=
    UInt8.lt_of_le_of_lt (UInt8.le_iff_toNat_le.mpr under.level_le) inside
  exact linked.resident_of_under (all x covered below) under inside

/-! ### One tick -/

/-- From the level workers to the world worker, only covered cells are requested. -/
theorem Ran.requested (ran : e.Ran [.levelWorker, .regionWorker, .worldWorker] w w')
    (linked : w.hierarchy.Linked) (still : w.processors.Still)
    (idle : ∀ i, w.hierarchy.pending i .create = []) {i : UInt8}
    (queued : c ∈ w'.hierarchy.pending i .create) : e.Covers c := by
  obtain ⟨w₂, streams, w₃, ticks, w₄, works, ends⟩ := ran
  obtain ⟨s, streams⟩ := streams
  obtain ⟨t, ticks⟩ := ticks
  obtain ⟨u, works⟩ := works
  have kept : w'.hierarchy.pending i .create = w₂.hierarchy.pending i .create := by
    rw [show w' = w₄ from ends, works, World.pending_worldWorkerPhase, if_neg (by decide), ticks,
      tickRegions_world, World.regionWorkerPhase_eq]
  have rel : Hierarchy.Levelwise (fun l m => ∃ requested evicted, Level.Streamed e.config.stream
      e.loaderList e.tick e.now w.config.evictionTimeout requested evicted l m) w.hierarchy
      w₂.hierarchy := by
    rw [streams, streamWorld_world]
    exact World.levelWorkerPhase_levelwise linked still.calm_level s
  rw [kept] at queued
  cases stored : w₂.hierarchy.level? i with
  | none =>
    rw [Hierarchy.pending_of_level?_none stored] at queued
    cases queued
  | some m =>
    obtain ⟨l, before, requested, evicted, streamed⟩ := rel.level?_back stored
    have none_ : l.pending .create = [] := by
      rw [← Hierarchy.pending_of_level? before]
      exact idle i
    rw [Hierarchy.pending_of_level? stored, streamed.pending, if_pos rfl, none_,
      List.nil_append] at queued
    obtain ⟨ld, listed, -, covered⟩ := Level.mem_wanted.mp (streamed.missing c queued).1
    refine ⟨ld, listed, ?_⟩
    rw [Loader.level_of_mem_cells covered]
    exact covered

/-- Up to creation, nothing becomes resident but what loaders want. -/
theorem Ran.created (ran : e.Ran [.levelWorker, .regionWorker, .worldWorker, .create] w w')
    (linked : w.hierarchy.Linked) (calm : w.Undisturbed) (still : w.processors.Still)
    (idle : ∀ i, w.hierarchy.pending i .create = []) (resident : w'.hierarchy.contains c = true) :
    w.hierarchy.contains c = true ∨ e.Wanted w.hierarchy c := by
  have parts : e.Ran ([.levelWorker, .regionWorker, .worldWorker] ++ [.create]) w w' := ran
  obtain ⟨v, early, w₅, creates, ends⟩ := parts.split
  have streamed := early.streamed linked calm
  have linked_v := (early.evolved linked still.calm still.allowed).linked linked
  obtain ⟨created, grown, -, -, origin⟩ := World.createPhase_grown linked_v
  have count : v.hierarchy.levelCount = w.hierarchy.levelCount :=
    Hierarchy.levelCount_congr streamed.length
  rw [show w' = v.createPhase.2 from Eq.trans ends creates, grown.contains_iff] at resident
  rcases resident with made | before
  · obtain ⟨i, x, asked, inside, above⟩ := origin c made
    obtain ⟨n, close, rfl⟩ := Hierarchy.mem_ascent.mp above
    have covered := early.requested linked still idle asked
    have below := UInt8.lt_iff_toNat_lt.mp inside
    have top := linked_v.numbered.toNat_levelCount
    have highest := linked_v.numbered.toNat_coarsest (by omega)
    have short := linked_v.numbered.length_lt
    have level : (Coord.climb n x).level.toNat = x.level.toNat + n :=
      Coord.toNat_climb_level (by omega)
    refine Or.inr ⟨?_, x, covered, n, rfl, level⟩
    rw [← count, UInt8.lt_iff_toNat_lt]
    omega
  · exact Or.inl ((streamed.node.isSome c).symm.trans before)

theorem LeftAlone.undisturbed (alone : e.LeftAlone w) : w.Undisturbed :=
  ⟨fun i => alone.settled.idle i .unload, fun i => alone.settled.idle i .destroy, alone.still.calm,
    alone.still.calm_level⟩

theorem LeftAlone.linked (alone : e.LeftAlone w) : w.hierarchy.Linked :=
  (alone.reached.sound (.trivial _)).linked

/-- With a cadence of at most one a loader is active on every tick. -/
theorem LeftAlone.isActive (alone : e.LeftAlone w) {ld : Loader} (listed : ld ∈ e.loaderList)
    (tick : UInt64) : ld.isActive tick = true := by
  simp [Loader.isActive, alone.active ld listed]

namespace Ticks

section Setting

variable (ticks : e.Ticks w e' w')

include ticks

theorem config_eq : e'.config = e.config := (Prod.mk.inj ticks.setting).1

theorem loaderList_eq : e'.loaderList = e.loaderList := by
  have loaders : e'.loaders = e.loaders := congrArg (·.2.1) ticks.setting
  rw [loaderList, loaderList, loaders]

theorem tick_eq : e'.tick = e.tick + 1 := congrArg (·.2.2.1) ticks.setting

theorem now_le : e.now.micros ≤ e'.now.micros := by
  have now : e'.now = e.now.advance e.config.tickInterval := congrArg (·.2.2.2) ticks.setting
  rw [now]
  exact SimTime.le_advance e.now _

theorem covers_eq : e'.Covers = e.Covers := by
  funext c
  rw [Covers, Covers, ticks.loaderList_eq]

end Setting

section Alone

variable (ticks : e.Ticks w e' w') (alone : e.LeftAlone w)

include ticks alone

theorem levelCount_eq : w'.hierarchy.levelCount = w.hierarchy.levelCount :=
  Hierarchy.levelCount_congr
    (ticks.ran.evolved alone.linked alone.still.calm alone.still.allowed).length_eq

theorem wanted_eq : e'.Wanted w'.hierarchy = e.Wanted w.hierarchy := by
  funext c
  rw [Wanted, Wanted, ticks.levelCount_eq alone, ticks.covers_eq]

/-- The two halves of a tick, with the world between creation and loading. -/
theorem halves : ∃ w₅, e.Prepared w w₅ ∧ w₅.processors.toNodeProcessors.Obey NodeEdit.Calm ∧
    e.Ran [.levelWorker, .regionWorker, .worldWorker, .create] (e.stampWorld w) w₅ ∧
    e.Ran [.load, .unload, .destroy, .finish] w₅ w' ∧
    ∀ x, w₅.hierarchy.contains x = true →
      w.hierarchy.contains x = true ∨ e.Wanted w.hierarchy x := by
  have parts : e.Ran ([.loader] ++ ([.levelWorker, .regionWorker, .worldWorker, .create] ++
      [.load, .unload, .destroy, .finish])) w w' := ticks.ran
  obtain ⟨w₁, ⟨v, stamps, ends⟩, rest⟩ := parts.split
  obtain ⟨w₅, early, late⟩ := rest.split
  have stamped : w₁ = e.stampWorld w := Eq.trans ends stamps
  rw [stamped] at early
  have keeps : w₅.processors = w.processors := early.keeps.1
  refine ⟨w₅, early.prepared alone.reached alone.undisturbed,
    by rw [keeps]; exact alone.still.calm, early, late, fun x there => ?_⟩
  have linked : (e.stampWorld w).hierarchy.Linked :=
    (Works.evolved (p := .loader) rfl alone.linked alone.still.calm alone.still.allowed).linked
      alone.linked
  have count : (e.stampWorld w).hierarchy.levelCount = w.hierarchy.levelCount :=
    Hierarchy.levelCount_congr (stampWorld_retouched e w).length_eq
  have before := early.created linked (stampWorld_undisturbed e alone.undisturbed) alone.still
    (fun i => by rw [pending_stampWorld]; exact alone.settled.idle i .create) there
  rw [Wanted, count] at before
  exact before.imp_left ((stampWorld_moved e w).isSome x).symm.trans

/-- What is resident after a tick was resident before it or is wanted. -/
theorem back (resident : w'.hierarchy.contains c = true) :
    w.hierarchy.contains c = true ∨ e.Wanted w.hierarchy c := by
  obtain ⟨w₅, prepared, calm, -, late, created⟩ := ticks.halves alone
  exact created c (late.contains_back prepared.linked calm resident)

/-- A tick keeps what loaders cover. -/
theorem kept (covered : e.Covers c) (resident : w.hierarchy.contains c = true) :
    w'.hierarchy.contains c = true := by
  obtain ⟨w₅, prepared, calm, -, late, -⟩ := ticks.halves alone
  obtain ⟨n, found⟩ := Hierarchy.contains_iff.mp resident
  obtain ⟨n', found', -⟩ := prepared.kept calm late found covered
  exact Hierarchy.contains_iff.mpr ⟨n', found'⟩

/-- On a due level a tick makes everything resident that loaders cover. -/
theorem provided (covered : e.Covers c) (inside : c.level < w.hierarchy.levelCount)
    (due : e.config.stream.levelDue e.tick c.level = true) : w'.hierarchy.contains c = true := by
  by_cases resident : w.hierarchy.contains c = true
  · exact ticks.kept alone covered resident
  · obtain ⟨w₅, prepared, calm, -, late, -⟩ := ticks.halves alone
    obtain ⟨ld, listed, cell⟩ := covered
    have missing : c ∈ e.missing w c.level :=
      mem_missing.mpr ⟨⟨ld, listed, alone.isActive listed e.tick, cell⟩,
        Bool.eq_false_iff.mpr resident⟩
    have loaded :=
      (prepared.serves calm late).complete alone.createBudget c.level inside due c missing
    obtain ⟨n, found, -⟩ := Hierarchy.isLoaded_iff.mp loaded
    exact Hierarchy.contains_iff.mpr ⟨n, found⟩

/-- What a tick leaves of an unneeded resident: observers and time stamp stay as they were. -/
theorem tenure_eq (unwanted : ¬ e.Wanted w.hierarchy c)
    (resident : w'.hierarchy.contains c = true) :
    w'.hierarchy.tenure c = w.hierarchy.tenure c := by
  have before := (ticks.back alone resident).resolve_right unwanted
  have inside := alone.linked.numbered.level_lt before
  have parts : e.Ran ([.loader, .levelWorker, .regionWorker, .worldWorker, .create, .load,
      .unload] ++ [.destroy, .finish]) w w' := ticks.ran
  obtain ⟨w₇, early, w₈, ⟨s, destroys⟩, w₉, finishes, ends⟩ := parts.split
  have linked₇ :=
    (early.evolved alone.linked alone.still.calm alone.still.allowed).linked alone.linked
  have pruned := (World.destroyPhase_pruned linked₇ s).1
  obtain rfl : w' = (w₇.destroyPhase s).2.1 := (Eq.trans ends finishes).trans destroys
  rw [Hierarchy.tenure_congr (pruned.kept c ((pruned.contains c).mp resident).2)]
  exact early.tenure alone.linked alone.still (fun covered => unwanted (.covered covered inside))
    before (by decide)

/-- What stays on a due level without being wanted has had a child that is not wanted either. -/
theorem peeled (resident : w'.hierarchy.contains c = true) (unwanted : ¬ e.Wanted w.hierarchy c)
    (due : e.config.stream.levelDue e.tick c.level = true) :
    ∃ d, w.hierarchy.contains d = true ∧ d.parent = c ∧ ¬ e.Wanted w.hierarchy d := by
  have before := (ticks.back alone resident).resolve_right unwanted
  have inside := alone.linked.numbered.level_lt before
  have uncovered : ¬ e.Covers c := fun covered => unwanted (.covered covered inside)
  obtain ⟨n, found⟩ := Hierarchy.contains_iff.mp before
  obtain ⟨observers, expired⟩ := alone.unneeded c n found unwanted
  obtain ⟨w₅, prepared, calm, early, late, created⟩ := ticks.halves alone
  by_contra none_
  rw [not_exists] at none_
  -- Otherwise the node is a leaf all along: what creation adds below it would make it wanted.
  have childless : ∀ d, w.hierarchy.contains d = true ∨ e.Wanted w.hierarchy d →
      d.parent ≠ c := by
    intro d there up
    have wanted : ¬ e.Wanted w.hierarchy d := by
      intro wanted
      have above := wanted.parent (by rw [up]; exact inside)
      rw [up] at above
      exact unwanted above
    exact none_ d ⟨there.resolve_right wanted, up, wanted⟩
  have leaf : n.isLeaf = true :=
    (alone.linked.isLeaf_iff found).mpr fun d there => childless d (Or.inl there)
  obtain ⟨n₁, found₁, links₁, state₁⟩ := (stampWorld_moved e w).of_some found
  have tenure₁ := Works.tenure (p := .loader) rfl alone.linked alone.still uncovered before nofun
  rw [Hierarchy.tenure_of_get? found₁, Hierarchy.tenure_of_get? found, Option.some.injEq] at tenure₁
  have unused : n₁.isUnused e.now w.config.evictionTimeout = true := by
    rw [Node.isUnused_congr links₁ state₁ tenure₁]
    simp [Node.isUnused, leaf, observers, alone.settled.loaded c n found, expired]
  have queued := early.evicted (Works.reached (p := .loader) rfl alone.reached) alone.still
    alone.unloadBudget due found₁ unused
  obtain ⟨n₅, found₅, state₅⟩ := prepared.node c n found
  rw [if_pos queued] at state₅
  have leaf₅ : n₅.isLeaf = true :=
    (prepared.linked.isLeaf_iff found₅).mpr fun d there => childless d (created d there)
  have gone := late.removed prepared.linked calm found₅ queued leaf₅
    (by rw [state₅]; exact NodeState.noConfusion)
  rw [gone] at resident
  cases resident

/-- After a tick the world is left alone as before. -/
theorem leftAlone : e'.LeftAlone w' := by
  have keeps := ticks.ran.keeps
  refine ⟨ticks.ran.reached alone.reached, ?_, ?_, ?_, ?_,
    ticks.ran.settled_tick alone.reached alone.still alone.settled, fun c n' found unwanted => ?_⟩
  · rw [ticks.loaderList_eq]
    exact alone.active
  · rw [ticks.config_eq]
    exact alone.createBudget
  · rw [ticks.config_eq]
    exact alone.unloadBudget
  · rw [keeps.1]
    exact alone.still
  · rw [ticks.wanted_eq alone] at unwanted
    have resident : w'.hierarchy.contains c = true := Hierarchy.contains_iff.mpr ⟨n', found⟩
    obtain ⟨n, before⟩ :=
      Hierarchy.contains_iff.mp ((ticks.back alone resident).resolve_right unwanted)
    obtain ⟨observers, expired⟩ := alone.unneeded c n before unwanted
    have same := ticks.tenure_eq alone unwanted resident
    rw [Hierarchy.tenure_of_get? found, Hierarchy.tenure_of_get? before, Option.some.injEq] at same
    obtain ⟨counts, stamps⟩ := Prod.ext_iff.mp same
    have counts : n'.observers = n.observers := counts
    have stamps : n'.lastUpdate = n.lastUpdate := stamps
    refine ⟨counts.trans observers, Node.isExpired_of_le ticks.now_le ?_⟩
    rw [Node.isExpired, stamps, keeps.2]
    exact expired

end Alone

end Ticks

/-! ### Many ticks -/

/-- What every tick of a world left alone keeps. -/
def Lasting (P : Engine σ N L → World σ N L → Prop) : Prop :=
  ∀ e w e' w', e.Ticks w e' w' → e.LeftAlone w → P e w → P e' w'

namespace Spans

variable {n : Nat}

theorem leftAlone (spans : Spans n e w e' w') (alone : e.LeftAlone w) : e'.LeftAlone w' := by
  induction spans with
  | none e w => exact alone
  | tick first rest ih => exact ih (first.leftAlone alone)

theorem config_eq (spans : Spans n e w e' w') : e'.config = e.config := by
  induction spans with
  | none e w => rfl
  | tick first rest ih => exact ih.trans first.config_eq

theorem tick_eq (spans : Spans n e w e' w') : e'.tick = e.tick + UInt64.ofNat n := by
  induction spans with
  | none e w => simp
  | tick first rest ih =>
    rw [ih, first.tick_eq, UInt64.add_assoc, UInt64.ofNat_add, UInt64.add_comm 1]
    rfl

theorem levelCount_eq (spans : Spans n e w e' w') (alone : e.LeftAlone w) :
    w'.hierarchy.levelCount = w.hierarchy.levelCount := by
  induction spans with
  | none e w => rfl
  | tick first rest ih => exact (ih (first.leftAlone alone)).trans (first.levelCount_eq alone)

theorem wanted_eq (spans : Spans n e w e' w') (alone : e.LeftAlone w) :
    e'.Wanted w'.hierarchy = e.Wanted w.hierarchy := by
  induction spans with
  | none e w => rfl
  | tick first rest ih => exact (ih (first.leftAlone alone)).trans (first.wanted_eq alone)

theorem keeps {P : Engine σ N L → World σ N L → Prop} (lasting : Lasting P)
    (spans : Spans n e w e' w') (alone : e.LeftAlone w) (before : P e w) : P e' w' := by
  induction spans with
  | none e w => exact before
  | tick first rest ih => exact ih (first.leftAlone alone) (lasting _ _ _ _ first alone before)

theorem split {m : Nat} (spans : Spans (m + n) e w e' w') :
    ∃ e₁ w₁, Spans m e w e₁ w₁ ∧ Spans n e₁ w₁ e' w' := by
  induction m generalizing e w with
  | zero =>
    rw [Nat.zero_add] at spans
    exact ⟨e, w, .none e w, spans⟩
  | succ m ih =>
    rw [Nat.succ_add] at spans
    cases spans with
    | tick first rest =>
      obtain ⟨e₁, w₁, early, late⟩ := ih rest
      exact ⟨e₁, w₁, .tick first early, late⟩

/-- What lasts and comes about on a tick on which a level is due has come about when the level has
been due. -/
theorem reaches {P Q : Engine σ N L → World σ N L → Prop} {i : UInt8} (keep : Lasting P)
    (lasting : Lasting Q)
    (due : ∀ e w e' w', e.Ticks w e' w' → e.LeftAlone w →
      e.config.stream.levelDue e.tick i = true → P e w → Q e' w')
    (spans : Spans n e w e' w') (alone : e.LeftAlone w) (before : P e w) {j : Nat} (near : j < n)
    (now : e.config.stream.levelDue (e.tick + UInt64.ofNat j) i = true) : Q e' w' := by
  induction spans generalizing j with
  | none e w => omega
  | @tick n e w e₁ w₁ e' w' first rest ih =>
    cases j with
    | zero =>
      have here := due _ _ _ _ first alone (by simpa using now) before
      exact rest.keeps lasting (first.leftAlone alone) here
    | succ j =>
      have later : e₁.tick + UInt64.ofNat j = e.tick + UInt64.ofNat (j + 1) := by
        rw [first.tick_eq, UInt64.add_assoc, UInt64.ofNat_add, UInt64.add_comm 1]
        rfl
      refine ih (first.leftAlone alone) (keep _ _ _ _ first alone before)
        (Nat.lt_of_succ_lt_succ near) ?_
      rw [first.config_eq, later]
      exact now

end Spans

/-! ### Both sides -/

/-- Whatever is resident on the levels below `m` is wanted. -/
def Cleared (m : Nat) (e : Engine σ N L) (w : World σ N L) : Prop :=
  ∀ c, w.hierarchy.contains c = true → c.level.toNat < m → e.Wanted w.hierarchy c

/-- Whatever loaders cover on a level of the hierarchy is resident. -/
def Provided (i : UInt8) (e : Engine σ N L) (w : World σ N L) : Prop :=
  ∀ c, e.Covers c → c.level = i → i < w.hierarchy.levelCount → w.hierarchy.contains c = true

theorem cleared_lasting (m : Nat) : Lasting (Cleared m (σ := σ) (N := N) (L := L)) := by
  intro e w e' w' ticks alone cleared c resident below
  rw [ticks.wanted_eq alone]
  exact (ticks.back alone resident).elim (fun before => cleared c before below) id

theorem provided_lasting (i : UInt8) : Lasting (Provided i (σ := σ) (N := N) (L := L)) := by
  intro e w e' w' ticks alone provided c covered level inside
  rw [ticks.covers_eq] at covered
  rw [ticks.levelCount_eq alone] at inside
  exact ticks.kept alone covered (provided c covered level inside)

/-- When all finer levels are clear, a due level has only leaves to lose, and loses them. -/
theorem Ticks.cleared (ticks : e.Ticks w e' w') (alone : e.LeftAlone w) {i : UInt8}
    (due : e.config.stream.levelDue e.tick i = true) (finer : Cleared i.toNat e w) :
    Cleared (i.toNat + 1) e' w' := by
  intro c resident below
  by_cases level : c.level = i
  · rw [ticks.wanted_eq alone]
    by_contra unwanted
    obtain ⟨d, there, up, unneeded⟩ := ticks.peeled alone resident unwanted (by rwa [level])
    have lower := Coord.toNat_parent_level (alone.linked.numbered.level_ne there)
    rw [up, level] at lower
    exact unneeded (finer d there (by omega))
  · have ne : c.level.toNat ≠ i.toNat := fun same => level (UInt8.toNat_inj.mp same)
    exact cleared_lasting i.toNat _ _ _ _ ticks alone finer c resident (by omega)

/-- In every period one more level is cleared. -/
theorem Spans.cleared {n m : Nat} (spans : Spans n e w e' w') (alone : e.LeftAlone w)
    (levels : m < 256) (enough : m * e.config.stream.period ≤ n)
    (room : e.tick.toNat + m * e.config.stream.period + 255 ≤ 2 ^ 64) : Cleared m e' w' := by
  induction m generalizing n e' w' with
  | zero =>
    intro c _ below
    omega
  | succ m ih =>
    rw [Nat.succ_mul] at enough room
    obtain ⟨rest, rfl⟩ : ∃ rest, n = m * e.config.stream.period + rest :=
      ⟨n - m * e.config.stream.period, by omega⟩
    obtain ⟨e₁, w₁, early, late⟩ := spans.split
    have finer := ih early (by omega) (Nat.le_refl _) (by omega)
    have index : (UInt8.ofNat m).toNat = m := by
      rw [UInt8.toNat_ofNat']
      omega
    have tick : e₁.tick.toNat = e.tick.toNat + m * e.config.stream.period := by
      rw [early.tick_eq, UInt64.toNat_add, UInt64.toNat_ofNat']
      omega
    obtain ⟨j, near, due⟩ : ∃ j < e.config.stream.period,
        e.config.stream.levelDue (e₁.tick + UInt64.ofNat j) (UInt8.ofNat m) = true :=
      e.config.stream.exists_levelDue _ (by omega)
    rw [← early.config_eq] at due
    have cleared := late.reaches (cleared_lasting _) (cleared_lasting _)
      (fun _ _ _ _ ticks alone due finer => ticks.cleared alone due finer) (early.leftAlone alone)
      (by rwa [index]) (by omega) due
    rwa [index] at cleared

/-- In one period every level is provided. -/
theorem Spans.provided {n : Nat} (spans : Spans n e w e' w') (alone : e.LeftAlone w)
    (enough : e.config.stream.period ≤ n)
    (room : e.tick.toNat + e.config.stream.period + 255 ≤ 2 ^ 64) (i : UInt8) :
    Provided i e' w' := by
  obtain ⟨j, near, due⟩ := e.config.stream.exists_levelDue i room
  refine spans.reaches (P := fun _ _ => True) (fun _ _ _ _ _ _ _ => trivial) (provided_lasting i) ?_
    alone trivial (Nat.lt_of_lt_of_le near enough) due
  intro e w e' w' ticks alone due _ c covered level inside
  rw [ticks.covers_eq] at covered
  rw [ticks.levelCount_eq alone, ← level] at inside
  exact ticks.provided alone covered inside (by rwa [level])

end Engine

/-- When a world is left alone, then after as many periods as it has levels, and after every further
tick, exactly what the loaders want is resident. -/
theorem streaming_converges {e : Engine σ N L} (ready : e.cursor.expected = .loader) {k : Nat}
    {w : World σ N L} (at_ : e.worlds[k]? = some w) (alone : e.LeftAlone w)
    (room : e.tick.toNat + w.hierarchy.levelCount.toNat * e.config.stream.period + 255 ≤ 2 ^ 64)
    {durations : List Duration}
    (enough : w.hierarchy.levelCount.toNat * e.config.stream.period ≤ durations.length) (s : σ) :
    ∃ e' s' w', e.runEach durations s = .ok (e', s') ∧ e'.worlds[k]? = some w' ∧
      ∀ c, w'.hierarchy.contains c = true ↔ e.Wanted w.hierarchy c := by
  obtain ⟨e', s', w', run, at', spans⟩ := Engine.runEach_spans ready at_ durations s
  have count := spans.levelCount_eq alone
  have linked' := (spans.leftAlone alone).linked
  refine ⟨e', s', w', run, at', fun c => ⟨fun resident => ?_, fun wanted => ?_⟩⟩
  · have cleared := spans.cleared alone w.hierarchy.levelCount.toNat_lt enough room
    have inside := UInt8.lt_iff_toNat_lt.mp (linked'.numbered.level_lt resident)
    rw [count] at inside
    rw [← spans.wanted_eq alone]
    exact cleared c resident inside
  · have inhabited : 0 < w.hierarchy.levelCount.toNat :=
      Nat.lt_of_le_of_lt (Nat.zero_le _) (UInt8.lt_iff_toNat_lt.mp wanted.1)
    have once : e.config.stream.period ≤
        w.hierarchy.levelCount.toNat * e.config.stream.period := Nat.le_mul_of_pos_left _ inhabited
    rw [← spans.wanted_eq alone] at wanted
    refine wanted.resident linked' fun x covered inside => ?_
    exact spans.provided alone (once.trans enough) (by omega) x.level x covered rfl inside

/-- A world of two levels, each due on every other tick, in which a column far from the only loader
has been loaded and forgotten. -/
theorem converges_around_origin :
    let far : Coord := ⟨⟨50, 0, 0⟩, 0⟩
    let v : World Unit Unit Unit :=
      (((World.empty default { levelCount := 2 } PayloadFactory.plain).queueCreate
        far).createPhase.2.loadPhase ()).2.1
    let e := ((({ config := { stream := { levelTickInterval := 2 } }, threads := 1 } :
      Engine Unit Unit Unit).insertWorld v).addLoader default {}).advanceTime
        (Duration.ofSeconds 21)
    let w := v.setTime 0 SimTime.zero
    e.cursor.expected = .loader ∧ e.worlds[0]? = some w ∧ e.LeftAlone w ∧
      w.hierarchy.contains far = true ∧ w.hierarchy.levelCount.toNat * e.config.stream.period = 4 ∧
      ∃ e' s' w', e.runEach (List.replicate 4 Duration.zero) () = .ok (e', s') ∧
        e'.worlds[0]? = some w' ∧ ∀ c, w'.hierarchy.contains c = true ↔ e.Wanted w.hierarchy c := by
  intro far v e w
  have reached : w.Reached fun _ => True :=
    ((((World.Reached.empty _ _ _).queueCreate far).createPhase).loadPhase ()).setTime _ _
  have nodes : ∀ n ∈ w.hierarchy.nodeList, n.state = .loaded ∧ n.observers = 0 ∧
      n.isExpired e.now w.config.evictionTimeout = true := by decide +kernel
  have each : ∀ c n, w.hierarchy.get? c = some n → n.state = .loaded ∧ n.observers = 0 ∧
      n.isExpired e.now w.config.evictionTimeout = true := fun c n found =>
    nodes n ((reached.sound (.trivial _)).linked.numbered.mem_nodeList.mpr ⟨c, found⟩)
  have idle : ∀ q, ∀ l ∈ w.hierarchy.levels, l.pending q = [] := by
    intro q
    cases q <;> decide
  have none_ : w.processors = {} := rfl
  have still : w.processors.Still := by
    rw [none_]
    exact ⟨⟨nofun, nofun, nofun⟩, nofun⟩
  have alone : e.LeftAlone w := by
    refine ⟨reached, by decide, rfl, rfl, still,
      ⟨fun i q => Hierarchy.pending_eq_nil (idle q) i, fun c n found => (each c n found).1⟩,
      fun c n found _ => (each c n found).2⟩
  have period : w.hierarchy.levelCount.toNat * e.config.stream.period = 4 := by decide
  exact ⟨rfl, rfl, alone, by decide, period, streaming_converges rfl rfl alone
    (by rw [period]; decide) (by rw [period]; decide) ()⟩

end OctreeWorld
