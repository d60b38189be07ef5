import OctreeWorld.Proofs.Convergence

/-!
# The order of phases and the clock

An engine is driven by calls of all kinds, in any order: single phases, whole ticks, worlds put in
and time moved forward between any two of them. `Course` keeps a record of the phases that were
accepted and of the time that was added, and the record alone tells where the engine stands: which
phase is next, how many ticks are over and what the clock shows.
-/

namespace OctreeWorld

variable {N L σ : Type}

namespace Phase

/-- Ticks one after the other, phase by phase. -/
theorem getElem?_repeated {n i : Nat} (inside : i < 9 * n) :
    (List.replicate n all).flatten[i]? = all[i % 9]? := by
  induction n generalizing i with
  | zero => omega
  | succ n ih =>
    have nine : all.length = 9 := rfl
    rw [List.replicate_succ, List.flatten_cons]
    by_cases first : i < 9
    · rw [List.getElem?_append_left (nine ▸ first), Nat.mod_eq_of_lt first]
    · rw [List.getElem?_append_right (nine ▸ Nat.not_lt.mp first), nine, ih (by omega),
        ← Nat.mod_eq_sub_mod (Nat.not_lt.mp first)]

/-- Phases that each stand at their place in a tick begin the endless repetition of the phases. -/
theorem prefix_repeated {ps : List Phase}
    (placed : ∀ (i : Nat) (p : Phase), ps[i]? = some p → p.index = i % 9) :
    ∃ n, ps <+: (List.replicate n all).flatten := by
  refine ⟨ps.length, List.prefix_iff_getElem?.mpr fun i inside => ?_⟩
  rw [getElem?_repeated (by omega), ← placed i _ (List.getElem?_eq_getElem inside)]
  exact all_getElem_index _

end Phase

/-- Moving forward counts whole microseconds and stops at the greatest word. -/
theorem SimTime.toNat_advance (t : SimTime) (d : Duration) :
    (t.advance d).micros.toNat = min (UInt64.size - 1) (t.micros.toNat + d.micros) := by
  have size : UInt64.size = 2 ^ 64 := rfl
  have bound := t.micros.toNat_lt
  rw [advance, ofDuration, ofMicrosNat, ofMicrosNat, UInt64.toNat_ofNat', UInt64.toNat_ofNat']
  omega

theorem EngineConfig.micros_tickInterval (config : EngineConfig) :
    config.tickInterval.micros = config.tickIntervalMs.toNat * 1000 := by
  change config.tickIntervalMs.toNat * 1000000 / 1000 = _
  omega

namespace Engine

/-- An engine as it is created: without worlds, its clock at zero, no tick begun. -/
def Fresh (e : Engine σ N L) : Prop := e = { config := e.config, threads := e.threads }

/-- A phase moves no world's clock backwards, and the first phase of a tick sets it. -/
theorem Works.clocked {e : Engine σ N L} {p : Phase} {w w' : World σ N L}
    (works : e.Works p w w') : w.now.micros ≤ w'.now.micros ∧
      (p = .loader → w'.tick = e.tick ∧ e.now.micros ≤ w'.now.micros) := by
  constructor
  · obtain ⟨h, regions, tick, now, rfl, -, later⟩ := works.parts
    exact later
  · rintro rfl
    rw [show w' = e.stampWorld w from works]
    exact ⟨rfl, SimTime.le_latest_right _ _⟩

/-- Only the last phase of a tick moves tick and clock. -/
theorem perform_clock (e : Engine σ N L) (p : Phase) (elapsed : Duration) (s : σ) :
    let e' := (e.perform p elapsed s).2.1
    e'.config = e.config ∧ e'.tick = e.tick + UInt64.ofNat ([p].count .finish) ∧
      e'.now.micros.toNat = min (UInt64.size - 1)
        (e.now.micros.toNat + e.config.tickIntervalMs.toNat * 1000 * [p].count .finish) := by
  intro e'
  by_cases last : p = .finish
  · obtain rfl := last
    refine ⟨rfl, rfl, ?_⟩
    change (e.now.advance e.config.tickInterval).micros.toNat = _
    have one : [Phase.finish].count .finish = 1 := rfl
    rw [SimTime.toNat_advance, EngineConfig.micros_tickInterval, one, Nat.mul_one]
  · have none : [p].count .finish = 0 := by
      rw [List.count_singleton, if_neg (mt eq_of_beq last)]
    obtain ⟨config, rest⟩ := Prod.mk.inj (perform_setting e last elapsed s)
    obtain ⟨-, rest⟩ := Prod.mk.inj rest
    obtain ⟨tick, now⟩ := Prod.mk.inj rest
    have bound := e.now.micros.toNat_lt
    have size : UInt64.size = 2 ^ 64 := rfl
    refine ⟨config, ?_, ?_⟩
    · rw [none]
      exact tick.trans (UInt64.add_zero _).symm
    · rw [none, congrArg SimTime.micros now]
      omega

/-- A call that drives an engine. -/
inductive Drive (σ N L : Type) where
  | phase (p : Phase) (elapsed : Duration)
  | tick (elapsed : Duration)
  | insertWorld (w : World σ N L)
  | advanceTime (d : Duration)

end Engine

/-! ### The record of a course -/

/-- A phase that was accepted, with the engine before and after it. -/
structure AcceptedPhase (σ N L : Type) where
  phase : Phase
  before : Engine σ N L
  after : Engine σ N L

/-- Around an accepted phase no world's clock moves backwards, and the first phase of a tick sets
every world to the engine's tick and at least to its time. -/
def AcceptedPhase.Clocked (a : AcceptedPhase σ N L) : Prop :=
  List.Forall₂ (fun w w' => w.now.micros ≤ w'.now.micros ∧
    (a.phase = .loader → w'.tick = a.after.tick ∧ a.after.now.micros ≤ w'.now.micros))
    a.before.worlds a.after.worlds

theorem Engine.perform_clocked (e : Engine σ N L) (p : Phase) (elapsed : Duration) (s : σ) :
    (AcceptedPhase.mk p e (e.perform p elapsed s).2.1).Clocked := by
  refine (e.perform_works p elapsed s).imp fun w w' works => ⟨works.clocked.1, ?_⟩
  rintro rfl
  exact works.clocked.2 rfl

/-- An engine under way and the state of its processors, with the phases accepted and the spans of
time added so far. -/
structure Course (σ N L : Type) where
  engine : Engine σ N L
  state : σ
  accepted : List (AcceptedPhase σ N L) := []
  added : List Duration := []

namespace Course

/-- The phases accepted, in order. -/
def phases (c : Course σ N L) : List Phase := c.accepted.map (·.phase)

/-- Ask for a phase, and record it when it is accepted. -/
def attempt (c : Course σ N L) (p : Phase) (elapsed : Duration) :
    Except OutOfOrder Unit × Course σ N L :=
  match c.engine.runPhase p elapsed c.state with
  | .error err => (.error err, c)
  | .ok (_, e, s) =>
    (.ok (), { c with engine := e, state := s, accepted := c.accepted ++ [⟨p, c.engine, e⟩] })

/-- Ask for phases in turn, up to the first that is refused. -/
def attemptAll (elapsed : Duration) :
    List Phase → Course σ N L → Except OutOfOrder Unit × Course σ N L
  | [], c => (.ok (), c)
  | p :: ps, c =>
    match c.attempt p elapsed with
    | (.error err, c) => (.error err, c)
    | (.ok (), c) => attemptAll elapsed ps c

/-- Ask for every phase of a tick. -/
def tick (c : Course σ N L) (elapsed : Duration) : Except OutOfOrder Unit × Course σ N L :=
  c.attemptAll elapsed Phase.all

/-- Make a call, whatever it answers. -/
def call (c : Course σ N L) : Engine.Drive σ N L → Course σ N L
  | .phase p elapsed => (c.attempt p elapsed).2
  | .tick elapsed => (c.tick elapsed).2
  | .insertWorld w => { c with engine := c.engine.insertWorld w }
  | .advanceTime d => { c with engine := c.engine.advanceTime d, added := c.added ++ [d] }

/-- Make calls in turn. -/
def follow (c : Course σ N L) (calls : List (Engine.Drive σ N L)) : Course σ N L :=
  calls.foldl call c

/-- A phase is accepted exactly when it is the expected one. -/
theorem attempt_eq (c : Course σ N L) (p : Phase) (elapsed : Duration) :
    c.attempt p elapsed = if p = c.engine.cursor.expected then
        let ran := { c.engine with cursor := ⟨p.next⟩ }.perform p elapsed c.state
        (.ok (), { c with
          engine := ran.2.1, state := ran.2.2, accepted := c.accepted ++ [⟨p, c.engine, ran.2.1⟩] })
      else (.error ⟨c.engine.cursor.expected, p⟩, c) := by
  rw [attempt, Engine.runPhase_eq]
  by_cases next : p = c.engine.cursor.expected
  · rw [if_pos next, if_pos next]
  · rw [if_neg next, if_neg next]

/-- Phases that run one after the other are all accepted, and recorded. -/
theorem attemptAll_of_runPhases {elapsed : Duration} {ps : List Phase} {c : Course σ N L}
    {e : Engine σ N L} {s : σ} (run : Engine.runPhases elapsed ps c.engine c.state = .ok (e, s)) :
    ∃ c', c.attemptAll elapsed ps = (.ok (), c') ∧ (c'.engine, c'.state) = (e, s) ∧
      c'.phases = c.phases ++ ps := by
  induction ps generalizing c with
  | nil =>
    cases run
    exact ⟨c, rfl, rfl, (List.append_nil _).symm⟩
  | cons p ps ih =>
    rw [Engine.runPhases] at run
    cases first : c.engine.runPhase p elapsed c.state with
    | error err =>
      rw [first] at run
      cases run
    | ok ran =>
      obtain ⟨n, e₁, s₁⟩ := ran
      rw [first] at run
      let c₁ : Course σ N L :=
        { c with engine := e₁, state := s₁, accepted := c.accepted ++ [⟨p, c.engine, e₁⟩] }
      obtain ⟨c', rest, ends, phases⟩ := ih (c := c₁) run
      refine ⟨c', ?_, ends, ?_⟩
      · rw [attemptAll, attempt, first]
        exact rest
      · have recorded : c₁.phases = c.phases ++ [p] := by
          rw [Course.phases, List.map_append]
          rfl
        rw [phases, recorded, List.append_assoc]
        rfl

/-- What a tick comes to when it is asked for: all its phases, or nothing at all. -/
structure Whole (c : Course σ N L) (elapsed : Duration) : Prop where
  runs : c.engine.cursor.inTick = false → ∃ c', c.tick elapsed = (.ok (), c') ∧
    c.engine.runTick elapsed c.state = .ok (c'.engine, c'.state) ∧
      c'.phases = c.phases ++ Phase.all ∧ c'.engine.cursor.inTick = false
  refused : c.engine.cursor.inTick = true → ∃ err, c.tick elapsed = (.error err, c) ∧
    c.engine.runTick elapsed c.state = .error err

theorem whole (c : Course σ N L) (elapsed : Duration) : c.Whole elapsed where
  runs between := by
    have ready : c.engine.cursor.expected = .loader := bne_eq_false_iff_eq.mp between
    obtain ⟨e, s, run, again, -⟩ := Engine.runTick_ticks ready elapsed c.state
    obtain ⟨c', accepted, ends, phases⟩ := attemptAll_of_runPhases run
    obtain ⟨rfl, rfl⟩ := Prod.mk.inj ends
    exact ⟨c', accepted, run, phases, by rw [PhaseCursor.inTick, again]; rfl⟩
  refused amid := by
    have other : Phase.loader ≠ c.engine.cursor.expected := (bne_iff_ne.mp amid).symm
    refine ⟨⟨c.engine.cursor.expected, .loader⟩, ?_, ?_⟩
    · rw [tick, Phase.all, attemptAll, attempt_eq, if_neg other]
    · rw [Engine.runTick, Phase.all, Engine.runPhases, Engine.runPhase_eq, if_neg other]

/-! ### What the record tells -/

/-- The engine stands where its record says. -/
structure Orderly (config : EngineConfig) (c : Course σ N L) : Prop where
  config_eq : c.engine.config = config
  placed : ∀ (i : Nat) (p : Phase), c.phases[i]? = some p → p.index = i % 9
  expected : c.engine.cursor.expected.index = c.phases.length % 9
  tick_eq : c.engine.tick = UInt64.ofNat (c.phases.count .finish)
  now_eq : c.engine.now.micros.toNat = min (UInt64.size - 1)
    (tally (c.added.map Duration.micros) +
      config.tickIntervalMs.toNat * 1000 * c.phases.count .finish)
  clocked : ∀ a ∈ c.accepted, a.Clocked

namespace Orderly

variable {config : EngineConfig} {c : Course σ N L}

theorem start {e : Engine σ N L} (fresh : e.Fresh) (s : σ) :
    Orderly e.config { engine := e, state := s } := by
  have cursor : e.cursor = {} := by rw [fresh]
  have tick : e.tick = 0 := by rw [fresh]
  have now : e.now = SimTime.zero := by rw [fresh]
  constructor
  · rfl
  · exact nofun
  · exact congrArg (·.expected.index) cursor
  · exact tick
  · have phases : ({ engine := e, state := s } : Course σ N L).phases = [] := rfl
    rw [phases, now, List.count_nil, Nat.mul_zero, List.map_nil, tally_nil, Nat.min_zero]
    rfl
  · exact fun a mem => absurd mem List.not_mem_nil

/-- An accepted phase has its place in a tick, and the record goes on with it. -/
theorem accept (orderly : Orderly config c) {p : Phase} (next : p = c.engine.cursor.expected)
    (elapsed : Duration) : Orderly config (c.attempt p elapsed).2 := by
  let e := { c.engine with cursor := ⟨p.next⟩ }
  obtain ⟨config_same, tick, now⟩ := e.perform_clock p elapsed c.state
  have clocked := e.perform_clocked p elapsed c.state
  have cursor := e.perform_cursor p elapsed c.state
  obtain ⟨e', e'_def⟩ : ∃ e', e' = (e.perform p elapsed c.state).2.1 := ⟨_, rfl⟩
  rw [← e'_def] at config_same tick now clocked cursor
  have index : p.index = c.phases.length % 9 := next ▸ orderly.expected
  obtain ⟨c', c'_def⟩ : ∃ c', c' = (c.attempt p elapsed).2 := ⟨_, rfl⟩
  have accepted := c'_def
  rw [attempt_eq, if_pos next] at accepted
  have engine : c'.engine = e' := by rw [accepted, e'_def]
  have added : c'.added = c.added := by rw [accepted]
  have phases : c'.phases = c.phases ++ [p] := by
    rw [accepted, Course.phases, List.map_append]
    rfl
  rw [← c'_def]
  constructor
  · rw [engine, config_same]
    exact orderly.config_eq
  · intro i q at_
    rw [phases, List.getElem?_append] at at_
    split at at_
    · exact orderly.placed i q at_
    · rename_i beyond
      obtain ⟨zero, rfl⟩ : i - c.phases.length = 0 ∧ p = q := by
        rw [List.getElem?_singleton] at at_
        split at at_
        · exact ⟨‹_›, Option.some.inj at_⟩
        · cases at_
      rw [index, show i = c.phases.length by omega]
  · rw [engine, cursor, phases, List.length_append]
    change p.next.index = _
    rw [Phase.index_next, index]
    exact Nat.mod_add_mod _ _ _
  · rw [engine, tick, phases, List.count_append, UInt64.ofNat_add]
    change c.engine.tick + _ = _
    rw [orderly.tick_eq]
  · rw [engine, now, added, phases, List.count_append, Nat.mul_add]
    change min _ (c.engine.now.micros.toNat + c.engine.config.tickIntervalMs.toNat * 1000 * _) = _
    rw [orderly.now_eq, orderly.config_eq]
    omega
  · intro a mem
    rw [accepted] at mem
    rcases List.mem_append.mp mem with earlier | new
    · exact orderly.clocked a earlier
    · rw [List.mem_singleton.mp new, ← e'_def]
      exact clocked

theorem attempt (orderly : Orderly config c) (p : Phase) (elapsed : Duration) :
    Orderly config (c.attempt p elapsed).2 := by
  by_cases next : p = c.engine.cursor.expected
  · exact orderly.accept next elapsed
  · rw [attempt_eq, if_neg next]
    exact orderly

theorem attemptAll (orderly : Orderly config c) (ps : List Phase) (elapsed : Duration) :
    Orderly config (c.attemptAll elapsed ps).2 := by
  induction ps generalizing c with
  | nil => exact orderly
  | cons p ps ih =>
    have first := orderly.attempt p elapsed
    rw [Course.attemptAll]
    split
    · rename_i err c₁ refused
      rw [refused] at first
      exact first
    · rename_i c₁ accepted
      rw [accepted] at first
      exact ih first

theorem call (orderly : Orderly config c) (d : Engine.Drive σ N L) : Orderly config (c.call d) := by
  cases d with
  | phase p elapsed => exact orderly.attempt p elapsed
  | tick elapsed => exact orderly.attemptAll Phase.all elapsed
  | insertWorld w => exact { orderly with }
  | advanceTime d =>
    refine { orderly with now_eq := ?_ }
    have later : (c.call (.advanceTime d)).phases = c.phases := rfl
    have added : (c.call (.advanceTime d)).added = c.added ++ [d] := rfl
    change (c.engine.now.advance d).micros.toNat = _
    rw [later, added, SimTime.toNat_advance, orderly.now_eq, List.map_append, tally_append,
      List.map_singleton, tally_cons, tally_nil]
    omega

theorem follow (orderly : Orderly config c) (calls : List (Engine.Drive σ N L)) :
    Orderly config (c.follow calls) := by
  induction calls generalizing c with
  | nil => exact orderly
  | cons d calls ih => exact ih (orderly.call d)

end Orderly

end Course

/-- Whatever a fresh engine is asked to do, the phases it accepts are those of a tick over and over
again, in order; a tick runs as a whole or, when one has already begun, not at all; ticks are
counted, and the clock kept, by the last phases and the spans added; and every first phase of a tick
sets the clocks of the worlds, none of which ever moves backwards. -/
theorem phases_and_clock {e : Engine σ N L} (fresh : e.Fresh) (calls : List (Engine.Drive σ N L))
    (s : σ) :
    let c := ({ engine := e, state := s } : Course σ N L).follow calls
    (∃ n, c.phases <+: (List.replicate n Phase.all).flatten) ∧
      (∀ elapsed, c.Whole elapsed) ∧
      c.engine.tick = UInt64.ofNat (c.phases.count .finish) ∧
      c.engine.now.micros.toNat = min (UInt64.size - 1)
        (tally (c.added.map Duration.micros) +
          e.config.tickIntervalMs.toNat * 1000 * c.phases.count .finish) ∧
      ∀ a ∈ c.accepted, a.Clocked := by
  intro c
  have orderly : Course.Orderly e.config c := (Course.Orderly.start fresh s).follow calls
  exact ⟨Phase.prefix_repeated orderly.placed, c.whole, orderly.tick_eq, orderly.now_eq,
    orderly.clocked⟩

/-- Two ticks, the first of them begun by its phases: in its middle a world comes in with a clock
that is ahead, a tick is refused, and time is added, of which half a microsecond is lost. -/
theorem phases_and_clock_of_interrupted_tick :
    let e : Engine Unit Unit Unit := { config := {}, threads := 1 }
    let w : World Unit Unit Unit :=
      (World.empty default { levelCount := 2 } PayloadFactory.plain).setTime 0 ⟨7000000⟩
    let calls : List (Engine.Drive Unit Unit Unit) :=
      [.phase .create Duration.zero, .phase .loader Duration.zero, .insertWorld w,
        .tick Duration.zero, .advanceTime ⟨1500⟩] ++
      (Phase.levelWorker.sequence 8).map (.phase · Duration.zero) ++ [.tick Duration.zero]
    let c := ({ engine := e, state := () } : Course Unit Unit Unit).follow calls
    e.Fresh ∧ c.phases = Phase.all ++ Phase.all ∧ c.engine.tick = 2 ∧
      c.engine.now.micros.toNat = 100001 ∧
      c.engine.worlds.map (fun w => (w.tick, w.now.micros)) = [(1, 7000000)] := by
  intro e w calls c
  have fresh : e.Fresh := rfl
  obtain ⟨-, -, tick, now, -⟩ := phases_and_clock fresh calls ()
  have phases : c.phases = Phase.all ++ Phase.all := by decide +kernel
  have added : c.added = [⟨1500⟩] := by decide +kernel
  refine ⟨fresh, phases, ?_, ?_, by decide +kernel⟩
  · rw [tick, phases]
    rfl
  · rw [now, phases, added]
    decide +kernel

end OctreeWorld
