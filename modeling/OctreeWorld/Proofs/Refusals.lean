import OctreeWorld.Proofs.Uniformity

/-!
# Refused calls

Every call that can be refused makes one check, and a call whose check fails answers the error of
that check and leaves everything as it was, the state of the processors included. A call whose check
passes goes through: what it does in several steps is not refused half-way, because the links of a
reached hierarchy tell it beforehand what each step needs.
-/

namespace OctreeWorld

variable {N L σ : Type} {may : NodeEdit N L → Prop}

/-- A call that checks before it acts. Where the check names an error, that is the answer and the
state is the one before; otherwise the call is answered. -/
def Checked {ε α τ : Type} (refusal : Option ε) (before : τ) (outcome : Except ε α × τ) : Prop :=
  match refusal with
  | some e => outcome = (.error e, before)
  | none => ∃ a, outcome.1 = .ok a

theorem Checked.cases {ε α τ : Type} {refusal : Option ε} {before : τ}
    {outcome : Except ε α × τ} (checked : Checked refusal before outcome) :
    (∃ e, refusal = some e ∧ outcome = (.error e, before)) ∨
      refusal = none ∧ ∃ a after, outcome = (.ok a, after) := by
  cases refusal with
  | some e => exact Or.inl ⟨e, rfl, checked⟩
  | none =>
    obtain ⟨a, answer⟩ := checked
    exact Or.inr ⟨rfl, a, outcome.2, Prod.ext answer rfl⟩

/-- The outcome of a call that hands out a state only when it is not refused. -/
def keeping {ε α τ : Type} (state : α → τ) (before : τ) : Except ε α → Except ε α × τ
  | .error e => (.error e, before)
  | .ok a => (.ok a, state a)

/-! ### The checks -/

namespace Hierarchy

/-- Refuse a level that the hierarchy lacks. -/
def levelRefusal (h : Hierarchy N L) (c : Coord) : Option OctreeError :=
  if c.level < h.levelCount then none else some (.levelOutOfRange c.level h.levelCount)

/-- Refuse a cell without a node. -/
def absenceRefusal (h : Hierarchy N L) (c : Coord) : Option OctreeError :=
  if h.contains c then none else some (.nodeMissing c)

/-- Refuse a level that the hierarchy lacks, then a cell that has a node, then a cell below the
coarsest level whose parent has none. -/
def creationRefusal (h : Hierarchy N L) (c : Coord) : Option OctreeError :=
  (h.levelRefusal c).or <|
    if h.contains c then some (.nodeExists c)
    else if c.level ≠ h.coarsest ∧ h.contains c.parent = false then
      some (.parentMissing c c.parent)
    else none

/-- Refuse a level that the hierarchy lacks, then a cell without a node. -/
def unloadRefusal (h : Hierarchy N L) (c : Coord) : Option OctreeError :=
  (h.levelRefusal c).or (h.absenceRefusal c)

/-- Refuse a cell without a node, then a node without observers. -/
def releaseRefusal (h : Hierarchy N L) (c : Coord) : Option OctreeError :=
  (h.absenceRefusal c).or <|
    if (h.get? c).any (·.observers == 0) then some (.noObservers c) else none

end Hierarchy

/-- Refuse to merge a region into itself, then into a missing region, then a missing region. -/
def World.mergeRefusal (w : World σ N L) (source destination : RegionId) : Option OctreeError :=
  if source = destination then some (.selfMerge source)
  else if (w.region? destination).isNone then some (.regionNotFound destination)
  else if (w.region? source).isNone then some (.regionNotFound source)
  else none

/-- Refuse a phase that is not the next one. -/
def Engine.orderRefusal (e : Engine σ N L) (p : Phase) : Option OutOfOrder :=
  if p = e.cursor.expected then none else some ⟨e.cursor.expected, p⟩

/-! ### Regions -/

/-- The calls on a region that can be refused, each with its check. -/
structure Region.Guarded (r : Region N L) : Prop where
  load : ∀ c now, Checked (r.hierarchy.levelRefusal c) r (r.loadNode c now)
  unload : ∀ {τ : Type} (ps : NodeProcessors τ N L) c tick now (s : τ),
    Checked (r.hierarchy.unloadRefusal c) (r, s) (r.unloadNode ps c tick now s)
  observe : ∀ c, Checked (r.hierarchy.absenceRefusal c) r (keeping (·.2) r (r.observe c))
  release : ∀ c, Checked (r.hierarchy.releaseRefusal c) r (keeping (·.2) r (r.release c))
  markChanged : ∀ c,
    Checked (r.hierarchy.absenceRefusal c) r (keeping (fun r => r) r (r.markChanged c))

namespace Hierarchy

variable {h : Hierarchy N L}

/-- A level out of range has nothing resident, so nothing is missed by checking it first. -/
theorem Numbered.unloadRefusal_eq (num : h.Numbered) (c : Coord) :
    h.unloadRefusal c = if h.contains c then none
      else some (if c.level < h.levelCount then .nodeMissing c
        else .levelOutOfRange c.level h.levelCount) := by
  unfold unloadRefusal levelRefusal absenceRefusal
  by_cases inside : c.level < h.levelCount
  · simp [inside]
  · have absent : ¬ h.contains c = true := fun resident => inside (num.level_lt resident)
    simp [inside, absent]

/-- A subtree is unloaded as a whole or not at all. -/
theorem Linked.unloadSubtree_checked (linked : h.Linked) (ps : List (NodeProcessor σ N L))
    (ctx : BatchContext) (c : Coord) (s : σ) :
    Checked (h.unloadRefusal c) (h, s) (h.unloadSubtree ps ctx c s) := by
  rw [linked.numbered.unloadRefusal_eq]
  by_cases resident : h.contains c = true
  · obtain ⟨g, s', run, -⟩ := linked.unloadSubtree ps ctx resident s
    rw [if_pos resident, run]
    exact ⟨_, rfl⟩
  · rw [if_neg resident]
    exact unloadSubtree_of_absent linked.numbered ps ctx (Bool.eq_false_iff.mpr resident) s

/-- The check of a creation in the words of the hierarchy's own: below the coarsest level is any
level but the coarsest. -/
theorem Numbered.creationRefusal_eq (num : h.Numbered) (c : Coord) :
    h.creationRefusal c = h.insertError? c := by
  unfold creationRefusal levelRefusal insertError?
  by_cases inside : c.level < h.levelCount
  · have below : c.level ≠ h.coarsest ↔ c.level < h.coarsest := by
      have bound := UInt8.lt_iff_toNat_lt.mp inside
      rw [num.toNat_levelCount] at bound
      have top := num.toNat_coarsest (by omega)
      rw [num.lt_coarsest_iff, Ne, ← UInt8.toNat_inj]
      omega
    simp only [inside, UInt8.not_le.mpr inside, if_true, if_false, Option.none_or, below,
      Bool.and_eq_true, decide_eq_true_eq, Bool.not_eq_true']
  · simp [inside, UInt8.not_lt.mp inside]

end Hierarchy

theorem Region.Reached.guarded {r : Region N L} (reached : r.Reached may) : r.Guarded where
  load c now := by
    unfold Hierarchy.levelRefusal Region.loadNode
    by_cases inside : c.level < r.hierarchy.levelCount
    · obtain ⟨g, run, -⟩ := reached.linked.ensure r.factory now c
      rw [run, if_pos inside, if_pos inside]
      exact ⟨_, rfl⟩
    · simp only [Hierarchy.ensure, Hierarchy.checkLevel, if_neg inside]
      exact rfl
  unload ps c tick now s := by
    have checked := reached.linked.unloadSubtree_checked ps.unload
      { world := r.world, kind := .unload, level := some c.level, now, tick } c s
    unfold Region.unloadNode
    obtain ⟨e, refusal, run⟩ | ⟨refusal, order, after, run⟩ := checked.cases
    · simp only [refusal, run]
      exact rfl
    · simp only [refusal, run]
      exact ⟨_, rfl⟩
  observe c := by
    unfold Hierarchy.absenceRefusal Hierarchy.contains Region.observe
    cases r.hierarchy.get? c with
    | none => exact rfl
    | some n => exact ⟨_, rfl⟩
  release c := by
    unfold Hierarchy.releaseRefusal Hierarchy.absenceRefusal Hierarchy.contains Region.release
    cases r.hierarchy.get? c with
    | none => exact rfl
    | some n =>
      by_cases alone : n.observers = 0
      · simp [alone, Node.removeObserver?, Checked, keeping]
      · simp [alone, Node.removeObserver?, Checked, keeping]
  markChanged c := by
    unfold Hierarchy.absenceRefusal Region.markChanged
    by_cases resident : r.hierarchy.contains c = true
    · rw [if_pos resident, if_pos resident]
      exact ⟨_, rfl⟩
    · rw [if_neg resident, if_neg resident]
      exact rfl

/-! ### Worlds -/

/-- The calls on a world that can be refused, each with its check. -/
structure World.Guarded (w : World σ N L) : Prop where
  create : ∀ c, Checked (w.hierarchy.creationRefusal c) w (keeping (fun w => w) w (w.createNode c))
  unload : ∀ c s, Checked (w.hierarchy.unloadRefusal c) (w, s) (w.unloadNode c s)
  observe : ∀ c, Checked (w.hierarchy.absenceRefusal c) w (keeping (·.2) w (w.observe c))
  release : ∀ c, Checked (w.hierarchy.releaseRefusal c) w (keeping (·.2) w (w.release c))
  merge : ∀ source destination,
    Checked (w.mergeRefusal source destination) w (w.mergeRegions source destination)

namespace World

/-- Regions of a world fit each other, so that a merge which has begun is completed. -/
theorem Operated.mergeRegions_checked {w : World σ N L} (operated : w.Operated may)
    (source destination : RegionId) :
    Checked (w.mergeRefusal source destination) w (w.mergeRegions source destination) := by
  unfold mergeRefusal World.mergeRegions
  by_cases self : source = destination
  · rw [if_pos self, if_pos self]
    exact rfl
  · rw [if_neg self, if_neg self]
    cases found_dst : w.region? destination with
    | none => exact rfl
    | some dst =>
      cases found_src : w.region? source with
      | none => exact rfl
      | some src =>
        have reached := fun r => operated.sound.regions r
        have apart : src.id ≠ dst.id := by
          rw [region?_id found_src, region?_id found_dst]
          exact self
        have same : src.hierarchy.levelCount = dst.hierarchy.levelCount := by
          have uniform := operated.uniform
          exact Hierarchy.levelCount_congr ((uniform src (region?_mem found_src)).trans
            (uniform dst (region?_mem found_dst)).symm)
        obtain ⟨stats, spent, g, -, run⟩ := Region.merge_eq
          (reached src (region?_mem found_src)).linked (reached dst (region?_mem found_dst)).linked
          apart same
        simp only [run]
        exact ⟨stats, rfl⟩

theorem Operated.guarded {w : World σ N L} (operated : w.Operated may) : w.Guarded where
  create c := by
    have num := operated.sound.linked.numbered
    rw [num.creationRefusal_eq, createNode, Hierarchy.insert]
    simp only [Node.fresh]
    cases w.hierarchy.insertError? c with
    | some e => exact rfl
    | none => exact ⟨_, rfl⟩
  unload c s := by
    have checked := operated.sound.linked.unloadSubtree_checked w.processors.unload
      (w.batchContext .unload) c s
    unfold unloadNode
    obtain ⟨e, refusal, run⟩ | ⟨refusal, order, after, run⟩ := checked.cases
    · simp only [refusal, run]
      exact rfl
    · simp only [refusal, run]
      exact ⟨_, rfl⟩
  observe c := by
    unfold Hierarchy.absenceRefusal Hierarchy.contains observe
    cases w.hierarchy.get? c with
    | none => exact rfl
    | some n => exact ⟨_, rfl⟩
  release c := by
    unfold Hierarchy.releaseRefusal Hierarchy.absenceRefusal Hierarchy.contains release
    cases w.hierarchy.get? c with
    | none => exact rfl
    | some n =>
      by_cases alone : n.observers = 0
      · simp [alone, Node.removeObserver?, Checked, keeping]
      · simp [alone, Node.removeObserver?, Checked, keeping]
  merge := operated.mergeRegions_checked

end World

/-! ### Engines -/

namespace Engine

/-- Run phases in turn up to the first that is refused, and tell what those before it have left. -/
def runUntilRefused (elapsed : Duration) :
    List Phase → Engine σ N L → σ → Except OutOfOrder Unit × Engine σ N L × σ
  | [], e, s => (.ok (), e, s)
  | p :: ps, e, s =>
    match e.runPhase p elapsed s with
    | .error err => (.error err, e, s)
    | .ok (_, e, s) => runUntilRefused elapsed ps e s

/-- Where no phase is refused, the phases leave what `runPhases` hands out. -/
theorem runPhases_eq_runUntilRefused (elapsed : Duration) (ps : List Phase) (e : Engine σ N L)
    (s : σ) : runPhases elapsed ps e s =
      (e.runUntilRefused elapsed ps s).1.map fun _ => (e.runUntilRefused elapsed ps s).2 := by
  induction ps generalizing e s with
  | nil => rfl
  | cons p ps ih =>
    rw [runPhases, runUntilRefused]
    cases e.runPhase p elapsed s with
    | error err => rfl
    | ok ran => exact ih ran.2.1 ran.2.2

/-- The calls on an engine that can be refused, each with its check. -/
structure Guarded (e : Engine σ N L) : Prop where
  phase : ∀ p elapsed s,
    Checked (e.orderRefusal p) (e, s) (keeping (·.2) (e, s) (e.runPhase p elapsed s))
  tick : ∀ elapsed s,
    Checked (e.orderRefusal .loader) (e, s) (e.runUntilRefused elapsed Phase.all s)

theorem guarded (e : Engine σ N L) : e.Guarded where
  phase p elapsed s := by
    unfold orderRefusal
    rw [runPhase_eq]
    by_cases next : p = e.cursor.expected
    · rw [if_pos next, if_pos next]
      exact ⟨_, rfl⟩
    · rw [if_neg next, if_neg next]
      exact rfl
  tick elapsed s := by
    unfold orderRefusal
    by_cases next : Phase.loader = e.cursor.expected
    · obtain ⟨e', s', run, -⟩ := runPhases_ran next.symm (n := 9) (Nat.le_refl 9) elapsed s
      rw [if_pos next]
      have all := (runPhases_eq_runUntilRefused elapsed Phase.all e s).symm.trans run
      cases answer : (e.runUntilRefused elapsed Phase.all s).1 with
      | ok u => exact ⟨u, answer⟩
      | error err =>
        rw [answer] at all
        cases all
    · rw [if_neg next, Phase.all, runUntilRefused, runPhase_eq, if_neg next]
      exact rfl

end Engine

/-- Calls are refused exactly by their checks, and a refused call changes nothing: not the region,
the world or the engine, and not the state of any processor. -/
theorem refusals_change_nothing (may : NodeEdit N L → Prop) :
    (∀ r : Region N L, r.Reached may → r.Guarded) ∧
      (∀ w : World σ N L, w.Operated may → w.Guarded) ∧
      ∀ e : Engine σ N L, e.Guarded ∧ ∀ elapsed s, e.runTick elapsed s =
        (e.runUntilRefused elapsed Phase.all s).1.map
          fun _ => (e.runUntilRefused elapsed Phase.all s).2 :=
  ⟨fun _ reached => reached.guarded, fun _ operated => operated.guarded,
    fun e => ⟨e.guarded, fun elapsed s => e.runPhases_eq_runUntilRefused elapsed Phase.all s⟩⟩

namespace Siblings

/-- Two cells under one parent. -/
def left : Coord := ⟨⟨1, 0, 0⟩, 0⟩

def right : Coord := ⟨⟨2, 0, 0⟩, 0⟩

def stranger : Coord := ⟨⟨7, 0, 0⟩, 0⟩

/-- Counts the nodes that are unloaded. -/
def counting : NodeProcessors Nat Unit Unit :=
  { unload := [.plain "count" fun _ _ count => ([], count + 1)] }

/-- A region with both cells and their parent. -/
def region : Region Unit Unit :=
  (((Region.empty ⟨1⟩ default Box.everything PayloadFactory.plain 2).loadNode left
    SimTime.zero).2.loadNode right SimTime.zero).2

/-- A world with both cells and their parent, and with a region for each cell. -/
def world : World Nat Unit Unit :=
  let w : World Nat Unit Unit := World.empty default { levelCount := 2 } PayloadFactory.plain
  let w := (({ w with processors := { counting with } }.queueCreate left).queueCreate right)
  let w := (w.createPhase.2.addRegion ⟨1⟩ Box.everything).addRegion ⟨2⟩ Box.everything
  (w.modifyRegion ⟨1⟩ fun r => (r.loadNode left SimTime.zero).2).modifyRegion ⟨2⟩ fun r =>
    (r.loadNode right SimTime.zero).2

/-- An engine in the middle of a tick. -/
def engine : Engine Nat Unit Unit :=
  { ({ config := {}, threads := 1 } : Engine Nat Unit Unit).insertWorld world with
    cursor := ⟨.create⟩ }

theorem region_reached : region.Reached fun _ => True :=
  ((Region.Reached.empty _ _ _ _ _).loadNode _ _).loadNode _ _

theorem world_operated : world.Operated fun _ => True := by
  have obey : ({ counting with } : ProcessorRegistry Nat Unit Unit).Obey fun _ => True :=
    ⟨⟨nofun, fun _ _ _ _ _ _ _ => trivial, nofun⟩, nofun, nofun⟩
  have filled := ((World.Operated.empty default { levelCount := 2 } PayloadFactory.plain).register
    obey).perform (.queueCreate left) trivial 0
      |>.perform (.queueCreate right) trivial 0 |>.perform .createPhase trivial 0
  refine ((((filled.addRegion ⟨1⟩ Box.everything).addRegion ⟨2⟩ Box.everything).modifyRegion _
    fun r reached => ?_).modifyRegion _ fun r reached => ?_)
  · exact reached.succeeds_loadNode left SimTime.zero
  · exact reached.succeeds_loadNode right SimTime.zero

end Siblings

open Siblings in
/-- With nodes in place, a cell without a node is not unloaded, a node without observers not
released, a cell with a node not created, a region not merged into a missing one, and no tick begins
in the middle of another. But the parent goes with both cells, and the regions, which share a node,
are merged. -/
theorem refusals_of_siblings :
    region.Reached (fun _ => True) ∧ world.Operated (fun _ => True) ∧
      region.nodeCount = 3 ∧ world.totalNodeCount = 7 ∧
      region.unloadNode counting stranger 0 SimTime.zero 5 =
        (.error (.nodeMissing stranger), region, 5) ∧
      keeping (·.2) region (region.release left) = (.error (.noObservers left), region) ∧
      (region.unloadNode counting left.parent 0 SimTime.zero 5).1 = .ok 3 ∧
      (region.unloadNode counting left.parent 0 SimTime.zero 5).2.2 = 8 ∧
      keeping (fun w => w) world (world.createNode left) = (.error (.nodeExists left), world) ∧
      world.mergeRegions ⟨1⟩ ⟨3⟩ = (.error (.regionNotFound ⟨3⟩), world) ∧
      (world.mergeRegions ⟨1⟩ ⟨2⟩).1 = .ok { moved := 1, collisions := 1, commands := 2 } ∧
      engine.runUntilRefused Duration.zero Phase.all 5 = (.error ⟨.create, .loader⟩, engine, 5) ∧
      engine.runTick Duration.zero 5 = .error ⟨.create, .loader⟩ := by
  obtain ⟨regions, worlds, engines⟩ :=
    refusals_change_nothing (N := Unit) (L := Unit) (σ := Nat) fun _ => True
  have missed := (regions _ region_reached).unload counting stranger 0 SimTime.zero 5
  have held := (regions _ region_reached).release left
  have created := (worlds _ world_operated).create left
  have merged := (worlds _ world_operated).merge ⟨1⟩ ⟨3⟩
  have ticked := (engines engine).1.tick Duration.zero 5
  rw [show region.hierarchy.unloadRefusal stranger = some (.nodeMissing stranger) by decide]
    at missed
  rw [show region.hierarchy.releaseRefusal left = some (.noObservers left) by decide] at held
  rw [show world.hierarchy.creationRefusal left = some (.nodeExists left) by decide] at created
  rw [show world.mergeRefusal ⟨1⟩ ⟨3⟩ = some (.regionNotFound ⟨3⟩) by decide] at merged
  rw [show engine.orderRefusal .loader = some ⟨.create, .loader⟩ by decide] at ticked
  refine ⟨region_reached, world_operated, by decide, by decide, missed, held, by decide, by decide,
    created, merged, by decide, ticked, ?_⟩
  rw [(engines engine).2, show engine.runUntilRefused _ _ 5 = _ from ticked]
  rfl

end OctreeWorld
