import OctreeWorld.Proofs.Census
import OctreeWorld.Proofs.Settling

/-!
# The balance of a tick

A tick of an engine reports how many nodes it has created and destroyed, in the worlds and in their
regions. `Engine.Books` says what these numbers are: each hierarchy swells when its create queues
are drained and shrinks when its destroy queues are drained, and the numbers add up by how many
cells. The number of nodes after a tick follows from that before it.
-/

namespace OctreeWorld

variable {N L σ : Type}

/-! ### Sums over lists -/

/-- Elements at the same place are related by numbers that add up to the given one. -/
inductive Summed {α β : Type} (R : Nat → α → β → Prop) : Nat → List α → List β → Prop
  | nil : Summed R 0 [] []
  | cons {m n a b as bs} (first : R m a b) (rest : Summed R n as bs) :
      Summed R (m + n) (a :: as) (b :: bs)

namespace Summed

variable {α β γ : Type} {R : Nat → α → β → Prop} {S : Nat → γ → β → Prop} {n : Nat}
  {as : List α} {bs : List β} {cs : List γ}

/-- Elements on the left may be exchanged for others. -/
theorem exchange_left {T : γ → α → Prop} (compose : ∀ n c a b, T c a → R n a b → S n c b)
    (related : List.Forall₂ T cs as) (summed : Summed R n as bs) : Summed S n cs bs := by
  induction summed generalizing cs with
  | nil =>
    cases related
    exact .nil
  | cons first _ ih =>
    cases related with
    | cons step rest => exact .cons (compose _ _ _ _ step first) (ih rest)

/-- A relation read from right to left sums up in the same way. -/
theorem flip (summed : Summed R n as bs) : Summed (fun n b a => R n a b) n bs as := by
  induction summed with
  | nil => exact .nil
  | cons first _ ih => exact .cons first ih

/-- Elements on the right may be exchanged for others. -/
theorem exchange_right {S : Nat → α → γ → Prop} {T : β → γ → Prop}
    (compose : ∀ n a b c, R n a b → T b c → S n a c) (summed : Summed R n as bs)
    (related : List.Forall₂ T bs cs) : Summed S n as cs :=
  (summed.flip.exchange_left (fun n c b a step first => compose n a b c first step)
    related.flip).flip

/-- If every number is what one size exceeds another by, so is their sum. -/
theorem tally_eq {f : α → Nat} {g : β → Nat} (each : ∀ n a b, R n a b → g b = f a + n)
    (summed : Summed R n as bs) : tally (bs.map g) = tally (as.map f) + n := by
  induction summed with
  | nil => rfl
  | cons first _ ih =>
    rw [List.map_cons, List.map_cons, tally_cons, tally_cons, ih, each _ _ _ first]
    omega

/-- A sweep answers with one number for each element. -/
theorem sweep {R : Nat → α → α → Prop} {step : α → σ → Nat × α × σ} {as : List α}
    (each : ∀ a ∈ as, ∀ s, R (step a s).1 a (step a s).2.1) (s : σ) :
    Summed R (tally (sweep step as s).1) as (OctreeWorld.sweep step as s).2.1 := by
  induction as generalizing s with
  | nil => exact .nil
  | cons a as ih =>
    exact .cons (each a List.mem_cons_self s)
      (ih (fun b listed => each b (List.mem_cons_of_mem a listed)) _)

end Summed

/-- A sweep that takes each element to another by way of something in the middle, answering with the
numbers for both halves of the way. -/
theorem sweep_summed {τ α γ : Type} {R S : Nat → τ → γ → Prop} {P : τ → γ → Prop}
    (step : τ → σ → α × τ × σ) (came gone : α → Nat) {ts : List τ}
    (each : ∀ t ∈ ts, ∀ s, ∃ p, P t p ∧ R (came (step t s).1) t p ∧
      S (gone (step t s).1) (step t s).2.1 p) (s : σ) :
    ∃ ps, List.Forall₂ P ts ps ∧ Summed R (tally ((sweep step ts s).1.map came)) ts ps ∧
      Summed S (tally ((sweep step ts s).1.map gone)) (sweep step ts s).2.1 ps := by
  induction ts generalizing s with
  | nil => exact ⟨[], .nil, .nil, .nil⟩
  | cons t ts ih =>
    obtain ⟨p, way, up, down⟩ := each t List.mem_cons_self s
    obtain ⟨ps, ways, ups, downs⟩ :=
      ih (fun u listed => each u (List.mem_cons_of_mem t listed)) (step t s).2.2
    exact ⟨p :: ps, .cons way ways, .cons up ups, .cons down downs⟩

/-- A count of several ticks together adds up those of the single ones. -/
theorem RegionTickStats.view_total (view : RegionTickStats → Nat)
    (add : ∀ a b, view (a + b) = view a + view b) (none_ : view {} = 0)
    (stats : List RegionTickStats) : view (total stats) = tally (stats.map view) := by
  have walk : ∀ start, view (stats.foldl (· + ·) start) = view start + tally (stats.map view) := by
    induction stats with
    | nil => exact fun start => rfl
    | cons x xs ih =>
      intro start
      rw [List.foldl_cons, ih, add, List.map_cons, tally_cons, Nat.add_assoc]
  rw [total, walk, none_, Nat.zero_add]

/-! ### Worlds -/

/-- A hierarchy has `n` cells more than a region. -/
def Region.Surplus (n : Nat) (r : Region N L) (peak : Hierarchy N L) : Prop :=
  Hierarchy.Surplus n r.hierarchy peak

namespace World

/-- The second world's own hierarchy has `n` cells more. -/
def Surplus (n : Nat) (w w' : World σ N L) : Prop :=
  Hierarchy.Surplus n w.hierarchy w'.hierarchy

/-- The given hierarchies have `n` cells more than those of the regions in whose place they stand,
all together. -/
def RegionSurplus (n : Nat) (w : World σ N L) (peaks : List (Hierarchy N L)) : Prop :=
  Summed Region.Surplus n w.regions peaks

theorem RegionSurplus.congr {n : Nat} {w w' : World σ N L} {peaks : List (Hierarchy N L)}
    (same : w'.regions = w.regions) (surplus : w.RegionSurplus n peaks) :
    w'.RegionSurplus n peaks := by
  rwa [RegionSurplus, same]

/-- What a region may have come to hold, in the course of its turn, when its tick has created what
was asked for. -/
def Stocks {α : Type} (w : World σ N L) (f : Region N L → α × Region N L) (r : Region N L)
    (peak : Hierarchy N L) : Prop :=
  ∃ s, let worked := runRegionBatch w.processors.region (w.batchContext .region) r s
    peak = ((f worked.1).2.stocked w.processors.toNodeProcessors w.tick w.now
      w.config.evictionTimeout worked.2).1

section Regions

variable {α : Type} {w : World σ N L} {f : Region N L → α × Region N L}
  (keeps : ∀ p ∈ w.processors.region, p.Obeys RegionEdit.KeepsResidents)
  (steady : ∀ r, Hierarchy.Levelwise Level.SameLinks r.hierarchy (f r).2.hierarchy)

include keeps steady

theorem workRegion_surplus {r : Region N L} (linked : r.hierarchy.Linked) (s : σ) :
    ∃ peak, w.Stocks f r peak ∧
      Region.Surplus (w.workRegion f r s).1.2.created r peak ∧
      Region.Surplus (w.workRegion f r s).1.2.destroyed (w.workRegion f r s).2.1 peak := by
  have batch := runRegionBatch_sameLinks keeps (w.batchContext .region) r s
  refine ⟨_, ⟨s, rfl⟩, ?_⟩
  simp only [workRegion, Region.Surplus]
  generalize runRegionBatch w.processors.region (w.batchContext .region) r s = worked at batch ⊢
  have asked : Hierarchy.Levelwise Level.SameLinks r.hierarchy (f worked.1).2.hierarchy :=
    batch.trans (fun _ _ _ => Level.SameLinks.trans) (steady worked.1)
  have linked' := linked.levelwise asked
  exact ⟨.after_sameLinks asked (Region.tick_created linked' _ _ _ _ _),
    Region.tick_destroyed linked' _ _ _ _ _⟩

theorem regionWorkerPhase_surplus (linked : ∀ r ∈ w.regions, r.hierarchy.Linked) (s : σ) :
    ∃ peaks, List.Forall₂ (w.Stocks f) w.regions peaks ∧
      w.RegionSurplus (w.regionWorkerPhase f s).2.1.created peaks ∧
      (w.regionWorkerPhase f s).2.2.1.RegionSurplus (w.regionWorkerPhase f s).2.1.destroyed
        peaks := by
  have each : ∀ r ∈ w.regions, ∀ s, ∃ peak, w.Stocks f r peak ∧
      Region.Surplus (w.workRegion f r s).1.2.created r peak ∧
      Region.Surplus (w.workRegion f r s).1.2.destroyed (w.workRegion f r s).2.1 peak :=
    fun r listed s => workRegion_surplus keeps steady (linked r listed) s
  obtain ⟨peaks, stocks, created, destroyed⟩ :=
    sweep_summed (w.workRegion f) (·.2.created) (·.2.destroyed) each s
  rw [regionWorkerPhase_eq]
  refine ⟨peaks, stocks, ?_, ?_⟩
  · rw [RegionTickStats.view_total (·.created) (fun _ _ => rfl) rfl, List.map_map]
    exact created
  · rw [RegionTickStats.view_total (·.destroyed) (fun _ _ => rfl) rfl, List.map_map]
    exact destroyed

end Regions

end World

/-! ### Phases -/

/-- What a tick counts of nodes that come and go. -/
def TickStats.turnover (t : TickStats) : Nat × Nat × RegionTickStats :=
  (t.created, t.destroyed, t.regions)

/-- A phase that leaves alone what a tick has counted of nodes that come and go. -/
def Phase.steady : Phase → Bool
  | .loader | .regionWorker | .create | .destroy => false
  | _ => true

namespace Engine

variable {e e' f : Engine σ N L} {w w' : World σ N L} {elapsed : Duration} {s s' : σ}
  {ps qs : List Phase}

/-- Apart from the phases that create and destroy, none moves a node of the world itself. -/
theorem Works.sameLinks {p : Phase} (works : e.Works p w w') (create : p ≠ .create)
    (destroy : p ≠ .destroy) :
    Hierarchy.Levelwise Level.SameLinks w.hierarchy w'.hierarchy := by
  have same := Hierarchy.Levelwise.refl Level.SameLinks.refl w.hierarchy
  cases p with
  | create => exact absurd rfl create
  | destroy => exact absurd rfl destroy
  | loader =>
    rw [show w' = e.stampWorld w from works]
    exact (Hierarchy.keepAliveAll_levelwise e.now e.loaderList w.hierarchy).sameLinks_of_called
  | levelWorker =>
    obtain ⟨s, rfl⟩ := works
    rw [streamWorld_world]
    have allowed : ∀ p ∈ w.processors.level, p.Obeys (LevelEdit.Allowed fun _ => True) := by
      intro p _ ctx l s edit _
      cases edit <;> exact trivial
    refine Hierarchy.Levelwise.sameLinks_of_called ?_
    exact World.levelWorkerPhase_called allowed (Level.stream_called _ _ _ _ _) s
  | regionWorker =>
    obtain ⟨s, rfl⟩ := works
    rw [tickRegions_world, World.regionWorkerPhase_eq]
    exact same
  | worldWorker =>
    obtain ⟨s, rfl⟩ := works
    exact w.drainLevels_levelwise .tick
      (fun ctx l s => (Level.Step.tick Processor.obeys_any ctx s).sameLinks) s
  | load =>
    obtain ⟨s, rfl⟩ := works
    exact w.drainLevels_levelwise .load
      (fun ctx l s => (Level.Step.load Processor.obeys_any ctx s).sameLinks) s
  | unload =>
    obtain ⟨s, rfl⟩ := works
    exact w.drainLevels_levelwise .unload
      (fun ctx l s => (Level.Step.unload Processor.obeys_any ctx s).sameLinks) s
  | finish =>
    rw [show w' = w from works]
    exact same

theorem Works.same_regions {p : Phase} (works : e.Works p w w') (other : p ≠ .regionWorker) :
    w'.regions = w.regions := by
  obtain ⟨h, regions, tick, now, rfl, same, -⟩ := works.parts
  exact same other

theorem runPhases_split (done : runPhases elapsed (ps ++ qs) e s = .ok (e', s')) :
    ∃ f t, runPhases elapsed ps e s = .ok (f, t) ∧ runPhases elapsed qs f t = .ok (e', s') := by
  rw [runPhases_append] at done
  cases first : runPhases elapsed ps e s with
  | error err =>
    rw [first] at done
    cases done
  | ok result =>
    rw [first] at done
    exact ⟨result.1, result.2, rfl, done⟩

/-- A run of phases that begins with a phase performs it. -/
theorem runPhases_cons {p : Phase} (done : runPhases elapsed (p :: ps) e s = .ok (e', s')) :
    ∃ f t, f = ({ e with cursor := ⟨p.next⟩ }.perform p elapsed s).2.1 ∧
      runPhases elapsed ps f t = .ok (e', s') := by
  rw [runPhases, runPhase_eq] at done
  by_cases expected : p = e.cursor.expected
  · rw [if_pos expected] at done
    exact ⟨_, _, rfl, done⟩
  · rw [if_neg expected] at done
    cases done

theorem perform_turnover (e : Engine σ N L) {p : Phase} (steady : p.steady = true)
    (elapsed : Duration) (s : σ) :
    (e.perform p elapsed s).2.1.current.turnover = e.current.turnover := by
  cases p with
  | loader => cases steady
  | regionWorker => cases steady
  | create => cases steady
  | destroy => cases steady
  | _ => rfl

theorem runPhases_turnover (steady : ∀ p ∈ ps, p.steady = true)
    (done : runPhases elapsed ps e s = .ok (e', s')) :
    e'.current.turnover = e.current.turnover := by
  induction ps generalizing e s with
  | nil =>
    cases done
    rfl
  | cons p ps ih =>
    obtain ⟨f, t, first, rest⟩ := runPhases_cons done
    rw [ih (fun q listed => steady q (List.mem_cons_of_mem p listed)) rest, first]
    exact perform_turnover _ (steady p List.mem_cons_self) elapsed s

/-- What phases do to every world by themselves, a run of them does to every world. -/
theorem runPhases_worlds {K : World σ N L → World σ N L → Prop} (refl : ∀ w, K w w)
    (trans : ∀ w v w', K w v → K v w' → K w w')
    (each : ∀ p ∈ ps, ∀ (e : Engine σ N L) w w', e.Works p w w' → K w w')
    (done : runPhases elapsed ps e s = .ok (e', s')) : List.Forall₂ K e.worlds e'.worlds := by
  induction ps generalizing e s with
  | nil =>
    cases done
    exact List.forall₂_same.mpr fun w _ => refl w
  | cons p ps ih =>
    obtain ⟨f, t, first, rest⟩ := runPhases_cons done
    have steps : List.Forall₂ K e.worlds f.worlds := by
      rw [first]
      exact (perform_works { e with cursor := ⟨p.next⟩ } p elapsed s).imp
        (each p List.mem_cons_self _)
    exact forall₂_comp trans steps
      (ih (fun q listed => each q (List.mem_cons_of_mem p listed)) rest)

theorem runPhases_sameLinks (moveless : ∀ p ∈ ps, p ≠ .create ∧ p ≠ .destroy)
    (done : runPhases elapsed ps e s = .ok (e', s')) :
    List.Forall₂ (fun w w' => Hierarchy.Levelwise Level.SameLinks w.hierarchy w'.hierarchy)
      e.worlds e'.worlds :=
  runPhases_worlds (fun w => Hierarchy.Levelwise.refl Level.SameLinks.refl w.hierarchy)
    (fun _ _ _ first second => first.trans (fun _ _ _ => Level.SameLinks.trans) second)
    (fun p listed _ _ _ works => works.sameLinks (moveless p listed).1 (moveless p listed).2) done

theorem runPhases_linked (moveless : ∀ p ∈ ps, p ≠ .create ∧ p ≠ .destroy)
    (linked : ∀ w ∈ e.worlds, w.hierarchy.Linked)
    (done : runPhases elapsed ps e s = .ok (e', s')) : ∀ w ∈ e'.worlds, w.hierarchy.Linked := by
  intro w listed
  obtain ⟨v, before, links⟩ := exists_of_forall₂ (runPhases_sameLinks moveless done) listed
  exact (linked v before).levelwise links

theorem runPhases_regions (away : ∀ p ∈ ps, p ≠ .regionWorker)
    (done : runPhases elapsed ps e s = .ok (e', s')) :
    List.Forall₂ (fun w w' => w'.regions = w.regions) e.worlds e'.worlds :=
  runPhases_worlds (fun _ => rfl) (fun _ _ _ first second => second.trans first)
    (fun p listed _ _ _ works => works.same_regions (away p listed)) done

theorem runPhases_processors (done : runPhases elapsed ps e s = .ok (e', s')) :
    List.Forall₂ (fun w w' => w'.processors = w.processors) e.worlds e'.worlds := by
  refine runPhases_worlds (fun _ => rfl) (fun _ _ _ first second => second.trans first) ?_ done
  intro p _ e w w' works
  obtain ⟨h, regions, tick, now, rfl, -⟩ := works.parts
  rfl

/-- The create phase counts by how much the worlds swell. -/
theorem perform_create (linked : ∀ w ∈ e.worlds, w.hierarchy.Linked) (elapsed : Duration) (s : σ) :
    ∃ n, (e.perform .create elapsed s).2.1.current.turnover =
        (e.current.created + n, e.current.destroyed, e.current.regions) ∧
      Summed World.Surplus n e.worlds (e.perform .create elapsed s).2.1.worlds := by
  refine ⟨_, rfl, Summed.sweep (fun w listed s => ?_) s⟩
  exact (linked w listed).createPending_surplus w.factory w.now

/-- The destroy phase counts by how much they shrink. -/
theorem perform_destroy (linked : ∀ w ∈ e.worlds, w.hierarchy.Linked) (elapsed : Duration) (s : σ) :
    ∃ n, (e.perform .destroy elapsed s).2.1.current.turnover =
        (e.current.created, e.current.destroyed + n, e.current.regions) ∧
      Summed World.Surplus n (e.perform .destroy elapsed s).2.1.worlds e.worlds := by
  have each : ∀ w ∈ e.worlds, ∀ s, World.Surplus (w.destroyPhase s).1 (w.destroyPhase s).2.1 w :=
    fun w listed s =>
      (linked w listed).destroyPending_surplus w.processors.unload (w.batchContext .unload) s
  exact ⟨_, rfl, (Summed.sweep each s).flip⟩

/-- The region workers count by how much the regions swell and shrink. -/
theorem perform_regionWorker (linked : ∀ w ∈ e.worlds, ∀ r ∈ w.regions, r.hierarchy.Linked)
    (keeps : ∀ w ∈ e.worlds, ∀ p ∈ w.processors.region, p.Obeys RegionEdit.KeepsResidents)
    (elapsed : Duration) (s : σ) :
    ∃ total peaks, (e.perform .regionWorker elapsed s).2.1.current.turnover =
        (e.current.created, e.current.destroyed, e.current.regions + total) ∧
      List.Forall₂ (fun w ps => List.Forall₂
        (w.Stocks (Region.stream e.config.stream e.tick e.now)) w.regions ps) e.worlds peaks ∧
      Summed World.RegionSurplus total.created e.worlds peaks ∧
      Summed World.RegionSurplus total.destroyed (e.perform .regionWorker elapsed s).2.1.worlds
        peaks := by
  let f : Region N L → StreamStats × Region N L := Region.stream e.config.stream e.tick e.now
  have asks : ∀ r : Region N L, Hierarchy.Levelwise Level.SameLinks r.hierarchy
      (f r).2.hierarchy :=
    fun r => (r.stream_called e.config.stream e.tick e.now).sameLinks_of_called
  have each : ∀ w ∈ e.worlds, ∀ s, ∃ ps, List.Forall₂ (w.Stocks f) w.regions ps ∧
      World.RegionSurplus (e.tickRegions w s).1.2.created w ps ∧
      World.RegionSurplus (e.tickRegions w s).1.2.destroyed (e.tickRegions w s).2.1 ps := by
    intro w listed s
    exact World.regionWorkerPhase_surplus (keeps w listed) asks (linked w listed) s
  obtain ⟨peaks, stocks, created, destroyed⟩ :=
    sweep_summed e.tickRegions (·.2.created) (·.2.destroyed) each s
  refine ⟨RegionTickStats.total ((sweep e.tickRegions e.worlds s).1.map (·.2)), peaks, rfl, stocks,
    ?_, ?_⟩
  · rw [RegionTickStats.view_total (·.created) (fun _ _ => rfl) rfl, List.map_map]
    exact created
  · rw [RegionTickStats.view_total (·.destroyed) (fun _ _ => rfl) rfl, List.map_map]
    exact destroyed

/-! ### Ticks -/

/-- Every hierarchy of every world and every region is linked. -/
def Linked (e : Engine σ N L) : Prop :=
  ∀ w ∈ e.worlds, w.hierarchy.Linked ∧ ∀ r ∈ w.regions, r.hierarchy.Linked

/-- What the regions of an engine may come to hold when their ticks have created what was asked
for, if the region workers are next. -/
def Stocks (e : Engine σ N L) (peaks : List (List (Hierarchy N L))) : Prop :=
  List.Forall₂ (fun w ps => List.Forall₂
    (w.Stocks (Region.stream e.config.stream e.tick e.now)) w.regions ps) e.worlds peaks

/-- The books of a tick, `middle` being the engine when the worlds have created what was asked for
and `peaks` what the regions held when theirs had. What the tick reports as created are the cells
that became resident up to then, and what it reports as destroyed those that left after it, each
once in its hierarchy. -/
structure Books (e middle e' : Engine σ N L) (peaks : List (List (Hierarchy N L))) : Prop where
  created : Summed World.Surplus e'.last.created e.worlds middle.worlds
  destroyed : Summed World.Surplus e'.last.destroyed e'.worlds middle.worlds
  regionsCreated : Summed World.RegionSurplus e'.last.regions.created e.worlds peaks
  regionsDestroyed : Summed World.RegionSurplus e'.last.regions.destroyed e'.worlds peaks

theorem tally_map_add {α : Type} (f g : α → Nat) (as : List α) :
    tally (as.map fun a => f a + g a) = tally (as.map f) + tally (as.map g) := by
  induction as with
  | nil => rfl
  | cons a as ih =>
    simp only [List.map_cons, tally_cons, ih]
    omega

theorem Books.balance {middle : Engine σ N L} {peaks : List (List (Hierarchy N L))}
    (books : Books e middle e' peaks) :
    e'.nodeCount + e'.last.destroyed + e'.last.regions.destroyed =
      e.nodeCount + e'.last.created + e'.last.regions.created := by
  have count : ∀ f : Engine σ N L, f.nodeCount = tally (f.worlds.map World.nodeCount) +
      tally (f.worlds.map fun w => tally (w.regions.map Region.nodeCount)) :=
    fun f => tally_map_add _ _ f.worlds
  have own : ∀ n (w v : World σ N L), w.Surplus n v → v.nodeCount = w.nodeCount + n :=
    fun n w v surplus => surplus.nodeCount
  have within : ∀ n (w : World σ N L) ps, w.RegionSurplus n ps →
      tally (ps.map Hierarchy.nodeCount) = tally (w.regions.map Region.nodeCount) + n :=
    fun n w ps surplus => surplus.tally_eq fun n r p more => more.nodeCount
  have swollen := books.created.tally_eq own
  have shrunk := books.destroyed.tally_eq own
  have regions_swollen := books.regionsCreated.tally_eq within
  have regions_shrunk := books.regionsDestroyed.tally_eq within
  rw [count, count]
  omega

/-- Before the create phase a tick counts what has become resident in the regions and what has left
them. -/
theorem Linked.runs_regionWorker (linked : e.Linked)
    (keeps : ∀ w ∈ e.worlds, ∀ p ∈ w.processors.region, p.Obeys RegionEdit.KeepsResidents)
    (run : runPhases elapsed [.loader, .levelWorker, .regionWorker, .worldWorker] e s =
      .ok (e', s')) :
    ∃ early t total peaks, runPhases elapsed [.loader, .levelWorker] e s = .ok (early, t) ∧
      early.Stocks peaks ∧ e'.current.turnover = (0, 0, ({} : RegionTickStats) + total) ∧
      Summed World.RegionSurplus total.created e.worlds peaks ∧
      Summed World.RegionSurplus total.destroyed e'.worlds peaks := by
  change runPhases elapsed ([.loader, .levelWorker] ++ [.regionWorker, .worldWorker]) e s =
    _ at run
  obtain ⟨early, t, begun, turns⟩ := runPhases_split run
  obtain ⟨f, u, worked, ticks⟩ := runPhases_cons turns
  obtain ⟨first, v, started, streams⟩ := runPhases_cons begun
  have before := runPhases_regions (by decide) begun
  have after := runPhases_regions (by decide) ticks
  have linked_early : ∀ w ∈ early.worlds, ∀ r ∈ w.regions, r.hierarchy.Linked := by
    intro w listed
    obtain ⟨v, old, same⟩ := exists_of_forall₂ before listed
    rw [same]
    exact (linked v old).2
  have keeps_early : ∀ w ∈ early.worlds, ∀ p ∈ w.processors.region,
      p.Obeys RegionEdit.KeepsResidents := by
    intro w listed
    obtain ⟨v, old, same⟩ := exists_of_forall₂ (runPhases_processors begun) listed
    rw [same]
    exact keeps v old
  obtain ⟨total, peaks, counts, stocks, swollen, shrunk⟩ :=
    perform_regionWorker (e := { early with cursor := ⟨Phase.regionWorker.next⟩ }) linked_early
      keeps_early elapsed t
  rw [← worked] at counts shrunk
  have none_ : early.current.turnover = (0, 0, {}) := by
    rw [runPhases_turnover (by decide) streams, started]
    rfl
  simp only [TickStats.turnover, Prod.mk.injEq] at none_
  refine ⟨early, t, total, peaks, begun, stocks, ?_, ?_, ?_⟩
  · rw [runPhases_turnover (by decide) ticks, counts]
    simp only [none_]
  · exact swollen.exchange_left (fun _ _ _ _ same => .congr same.symm) before
  · exact shrunk.exchange_left (fun _ _ _ _ same => .congr same) after.flip

/-- In the create phase it counts what becomes resident in the worlds. -/
theorem runs_create (linked : ∀ w ∈ e.worlds, w.hierarchy.Linked)
    (run : runPhases elapsed [.create] e s = .ok (e', s')) :
    ∃ n, e'.current.turnover = (e.current.created + n, e.current.destroyed, e.current.regions) ∧
      Summed World.Surplus n e.worlds e'.worlds ∧ ∀ w ∈ e'.worlds, w.hierarchy.Linked := by
  obtain ⟨f, t, made, ends⟩ := runPhases_cons run
  obtain rfl : e' = f := by
    cases ends
    rfl
  obtain ⟨n, counts, created⟩ := perform_create (e := { e with cursor := ⟨Phase.create.next⟩ })
    linked elapsed s
  rw [← made] at counts created
  refine ⟨n, counts, created, fun w listed => ?_⟩
  rw [made] at listed
  obtain ⟨v, old, works⟩ := exists_of_forall₂ (perform_works _ .create elapsed s) listed
  obtain ⟨cells, grown, -⟩ := World.createPhase_grown (linked v old)
  rw [show w = v.createPhase.2 from works]
  exact grown.linked

/-- Up to the create phase a tick counts what has become resident in the worlds, and what has become
resident and has left in their regions. -/
theorem Linked.runs_to_create (linked : e.Linked)
    (keeps : ∀ w ∈ e.worlds, ∀ p ∈ w.processors.region, p.Obeys RegionEdit.KeepsResidents)
    {middle : Engine σ N L} {u : σ}
    (run : runPhases elapsed [.loader, .levelWorker, .regionWorker, .worldWorker, .create] e s =
      .ok (middle, u)) :
    ∃ early t peaks, runPhases elapsed [.loader, .levelWorker] e s = .ok (early, t) ∧
      early.Stocks peaks ∧ (∀ w ∈ middle.worlds, w.hierarchy.Linked) ∧
      middle.current.destroyed = 0 ∧
      Summed World.Surplus middle.current.created e.worlds middle.worlds ∧
      Summed World.RegionSurplus middle.current.regions.created e.worlds peaks ∧
      Summed World.RegionSurplus middle.current.regions.destroyed middle.worlds peaks := by
  change runPhases elapsed ([.loader, .levelWorker, .regionWorker, .worldWorker] ++ [.create]) e s =
    _ at run
  obtain ⟨f, v, turns, create⟩ := runPhases_split run
  have own : ∀ w ∈ e.worlds, w.hierarchy.Linked := fun w listed => (linked w listed).1
  obtain ⟨early, t, total, peaks, begun, stocks, counts, swollen, shrunk⟩ :=
    linked.runs_regionWorker keeps turns
  obtain ⟨n, counts', created, linked'⟩ :=
    runs_create (runPhases_linked (by decide) own turns) create
  simp only [TickStats.turnover, Prod.mk.injEq] at counts counts'
  obtain ⟨c, d, r⟩ := counts
  obtain ⟨c', d', r'⟩ := counts'
  have came : middle.current.regions.created = total.created := by
    rw [r', r]
    exact Nat.zero_add _
  have left : middle.current.regions.destroyed = total.destroyed := by
    rw [r', r]
    exact Nat.zero_add _
  refine ⟨early, t, peaks, begun, stocks, linked', by rw [d', d], ?_, ?_, ?_⟩
  · rw [c', c, Nat.zero_add]
    refine created.exchange_left (fun _ w v v' links surplus => ?_)
      (runPhases_sameLinks (by decide) turns)
    exact Hierarchy.Surplus.after_sameLinks links surplus
  · rw [came]
    exact swollen
  · rw [left]
    exact shrunk.exchange_left (fun _ _ _ _ same => .congr same)
      (runPhases_regions (by decide) create).flip

/-- From the load phase on it counts what leaves the worlds. -/
theorem runs_from_load {middle : Engine σ N L} {u : σ}
    (linked : ∀ w ∈ middle.worlds, w.hierarchy.Linked)
    (run : runPhases elapsed [.load, .unload, .destroy, .finish] middle u = .ok (e', s')) :
    ∃ n, e'.last.turnover =
        (middle.current.created, middle.current.destroyed + n, middle.current.regions) ∧
      Summed World.Surplus n e'.worlds middle.worlds := by
  change runPhases elapsed ([.load, .unload] ++ [.destroy, .finish]) middle u = _ at run
  obtain ⟨f, t, early, late⟩ := runPhases_split run
  obtain ⟨g, t', destroyed, rest⟩ := runPhases_cons late
  obtain ⟨k, t'', finished, ends⟩ := runPhases_cons rest
  obtain rfl : e' = k := by
    cases ends
    rfl
  have same := runPhases_sameLinks (by decide) early
  have counts := runPhases_turnover (by decide) early
  have linked' := runPhases_linked (by decide) linked early
  have back := same.flip.imp fun _ _ links => Hierarchy.Levelwise.sameLinks_symm links
  obtain ⟨n, gone, fewer⟩ := perform_destroy (e := { f with cursor := ⟨Phase.destroy.next⟩ })
    linked' elapsed t
  rw [← destroyed] at gone fewer
  refine ⟨n, ?_, ?_⟩
  · obtain ⟨created, rest⟩ := Prod.mk.inj counts
    obtain ⟨before, regions⟩ := Prod.mk.inj rest
    rw [← created, ← before, ← regions, finished]
    exact gone
  · rw [finished]
    exact fewer.exchange_right (fun n w v v' surplus links => surplus.before_sameLinks links) back

/-- Every tick that runs keeps its books. -/
theorem runTick_books (linked : e.Linked)
    (keeps : ∀ w ∈ e.worlds, ∀ p ∈ w.processors.region, p.Obeys RegionEdit.KeepsResidents)
    (done : e.runTick elapsed s = .ok (e', s')) :
    ∃ early t middle u peaks,
      runPhases elapsed [.loader, .levelWorker] e s = .ok (early, t) ∧ early.Stocks peaks ∧
      runPhases elapsed [.loader, .levelWorker, .regionWorker, .worldWorker, .create] e s =
        .ok (middle, u) ∧
      Books e middle e' peaks := by
  have phases : Phase.all = [.loader, .levelWorker, .regionWorker, .worldWorker, .create] ++
    [.load, .unload, .destroy, .finish] := rfl
  rw [runTick, phases] at done
  obtain ⟨middle, u, run, late⟩ := runPhases_split done
  obtain ⟨early, t, peaks, begun, stocks, linked', none_, created, swollen, shrunk⟩ :=
    linked.runs_to_create keeps run
  obtain ⟨n, counts, destroyed⟩ := runs_from_load linked' late
  simp only [TickStats.turnover, Prod.mk.injEq, none_, Nat.zero_add] at counts
  obtain ⟨c, d, r⟩ := counts
  refine ⟨early, t, middle, u, peaks, begun, stocks, run, ?_, ?_, ?_, ?_⟩
  · rwa [c]
  · rwa [d]
  · rwa [r]
  · rw [r]
    exact shrunk.exchange_left (fun _ _ _ _ same => .congr same)
      (runPhases_regions (by decide) late).flip

end Engine

/-- The accounts of nodes balance. Whatever operations lead to, every hierarchy is linked, and from
engines whose hierarchies are linked and whose region processors leave loading, unloading, ticking
and merging alone, every tick that runs accounts for the nodes it has brought and taken: those of
before and those created are those of after and those destroyed, and each number counts the cells
of every hierarchy that became resident, or that left, once. An unload at once answers with the
number of nodes that are gone. -/
theorem turnover_balances :
    (∀ e : Engine σ N L, e.Reached (fun _ => True) → e.Linked) ∧
    (∀ (e e' : Engine σ N L) (elapsed : Duration) (s s' : σ), e.Linked →
      (∀ w ∈ e.worlds, ∀ p ∈ w.processors.region, p.Obeys RegionEdit.KeepsResidents) →
      e.runTick elapsed s = .ok (e', s') →
      (e'.nodeCount : Int) = e.nodeCount + e'.last.created + e'.last.regions.created -
          e'.last.destroyed - e'.last.regions.destroyed ∧
        ∃ early t middle u peaks,
          Engine.runPhases elapsed [.loader, .levelWorker] e s = .ok (early, t) ∧
          early.Stocks peaks ∧
          Engine.runPhases elapsed [.loader, .levelWorker, .regionWorker, .worldWorker, .create]
            e s = .ok (middle, u) ∧
          Engine.Books e middle e' peaks) ∧
    (∀ (w : World σ N L) (c : Coord) (s : σ), Hierarchy.CountsUnload c w.hierarchy
      (w.unloadNode c s).1 (w.unloadNode c s).2.1.hierarchy) ∧
    ∀ (r : Region N L) (ps : NodeProcessors σ N L) (c : Coord) (tick : UInt64) (now : SimTime)
      (s : σ), Hierarchy.CountsUnload c r.hierarchy (r.unloadNode ps c tick now s).1
        (r.unloadNode ps c tick now s).2.1.hierarchy := by
  refine ⟨fun e reached w listed => ?_, fun e e' elapsed s s' linked keeps done => ?_,
    World.unloadNode_counts, fun r ps c tick now s => Region.unloadNode_counts ps tick now s r c⟩
  · exact (links_of_reached fun _ => True).2 w (reached.worlds w listed)
  · obtain ⟨early, t, middle, u, peaks, begun, stocks, run, books⟩ :=
      Engine.runTick_books linked keeps done
    have balance := books.balance
    exact ⟨by omega, early, t, middle, u, peaks, begun, stocks, run, books⟩

/-- An engine whose world is asked to destroy a node with two children, twice, and one of the
children besides, and to create a node that lacks a parent. Its region is asked to destroy a node
and its only child, and to create another. -/
def bustling : Engine Unit Unit Unit :=
  let cell (x : Int32) (l : UInt8) : Coord := ⟨⟨x, 0, 0⟩, l⟩
  let furnish (r : Region Unit Unit) : Region Unit Unit :=
    let r := (r.loadNode (cell 0 0) SimTime.zero).2
    let r := r.modifyLevel 0 (·.push .destroy (cell 0 0))
    let r := r.modifyLevel 1 (·.push .destroy (cell 0 1))
    r.modifyLevel 1 (·.push .create (cell 9 1))
  let w : World Unit Unit Unit := World.empty default { levelCount := 2 } PayloadFactory.plain
  let w := ((w.queueCreate (cell 0 0)).queueCreate (cell (-1) 0)).createPhase.2
  let w := w.modifyLevel 0 (·.push .destroy (cell 0 0))
  let w := w.modifyLevel 1 (·.push .destroy (cell 0 1))
  let w := w.modifyLevel 1 (·.push .destroy (cell 0 1))
  let w := w.queueCreate (cell 5 0)
  ({ config := {}, threads := 1 } : Engine Unit Unit Unit).insertWorld
    ((w.addRegion ⟨1⟩ Box.everything).modifyRegion ⟨1⟩ furnish)

theorem bustling_reached : bustling.Reached fun _ => True := by
  have called : ∀ (h : Hierarchy Unit Unit) i q c, Hierarchy.Levelwise
      (Level.Called fun _ => True) h (h.modifyLevel i (·.push q c)) :=
    fun h i q c => Hierarchy.levelwise_modifyLevel (fun _ => .refl) fun l _ =>
      .single (.edit (.push q c) trivial)
  refine Engine.Reached.insertWorld (.start _ _) (World.Reached.modifyRegion (.addRegion ?_ _ _) _
    fun r reached => ?_)
  · exact ((((((World.Reached.empty _ _ _).queueCreate _).queueCreate _).createPhase.calls
      (called _ 0 .destroy _)).calls (called _ 1 .destroy _)).calls
      (called _ 1 .destroy _)).queueCreate _
  · exact ((((reached.loadNode _ _).calls (called _ 0 .destroy _)).calls
      (called _ 1 .destroy _)).calls (called _ 1 .create _))

/-- Its tick takes all five nodes and brings three others, and to unload the node with two children
is to unload three. -/
theorem turnover_balances_of_bustling :
    bustling.Linked ∧ bustling.nodeCount = 5 ∧
    (∃ e' s', bustling.runTick Duration.zero () = .ok (e', s') ∧
      e'.last.created = 2 ∧ e'.last.regions.created = 1 ∧
      e'.last.destroyed = 3 ∧ e'.last.regions.destroyed = 2 ∧
      (e'.nodeCount : Int) = bustling.nodeCount + 2 + 1 - 3 - 2 ∧
      ∃ middle peaks, Engine.Books bustling middle e' peaks) ∧
    ∀ w ∈ bustling.worlds,
      Hierarchy.Surplus 3 (w.unloadNode ⟨⟨0, 0, 0⟩, 1⟩ ()).2.1.hierarchy w.hierarchy ∧
      ∀ r ∈ w.regions, Hierarchy.Surplus 2
        (r.unloadNode {} ⟨⟨0, 0, 0⟩, 1⟩ 0 SimTime.zero ()).2.1.hierarchy r.hierarchy := by
  obtain ⟨sound, ticks, worlds, regions⟩ := turnover_balances (σ := Unit) (N := Unit) (L := Unit)
  have linked := sound bustling bustling_reached
  have keeps : ∀ w ∈ bustling.worlds, ∀ p ∈ w.processors.region,
      p.Obeys RegionEdit.KeepsResidents := by
    have none_ : ∀ w ∈ bustling.worlds, w.processors.region = [] := by
      intro w listed
      rw [List.mem_singleton.mp listed]
      rfl
    intro w listed
    rw [none_ w listed]
    exact List.forall_mem_nil _
  obtain ⟨e', s', done, -⟩ :=
    Engine.runPhases_ran (e := bustling) (p := .loader) rfl (n := 9) (by decide) Duration.zero ()
  have done : bustling.runTick Duration.zero () = .ok (e', s') := done
  have counts : ((bustling.runTick Duration.zero ()).toOption.map fun x =>
      (x.1.last.created, x.1.last.regions.created, x.1.last.destroyed,
        x.1.last.regions.destroyed)) = some (2, 1, 3, 2) := by
    decide +kernel
  rw [done] at counts
  simp only [Except.toOption, Option.map_some, Option.some.injEq, Prod.mk.injEq] at counts
  obtain ⟨created, swollen, destroyed, shrunk⟩ := counts
  obtain ⟨balance, -, -, middle, -, peaks, -, -, -, books⟩ :=
    ticks bustling e' Duration.zero () s' linked keeps done
  rw [created, swollen, destroyed, shrunk] at balance
  have answers : ∀ w ∈ bustling.worlds, (w.unloadNode ⟨⟨0, 0, 0⟩, 1⟩ ()).1 = .ok 3 ∧
      ∀ r ∈ w.regions,
        (r.unloadNode (σ := Unit) {} ⟨⟨0, 0, 0⟩, 1⟩ 0 SimTime.zero ()).1 = .ok 2 := by
    decide +kernel
  refine ⟨linked, by decide +kernel, ⟨e', s', done, created, swollen, destroyed, shrunk, balance,
    middle, peaks, books⟩, fun w listed => ⟨?_, fun r within => ?_⟩⟩
  · exact (worlds w _ ()).cells (linked w listed).1 3 (answers w listed).1
  · exact (regions r {} _ 0 SimTime.zero ()).cells ((linked w listed).2 r within) 2
      ((answers w listed).2 r within)

/-- A tick runs, and what it reports does not account for the nodes there are afterwards. -/
def Engine.Misses (e : Engine Unit Unit Unit) : Prop :=
  ∃ e' s', e.runTick Duration.zero () = .ok (e', s') ∧
    (e'.nodeCount : Int) ≠ e.nodeCount + e'.last.created + e'.last.regions.created -
      e'.last.destroyed - e'.last.regions.destroyed

theorem Engine.misses {e : Engine Unit Unit Unit} (gap : Int) (open_ : gap ≠ 0)
    (ran : ((e.runTick Duration.zero ()).toOption.map fun x =>
      (x.1.nodeCount : Int) - (e.nodeCount + x.1.last.created + x.1.last.regions.created -
        x.1.last.destroyed - x.1.last.regions.destroyed)) = some gap) : e.Misses := by
  cases done : e.runTick Duration.zero () with
  | error err =>
    rw [done] at ran
    cases ran
  | ok result =>
    rw [done] at ran
    refine ⟨result.1, result.2, done, fun even => open_ ?_⟩
    simp only [Except.toOption, Option.map_some, Option.some.injEq] at ran
    rw [← ran, even, Int.sub_self]

/-- An engine whose region has its two levels the wrong way round, and is asked for a node that it
has created. -/
def transposed : Engine Unit Unit Unit :=
  let cell : Coord := ⟨⟨0, 0, 0⟩, 0⟩
  let ask (r : Region Unit Unit) := r.modifyLevel 1 (·.push .create cell)
  let turn (r : Region Unit Unit) :=
    ((ask ((r.swapLevels? 0 1).getD r)).tick {} 0 SimTime.zero Duration.zero ()).2.1
  let w : World Unit Unit Unit := World.empty default { levelCount := 2 } PayloadFactory.plain
  ({ config := {}, threads := 1 } : Engine Unit Unit Unit).insertWorld
    ((w.addRegion ⟨1⟩ Box.everything).modifyRegion ⟨1⟩ fun r => ask (turn r))

/-- An engine whose world holds a node of another world in the place of its own at the same cell.
That one has two children, only one of which lives here. -/
def grafted : Engine Unit Unit Unit :=
  let cell (x : Int32) (l : UInt8) : Coord := ⟨⟨x, 0, 0⟩, l⟩
  let w : World Unit Unit Unit := World.empty default { levelCount := 2 } PayloadFactory.plain
  let w := (w.queueCreate (cell (-1) 0)).createPhase.2
  let other := (w.queueCreate (cell 0 0)).createPhase.2
  let w := w.modifyNode (cell 0 1) fun n => (other.hierarchy.get? (cell 0 1)).getD n
  ({ config := {}, threads := 1 } : Engine Unit Unit Unit).insertWorld
    (w.modifyLevel 1 (·.push .destroy (cell 0 1)))

/-- An engine whose region has a processor that ticks it once more. -/
def overworked : Engine Unit Unit Unit :=
  let tick : RegionProcessor Unit Unit Unit :=
    .plain "tick" fun _ _ s => ([.tick {} 0 SimTime.zero Duration.zero], s)
  let w : World Unit Unit Unit := World.empty default { levelCount := 2 } PayloadFactory.plain
  let w := (w.addRegion ⟨1⟩ Box.everything).modifyRegion ⟨1⟩ fun r =>
    r.modifyLevel 0 (·.push .create ⟨⟨0, 0, 0⟩, 0⟩)
  ({ config := {}, threads := 1 } : Engine Unit Unit Unit).insertWorld
    { w with processors := { region := [tick] } }

/-- Neither the links nor the calm of the region processors can be done without. Where levels or
nodes were exchanged in place, a node is counted that was there before, or one is not counted that
is gone. Where a region processor ticks its region, what that tick brings is not counted. -/
theorem turnover_unbalanced :
    ((∀ w ∈ transposed.worlds, w.processors.region = []) ∧ transposed.Misses) ∧
    ((∀ w ∈ grafted.worlds, w.processors.region = []) ∧ grafted.Misses) ∧
    (∀ w ∈ overworked.worlds, ∀ p ∈ w.processors.region, p.Obeys fun edit =>
      edit = .tick {} 0 SimTime.zero Duration.zero) ∧ overworked.Misses := by
  refine ⟨⟨?_, ?_⟩, ⟨?_, ?_⟩, ?_, ?_⟩
  · decide
  · exact Engine.misses (-1) (by decide) (by decide +kernel)
  · decide
  · exact Engine.misses (-1) (by decide) (by decide +kernel)
  · intro w listed p within ctx r s edit asked
    rw [List.mem_singleton.mp listed] at within
    rw [List.mem_singleton.mp within] at asked
    exact List.mem_singleton.mp asked
  · exact Engine.misses 2 (by decide) (by decide +kernel)

end OctreeWorld
