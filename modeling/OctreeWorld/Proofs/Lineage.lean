import OctreeWorld.Proofs.Selection

/-!
# Loaders and lineages

The cell that holds a loader is found on each level by climbing, so going up one level takes the centre
of the sphere to its parent. Along an axis it takes two cells at least as close together as they were:
half their distance, however the halves are rounded, leaves no greater gap. A loader therefore covers
with a cell all its ancestors on the levels that it covers, at the ends of the word and at radii that
saturate like anywhere else. What it keeps alive it keeps alive with the lineage, and what its requests
bring along on its own levels it wants itself.
-/

namespace OctreeWorld

variable {N L σ : Type}

namespace Sphere

theorem gap_parentAxis_le (level : UInt8) (p q : Int32) :
    gap ((Coord.parentAxis level p).toInt - (Coord.parentAxis level q).toInt) ≤
      gap (p.toInt - q.toInt) := by
  rw [Coord.toInt_parentAxis, Coord.toInt_parentAxis]
  unfold gap
  split <;> omega

/-- Going up takes no two cells of a level further apart. -/
theorem separation_parent_le {c e : Coord} (level : e.level = c.level) :
    separation c.parent e.parent ≤ separation c e := by
  by_cases top : c.level = 255
  · rw [Coord.parent, Coord.parent, if_pos top, if_pos (level.trans top)]
  · have closer (p q : Int32) := pow_le_pow_left₀ (gap_nonneg _) (gap_parentAxis_le c.level p q) 2
    rw [Coord.parent, Coord.parent, if_neg top, if_neg (level ▸ top), level]
    exact Int.add_le_add (Int.add_le_add (closer _ _) (closer _ _)) (closer _ _)

theorem parent_mem_cells {center c : Coord} {radius : UInt32} (mem : c ∈ cells center radius) :
    c.parent ∈ cells center.parent radius := by
  obtain ⟨level, near⟩ := mem_cells_iff.mp mem
  refine mem_cells_iff.mpr ⟨?_, (separation_parent_le level).trans_lt near⟩
  rw [Coord.parent, Coord.parent, level]
  split <;> simp [level]

theorem climb_mem_cells {center c : Coord} {radius : UInt32} (mem : c ∈ cells center radius)
    (n : Nat) : Coord.climb n c ∈ cells (Coord.climb n center) radius := by
  induction n with
  | zero => exact mem
  | succ n ih =>
    rw [Coord.climb_succ, Coord.climb_succ]
    exact parent_mem_cells ih

end Sphere

/-- With a cell a loader covers its ancestors on the levels that it covers. -/
theorem Loader.ancestor_mem_cells {ld : Loader} {i j : UInt8} (le : i ≤ j)
    (covers : ld.covers j = true) {c : Coord} (mem : c ∈ ld.cells i) :
    c.ancestor j ∈ ld.cells j := by
  have level := Loader.level_of_mem_cells mem
  have le : i.toNat ≤ j.toNat := UInt8.le_iff_toNat_le.mp le
  have center : ld.center j = Coord.climb (j.toNat - i.toNat) (ld.center i) := by
    have steps : i.toNat + (j.toNat - i.toNat) = j.toNat := by omega
    change Coord.climb j.toNat ⟨ld.position, 0⟩ = Coord.climb _ (Coord.climb i.toNat ⟨ld.position, 0⟩)
    rw [Coord.Under.climb_climb, steps]
  unfold Loader.cells at mem ⊢
  split at mem
  · rw [if_pos covers, center, Coord.ancestor, level]
    exact Sphere.climb_mem_cells mem _
  · cases mem

/-! ### Keep-alive -/

namespace Hierarchy

/-- The node is resident and stamped, and whatever the timeout, it is not unused at the time. -/
def KeptAlive (h : Hierarchy N L) (now : SimTime) (c : Coord) : Prop :=
  ∃ n, h.get? c = some n ∧ now.micros ≤ n.lastUpdate.micros ∧
    ∀ timeout, n.isUnused now timeout = false

theorem keptAlive_of_covered {h : Hierarchy N L} {loaders : List Loader} {ld : Loader}
    (listed : ld ∈ loaders) (now : SimTime) {c : Coord} (resident : h.contains c = true)
    (covered : c ∈ ld.cells c.level) : (keepAliveAll now loaders h).2.KeptAlive now c := by
  have moved : Moved (fun _ n => n.state) h.get? (keepAliveAll now loaders h).2.get? :=
    (keepAliveAll_retouched now loaders h).moved fun c _ _ _ step => step.moved c
  have stays : (keepAliveAll now loaders h).2.contains c = true := (moved.isSome c).trans resident
  obtain ⟨n, found⟩ := contains_iff.mp stays
  have stamped : now.micros ≤ n.lastUpdate.micros := stamped_keepAliveAll found listed covered
  exact ⟨n, found, stamped, Level.not_isUnused stamped⟩

/-- What is resident keeps its ancestors alive on the loader's levels, for they are resident too. -/
theorem Linked.keptAlive_ancestor {h : Hierarchy N L} (linked : h.Linked) {loaders : List Loader}
    {ld : Loader} (listed : ld ∈ loaders) (now : SimTime) {c : Coord}
    (resident : h.contains c = true) (covered : c ∈ ld.cells c.level) {j : UInt8}
    (le : c.level ≤ j) (inside : j < h.levelCount) (covers : ld.covers j = true) :
    (keepAliveAll now loaders h).2.KeptAlive now (c.ancestor j) := by
  obtain ⟨under, level⟩ := Coord.under_ancestor le
  refine keptAlive_of_covered listed now ?_ ?_
  · exact linked.resident_of_under resident under (level.symm ▸ inside)
  · rw [level]
    exact Loader.ancestor_mem_cells le covers covered

end Hierarchy

/-! ### Load requests -/

/-- Behind the create commands of a level there may have come new ones, all of them for cells that
active loaders cover. -/
structure Level.Heard (loaders : List Loader) (tick : UInt64) (l m : Level N L) : Prop where
  index : m.index = l.index
  create : ∃ requested, m.pending .create = l.pending .create ++ requested ∧
    ∀ c ∈ requested, ∃ ld ∈ loaders, ld.isActive tick = true ∧ c ∈ ld.cells l.index

namespace Level

namespace Heard

variable {loaders : List Loader} {tick : UInt64} {l m k : Level N L}

theorem of_queues (index : m.index = l.index) (queues : m.queues = l.queues) :
    l.Heard loaders tick m :=
  ⟨index, [], by rw [List.append_nil, pending, pending, queues], nofun⟩

theorem trans (first : l.Heard loaders tick m) (second : m.Heard loaders tick k) :
    l.Heard loaders tick k := by
  obtain ⟨index, early, queue, covered⟩ := first
  obtain ⟨index', late, queue', covered'⟩ := second
  refine ⟨index'.trans index, early ++ late, by rw [queue', queue, List.append_assoc], ?_⟩
  rw [index] at covered'
  exact fun c mem => (List.mem_append.mp mem).elim (covered c) (covered' c)

end Heard

variable (config : StreamConfig) (loaders : List Loader) (tick : UInt64) (l : Level N L)

theorem requestLoads_heard (budget : Option UInt64) :
    l.Heard loaders tick (l.requestLoads loaders tick budget).2 := by
  obtain ⟨requested, asked, own, asks⟩ :=
    requestLoads_asks { createBudget := budget } loaders tick l
  rw [asked]
  refine ⟨rfl, requested, ?_, fun c mem => (mem_level_missing.mp (asks.missing c mem)).1⟩
  rw [pending_pushAll, if_pos rfl, own]

theorem stream_heard (now : SimTime) (timeout : Duration) :
    l.Heard loaders tick (l.stream config loaders tick now timeout).2 := by
  by_cases due : config.levelDue tick l.index = true
  · obtain ⟨requested, asks, -, selected⟩ := stream_selected due loaders now timeout
    exact ⟨selected.index, requested, selected.pending_create,
      fun c mem => (mem_level_missing.mp (asks.missing c mem)).1⟩
  · rw [stream, if_neg due]
    exact .of_queues rfl rfl

theorem requestLevel_heard : l.Heard loaders tick (Region.requestLevel config loaders tick l).2 := by
  rw [Region.requestLevel]
  split
  · exact requestLoads_heard loaders tick l config.createBudget
  · exact .of_queues rfl rfl

end Level

namespace Hierarchy

/-- Whatever the create commands make was asked for before, or it is a cell that an active loader
covers or an ancestor of one; and what is made on a level of that loader, the loader covers too. -/
def CreatesWanted (loaders : List Loader) (tick : UInt64) (h g : Hierarchy N L) : Prop :=
  ∀ factory now, ∀ c ∈ (g.createPending factory now).1,
    (∃ i, ∃ d ∈ h.pending i .create, d.Under c) ∨
      ∃ ld ∈ loaders, ld.isActive tick = true ∧ (∃ d ∈ ld.cells d.level, d.Under c) ∧
        (ld.covers c.level = true → c ∈ ld.cells c.level)

variable {loaders : List Loader} {tick : UInt64} {h g : Hierarchy N L}

theorem Levelwise.heard (rel : Levelwise (Level.Heard loaders tick) h g) {i : UInt8} {c : Coord}
    (asked : c ∈ g.pending i .create) : c ∈ h.pending i .create ∨
      ∃ ld ∈ loaders, ld.isActive tick = true ∧ c ∈ ld.cells c.level := by
  cases stored : g.level? i with
  | none =>
    rw [pending_of_level?_none stored] at asked
    cases asked
  | some m =>
    obtain ⟨l, before, -, requested, queue, wanted⟩ := rel.level?_back stored
    rw [pending_of_level? stored, queue, List.mem_append] at asked
    rw [pending_of_level? before]
    refine asked.imp_right fun new => ?_
    obtain ⟨ld, listed, active, covered⟩ := wanted c new
    exact ⟨ld, listed, active, (Loader.level_of_mem_cells covered).symm ▸ covered⟩

/-- A request brings along the ancestors of a cell, and on its own levels the loader covers them. -/
theorem Linked.createsWanted (linked : g.Linked) (rel : Levelwise (Level.Heard loaders tick) h g) :
    CreatesWanted loaders tick h g := by
  intro factory now c made
  obtain ⟨created, k, run, -, -, -, origin⟩ := linked.createPending factory now
  rw [run] at made
  obtain ⟨i, d, asked, -, above⟩ := origin c made
  have under := under_of_mem_lineage above
  rcases rel.heard asked with old | ⟨ld, listed, active, covered⟩
  · exact Or.inl ⟨i, d, old, under⟩
  · refine Or.inr ⟨ld, listed, active, ⟨d, covered, under⟩, fun covers => ?_⟩
    obtain ⟨le, up⟩ := Coord.under_iff.mp under
    have climbed := Loader.ancestor_mem_cells le covers covered
    rwa [up] at climbed

end Hierarchy

/-- Whatever is done to each level after the level processors have run, the processors do not see it. -/
theorem World.levelWorkerPhase_levels {α : Type} (w : World σ N L) (f : Level N L → α × Level N L)
    (s : σ) : (w.levelWorkerPhase f s).2.1.hierarchy.levels =
      (w.levelWorkerPhase (fun l => ((), l)) s).2.1.hierarchy.levels.map fun l => (f l).2 := by
  simp only [levelWorkerPhase_eq]
  generalize w.hierarchy.levels = ls
  induction ls generalizing s with
  | nil => rfl
  | cons l ls ih => exact congrArg (List.cons _) (ih _)

/-- The world as the level processors leave it, before loaders ask. -/
def World.leveled (w : World σ N L) (s : σ) : World σ N L :=
  (w.levelWorkerPhase (fun l => ((), l)) s).2.1

section Reached

variable {may : NodeEdit N L → Prop}

theorem Engine.streamWorld_createsWanted (e : Engine σ N L) {w : World σ N L}
    (reached : w.Reached may) (s : σ) : Hierarchy.CreatesWanted e.loaderList e.tick
      (w.leveled s).hierarchy (e.streamWorld w s).2.1.hierarchy := by
  rw [streamWorld_world]
  have streamed := reached.levelWorkerPhase (fun l => Level.stream_called e.config.stream
    e.loaderList e.tick e.now w.config.evictionTimeout l) s
  refine (streamed.sound (.trivial may)).linked.createsWanted ?_
  rw [Hierarchy.Levelwise, World.levelWorkerPhase_levels]
  refine List.forall₂_map_right_iff.mpr (List.forall₂_same.mpr fun l _ => ?_)
  exact Level.stream_heard e.config.stream e.loaderList e.tick l e.now w.config.evictionTimeout

theorem Region.stream_createsWanted {r : Region N L} (reached : r.Reached may)
    (config : StreamConfig) (tick : UInt64) (now : SimTime) :
    Hierarchy.CreatesWanted r.loaderList tick r.hierarchy (r.stream config tick now).2.hierarchy := by
  have linked := ((reached.stream config tick now).kept (.trivial may)).1
  refine linked.createsWanted ?_
  have stamped : Hierarchy.Levelwise (Level.Heard r.loaderList tick) r.hierarchy
      (Hierarchy.keepAliveAll now r.loaderList r.hierarchy).2 :=
    (Hierarchy.keepAliveAll_retouched now r.loaderList r.hierarchy).imp
      fun _ _ ⟨_, edited⟩ => .of_queues edited.index edited.queues
  exact stamped.trans (fun _ _ _ => Level.Heard.trans)
    (Hierarchy.levelwise_map _ fun l => Level.requestLevel_heard config r.loaderList tick l)

end Reached

/-- With a cell a loader covers its ancestors on the levels that it covers. So a resident cell is kept
alive with its lineage there, in worlds and in regions; and what load requests bring along on the
levels of their loader, in one tick of a world or of a region, the loader covers itself. -/
theorem lineage_covered {may : NodeEdit N L → Prop} :
    (∀ (ld : Loader) (i j : UInt8), i ≤ j → ld.covers i = true → ld.covers j = true →
      ∀ c ∈ ld.cells i, c.ancestor j ∈ ld.cells j) ∧
    (∀ h : Hierarchy N L, h.Linked → ∀ (loaders : List Loader) (now : SimTime), ∀ ld ∈ loaders,
      ∀ c, h.contains c = true → c ∈ ld.cells c.level →
        ∀ j, c.level ≤ j → j < h.levelCount → ld.covers j = true →
          (Hierarchy.keepAliveAll now loaders h).2.KeptAlive now (c.ancestor j)) ∧
    (∀ (e : Engine σ N L) (w : World σ N L), w.Reached may → ∀ s,
      Hierarchy.CreatesWanted e.loaderList e.tick (w.leveled s).hierarchy
        (e.streamWorld w s).2.1.hierarchy) ∧
    ∀ r : Region N L, r.Reached may → ∀ config tick now,
      Hierarchy.CreatesWanted r.loaderList tick r.hierarchy (r.stream config tick now).2.hierarchy :=
  ⟨fun _ _ _ le _ covers _ mem => Loader.ancestor_mem_cells le covers mem,
    fun _ linked _ now _ listed _ resident covered _ le inside covers =>
      linked.keptAlive_ancestor listed now resident covered le inside covers,
    fun e _ reached s => e.streamWorld_createsWanted reached s,
    fun _ reached config tick now => Region.stream_createsWanted reached config tick now⟩

/-- At a corner of the word: a loader of the greatest radius, whose spheres are too large to be listed,
and one of the least. Its cell there is kept alive with its parent, and for what is missing the world and
the region create the parents that it covers. -/
theorem lineage_covered_at_corner :
    let vast : Loader :=
      { position := ⟨1500000000, 1500000000, -1500000000⟩, radius := 4294967295, maxLevel := 255 }
    let corner : Position := ⟨2147483647, 2147483647, -2147483648⟩
    let ld : Loader := { position := corner, maxLevel := 2 }
    let c : Coord := ⟨corner, 0⟩
    let h : Hierarchy Unit Unit :=
      ((Hierarchy.empty PayloadFactory.plain 3).ensure PayloadFactory.plain SimTime.zero c).2.2
    let e : Engine Unit Unit Unit :=
      ({ config := {}, threads := 1 } : Engine Unit Unit Unit).addLoader default ld
    let w : World Unit Unit Unit := World.empty default { levelCount := 3 } PayloadFactory.plain
    let r : Region Unit Unit :=
      (Region.empty default default Box.everything PayloadFactory.plain 3).addLoader default ld
    let asked := (e.streamWorld w ()).2.1.hierarchy
    let asked' := (r.stream {} 0 ⟨7⟩).2.hierarchy
    (c ∈ vast.cells 0 ∧ c.ancestor 200 ∈ vast.cells 200) ∧
      (h.Linked ∧ h.contains c = true ∧ c ∈ ld.cells 0 ∧
        (Hierarchy.keepAliveAll ⟨7⟩ [ld] h).2.KeptAlive ⟨7⟩ c.parent) ∧
      (c.parent ∈ (asked.createPending PayloadFactory.plain ⟨7⟩).1 ∧
        Hierarchy.CreatesWanted e.loaderList 0 (w.leveled ()).hierarchy asked) ∧
      c.parent ∈ (asked'.createPending PayloadFactory.plain ⟨7⟩).1 ∧
        Hierarchy.CreatesWanted r.loaderList 0 r.hierarchy asked' := by
  intro vast corner ld c h e w r asked asked'
  obtain ⟨climbs, keeps, asks, regions⟩ := @lineage_covered Unit Unit Unit fun _ => True
  have far : c ∈ vast.cells 0 := by
    have near : Sphere.separation ⟨vast.position, 0⟩ c < Sphere.limit vast.radius := by decide
    rw [Loader.cells, if_pos (by decide)]
    exact Sphere.mem_cells_iff.mpr ⟨rfl, near⟩
  have linked : h.Linked := by
    obtain ⟨g, run, grown, -⟩ := (Hierarchy.empty_linked PayloadFactory.plain 3).ensure
      PayloadFactory.plain SimTime.zero c
    have same : h = g := congrArg (·.2.2) run
    rw [same]
    exact grown.linked
  have resident : h.contains c = true := by decide +kernel
  have covered : c ∈ ld.cells 0 := by decide +kernel
  have world := asks e w (.empty _ _ _) ()
  have region := regions r (.addLoader (.empty _ _ _ _ _) _ _) {} 0 ⟨7⟩
  exact ⟨⟨far, climbs vast 0 200 (by decide) (by decide) (by decide) c far⟩,
    ⟨linked, resident, covered, keeps h linked [ld] ⟨7⟩ ld (List.mem_singleton_self ld) c resident
      covered 1 (by decide) (by decide) (by decide)⟩, ⟨by decide +kernel, world⟩,
    by decide +kernel, region⟩

end OctreeWorld
