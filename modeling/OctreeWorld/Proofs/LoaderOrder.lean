import OctreeWorld.Proofs.Agreement
import OctreeWorld.Proofs.Convergence

/-!
# The order of the loaders

Loaders are listed in the order of their identifiers, which say nothing about where a loader is or
what it wants. As long as no budget cuts their requests short, another order of the same loaders
gives the same run: stamps of one time commute, and requests are collected into a set.
-/

namespace OctreeWorld

variable {N L σ : Type}

/-! ### Stamps and requests -/

namespace Level

/-- Stamps of one time may be set in any order. -/
theorem touchAll_comm (l : Level N L) (cs ds : List Coord) (now : SimTime) :
    (l.modifyAll cs (·.touch now)).modifyAll ds (·.touch now) =
      (l.modifyAll ds (·.touch now)).modifyAll cs (·.touch now) := by
  refine ext_get? ?_ fun c => ?_
  · simp only [bare_modifyAll]
  · have stamped : ∀ (k : Level N L) es, (k.modifyAll es (·.touch now)).get? c =
        if c ∈ es then (k.get? c).map (·.touch now) else k.get? c :=
      fun k es => get?_modifyAll k es (fun n => touch_touch n now) c
    simp only [stamped]
    split <;> split <;> rfl

theorem keepAlive_keepAlive (a b : Loader) (now : SimTime) (l : Level N L) :
    (l.keepAlive a now).2.keepAlive b now = ((l.keepAlive b now).1,
      (l.modifyAll ((a.cells l.index).filter l.contains) (·.touch now)).modifyAll
        ((b.cells l.index).filter l.contains) (·.touch now)) := by
  have retouched := keepAlive_retouched a now l
  have resident : (l.keepAlive a now).2.contains = l.contains :=
    funext retouched.moved.isSome
  rw [keepAlive, retouched.index, resident]
  rfl

theorem mem_collectMissing {l : Level N L} {cs : List Coord} {c : Coord} :
    c ∈ l.collectMissing none cs ∅ ↔ c ∈ cs ∧ l.contains c = false := by
  obtain ⟨-, sound, complete⟩ := collectMissing_spec l none cs ∅
  constructor
  · intro mem
    exact (sound c mem).resolve_left Std.ExtTreeSet.not_mem_empty
  · rintro ⟨mem, missing⟩
    rcases complete with all | ⟨b, budget, -⟩
    · exact all c mem missing
    · cases budget

variable {as bs : List Loader} (perm : as.Perm bs)

include perm

/-- Without a budget the requests of some loaders are those of the same loaders in another
order. -/
theorem requestLoads_perm (tick : UInt64) (l : Level N L) :
    l.requestLoads as tick none = l.requestLoads bs tick none := by
  have same : l.collectMissing none (l.wanted as tick) ∅ =
      l.collectMissing none (l.wanted bs tick) ∅ := by
    refine Std.ExtTreeSet.ext_mem fun c => ?_
    simp only [mem_collectMissing, mem_wanted, perm.mem_iff]
  rw [requestLoads, same]
  rfl

theorem stream_perm {config : StreamConfig} (unlimited : config.createBudget = none)
    (tick : UInt64) (now : SimTime) (timeout : Duration) (l : Level N L) :
    l.stream config as tick now timeout = l.stream config bs tick now timeout := by
  rw [stream, unlimited, requestLoads_perm perm]
  rw [stream, unlimited]

end Level

namespace Hierarchy

theorem count_keepAlive (a b : Loader) (now : SimTime) (h : Hierarchy N L) :
    ((h.keepAlive a now).2.keepAlive b now).1 = (h.keepAlive b now).1 := by
  have count : ∀ l : Level N L, ((l.keepAlive a now).2.keepAlive b now).1 =
      (l.keepAlive b now).1 := fun l => by rw [Level.keepAlive_keepAlive]
  simp only [keepAlive, List.map_map, Function.comp_def, count]

theorem keepAlive_comm (a b : Loader) (now : SimTime) (h : Hierarchy N L) :
    ((h.keepAlive a now).2.keepAlive b now).2 = ((h.keepAlive b now).2.keepAlive a now).2 := by
  have swap : ∀ l : Level N L, ((l.keepAlive a now).2.keepAlive b now).2 =
      ((l.keepAlive b now).2.keepAlive a now).2 := fun l => by
    rw [Level.keepAlive_keepAlive, Level.keepAlive_keepAlive, Level.touchAll_comm]
  simp only [keepAlive, List.map_map, Function.comp_def, swap]

theorem keepAliveAll_perm (now : SimTime) {as bs : List Loader} (perm : as.Perm bs)
    (h : Hierarchy N L) : keepAliveAll now as h = keepAliveAll now bs h := by
  induction perm generalizing h with
  | nil => rfl
  | cons a _ ih => simp only [keepAliveAll, ih]
  | swap a b ls =>
    simp only [keepAliveAll, count_keepAlive]
    rw [keepAlive_comm, Nat.add_left_comm]
  | trans _ _ ih ih' => rw [ih, ih']

end Hierarchy

/-! ### Regions -/

namespace Region

/-- The region with other loaders. -/
def withLoaders (r : Region N L) (loaders : LoaderMap) : Region N L := { r with loaders }

/-- Two regions that differ at most in the order of their loaders. -/
def Alike (r r' : Region N L) : Prop :=
  ∃ loaders : LoaderMap, r.loaderList.Perm loaders.values ∧ r' = r.withLoaders loaders

theorem alike_withLoaders (r : Region N L) {as bs : LoaderMap} (perm : as.values.Perm bs.values) :
    (r.withLoaders as).Alike (r.withLoaders bs) := ⟨bs, perm, rfl⟩

theorem evictOne_withLoaders (now : SimTime) (timeout : Duration) (count : Nat) (r : Region N L)
    (loaders : LoaderMap) (c : Coord) :
    evictOne now timeout (count, r.withLoaders loaders) c =
      ((evictOne now timeout (count, r) c).1,
        (evictOne now timeout (count, r) c).2.withLoaders loaders) := by
  simp only [evictOne, withLoaders]
  split
  · rfl
  · split
    · rfl
    · split <;> rfl

theorem foldl_evictOne_withLoaders (now : SimTime) (timeout : Duration) (cs : List Coord)
    (count : Nat) (r : Region N L) (loaders : LoaderMap) :
    cs.foldl (evictOne now timeout) (count, r.withLoaders loaders) =
      ((cs.foldl (evictOne now timeout) (count, r)).1,
        (cs.foldl (evictOne now timeout) (count, r)).2.withLoaders loaders) := by
  induction cs generalizing count r with
  | nil => rfl
  | cons c cs ih => rw [List.foldl_cons, evictOne_withLoaders, ih, List.foldl_cons]

theorem evictExpired_withLoaders (now : SimTime) (timeout : Duration) (r : Region N L)
    (loaders : LoaderMap) : (r.withLoaders loaders).evictExpired now timeout =
      ((r.evictExpired now timeout).1, (r.evictExpired now timeout).2.withLoaders loaders) :=
  foldl_evictOne_withLoaders now timeout r.unobserved.toList 0 r loaders

/-- The tick of a region does not look at its loaders. -/
theorem tick_withLoaders (ps : NodeProcessors σ N L) (tick : UInt64) (now : SimTime)
    (timeout : Duration) (r : Region N L) (loaders : LoaderMap) (s : σ) :
    (r.withLoaders loaders).tick ps tick now timeout s =
      ((r.tick ps tick now timeout s).1, (r.tick ps tick now timeout s).2.1.withLoaders loaders,
        (r.tick ps tick now timeout s).2.2) := by
  have flushed : (r.withLoaders loaders).flushChanged ps tick now s =
      ((r.flushChanged ps tick now s).1, (r.flushChanged ps tick now s).2.1.withLoaders loaders,
        (r.flushChanged ps tick now s).2.2) := rfl
  simp only [Region.tick, flushed, evictExpired_withLoaders]
  simp only [withLoaders, track, forget]

theorem tick_loaders (ps : NodeProcessors σ N L) (tick : UInt64) (now : SimTime)
    (timeout : Duration) (r : Region N L) (s : σ) :
    (r.tick ps tick now timeout s).2.1.loaders = r.loaders := by
  have same := tick_withLoaders ps tick now timeout r r.loaders s
  have self : r.withLoaders r.loaders = r := rfl
  rw [self] at same
  generalize r.tick ps tick now timeout s = x at same
  rw [same, withLoaders]

/-- Without a budget the requests of a region do not depend on the order of its loaders. -/
theorem stream_withLoaders {config : StreamConfig} (unlimited : config.createBudget = none)
    (tick : UInt64) (now : SimTime) {r : Region N L} {loaders : LoaderMap}
    (perm : r.loaderList.Perm loaders.values) :
    Region.stream config tick now (r.withLoaders loaders) =
      ((Region.stream config tick now r).1,
        (Region.stream config tick now r).2.withLoaders loaders) := by
  have requests : requestLevel (N := N) (L := L) config loaders.values tick =
      requestLevel config r.loaderList tick := by
    funext l
    simp only [requestLevel, unlimited, Level.requestLoads_perm perm]
  have stamps : Hierarchy.keepAliveAll now loaders.values r.hierarchy =
      Hierarchy.keepAliveAll now r.loaderList r.hierarchy :=
    (Hierarchy.keepAliveAll_perm now perm _).symm
  have listed : (r.withLoaders loaders).loaderList = loaders.values := rfl
  have same : (r.withLoaders loaders).hierarchy = r.hierarchy := rfl
  simp only [Region.stream, listed, same, requests, stamps]
  rfl

variable {r r' : Region N L}

theorem Alike.stream (alike : r.Alike r') {config : StreamConfig}
    (unlimited : config.createBudget = none) (tick : UInt64) (now : SimTime) :
    (Region.stream config tick now r').1 = (Region.stream config tick now r).1 ∧
      (Region.stream config tick now r).2.Alike (Region.stream config tick now r').2 := by
  obtain ⟨loaders, perm, rfl⟩ := alike
  rw [stream_withLoaders unlimited tick now perm]
  exact ⟨rfl, loaders, perm, rfl⟩

theorem Alike.tick (alike : r.Alike r') (ps : NodeProcessors σ N L) (tick : UInt64)
    (now : SimTime) (timeout : Duration) (s : σ) :
    Agree Alike (r.tick ps tick now timeout s) (r'.tick ps tick now timeout s) := by
  obtain ⟨loaders, perm, rfl⟩ := alike
  have kept := tick_loaders ps tick now timeout r s
  rw [tick_withLoaders]
  generalize r.tick ps tick now timeout s = x at kept
  refine ⟨rfl, ⟨loaders, ?_, rfl⟩, rfl⟩
  rw [loaderList, kept]
  exact perm

end Region

/-- Edits that neither name a loader nor let a budget cut requests short. -/
def RegionEdit.Anonymous : RegionEdit N L → Prop
  | .addLoader _ _ => False
  | .removeLoader _ => False
  | .stream config _ _ => config.createBudget = none
  | .merge source => source.loaders = ∅
  | _ => True

namespace Region

theorem merge_withLoaders {source : Region N L} (none_ : source.loaders = ∅) (r : Region N L)
    (loaders : LoaderMap) : (Region.merge source (r.withLoaders loaders)).2.2 =
      (Region.merge source r).2.2.withLoaders loaders := by
  have kept : ∀ ls : LoaderMap, ls.insertMany source.loaders.toList = ls := by
    intro ls
    rw [none_, Std.ExtTreeMap.toList_eq_nil_iff.mpr rfl]
    exact Std.ExtTreeMap.insertMany_nil
  simp only [merge, withLoaders, kept]
  split
  · rfl
  · split
    · rfl
    · split <;> rfl

theorem edit_withLoaders {e : RegionEdit N L} (anonymous : e.Anonymous) {r : Region N L}
    {loaders : LoaderMap} (perm : r.loaderList.Perm loaders.values) :
    (r.withLoaders loaders).edit e = (r.edit e).withLoaders loaders := by
  cases e with
  | load c now =>
    simp only [edit, loadNode, withLoaders]
    split <;> rfl
  | unload ps c tick now =>
    simp only [edit, unloadNode, withLoaders]
    split <;> rfl
  | markChanged c =>
    simp only [edit, markChanged, withLoaders]
    by_cases resident : r.hierarchy.contains c = true <;> simp [resident, Except.toOption]
  | observe c =>
    simp only [edit, observe, withLoaders]
    split <;> rfl
  | release c =>
    simp only [edit, release, withLoaders]
    split
    · rfl
    · split <;> rfl
  | addLoader id l => exact anonymous.elim
  | removeLoader id => exact anonymous.elim
  | level i e => rfl
  | stream config tick now => exact congrArg (·.2) (stream_withLoaders anonymous tick now perm)
  | tick ps tick now timeout =>
    simp only [edit, tick_withLoaders]
  | merge source => exact merge_withLoaders anonymous r loaders

theorem edit_loaders {e : RegionEdit N L} (anonymous : e.Anonymous) (r : Region N L) :
    (r.edit e).loaders = r.loaders := by
  have same : r.edit e = (r.edit e).withLoaders r.loaders :=
    edit_withLoaders (r := r) anonymous (.refl r.loaderList)
  rw [same, withLoaders]

theorem Alike.foldl_edit {r r' : Region N L} (alike : r.Alike r') {es : List (RegionEdit N L)}
    (anonymous : ∀ e ∈ es, e.Anonymous) : (es.foldl edit r).Alike (es.foldl edit r') := by
  induction es generalizing r r' with
  | nil => exact alike
  | cons e es ih =>
    obtain ⟨loaders, perm, rfl⟩ := alike
    have nameless := anonymous e List.mem_cons_self
    refine ih ⟨loaders, ?_, edit_withLoaders nameless perm⟩
      fun f mem => anonymous f (List.mem_cons_of_mem e mem)
    rw [loaderList, edit_loaders nameless]
    exact perm

end Region

/-- The processor does the same to any two regions that differ in nothing but the order of their
loaders. -/
def RegionProcessor.Blind (p : RegionProcessor σ N L) : Prop :=
  ∀ ctx r r' s, r.Alike r' → (p.process ctx r' s).2 = (p.process ctx r s).2 ∧
    ((p.process ctx r s).1.foldl Region.edit r).Alike
      ((p.process ctx r' s).1.foldl Region.edit r')

/-- A processor is blind if it neither reads the loaders nor names one in its edits. -/
theorem RegionProcessor.blind_of_anonymous {p : RegionProcessor σ N L}
    (reads : ∀ ctx r loaders s, p.process ctx (r.withLoaders loaders) s = p.process ctx r s)
    (obeys : p.Obeys RegionEdit.Anonymous) : p.Blind := by
  intro ctx r r' s alike
  have same : p.process ctx r' s = p.process ctx r s := by
    obtain ⟨loaders, -, rfl⟩ := alike
    exact reads ctx r loaders s
  rw [same]
  exact ⟨rfl, alike.foldl_edit (obeys ctx r s)⟩

section Batch

variable {ps : List (RegionProcessor σ N L)} (blind : ∀ p ∈ ps, p.Blind) (ctx : BatchContext)
  {r r' : Region N L} (alike : r.Alike r')

include blind alike

theorem offer_alike (s : σ) :
    (offer regionAddressing ctx () ps r s).1.Alike (offer regionAddressing ctx () ps r' s).1 ∧
      (offer regionAddressing ctx () ps r' s).2 = (offer regionAddressing ctx () ps r s).2 := by
  induction ps generalizing r r' s with
  | nil => exact ⟨alike, rfl⟩
  | cons p ps ih =>
    obtain ⟨state, edited⟩ := blind p List.mem_cons_self ctx r r' s alike
    have rest := ih (fun q mem => blind q (List.mem_cons_of_mem p mem)) edited (p.process ctx r s).2
    have first : ∀ t : Region N L, offerTo regionAddressing ctx () p t s =
        ((p.process ctx t s).1.foldl Region.edit t, (p.process ctx t s).2) := fun _ => rfl
    simp only [offer, first, state]
    exact rest

theorem runRegionBatch_alike (s : σ) :
    (runRegionBatch ps ctx r s).1.Alike (runRegionBatch ps ctx r' s).1 ∧
      (runRegionBatch ps ctx r' s).2 = (runRegionBatch ps ctx r s).2 := by
  let t := ps.foldl (fun s p => p.start ctx s) s
  obtain ⟨offered, state⟩ := offer_alike blind ctx alike t
  have batch : ∀ r : Region N L, runRegionBatch ps ctx r s =
      ((offer regionAddressing ctx () ps r t).1,
        ps.foldl (fun s p => p.finish ctx s) (offer regionAddressing ctx () ps r t).2) :=
    fun _ => rfl
  simp only [batch, state]
  exact ⟨offered, trivial⟩

end Batch

/-! ### Worlds -/

namespace World

/-- The world with other regions. -/
def withRegions (w : World σ N L) (regions : List (Region N L)) : World σ N L :=
  { w with regions }

/-- Two worlds that differ at most in the order in which their regions list their loaders. -/
def Alike (w w' : World σ N L) : Prop :=
  ∃ regions, List.Forall₂ Region.Alike w.regions regions ∧ w' = w.withRegions regions

/-- No processor of regions can tell alike regions apart. -/
def Blind (w : World σ N L) : Prop := ∀ p ∈ w.processors.region, p.Blind

variable {w w' : World σ N L}

/-- A step that leaves the regions aside agrees with itself on alike worlds. -/
theorem Alike.agree {α : Type} {step : World σ N L → σ → α × World σ N L × σ} {s : σ}
    (apart : ∀ regions, step (w.withRegions regions) s =
      ((step w s).1, (step w s).2.1.withRegions regions, (step w s).2.2))
    (kept : (step w s).2.1.regions = w.regions) (alike : w.Alike w') :
    Agree Alike (step w s) (step w' s) := by
  obtain ⟨regions, related, rfl⟩ := alike
  rw [apart]
  exact ⟨rfl, ⟨regions, by rw [kept]; exact related, rfl⟩, rfl⟩

theorem workRegion_agree {config : StreamConfig} (unlimited : config.createBudget = none)
    (blind : w.Blind) (tick : UInt64) (now : SimTime) (regions : List (Region N L))
    {r r' : Region N L} (alike : r.Alike r') (s : σ) :
    Agree Region.Alike (w.workRegion (Region.stream config tick now) r s)
      ((w.withRegions regions).workRegion (Region.stream config tick now) r' s) := by
  have batch := runRegionBatch_alike blind (w.batchContext .region) alike s
  have setting : (w.withRegions regions).batchContext .region = w.batchContext .region := rfl
  simp only [workRegion, setting]
  generalize (runRegionBatch w.processors.region (w.batchContext .region) r s) = x at batch ⊢
  simp only [withRegions]
  generalize (runRegionBatch w.processors.region (w.batchContext .region) r' s) = y at batch ⊢
  obtain ⟨batched, state⟩ := batch
  obtain ⟨stats, streamed⟩ := batched.stream unlimited tick now
  have ticked := streamed.tick w.processors.toNodeProcessors w.tick w.now w.config.evictionTimeout
    x.2
  rw [state, stats]
  generalize Region.tick _ _ _ _ _ _ = a at ticked ⊢
  generalize Region.tick _ _ _ _ _ _ = b at ticked ⊢
  obtain ⟨answer, target, rest⟩ := ticked
  exact ⟨Prod.ext rfl answer, target, rest⟩

end World

/-! ### Engines -/

namespace TickStats

/-- The counters of a tick, without the time that it took. -/
def counts (t : TickStats) : TickStats := { t with duration := Duration.zero }

theorem eq_of_counts_eq {t u : TickStats} (same : u.counts = t.counts) :
    u = { t with duration := u.duration } := by
  simp only [counts, mk.injEq] at same
  cases t
  cases u
  simp_all

end TickStats

namespace Engine

/-- Two engines that differ at most in the order of the loaders, their own and those of the regions,
and in how long their ticks took. -/
structure Alike (e e' : Engine σ N L) : Prop where
  loaders : e.loaderList.Perm e'.loaderList
  worlds : List.Forall₂ World.Alike e.worlds e'.worlds
  config : e'.config = e.config
  threads : e'.threads = e.threads
  cursor : e'.cursor = e.cursor
  tick : e'.tick = e.tick
  now : e'.now = e.now
  current : e'.current.counts = e.current.counts
  last : e'.last.counts = e.last.counts

variable {e e' : Engine σ N L} {w w' : World σ N L}

theorem streamWorld_agree (same : e.Alike e') (unlimited : e.config.stream.createBudget = none)
    (alike : w.Alike w') (s : σ) :
    Agree World.Alike (e.streamWorld w s) (e'.streamWorld w' s) := by
  have work : ∀ timeout (l : Level N L),
      Level.stream e'.config.stream e'.loaderList e'.tick e'.now timeout l =
        Level.stream e.config.stream e.loaderList e.tick e.now timeout l := by
    intro timeout l
    rw [same.config, same.tick, same.now, Level.stream_perm same.loaders unlimited]
  have streams : e'.streamWorld w' s = e.streamWorld w' s := by
    simp only [streamWorld, funext (work _)]
  rw [streams]
  exact alike.agree (fun _ => rfl) rfl

theorem tickRegions_agree (same : e.Alike e') (unlimited : e.config.stream.createBudget = none)
    (blind : w.Blind) (alike : w.Alike w') (s : σ) :
    Agree World.Alike (e.tickRegions w s) (e'.tickRegions w' s) := by
  have streams : e'.tickRegions w' s = e.tickRegions w' s := by
    simp only [tickRegions, same.config, same.tick, same.now]
  rw [streams]
  obtain ⟨regions, related, rfl⟩ := alike
  have swept := agree_sweep related (fun r _ r' s alike =>
    World.workRegion_agree unlimited blind e.tick e.now regions alike s) s
  simp only [tickRegions, World.regionWorkerPhase_eq]
  rw [show (w.withRegions regions).regions = regions from rfl]
  generalize sweep (w.workRegion (Region.stream e.config.stream e.tick e.now)) w.regions s = x
    at swept ⊢
  generalize sweep ((w.withRegions regions).workRegion
    (Region.stream e.config.stream e.tick e.now)) regions s = y at swept ⊢
  obtain ⟨answer, target, state⟩ := swept
  rw [answer]
  exact ⟨rfl, ⟨y.2.1, target, rfl⟩, state⟩

/-- What becomes of the worlds and of the counters of alike engines. -/
theorem Alike.update (same : e.Alike e') {worlds worlds' : List (World σ N L)}
    (alike : List.Forall₂ World.Alike worlds worlds') {current current' : TickStats}
    (counts : current'.counts = current.counts) :
    Alike { e with worlds, current } { e' with worlds := worlds', current := current' } :=
  { same with worlds := alike, current := counts }

theorem Alike.loaderPhase_agree (same : e.Alike e') :
    e'.loaderPhase.1 = e.loaderPhase.1 ∧ e.loaderPhase.2.Alike e'.loaderPhase.2 := by
  have stamps : ∀ h : Hierarchy N L, Hierarchy.keepAliveAll e'.now e'.loaderList h =
      Hierarchy.keepAliveAll e.now e.loaderList h := fun h => by
    rw [same.now, Hierarchy.keepAliveAll_perm e.now same.loaders]
  have touched : e'.loaderPhase.1 = e.loaderPhase.1 := by
    simp only [Engine.loaderPhase, List.map_map, stamps]
    refine congrArg tally (map_eq_of_forall₂ same.worlds ?_)
    rintro w _ ⟨regions, -, rfl⟩
    rfl
  refine ⟨touched, same.update ?_ ?_⟩
  · change List.Forall₂ World.Alike e.loaderPhase.2.worlds e'.loaderPhase.2.worlds
    rw [loaderPhase_worlds, loaderPhase_worlds, List.forall₂_map_left_iff,
      List.forall₂_map_right_iff]
    refine same.worlds.imp ?_
    rintro w _ ⟨regions, related, rfl⟩
    refine ⟨regions, related, ?_⟩
    simp only [stampWorld, stamps, same.tick]
    rw [same.now]
    rfl
  · change ({ tick := e'.tick, stream := { touched := e'.loaderPhase.1 } } : TickStats).counts =
      ({ tick := e.tick, stream := { touched := e.loaderPhase.1 } } : TickStats).counts
    rw [same.tick, touched]

/-- A phase that leaves the regions aside and records its count. -/
theorem Alike.worldPhase_agree (same : e.Alike e')
    {step : World σ N L → σ → Nat × World σ N L × σ} {record : TickStats → Nat → TickStats}
    (apart : ∀ w regions s, step (w.withRegions regions) s =
      ((step w s).1, (step w s).2.1.withRegions regions, (step w s).2.2))
    (kept : ∀ w s, (step w s).2.1.regions = w.regions)
    (records : ∀ t duration n, record { t with duration } n = { record t n with duration })
    (s : σ) :
    Agree Alike (e.worldPhase step record s) (e'.worldPhase step record s) := by
  have swept := agree_sweep same.worlds
    (fun w _ w' s alike => alike.agree (apart w · s) (kept w s)) s
  simp only [worldPhase]
  generalize sweep step e.worlds s = x at swept ⊢
  generalize sweep step e'.worlds s = y at swept ⊢
  obtain ⟨answer, target, state⟩ := swept
  rw [answer]
  refine ⟨rfl, same.update target ?_, state⟩
  rw [TickStats.eq_of_counts_eq same.current, records]
  rfl

/-- One phase, whether or not it is its turn. -/
theorem perform_agree (same : e.Alike e') (unlimited : e.config.stream.createBudget = none)
    (blind : ∀ w ∈ e.worlds, w.Blind) (p : Phase) (elapsed elapsed' : Duration) (s : σ) :
    Agree Alike (e.perform p elapsed s) (e'.perform p elapsed' s) := by
  cases p with
  | loader =>
    obtain ⟨touched, alike⟩ := same.loaderPhase_agree
    exact ⟨touched, alike, rfl⟩
  | levelWorker =>
    have swept := agree_sweep same.worlds
      (fun w _ w' s alike => streamWorld_agree same unlimited alike s) s
    simp only [perform, levelWorkerPhase]
    generalize sweep e.streamWorld e.worlds s = x at swept ⊢
    generalize sweep e'.streamWorld e'.worlds s = y at swept ⊢
    obtain ⟨answer, target, state⟩ := swept
    rw [answer]
    refine ⟨rfl, same.update target ?_, state⟩
    rw [TickStats.eq_of_counts_eq same.current]
    rfl
  | regionWorker =>
    have swept := agree_sweep same.worlds
      (fun w mem w' s alike => tickRegions_agree same unlimited (blind w mem) alike s) s
    simp only [perform, regionWorkerPhase]
    generalize sweep e.tickRegions e.worlds s = x at swept ⊢
    generalize sweep e'.tickRegions e'.worlds s = y at swept ⊢
    obtain ⟨answer, target, state⟩ := swept
    rw [answer]
    refine ⟨rfl, same.update target ?_, state⟩
    rw [TickStats.eq_of_counts_eq same.current]
    rfl
  | worldWorker | create | load | unload | destroy =>
    simp only [perform]
    refine same.worldPhase_agree ?_ ?_ ?_ s <;> intros <;> rfl
  | finish =>
    have counts : ({ e'.current with duration := elapsed' } : TickStats).counts =
        ({ e.current with duration := elapsed } : TickStats).counts := same.current
    refine ⟨rfl, { same with tick := ?_, now := ?_, current := counts, last := counts }, rfl⟩
    · exact congrArg (· + 1) same.tick
    · change e'.now.advance e'.config.tickInterval = e.now.advance e.config.tickInterval
      rw [same.now, same.config]

/-- No budget cuts requests short, and no processor of regions looks at the order of loaders. -/
structure Oblivious (e : Engine σ N L) : Prop where
  unlimited : e.config.stream.createBudget = none
  blind : ∀ w ∈ e.worlds, w.Blind

theorem Oblivious.perform (oblivious : e.Oblivious) (p : Phase) (elapsed : Duration) (s : σ) :
    (e.perform p elapsed s).2.1.Oblivious := by
  have config : (e.perform p elapsed s).2.1.config = e.config := by
    cases p <;> rfl
  refine ⟨by rw [config]; exact oblivious.unlimited, fun w' mem => ?_⟩
  obtain ⟨w, listed, works⟩ := exists_of_forall₂ (e.perform_works p elapsed s) mem
  rw [World.Blind, works.keeps.1]
  exact oblivious.blind w listed

/-- Two runs that were both refused, or that both went through to the same state and left related
engines. -/
inductive RunsAlike (R : Engine σ N L → Engine σ N L → Prop) :
    Except OutOfOrder (Engine σ N L × σ) → Except OutOfOrder (Engine σ N L × σ) → Prop
  | refused (err : OutOfOrder) : RunsAlike R (.error err) (.error err)
  | done {e e' : Engine σ N L} (related : R e e') (s : σ) : RunsAlike R (.ok (e, s)) (.ok (e', s))

/-- What the induction over phases and ticks carries along. -/
structure Matched (e e' : Engine σ N L) : Prop where
  alike : e.Alike e'
  oblivious : e.Oblivious

theorem Matched.runPhases (matched : Matched e e') (ps : List Phase) (elapsed elapsed' : Duration)
    (s : σ) : RunsAlike Matched (runPhases elapsed ps e s) (runPhases elapsed' ps e' s) := by
  induction ps generalizing e e' s with
  | nil => exact .done matched s
  | cons p ps ih =>
    rw [Engine.runPhases, Engine.runPhases, runPhase_eq, runPhase_eq, matched.alike.cursor]
    by_cases turn : p = e.cursor.expected
    · rw [if_pos turn, if_pos turn]
      have alike : Alike { e with cursor := ⟨p.next⟩ } { e' with cursor := ⟨p.next⟩ } :=
        { matched.alike with cursor := rfl }
      have oblivious : Oblivious { e with cursor := ⟨p.next⟩ } := ⟨matched.2.1, matched.2.2⟩
      obtain ⟨-, after, state⟩ :=
        perform_agree alike oblivious.unlimited oblivious.blind p elapsed elapsed' s
      simp only [state]
      exact ih ⟨after, oblivious.perform p elapsed s⟩ _
    · rw [if_neg turn, if_neg turn]
      exact .refused _

theorem Matched.runEach (matched : Matched e e') {ds ds' : List Duration}
    (same : ds'.length = ds.length) (s : σ) :
    RunsAlike Matched (e.runEach ds s) (e'.runEach ds' s) := by
  induction ds generalizing e e' ds' s with
  | nil =>
    rw [List.length_eq_zero_iff.mp same]
    exact .done matched s
  | cons d ds ih =>
    obtain ⟨d', ds', rfl⟩ := List.exists_cons_of_length_eq_add_one same
    have tick := matched.runPhases Phase.all d d' s
    rw [Engine.runEach, Engine.runEach, runTick, runTick]
    generalize Engine.runPhases d Phase.all e s = x at tick ⊢
    generalize Engine.runPhases d' Phase.all e' s = y at tick ⊢
    cases tick with
    | refused err => exact .refused err
    | done matched s => exact ih matched (Nat.succ.inj same) s

/-- Alike worlds may enter alike engines. -/
theorem Alike.insertWorld (same : e.Alike e') (alike : w.Alike w') :
    (e.insertWorld w).Alike (e'.insertWorld w') := by
  obtain ⟨regions, related, rfl⟩ := alike
  have entered : (w.setTime e.tick e.now).Alike ((w.withRegions regions).setTime e'.tick e'.now) :=
    ⟨regions, related, by rw [same.tick, same.now]; rfl⟩
  have worlds := List.rel_append (R := World.Alike) same.worlds (.cons entered .nil)
  exact { same with worlds }

theorem runEach_done (ready : e.cursor.expected = .loader) (ds : List Duration) (s : σ) :
    ∃ g t, e.runEach ds s = .ok (g, t) := by
  induction ds generalizing e s with
  | nil => exact ⟨e, s, rfl⟩
  | cons d ds ih =>
    obtain ⟨e₁, s₁, done, ready₁, -⟩ := runTick_ticks ready d s
    rw [runEach, done]
    exact ih ready₁ s₁

/-- Two engines with the same loaders in different orders go on alike, for any number of ticks:
whatever the time that their ticks take, they end in the same state with the same worlds, regions
and counters, or are both refused, which happens only if a tick had already begun. -/
theorem runEach_alike (alike : e.Alike e') (unlimited : e.config.stream.createBudget = none)
    (blind : ∀ w ∈ e.worlds, ∀ p ∈ w.processors.region, p.Blind) {ds ds' : List Duration}
    (same : ds'.length = ds.length) (s : σ) :
    RunsAlike Alike (e.runEach ds s) (e'.runEach ds' s) ∧
      (e.cursor.expected = .loader → ∃ g t, e.runEach ds s = .ok (g, t)) := by
  refine ⟨?_, fun ready => runEach_done ready ds s⟩
  have matched : Matched e e' := ⟨alike, unlimited, blind⟩
  have runs := matched.runEach same s
  generalize e.runEach ds s = x at runs ⊢
  generalize e'.runEach ds' s = y at runs ⊢
  cases runs with
  | refused err => exact .refused err
  | done matched s => exact .done matched.alike s

/-- Two loaders on an engine and on a region of its world, a processor that marks a cell of the
region as changed, and the same with the loaders exchanged. -/
theorem two_loaders_exchanged :
    let near : Loader := {}
    let far : Loader := { position := ⟨5, 0, 0⟩, radius := 2 }
    let both := fun a b : Loader =>
      ((∅ : LoaderMap).insert (Identifier.ofNat 1) a).insert (Identifier.ofNat 2) b
    let marker : RegionProcessor Unit Unit Unit :=
      .plain "mark" fun _ _ s =>
        ([.load ⟨⟨0, 0, 0⟩, 0⟩ SimTime.zero, .markChanged ⟨⟨0, 0, 0⟩, 0⟩], s)
    let world : World Unit Unit Unit :=
      { (World.empty default { levelCount := 1 } PayloadFactory.plain : World Unit Unit Unit) with
        processors := { region := [marker] } }
    let region := Region.empty default default Box.everything PayloadFactory.plain 1
    let engine := fun a b : Loader =>
      (({ config := {}, threads := 1, loaders := both a b } : Engine Unit Unit Unit).insertWorld
        (world.withRegions [region.withLoaders (both a b)]))
    (engine near far).loaderList = [near, far] ∧ (engine far near).loaderList = [far, near] ∧
      (engine near far).Alike (engine far near) ∧
      (engine near far).config.stream.createBudget = none ∧ marker.Blind ∧
      RunsAlike Alike ((engine near far).runEach [Duration.zero, Duration.zero] ())
        ((engine far near).runEach [Duration.ofSeconds 1, Duration.zero] ()) ∧
      ∃ g t, (engine near far).runEach [Duration.zero, Duration.zero] () = .ok (g, t) := by
  intro near far both marker world region engine
  have listed : (both near far).values = [near, far] := by decide +kernel
  have listed' : (both far near).values = [far, near] := by decide +kernel
  have perm : (both near far).values.Perm (both far near).values := by
    rw [listed, listed']
    exact .swap far near []
  have empty : Alike (σ := Unit) (N := Unit) (L := Unit)
      { config := {}, threads := 1, loaders := both near far }
      { config := {}, threads := 1, loaders := both far near } :=
    ⟨perm, .nil, rfl, rfl, rfl, rfl, rfl, rfl, rfl⟩
  have alike : (engine near far).Alike (engine far near) :=
    empty.insertWorld ⟨_, .cons (region.alike_withLoaders perm) .nil, rfl⟩
  have blind : marker.Blind := RegionProcessor.blind_of_anonymous (fun _ _ _ _ => rfl) (by
    intro ctx r s e mem
    simp only [marker, Processor.plain, List.mem_cons, List.not_mem_nil, or_false] at mem
    rcases mem with rfl | rfl <;> trivial)
  have all : ∀ w ∈ (engine near far).worlds, ∀ p ∈ w.processors.region, p.Blind := by
    intro w listed p mem
    rw [List.mem_singleton.mp listed] at mem
    rw [List.mem_singleton.mp mem]
    exact blind
  have same : [Duration.ofSeconds 1, Duration.zero].length =
      [Duration.zero, Duration.zero].length :=
    rfl
  obtain ⟨runs, done⟩ := runEach_alike alike rfl all same ()
  exact ⟨listed, listed', alike, rfl, blind, runs, done rfl⟩

end Engine

end OctreeWorld
