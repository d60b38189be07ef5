import OctreeWorld.Proofs.Reached
import OctreeWorld.Proofs.RegionMerge
import OctreeWorld.Proofs.Transitions

/-!
# The nodes that nobody observes

A region keeps a set of the residents that nobody observes, so that eviction need not look at all
nodes. Every operation that creates or removes nodes or changes their observers keeps the set up to
date, and no other operation touches either side, so the set is at all times what a look at every
node would find. Eviction then comes down to a list of nodes that change their state and are queued.
-/

namespace OctreeWorld

variable {N L σ : Type}

/-! ### Observers of a coordinate -/

/-- How many observers the node at a coordinate has. -/
def Level.audience (l : Level N L) (c : Coord) : Option UInt32 := (l.get? c).map (·.observers)

namespace Level

variable {l m : Level N L}

theorem Edited.audience {may : NodeEdit N L → Prop} {cs : List Coord} (edited : l.Edited may cs m)
    (c : Coord) : m.audience c = l.audience c :=
  edited.map_eq (fun _ _ edited => edited.observers) c

theorem audience_modifyAll (l : Level N L) (cs : List Coord) {f : Node N → Node N}
    (same : ∀ n, (f n).observers = n.observers) (c : Coord) :
    (l.modifyAll cs f).audience c = l.audience c := by
  unfold audience
  exact map_get?_modifyAll l cs same c

theorem audience_batch (ps : List (NodeProcessor σ N L)) (ctx : BatchContext) (l : Level N L)
    (cs : List Coord) (s : σ) (c : Coord) :
    (runNodeBatch ps ctx l cs s).1.audience c = l.audience c :=
  (runNodeBatch_edited Processor.obeys_any ctx l cs s).audience c

theorem audience_load (ps : List (NodeProcessor σ N L)) (ctx : BatchContext) (l : Level N L) (s : σ)
    (c : Coord) : (l.load ps ctx s).2.1.audience c = l.audience c :=
  (audience_modifyAll _ _ (f := (·.withState .loaded)) (fun _ => rfl) c).trans
    (audience_batch ps ctx (l.clear .load) _ s c)

theorem audience_tick (ps : List (NodeProcessor σ N L)) (ctx : BatchContext) (l : Level N L) (s : σ)
    (c : Coord) : (l.tick ps ctx s).2.1.audience c = l.audience c :=
  (tick_edited Processor.obeys_any ctx l s).audience c

theorem audience_unload (ps : List (NodeProcessor σ N L)) (ctx : BatchContext) (l : Level N L)
    (s : σ) (c : Coord) : (l.unload ps ctx s).2.1.audience c = l.audience c := by
  have states : ∀ (k : Level N L) cs state,
      (k.modifyAll cs (·.withState state)).audience c = k.audience c :=
    fun k cs state => audience_modifyAll k cs (f := (·.withState state)) (fun _ => rfl) c
  obtain ⟨spared, worked, sparing, working, result⟩ := unload_eq ps ctx l s
  calc (l.unload ps ctx s).2.1.audience c
      = (worked.modifyAll l.retiring (·.withState .deleting)).audience c := by rw [result]; rfl
    _ = worked.audience c := states ..
    _ = spared.audience c := by rw [working, audience_batch]
    _ = (l.clear .unload).audience c := by rw [sparing, states]

theorem audience_flushLevel (ps : List (NodeProcessor σ N L)) (ctx : BatchContext)
    (changed : List Coord) (l : Level N L) (s : σ) (c : Coord) :
    (Region.flushLevel ps ctx changed l s).2.1.audience c = l.audience c := by
  have stamped : ∀ cs, (l.modifyAll cs fun n => n.bumpVersion.touch ctx.now).audience c =
      l.audience c :=
    fun cs => audience_modifyAll l cs (f := fun n => n.bumpVersion.touch ctx.now) (fun _ => rfl) c
  exact (audience_batch ps _ _ _ s c).trans (stamped _)

theorem audience_tickLevel (ps : NodeProcessors σ N L) (ctx : BatchContext) (l : Level N L) (s : σ)
    (c : Coord) : (Region.tickLevel ps ctx l s).2.1.audience c = l.audience c := by
  obtain ⟨first, second, third, loads, ticks, unloads, result⟩ := tickLevel_eq ps ctx l s
  rw [result]
  show third.2.1.audience c = _
  rw [unloads, audience_unload, ticks, audience_tick, loads, audience_load]

theorem Call.audience {may : NodeEdit N L → Prop} (call : Call may l m) (c : Coord) :
    m.audience c = l.audience c := by
  cases call with
  | edit e _ =>
    cases e with
    | setData d => rfl
    | push q x => rfl
    | node x e =>
      have edited : l.Edited (fun _ => True) [x] (l.editNode x e) :=
        .editNode l (List.mem_singleton_self x) trivial
      exact edited.audience c
  | keepAlive loader now => exact audience_modifyAll l _ (f := (·.touch now)) (fun _ => rfl) c
  | requestLoads loaders tick budget => rfl
  | collectUnused now timeout budget =>
    exact audience_modifyAll l _ (f := (·.withState .unloading)) (fun _ => rfl) c

theorem Called.audience {may : NodeEdit N L → Prop} (called : Called may l m) (c : Coord) :
    m.audience c = l.audience c := by
  induction called with
  | refl => rfl
  | tail _ call ih => exact (call.audience c).trans ih

end Level

namespace Hierarchy

/-- How many observers the node at a coordinate has. -/
def audience (h : Hierarchy N L) (c : Coord) : Option UInt32 := (h.get? c).map (·.observers)

variable {h g : Hierarchy N L} {c : Coord}

theorem audience_eq_some {k : UInt32} :
    h.audience c = some k ↔ ∃ n, h.get? c = some n ∧ n.observers = k := Option.map_eq_some_iff

theorem audience_of_body (same : g.body c = h.body c) : g.audience c = h.audience c := by
  have view : ∀ k : Hierarchy N L, k.audience c = (k.body c).map (·.observers) := by
    intro k
    rw [audience, body, Option.map_map]
    rfl
  rw [view, view, same]

theorem Levelwise.audience (rel : Levelwise (fun l m => m.audience c = l.audience c) h g) :
    g.audience c = h.audience c := by
  rcases rel.get? c with ⟨absent, absent'⟩ | ⟨l, m, same, -, -, here, here'⟩
  · rw [Hierarchy.audience, Hierarchy.audience, absent, absent']
  · rw [Hierarchy.audience, Hierarchy.audience, here, here']
    exact same

end Hierarchy

/-! ### Evictions, one by one -/

namespace Hierarchy

/-- Move a node to unloading and queue it. -/
def evict (h : Hierarchy N L) (c : Coord) : Hierarchy N L :=
  h.mark c (·.withState .unloading) .unload

theorem audience_evict (h : Hierarchy N L) (x c : Coord) :
    (h.evict x).audience c = h.audience c := by
  unfold audience evict
  rw [get?_mark]
  split
  · rw [Option.map_map]
    rfl
  · rfl

theorem audience_foldl_evict (cs : List Coord) (h : Hierarchy N L) (c : Coord) :
    (cs.foldl evict h).audience c = h.audience c := by
  induction cs generalizing h with
  | nil => rfl
  | cons x cs ih => exact (ih _).trans (audience_evict h x c)

/-- Whether the node at a coordinate is unused. -/
def unusedAt (h : Hierarchy N L) (now : SimTime) (timeout : Duration) (c : Coord) : Bool :=
  (h.get? c).any (·.isUnused now timeout)

theorem unusedAt_evict {h : Hierarchy N L} {now : SimTime} {timeout : Duration} {x c : Coord}
    (other : c ≠ x) : (h.evict x).unusedAt now timeout c = h.unusedAt now timeout c := by
  rw [unusedAt, evict, get?_mark, if_neg (Ne.symm other), unusedAt]

end Hierarchy

namespace Region

variable {now : SimTime} {timeout : Duration}

theorem evictOne_eq {r : Region N L} {c : Coord} (resident : r.hierarchy.contains c = true)
    (count : Nat) : evictOne now timeout (count, r) c =
      if r.hierarchy.unusedAt now timeout c then
        (count + 1, { r with hierarchy := r.hierarchy.evict c })
      else (count, r) := by
  obtain ⟨n, found⟩ := Hierarchy.contains_iff.mp resident
  obtain ⟨l, stored, there⟩ := Hierarchy.level?_of_get? found
  simp only [evictOne, stored, there, Hierarchy.unusedAt, found, Option.any_some]
  rfl

/-- Among residents, eviction picks those that are unused before it begins. -/
theorem foldl_evictOne_eq (cs : List Coord) {r : Region N L}
    (resident : ∀ c ∈ cs, r.hierarchy.contains c = true) (once : cs.Nodup) (count : Nat) :
    cs.foldl (evictOne now timeout) (count, r) =
      (count + (cs.filter (r.hierarchy.unusedAt now timeout)).length,
        { r with hierarchy := (cs.filter
            (r.hierarchy.unusedAt now timeout)).foldl Hierarchy.evict r.hierarchy }) := by
  induction cs generalizing r count with
  | nil => rfl
  | cons c cs ih =>
    obtain ⟨fresh, once⟩ := List.nodup_cons.mp once
    have others : ∀ x ∈ cs, r.hierarchy.contains x = true :=
      fun x mem => resident x (List.mem_cons_of_mem c mem)
    rw [List.foldl_cons, evictOne_eq (resident c List.mem_cons_self)]
    by_cases unused : r.hierarchy.unusedAt now timeout c = true
    · have same : cs.filter ((r.hierarchy.evict c).unusedAt now timeout) =
          cs.filter (r.hierarchy.unusedAt now timeout) := by
        refine List.filter_congr fun x mem => Hierarchy.unusedAt_evict ?_
        rintro rfl
        exact fresh mem
      have others : ∀ x ∈ cs, (r.hierarchy.evict c).contains x = true := by
        intro x mem
        have kept := congrArg Option.isSome (Hierarchy.audience_evict r.hierarchy c x)
        simp only [Hierarchy.audience, Option.isSome_map] at kept
        exact kept.trans (others x mem)
      rw [if_pos unused, ih others once, same, List.filter_cons_of_pos unused, List.length_cons,
        List.foldl_cons, Nat.add_assoc, Nat.add_comm 1]
    · rw [if_neg unused, ih others once, List.filter_cons_of_neg unused]

end Region

/-! ### The tracked set -/

theorem Region.linked_tickLevels {h : Hierarchy N L} (linked : h.Linked) (ps : NodeProcessors σ N L)
    (ctx : BatchContext) (s : σ) :
    Hierarchy.Linked ⟨(sweep (tickLevel ps ctx) h.levels s).2.1⟩ := by
  have obey := ps.obey_any
  have stepped : Hierarchy.Levelwise (Level.Stepped fun _ => True) h
      ⟨(sweep (tickLevel ps ctx) h.levels s).2.1⟩ :=
    forall₂_sweep (fun l _ s => Level.tickLevel_stepped obey ctx l s) s
  exact (Hierarchy.Evolved.steps stepped).linked linked

theorem Node.observers_addObserver (n : Node N) : n.addObserver.observers ≠ 0 := by
  intro none_
  have count := congrArg UInt32.toNat none_
  have one : (1 : UInt32).toNat = 1 := rfl
  have zero : (0 : UInt32).toNat = 0 := rfl
  rw [addObserver, addCounts, UInt32.toNat_ofNat', one, zero] at count
  omega

namespace CoordSet

theorem mem_removeAll {s : CoordSet} {cs : List Coord} {c : Coord} :
    c ∈ s.removeAll cs ↔ c ∈ s ∧ c ∉ cs := by
  unfold removeAll
  induction cs generalizing s with
  | nil => simp only [List.foldl_nil, List.not_mem_nil, not_false_eq_true, and_true]
  | cons x cs ih =>
    rw [List.foldl_cons, ih, Std.ExtTreeSet.mem_erase, List.mem_cons]
    grind

end CoordSet

namespace Region

/-- The tracked nodes are exactly the residents that nobody observes. -/
def Tracked (r : Region N L) : Prop := ∀ c, c ∈ r.unobserved ↔ r.hierarchy.audience c = some 0

namespace Tracked

variable {r : Region N L}

theorem contains (tracked : r.Tracked) {c : Coord} (listed : c ∈ r.unobserved) :
    r.hierarchy.contains c = true := by
  obtain ⟨n, found, -⟩ := Hierarchy.audience_eq_some.mp ((tracked c).mp listed)
  exact Hierarchy.contains_iff.mpr ⟨n, found⟩

/-- A change that neither the set nor any observer notices. -/
theorem of_audience {r' : Region N L} (tracked : r.Tracked) (set : r'.unobserved = r.unobserved)
    (same : ∀ c, r'.hierarchy.audience c = r.hierarchy.audience c) : r'.Tracked := by
  intro c
  rw [set, same]
  exact tracked c

theorem flushChanged (tracked : r.Tracked) (ps : NodeProcessors σ N L) (tick : UInt64)
    (now : SimTime) (s : σ) : (r.flushChanged ps tick now s).2.1.Tracked :=
  tracked.of_audience rfl fun c => (Hierarchy.sweepLevels_levelwise r.hierarchy
    (fun l s => Level.audience_flushLevel ps.tick _ r.changed.toList l s c) s).audience

/-- Eviction looks at every node that nobody observes, and at no other. -/
theorem evictExpired_eq (tracked : r.Tracked) (now : SimTime) (timeout : Duration) :
    r.evictExpired now timeout =
      ((r.unobserved.toList.filter (r.hierarchy.unusedAt now timeout)).length,
        { r with hierarchy := (r.unobserved.toList.filter
            (r.hierarchy.unusedAt now timeout)).foldl Hierarchy.evict r.hierarchy }) := by
  have resident : ∀ c ∈ r.unobserved.toList, r.hierarchy.contains c = true :=
    fun c listed => tracked.contains (Std.ExtTreeSet.mem_toList.mp listed)
  rw [evictExpired, foldl_evictOne_eq _ resident (Level.nodup_toList _), Nat.zero_add]

theorem evictExpired (tracked : r.Tracked) (now : SimTime) (timeout : Duration) :
    (r.evictExpired now timeout).2.Tracked := by
  rw [tracked.evictExpired_eq]
  exact tracked.of_audience rfl fun c => Hierarchy.audience_foldl_evict _ _ c

theorem track {factory : PayloadFactory N L} {now : SimTime} {drained : List UInt8}
    {created : List Coord} {g : Hierarchy N L} (tracked : r.Tracked)
    (grown : Hierarchy.Grown factory now drained created r.hierarchy g) :
    (r.track created g).Tracked := by
  intro c
  show c ∈ r.unobserved.addAll created ↔ g.audience c = some 0
  rw [Level.mem_addAll, tracked c]
  have body := grown.body c
  by_cases new : c ∈ created
  · rw [if_pos new] at body
    obtain ⟨n, found, cleared⟩ := Option.map_eq_some_iff.mp body
    have unseen : n.observers = 0 := congrArg Node.observers cleared
    exact iff_of_true (.inr new) (Hierarchy.audience_eq_some.mpr ⟨n, found, unseen⟩)
  · rw [if_neg new] at body
    rw [Hierarchy.audience_of_body body, or_iff_left new]

theorem forget {drained : List UInt8} {gone : Coord → Prop} {removed : List Coord}
    {g : Hierarchy N L} (tracked : r.Tracked)
    (pruned : Hierarchy.Pruned drained gone r.hierarchy g)
    (listed : ∀ c, c ∈ removed ↔ r.hierarchy.contains c = true ∧ gone c) :
    (r.forget removed g).Tracked := by
  intro c
  show c ∈ r.unobserved.removeAll removed ↔ g.audience c = some 0
  rw [CoordSet.mem_removeAll]
  by_cases leaves : gone c
  · have away : g.audience c = none := by
      rw [Hierarchy.audience, Hierarchy.contains_eq_false_iff.mp (pruned.absent c leaves)]
      rfl
    rw [away]
    refine iff_of_false ?_ (by simp)
    rintro ⟨there, stays⟩
    exact stays ((listed c).mpr ⟨tracked.contains there, leaves⟩)
  · have stays : c ∉ removed := fun mem => leaves ((listed c).mp mem).2
    rw [Hierarchy.audience_of_body (pruned.kept c leaves), tracked c, and_iff_left stays]

theorem modify {c : Coord} {n : Node N} (tracked : r.Tracked) (found : r.hierarchy.get? c = some n)
    {f : Node N → Node N} {set : CoordSet}
    (here : c ∈ set ↔ (f n).observers = 0) (others : ∀ x, x ≠ c → (x ∈ set ↔ x ∈ r.unobserved)) :
    Tracked { r with hierarchy := r.hierarchy.modify c f, unobserved := set } := by
  intro x
  show x ∈ set ↔ (r.hierarchy.modify c f).audience x = some 0
  rw [Hierarchy.audience, Hierarchy.get?_modify]
  by_cases same : c = x
  · subst same
    rw [if_pos rfl, found]
    simpa using here
  · rw [if_neg same, others x (Ne.symm same)]
    exact tracked x

theorem tickLevels (tracked : r.Tracked) (ps : NodeProcessors σ N L) (ctx : BatchContext) (s : σ) :
    Tracked { r with hierarchy := ⟨(sweep (tickLevel ps ctx) r.hierarchy.levels s).2.1⟩ } := by
  have rel : Hierarchy.Levelwise (fun l m => ∀ c, m.audience c = l.audience c) r.hierarchy
      ⟨(sweep (tickLevel ps ctx) r.hierarchy.levels s).2.1⟩ :=
    forall₂_sweep (fun l _ s c => Level.audience_tickLevel ps ctx l s c) s
  exact tracked.of_audience rfl fun c => (rel.imp fun _ _ same => same c).audience

theorem tick (tracked : r.Tracked) (linked : r.hierarchy.Linked) (ps : NodeProcessors σ N L)
    (tick : UInt64) (now : SimTime) (timeout : Duration) (s : σ) :
    (r.tick ps tick now timeout s).2.1.Tracked := by
  obtain ⟨flushed, evicted, created, swept, destroyed, h₁, h₂, h₃, h₄, h₅, result⟩ :=
    tick_eq r ps tick now timeout s
  have obey := ps.obey_any
  have linked₁ : flushed.2.1.hierarchy.Linked := by
    rw [h₁]
    exact (flushChanged_evolved obey r tick now s).linked linked
  have tracked₁ : flushed.2.1.Tracked := by
    rw [h₁]
    exact tracked.flushChanged ps tick now s
  have linked₂ : evicted.2.hierarchy.Linked := by
    rw [h₂]
    have evolved : Hierarchy.Evolved (fun _ : NodeEdit N L => True) _ _ :=
      evictExpired_evolved flushed.2.1 now timeout
    exact evolved.linked linked₁
  have tracked₂ : evicted.2.Tracked := by
    rw [h₂]
    exact tracked₁.evictExpired now timeout
  obtain ⟨cells, g, growth, grown, -⟩ := linked₂.createPending evicted.2.factory now
  rw [growth] at h₃
  subst h₃
  have tracked₃ : (evicted.2.track cells g).Tracked := tracked₂.track grown
  have linked₄ : Hierarchy.Linked ⟨swept.2.1⟩ := by
    rw [h₄]
    exact linked_tickLevels grown.linked ps _ _
  have tracked₄ : (evicted.2.track cells ⟨swept.2.1⟩).Tracked := by
    rw [h₄]
    exact tracked₃.tickLevels ps _ _
  obtain ⟨removed, k, s', run, pruned, -, listed⟩ := linked₄.destroyPending ps.unload
    { world := evicted.2.world, kind := .unload, now, tick } swept.2.2
  rw [run] at h₅
  subst h₅
  rw [result]
  exact tracked₄.forget pruned listed

end Tracked

/-- A merge leaves nothing in the source, and counts the destination's nodes afresh. -/
theorem merge_tracked {may : NodeEdit N L → Prop} {r r' : Region N L} (reached : r.Reached may)
    (reached' : r'.Reached may) (tracked : r.Tracked) (tracked' : r'.Tracked) :
    (Region.merge r r').2.1.Tracked ∧ (Region.merge r r').2.2.Tracked := by
  have linked := (reached.kept (.trivial may)).1
  have linked' := (reached'.kept (.trivial may)).1
  by_cases apart : r.id ≠ r'.id
  · by_cases same : r.hierarchy.levelCount = r'.hierarchy.levelCount
    · obtain ⟨stats, spent, g, merged, result⟩ := merge_eq linked linked' apart same
      rw [result]
      refine ⟨fun c => iff_of_false Std.ExtTreeSet.not_mem_empty ?_, fun c => ?_⟩
      · show spent.audience c ≠ some 0
        rw [Hierarchy.audience, merged.spent_get?]
        simp
      · exact (merged.linked.mem_unobservedCoords c).trans Hierarchy.audience_eq_some.symm
    · rw [Region.merge, if_neg apart, if_pos same]
      exact ⟨tracked, tracked'⟩
  · rw [Region.merge, if_pos (not_not.mp apart)]
    exact ⟨tracked, tracked'⟩

/-- Whatever was done to a region, it tracks exactly the nodes that nobody observes. -/
theorem Reached.tracked {may : NodeEdit N L → Prop} {r : Region N L} (reached : r.Reached may) :
    r.Tracked := by
  induction reached with
  | empty id world box factory count =>
    intro c
    refine iff_of_false Std.ExtTreeSet.not_mem_empty ?_
    show (Hierarchy.empty factory count).audience c ≠ some 0
    rw [Hierarchy.audience, Hierarchy.empty_get?]
    simp
  | @loadNode r reached c now ih =>
    have linked := (reached.kept (.trivial may)).1
    obtain ⟨g, run, grown, -⟩ := linked.ensure r.factory now c
    by_cases inside : c.level < r.hierarchy.levelCount
    · rw [if_pos inside] at run
      simp only [Region.loadNode, run]
      exact ih.track grown
    · rw [if_neg inside] at run
      have none_ : r.hierarchy.missing c = [] := if_neg inside
      have tracked := ih.track grown
      rw [none_] at tracked
      simp only [Region.loadNode, run]
      exact tracked
  | @unloadNode _ r reached ps obey c tick now s ih =>
    have linked := (reached.kept (.trivial may)).1
    cases resident : r.hierarchy.contains c with
    | true =>
      obtain ⟨g, s', run, pruned, listed⟩ := linked.unloadSubtree ps.unload
        { world := r.world, kind := .unload, level := some c.level, now, tick } resident s
      simp only [Region.unloadNode, run]
      exact ih.forget pruned listed
    | false =>
      have run := Hierarchy.unloadSubtree_of_absent linked.numbered ps.unload
        { world := r.world, kind := .unload, level := some c.level, now, tick } resident s
      simp only [Region.unloadNode, run]
      exact ih
  | @observe r r' count reached c done ih =>
    unfold Region.observe at done
    split at done
    · cases done
    · rename_i n found
      cases done
      refine ih.modify found (iff_of_false ?_ (Node.observers_addObserver n)) fun x other => ?_
      · simp
      · simp [Ne.symm other]
  | @release r r' count reached c done ih =>
    unfold Region.release at done
    split at done
    · cases done
    · rename_i n found
      split at done
      · cases done
      · rename_i released taken
        cases done
        have observed : ¬ c ∈ r.unobserved := fun listed => by
          obtain ⟨m, found', none_⟩ := Hierarchy.audience_eq_some.mp ((ih c).mp listed)
          rw [found] at found'
          cases found'
          rw [Node.removeObserver?, if_pos none_] at taken
          cases taken
        refine ih.modify found ?_ fun x other => ?_
        · split <;> simp [*]
        · split <;> simp [Ne.symm other]
  | markChanged _ done ih =>
    unfold Region.markChanged at done
    split at done
    · cases done
      exact ih
    · cases done
  | addLoader _ id l ih => exact ih
  | modifyLoader _ id f ih => exact ih
  | removeLoader _ id ih => exact ih
  | calls _ called ih => exact ih.of_audience rfl fun c =>
      (called.imp fun _ _ called => called.audience c).audience
  | @stream r _ config tick now ih =>
    have called : Hierarchy.Levelwise (Level.Called may) _ _ := stream_called r config tick now
    exact ih.of_audience rfl fun c => (called.imp fun _ _ called => called.audience c).audience
  | tick reached _ tick now timeout s ih =>
    exact ih.tick (reached.kept (.trivial may)).1 _ tick now timeout s
  | mergeSource reached reached' ih ih' => exact (merge_tracked reached reached' ih ih').1
  | mergeInto reached reached' ih ih' => exact (merge_tracked reached reached' ih ih').2

end Region

end OctreeWorld
