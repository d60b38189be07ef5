import OctreeWorld.Proofs.RegionStreaming
import OctreeWorld.Proofs.Uniformity

/-!
# What a region keeps track of

A region keeps two sets by hand. `Reached.tracked` says of the one that it holds the residents that
nobody observes, and no other coordinate; of the other, what is to be flushed is resident. With the
first set exact, an eviction that looks only there finds what a look at every node would find, in
the same order.
-/

namespace OctreeWorld

variable {N L σ : Type}

theorem Hierarchy.contains_of_audience {h g : Hierarchy N L} {c : Coord}
    (same : g.audience c = h.audience c) : g.contains c = h.contains c := by
  simpa [audience, contains] using congrArg Option.isSome same

namespace Region

/-- What is to be flushed is resident. -/
def Flushable (r : Region N L) : Prop := ∀ c ∈ r.changed, r.hierarchy.contains c = true

namespace Flushable

variable {r : Region N L}

/-- A change that keeps the set and every resident. -/
theorem of_contains {r' : Region N L} (flushable : r.Flushable) (set : r'.changed = r.changed)
    (stays : ∀ c, r.hierarchy.contains c = true → r'.hierarchy.contains c = true) :
    r'.Flushable := by
  intro c listed
  rw [set] at listed
  exact stays c (flushable c listed)

theorem forget {drained : List UInt8} {gone : Coord → Prop} {removed : List Coord}
    {g : Hierarchy N L} (flushable : r.Flushable)
    (pruned : Hierarchy.Pruned drained gone r.hierarchy g)
    (listed : ∀ c, c ∈ removed ↔ r.hierarchy.contains c = true ∧ gone c) :
    (r.forget removed g).Flushable := by
  intro c member
  obtain ⟨before, stays⟩ := CoordSet.mem_removeAll.mp member
  have resident := flushable c before
  exact (pruned.contains c).mpr ⟨resident, fun gone_ => stays ((listed c).mpr ⟨resident, gone_⟩)⟩

/-- A tick flushes all there is to flush. -/
theorem tick (r : Region N L) (ps : NodeProcessors σ N L) (tick : UInt64) (now : SimTime)
    (timeout : Duration) (s : σ) : (r.tick ps tick now timeout s).2.1.Flushable := by
  obtain ⟨flushed, evicted, created, swept, destroyed, flush, evict, -, -, -, result⟩ :=
    tick_eq r ps tick now timeout s
  have none_ : evicted.2.changed = ∅ := by
    rw [evict, (evictExpired_apart _ now timeout).2, flush]
    rfl
  intro c listed
  rw [result] at listed
  obtain ⟨before, -⟩ := CoordSet.mem_removeAll.mp listed
  rw [show (evicted.2.track created.1 created.2).changed = ∅ from none_] at before
  exact absurd before Std.ExtTreeSet.not_mem_empty

/-- A merge leaves nothing to flush in the source, and in the destination what both had. -/
theorem merge {s d : Region N L} (linked : s.hierarchy.Linked) (linked_d : d.hierarchy.Linked)
    (flushable : s.Flushable) (flushable_d : d.Flushable) :
    (Region.merge s d).2.1.Flushable ∧ (Region.merge s d).2.2.Flushable := by
  by_cases mergeable : s.id ≠ d.id ∧ s.hierarchy.levelCount = d.hierarchy.levelCount
  · obtain ⟨stats, spent, g, merged, result⟩ := merge_eq linked linked_d mergeable.1 mergeable.2
    have into := mergedInto_of_merged linked merged
    rw [result]
    refine ⟨fun c listed => absurd listed Std.ExtTreeSet.not_mem_empty, fun c listed => ?_⟩
    rw [into.resident, Bool.or_eq_true]
    exact ((into.changed c).mp listed).imp (flushable_d c) (flushable c)
  · rw [(merge_refused mergeable).2]
    exact ⟨flushable, flushable_d⟩

end Flushable

/-- Whatever was done to a region, it has a node wherever there is something to flush. -/
theorem Reached.flushable {may : NodeEdit N L → Prop} {r : Region N L} (reached : r.Reached may) :
    r.Flushable := by
  induction reached with
  | empty id world box factory count =>
    exact fun c listed => absurd listed Std.ExtTreeSet.not_mem_empty
  | @loadNode r before c now ih =>
    obtain ⟨g, run, grown, -⟩ := before.linked.ensure r.factory now c
    refine ih.of_contains ?_ fun x resident => ?_
    · simp only [Region.loadNode]
      split <;> rfl
    · rw [loadNode_hierarchy, run]
      exact grown.contains resident
  | @unloadNode _ r before ps obey c tick now s ih =>
    cases resident : r.hierarchy.contains c with
    | true =>
      obtain ⟨g, s', run, pruned, listed⟩ := before.linked.unloadSubtree ps.unload
        { world := r.world, kind := .unload, level := some c.level, now, tick } resident s
      simp only [Region.unloadNode, run]
      exact ih.forget pruned listed
    | false =>
      have run := Hierarchy.unloadSubtree_of_absent before.linked.numbered ps.unload
        { world := r.world, kind := .unload, level := some c.level, now, tick } resident s
      simp only [Region.unloadNode, run]
      exact ih
  | observe _ done ih =>
    unfold Region.observe at done
    split at done
    · cases done
    · cases done
      exact ih.of_contains rfl fun x resident => (Hierarchy.contains_modify _ _ _ x).trans resident
  | release _ done ih =>
    unfold Region.release at done
    split at done
    · cases done
    · split at done
      · cases done
      · cases done
        exact ih.of_contains rfl fun x resident =>
          (Hierarchy.contains_modify _ _ _ x).trans resident
  | markChanged _ done ih =>
    unfold Region.markChanged at done
    split at done
    · rename_i resident
      cases done
      intro x listed
      rcases Std.ExtTreeSet.mem_insert.mp listed with same | before
      · rwa [← Std.compare_eq_iff_eq.mp same]
      · exact ih x before
    · cases done
  | addLoader _ id l ih => exact ih
  | modifyLoader _ id f ih => exact ih
  | removeLoader _ id ih => exact ih
  | calls _ called ih =>
    exact ih.of_contains rfl fun x resident => (Hierarchy.contains_of_audience
      (called.imp fun _ _ called => called.audience x).audience).trans resident
  | @stream r _ config tick now ih =>
    have called : Hierarchy.Levelwise (Level.Called may) _ _ := stream_called r config tick now
    exact ih.of_contains rfl fun x resident => (Hierarchy.contains_of_audience
      (called.imp fun _ _ called => called.audience x).audience).trans resident
  | tick _ obey tick now timeout s ih => exact Flushable.tick _ _ tick now timeout s
  | mergeSource before before' ih ih' =>
    exact (Flushable.merge before.linked before'.linked ih ih').1
  | mergeInto before before' ih ih' =>
    exact (Flushable.merge before.linked before'.linked ih ih').2

/-- Whatever was done to a region, its two sets are exact: the one holds the residents that nobody
observes, the other holds residents only. Eviction, which looks at the first set alone, leaves the
levels and the count that a look at every node of each level leaves. -/
theorem tracking_exact {may : NodeEdit N L → Prop} {r : Region N L} (reached : r.Reached may)
    (now : SimTime) (timeout : Duration) :
    (∀ c, c ∈ r.unobserved ↔ ∃ n, r.hierarchy.get? c = some n ∧ n.observers = 0) ∧
      (∀ c ∈ r.changed, r.hierarchy.contains c = true) ∧
      let steps := r.hierarchy.levels.map (Level.collectUnused now timeout none)
      r.evictExpired now timeout =
        (tally (steps.map (·.1)), { r with hierarchy := ⟨steps.map (·.2)⟩ }) :=
  ⟨fun c => (reached.tracked c).trans Hierarchy.audience_eq_some, reached.flushable,
    reached.tracked.evictExpired_levels reached.linked now timeout⟩

/-- A loaded leaf below a parent that is loading. Nobody observes them, and the leaf is to be
flushed. -/
def solitary : Region Unit Unit :=
  (((Region.empty default default Box.everything PayloadFactory.plain 2).edit
    (.load ⟨⟨0, 0, 0⟩, 0⟩ SimTime.zero)).edit
      (.level 0 (.node ⟨⟨0, 0, 0⟩, 0⟩ (.setState .loaded)))).edit (.markChanged ⟨⟨0, 0, 0⟩, 0⟩)

theorem solitary_reached : solitary.Reached fun _ => True := by
  have loaded : RegionEdit.Allowed (fun _ => True)
      (.level 0 (.node ⟨⟨0, 0, 0⟩, 0⟩ (.setState .loaded)) : RegionEdit Unit Unit) := trivial
  exact (((Reached.empty _ _ _ _ _).edit (.load _ _) trivial).edit _ loaded).edit
    (.markChanged _) trivial

/-- The leaf is in both sets. Eviction queues it, by itself as level by level. -/
theorem solitary_tracked :
    let c : Coord := ⟨⟨0, 0, 0⟩, 0⟩
    let steps := solitary.hierarchy.levels.map (Level.collectUnused ⟨5⟩ Duration.zero none)
    solitary.changed.toList = [c] ∧ solitary.unobserved.toList = [c, c.parent] ∧
      solitary.hierarchy.contains c = true ∧
      (∃ n, solitary.hierarchy.get? c.parent = some n ∧ n.observers = 0) ∧
      (solitary.evictExpired ⟨5⟩ Duration.zero).1 = 1 ∧
      (solitary.evictExpired ⟨5⟩ Duration.zero).2.hierarchy = ⟨steps.map (·.2)⟩ := by
  intro c steps
  have flushing : solitary.changed.toList = [c] := by decide +kernel
  have tracking : solitary.unobserved.toList = [c, c.parent] := by decide +kernel
  obtain ⟨unobserved, resident, evicts⟩ := tracking_exact solitary_reached ⟨5⟩ Duration.zero
  have flushed : c ∈ solitary.changed :=
    Std.ExtTreeSet.mem_toList.mp (flushing ▸ List.mem_cons_self)
  have tracked : c.parent ∈ solitary.unobserved :=
    Std.ExtTreeSet.mem_toList.mp (tracking ▸ List.mem_cons_of_mem _ List.mem_cons_self)
  refine ⟨flushing, tracking, resident c flushed, (unobserved c.parent).mp tracked,
    by decide +kernel, ?_⟩
  rw [evicts]

end Region

end OctreeWorld
