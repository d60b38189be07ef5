import Mathlib.Data.Set.Card
import OctreeWorld.Proofs.Reached

/-!
# Merging regions

`Region.MergedInto` is the complete outcome of a merge, cell by cell and set by set. Reached regions
merge exactly when their identifiers differ and they have the same number of levels: no insertion
is ever refused half-way.
-/

namespace OctreeWorld

variable {N L : Type}

namespace Hierarchy

/-! ### Counting residents -/

theorem Linked.nodup_nodeList_coords {h : Hierarchy N L} (linked : h.Linked) :
    (h.nodeList.map (·.coord)).Nodup := by
  have level_of : ∀ l ∈ h.levels, ∀ c ∈ l.nodeList.map (·.coord), c.level = l.index := by
    intro l mem c listed
    obtain ⟨n, at_, rfl⟩ := List.mem_map.mp listed
    obtain ⟨p, stored⟩ := Level.mem_nodeList.mp at_
    rw [linked.placed_level mem ⟨p, l.index⟩ n ((Level.get?_mk l p).trans stored)]
  rw [nodeList, List.map_flatMap]
  refine List.nodup_flatMap.mpr
    ⟨fun l mem => Level.nodup_nodeList_coords (linked.placed_level mem), ?_⟩
  refine List.pairwise_iff_getElem.mpr fun i j hi hj below => ?_
  intro c here there
  have at_i := level_of _ (List.getElem_mem hi) c here
  have at_j := level_of _ (List.getElem_mem hj) c there
  rw [← UInt8.toNat_inj, linked.numbered.toNat_index] at at_i at_j
  omega

/-- Residents that pass a test are counted by the listing. -/
theorem Linked.length_filter_nodeList {h : Hierarchy N L} (linked : h.Linked)
    (test : Coord → Bool) : (h.nodeList.filter fun n => test n.coord).length =
      {c | h.contains c = true ∧ test c = true}.ncard := by
  let coords := (h.nodeList.filter fun n => test n.coord).map (·.coord)
  have nodup : coords.Nodup :=
    linked.nodup_nodeList_coords.sublist (List.filter_sublist.map _)
  have members : {c | h.contains c = true ∧ test c = true} = (coords.toFinset : Set Coord) := by
    ext c
    simp only [Set.mem_ofPred_eq, coords, List.coe_toFinset, List.mem_map, List.mem_filter,
      linked.numbered.mem_nodeList]
    constructor
    · rintro ⟨resident, passes⟩
      obtain ⟨n, found⟩ := contains_iff.mp resident
      have coord := linked.placed c n found
      exact ⟨n, ⟨⟨c, found⟩, by rwa [coord]⟩, coord⟩
    · rintro ⟨n, ⟨⟨e, found⟩, passes⟩, rfl⟩
      rw [linked.placed e n found] at passes ⊢
      exact ⟨contains_iff.mpr ⟨n, found⟩, passes⟩
  rw [members, Set.ncard_coe_finset, List.toFinset_card_of_nodup nodup, List.length_map]

theorem Linked.mem_unobservedCoords {h : Hierarchy N L} (linked : h.Linked) (c : Coord) :
    c ∈ h.unobservedCoords ↔ ∃ n, h.get? c = some n ∧ n.observers = 0 := by
  simp only [unobservedCoords, Level.mem_addAll, Std.ExtTreeSet.not_mem_empty, false_or,
    List.mem_map, List.mem_filter, linked.numbered.mem_nodeList, beq_iff_eq]
  constructor
  · rintro ⟨n, ⟨⟨e, found⟩, none_⟩, rfl⟩
    rw [linked.placed e n found]
    exact ⟨n, found, none_⟩
  · rintro ⟨n, found, none_⟩
    exact ⟨n, ⟨⟨c, found⟩, none_⟩, linked.placed c n found⟩

end Hierarchy

/-! ### The outcome -/

/-- What a merge of `s` into `d` makes of the two, and what it counts. -/
structure Region.MergedInto (s d s' d' : Region N L) (stats : MergeStats) : Prop where
  resident : ∀ c, d'.hierarchy.contains c = (d.hierarchy.contains c || s.hierarchy.contains c)
  native : ∀ c, s.hierarchy.contains c = false → d'.hierarchy.body c = d.hierarchy.body c
  arrived : ∀ c, d.hierarchy.contains c = false → d'.hierarchy.body c = s.hierarchy.body c
  folded : ∀ c n m, d.hierarchy.get? c = some n → s.hierarchy.get? c = some m →
    ∃ k, d'.hierarchy.get? c = some k ∧ n.Folded m k
  linked : d'.hierarchy.Linked
  pending : ∀ i q, d'.hierarchy.pending i q = d.hierarchy.pending i q ++ s.hierarchy.pending i q
  changed : ∀ c, c ∈ d'.changed ↔ c ∈ d.changed ∨ c ∈ s.changed
  /-- A loader that both have under one identifier is the source's afterwards. -/
  loaders : ∀ id : LoaderId, d'.loaders[id]? = s.loaders[id]?.or d.loaders[id]?
  unobserved : ∀ c, c ∈ d'.unobserved ↔ ∃ n, d'.hierarchy.get? c = some n ∧ n.observers = 0
  box : d'.box = d.box.union s.box
  vacant : ∀ c, s'.hierarchy.get? c = none
  idle : ∀ i q, s'.hierarchy.pending i q = []
  untracked : s'.loaders = ∅ ∧ s'.changed = ∅ ∧ s'.unobserved = ∅
  moved : stats.moved = {c | s.hierarchy.contains c = true ∧ d.hierarchy.contains c = false}.ncard
  collisions : stats.collisions =
    {c | s.hierarchy.contains c = true ∧ d.hierarchy.contains c = true}.ncard
  commands : stats.commands = tally (s.hierarchy.levels.map Level.pendingTotal)

namespace Region

/-- A merge of linked regions that may be merged, with what it does to the hierarchies. -/
theorem merge_eq {s d : Region N L} (linked : s.hierarchy.Linked) (linked_d : d.hierarchy.Linked)
    (apart : s.id ≠ d.id) (same : s.hierarchy.levelCount = d.hierarchy.levelCount) :
    ∃ stats spent g,
      Hierarchy.Merged s.hierarchy.levels.length s.hierarchy d.hierarchy spent g stats ∧
      Region.merge s d = (.ok stats,
        { s with hierarchy := spent, loaders := ∅, changed := ∅, unobserved := ∅ },
        { d with
          hierarchy := g
          loaders := d.loaders.insertMany s.loaders.toList
          changed := d.changed.addAll s.changed.toList
          unobserved := g.unobservedCoords
          box := d.box.union s.box }) := by
  obtain ⟨-, stats, spent, g, run, merged⟩ := linked.merge linked_d same
  refine ⟨stats, spent, g, merged, ?_⟩
  simp only [Region.merge, if_neg apart, if_neg (not_not.mpr same), run]

/-- The loaders of a region that has received those of another. -/
theorem getElem?_insertMany_loaders (into from_ : LoaderMap) (id : LoaderId) :
    (into.insertMany from_.toList)[id]? = from_[id]?.or into[id]? := by
  cases found : from_[id]? with
  | none =>
    refine Std.ExtTreeMap.getElem?_insertMany_list_of_contains_eq_false ?_
    refine Bool.eq_false_iff.mpr fun listed => ?_
    obtain ⟨⟨e, l⟩, mem, rfl⟩ := List.mem_map.mp (List.contains_iff_mem.mp listed)
    rw [Std.ExtTreeMap.mem_toList_iff_getElem?_eq_some.mp mem] at found
    cases found
  | some l =>
    exact Std.ExtTreeMap.getElem?_insertMany_list_of_mem Std.ReflCmp.compare_self
      (Std.ExtTreeMap.distinct_keys_toList ..)
      (Std.ExtTreeMap.mem_toList_iff_getElem?_eq_some.mpr found)

theorem mergedInto_of_merged {s d : Region N L} (linked : s.hierarchy.Linked)
    {spent g : Hierarchy N L} {stats : MergeStats}
    (merged : Hierarchy.Merged s.hierarchy.levels.length s.hierarchy d.hierarchy spent g stats) :
    s.MergedInto d { s with hierarchy := spent, loaders := ∅, changed := ∅, unobserved := ∅ }
      { d with
        hierarchy := g
        loaders := d.loaders.insertMany s.loaders.toList
        changed := d.changed.addAll s.changed.toList
        unobserved := g.unobservedCoords
        box := d.box.union s.box } stats := by
  have bodies := merged.body_combined
  have residents : ∀ c, g.contains c = (d.hierarchy.contains c || s.hierarchy.contains c) := by
    intro c
    rw [← Hierarchy.isSome_body, bodies, isSome_combined, Hierarchy.isSome_body,
      Hierarchy.isSome_body]
  have absent : ∀ (h : Hierarchy N L) c, h.contains c = false → h.body c = none := by
    intro h c away
    rw [Hierarchy.body, Hierarchy.contains_eq_false_iff.mp away, Option.map_none]
  have listing : s.hierarchy.nodeList =
      (s.hierarchy.levels.take s.hierarchy.levels.length).flatMap Level.nodeList := by
    rw [List.take_length, Hierarchy.nodeList]
  refine ⟨residents, fun c away => ?_, fun c away => ?_, fun c n m found found' => ?_,
    merged.linked, merged.pending_append, fun c => ?_, getElem?_insertMany_loaders _ _,
    merged.linked.mem_unobservedCoords, rfl, merged.spent_get?, merged.spent_pending,
    ⟨rfl, rfl, rfl⟩, ?_, ?_, ?_⟩
  · rw [bodies, absent _ c away, combined_none]
  · rw [bodies, absent _ c away]
    rfl
  · have body := bodies c
    rw [Hierarchy.body, Hierarchy.body, Hierarchy.body, found, found'] at body
    obtain ⟨k, at_, same⟩ := Option.map_eq_some_iff.mp body
    refine ⟨k, at_, Node.Folded.of_clearLinks ?_⟩
    rw [same]
    exact Node.folded_absorb _ _
  · rw [Level.mem_addAll, Std.ExtTreeSet.mem_toList]
  · rw [merged.moved, ← listing, linked.length_filter_nodeList fun c => !d.hierarchy.contains c]
    simp only [Bool.not_eq_true']
  · rw [merged.collisions, ← listing, linked.length_filter_nodeList d.hierarchy.contains]
  · rw [merged.commands, List.take_length]

/-- A merge that is refused at the start leaves both regions as they were. -/
theorem merge_refused {s d : Region N L}
    (refused : ¬ (s.id ≠ d.id ∧ s.hierarchy.levelCount = d.hierarchy.levelCount)) :
    (∀ stats, (Region.merge s d).1 ≠ .ok stats) ∧ (Region.merge s d).2 = (s, d) := by
  obtain ⟨err, result⟩ : ∃ err, Region.merge s d = (.error err, s, d) := by
    rw [Region.merge]
    split
    · exact ⟨_, rfl⟩
    · rename_i apart
      rw [if_pos fun same => refused ⟨apart, same⟩]
      exact ⟨_, rfl⟩
  rw [result]
  refine ⟨fun stats done => ?_, rfl⟩
  cases done

/-- Reached regions merge exactly when they differ in identifier and agree in their number of
levels, and then completely. -/
theorem merge_complete {may : NodeEdit N L → Prop} {s d : Region N L} (source : s.Reached may)
    (destination : d.Reached may) :
    ((∃ stats, (Region.merge s d).1 = .ok stats) ↔
      s.id ≠ d.id ∧ s.hierarchy.levelCount = d.hierarchy.levelCount) ∧
    ∀ stats, (Region.merge s d).1 = .ok stats →
      s.MergedInto d (Region.merge s d).2.1 (Region.merge s d).2.2 stats := by
  have linked := (source.kept (.trivial may)).1
  have linked_d := (destination.kept (.trivial may)).1
  by_cases mergeable : s.id ≠ d.id ∧ s.hierarchy.levelCount = d.hierarchy.levelCount
  · obtain ⟨apart, same⟩ := mergeable
    obtain ⟨stats, spent, g, merged, result⟩ := merge_eq linked linked_d apart same
    rw [result]
    refine ⟨⟨fun _ => ⟨apart, same⟩, fun _ => ⟨stats, rfl⟩⟩, fun stats' done => ?_⟩
    cases done
    exact mergedInto_of_merged linked merged
  · have refused := (merge_refused mergeable).1
    exact ⟨⟨fun done => done.elim fun stats done => absurd done (refused stats),
      fun ok => absurd ok mergeable⟩,
      fun stats done => absurd done (refused stats)⟩

/-- Two cells under one parent, each with a copy of it. -/
theorem merge_of_siblings :
    let r (id : RegionId) (x : Int32) : Region Unit Unit :=
      ((Region.empty id default Box.everything PayloadFactory.plain 2).loadNode
        ⟨⟨x, 0, 0⟩, 0⟩ SimTime.zero).2
    let s := r ⟨1⟩ 1
    let d := r ⟨2⟩ 2
    ((∃ stats, (Region.merge s d).1 = .ok stats) ↔
        s.id ≠ d.id ∧ s.hierarchy.levelCount = d.hierarchy.levelCount) ∧
      s.MergedInto d (Region.merge s d).2.1 (Region.merge s d).2.2
        { moved := 1, collisions := 1, commands := 2 } := by
  intro r s d
  have reached : ∀ id x, (r id x).Reached fun _ => True :=
    fun id x => (Region.Reached.empty id default Box.everything PayloadFactory.plain 2).loadNode
      ⟨⟨x, 0, 0⟩, 0⟩ SimTime.zero
  obtain ⟨exactly, complete⟩ := merge_complete (reached ⟨1⟩ 1) (reached ⟨2⟩ 2)
  have done : (Region.merge s d).1 = .ok { moved := 1, collisions := 1, commands := 2 } := by decide
  exact ⟨exactly, complete _ done⟩

end Region

end OctreeWorld
