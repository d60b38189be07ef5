import OctreeWorld.Proofs.Creation
import OctreeWorld.Proofs.Merging
import OctreeWorld.Proofs.Steps

/-!
# Evolution of a hierarchy

Between two merges a hierarchy evolves by steps of its levels, by creations and by removals. A
property that survives each of the three and a merge is `Hierarchy.Kept`; the operations of regions
and worlds never have to be looked at again for it.
-/

namespace OctreeWorld

variable {N L σ : Type}

namespace Hierarchy

variable {may : NodeEdit N L → Prop}

/-- One change of a hierarchy. A removal that has drained a destroy queue spares nothing named
there. -/
inductive Change (may : NodeEdit N L → Prop) : Hierarchy N L → Hierarchy N L → Prop
  | steps {h g} (stepped : Levelwise (Level.Stepped may) h g) : Change may h g
  | grown {factory : PayloadFactory N L} {now : SimTime} {drained : List UInt8}
      {created : List Coord} {h g} (grown : Grown factory now drained created h g) : Change may h g
  | pruned {drained : List UInt8} {gone : Coord → Prop} {h g} (pruned : Pruned drained gone h g)
      (thorough : ∀ i ∈ drained, ∀ c ∈ h.pending i .destroy, h.contains c = true → gone c) :
      Change may h g

theorem stepped_modifyLevel {h : Hierarchy N L} {i : UInt8} {f : Level N L → Level N L}
    (step : ∀ l, h.level? i = some l → Level.Step may l (f l)) :
    Levelwise (Level.Stepped may) h (h.modifyLevel i f) :=
  levelwise_modifyLevel Level.Stepped.refl fun l stored => .single (step l stored)

theorem stepped_observers {h : Hierarchy N L} {c : Coord} {f : Node N → Node N}
    (same : ∀ n, h.get? c = some n → ∃ count, f n = { n with observers := count }) :
    Levelwise (Level.Stepped may) h (h.modify c f) := by
  refine stepped_modifyLevel fun l stored => .observers c f fun n found => ?_
  exact same n ((get?_of_level? stored).trans found)

namespace Change

theorem refl (h : Hierarchy N L) : Change may h h :=
  .steps (Levelwise.refl Level.Stepped.refl h)

theorem modifyLevel {h : Hierarchy N L} {i : UInt8} {f : Level N L → Level N L}
    (step : ∀ l, h.level? i = some l → Level.Step may l (f l)) :
    Change may h (h.modifyLevel i f) := .steps (stepped_modifyLevel step)

theorem observers {h : Hierarchy N L} {c : Coord} {f : Node N → Node N}
    (same : ∀ n, h.get? c = some n → ∃ count, f n = { n with observers := count }) :
    Change may h (h.modify c f) := .steps (stepped_observers same)

end Change

/-- A hierarchy after some changes. -/
def Evolved (may : NodeEdit N L → Prop) : Hierarchy N L → Hierarchy N L → Prop :=
  Relation.ReflTransGen (Change may)

namespace Evolved

variable {h g k : Hierarchy N L}

theorem refl (h : Hierarchy N L) : Evolved may h h := Relation.ReflTransGen.refl

theorem trans (first : Evolved may h g) (second : Evolved may g k) : Evolved may h k :=
  Relation.ReflTransGen.trans first second

theorem single (change : Change may h g) : Evolved may h g := Relation.ReflTransGen.single change

theorem steps (stepped : Levelwise (Level.Stepped may) h g) : Evolved may h g :=
  single (.steps stepped)

theorem modifyLevel {h : Hierarchy N L} {i : UInt8} {f : Level N L → Level N L}
    (step : ∀ l, h.level? i = some l → Level.Step may l (f l)) :
    Evolved may h (h.modifyLevel i f) := single (.modifyLevel step)

theorem observers {h : Hierarchy N L} {c : Coord} {f : Node N → Node N}
    (same : ∀ n, h.get? c = some n → ∃ count, f n = { n with observers := count }) :
    Evolved may h (h.modify c f) := single (.observers same)

end Evolved

theorem Change.linked {h g : Hierarchy N L} (change : Change may h g) (linked : h.Linked) :
    g.Linked := by
  cases change with
  | steps stepped => exact linked.levelwise (stepped.imp fun _ _ step => step.sameLinks)
  | grown grown => exact grown.linked
  | pruned pruned _ => exact pruned.linked

theorem Evolved.linked {h g : Hierarchy N L} (evolved : Evolved may h g) (linked : h.Linked) :
    g.Linked := by
  induction evolved with
  | refl => exact linked
  | tail _ change ih => exact change.linked ih

theorem Evolved.length_eq {h g : Hierarchy N L} (evolved : Evolved may h g) :
    g.levels.length = h.levels.length := by
  induction evolved with
  | refl => rfl
  | tail _ change ih =>
    cases change with
    | steps stepped => exact stepped.length_eq.trans ih
    | grown grown => exact grown.length.trans ih
    | pruned pruned _ => exact pruned.length.trans ih

/-- A property that holds of empty hierarchies and survives changes and merges of linked ones. -/
structure Kept (may : NodeEdit N L → Prop) (P : Hierarchy N L → Prop) : Prop where
  empty : ∀ factory count, P (empty factory count)
  change : ∀ h g, h.Linked → Change may h g → P h → P g
  merged : ∀ source into spent g stats, source.Linked → into.Linked →
    into.levels.length = source.levels.length →
    Merged source.levels.length source into spent g stats → P source → P into → P spent ∧ P g

/-- Nothing needs to be said for linked hierarchies to stay linked. -/
theorem Kept.trivial (may : NodeEdit N L → Prop) : Kept may fun _ : Hierarchy N L => True :=
  ⟨fun _ _ => True.intro, fun _ _ _ _ _ => True.intro,
    fun _ _ _ _ _ _ _ _ _ _ _ => ⟨True.intro, True.intro⟩⟩

theorem Kept.evolved {P : Hierarchy N L → Prop} (kept : Kept may P) {h g : Hierarchy N L}
    (evolved : Evolved may h g) (linked : h.Linked) (before : P h) : g.Linked ∧ P g := by
  induction evolved with
  | refl => exact ⟨linked, before⟩
  | tail _ change ih => exact ⟨change.linked ih.1, kept.change _ _ ih.1 change ih.2⟩

/-! ### Whole merges -/

namespace Merged

variable {source into spent g : Hierarchy N L} {stats : MergeStats}
  (merged : Merged source.levels.length source into spent g stats)

include merged

theorem body_combined (c : Coord) : g.body c = combined (into.body c) (source.body c) := by
  rw [merged.body]
  split
  · rfl
  · rename_i above
    have absent : source.level? c.level = none := List.getElem?_eq_none (Nat.le_of_not_lt above)
    have none_ : source.body c = none := congrArg _ (get?_of_level?_none absent)
    rw [none_, combined_none]

theorem pending_append (i : UInt8) (q : Queue) :
    g.pending i q = into.pending i q ++ source.pending i q := by
  rw [merged.pending]
  split
  · rfl
  · rename_i above
    have absent : source.level? i = none := List.getElem?_eq_none (Nat.le_of_not_lt above)
    rw [pending_of_level?_none absent, List.append_nil]

theorem spent_level? (i : UInt8) : spent.level? i = (source.level? i).map Level.emptied := by
  by_cases inside : i.toNat < source.levels.length
  · exact merged.spentBelow i inside
  · have none_ : source.level? i = none := List.getElem?_eq_none (Nat.le_of_not_lt inside)
    rw [none_]
    exact List.getElem?_eq_none (by rw [merged.spentLength]; omega)

theorem spent_get? (c : Coord) : spent.get? c = none := by
  rw [get?, merged.spent_level?]
  cases source.level? c.level with
  | none => rfl
  | some l => simp [Level.emptied, Level.get?]

theorem spent_pending (i : UInt8) (q : Queue) : spent.pending i q = [] := by
  rw [Hierarchy.pending, merged.spent_level?]
  cases source.level? i with
  | none => rfl
  | some l => cases q <;> rfl

theorem spent_linked (num : source.Numbered) : spent.Linked := by
  have none_ : ∀ c n, spent.get? c ≠ some n := by
    intro c n found
    rw [merged.spent_get?] at found
    cases found
  refine ⟨⟨?_, ?_⟩, ?_, ?_, ?_, ?_, ?_⟩
  · rw [merged.spentLength]
    exact num.length_lt
  · intro i l found
    rw [merged.spent_level?] at found
    obtain ⟨m, stored, rfl⟩ := Option.map_eq_some_iff.mp found
    exact num.index i m stored
  · exact fun c n found => absurd found (none_ c n)
  · exact fun c n found => absurd found (none_ c n)
  · exact fun c n found => absurd found (none_ c n)
  · exact fun c n found => absurd found (none_ c n)
  · exact fun c n found => absurd found (none_ c n)

end Merged

/-- A merge of two linked hierarchies of one size goes through and describes itself. -/
theorem Linked.merge {source into : Hierarchy N L} (linked : source.Linked)
    (linked_into : into.Linked) (same : source.levelCount = into.levelCount) :
    into.levels.length = source.levels.length ∧
    ∃ stats spent g,
      Hierarchy.mergeLevels source.indices.reverse source into = (.ok stats, spent, g) ∧
      Merged source.levels.length source into spent g stats := by
  have length : into.levels.length = source.levels.length := by
    rw [← linked.numbered.toNat_levelCount, ← linked_into.numbered.toNat_levelCount, same]
  have order : source.indices.reverse = downFrom source.levels.length := by
    rw [indices, downFrom, linked.numbered.toNat_levelCount]
  obtain ⟨stats, spent, g, run, merged, -⟩ := linked.mergeLevels length (Nat.le_refl _) linked_into
    rfl (fun _ _ => rfl) (fun c resident high => by
      have inside := UInt8.lt_iff_toNat_lt.mp (linked.numbered.level_lt resident)
      rw [linked.numbered.toNat_levelCount] at inside
      omega)
  exact ⟨length, stats, spent, g, by rw [order]; exact run, merged⟩

/-! ### Operations of the life of nodes as evolutions -/

theorem sweepLevels_levelwise {R : Level N L → Level N L → Prop}
    {step : Level N L → σ → Nat × Level N L × σ} (h : Hierarchy N L)
    (each : ∀ l s, R l (step l s).2.1) (s : σ) : Levelwise R h (h.sweepLevels step s).2.1 :=
  forall₂_sweep (fun l _ => each l) s

theorem levelwise_map {α : Type} {R : Level N L → Level N L → Prop}
    {step : Level N L → α × Level N L} (h : Hierarchy N L) (each : ∀ l, R l (step l).2) :
    Levelwise R h ⟨(h.levels.map step).map (·.2)⟩ := by
  refine List.forall₂_iff_get.mpr ⟨by simp, ?_⟩
  intro i hi hi'
  simpa using each h.levels[i]

theorem keepAliveAll_levelwise (now : SimTime) (loaders : List Loader) (h : Hierarchy N L) :
    Levelwise (Level.Called may) h (keepAliveAll now loaders h).2 := by
  induction loaders generalizing h with
  | nil => exact Levelwise.refl (fun _ => Relation.ReflTransGen.refl) h
  | cons l ls ih =>
    have first : Levelwise (Level.Called may) h (h.keepAlive l now).2 :=
      levelwise_map h fun m => Relation.ReflTransGen.single (.keepAlive l now)
    exact first.trans (fun _ _ _ => Relation.ReflTransGen.trans) (ih _)

section Linked

variable {h : Hierarchy N L} (linked : h.Linked)

include linked

theorem Linked.ensure_change (factory : PayloadFactory N L) (now : SimTime) (c : Coord) :
    Change may h (h.ensure factory now c).2.2 := by
  obtain ⟨g, run, grown, -⟩ := linked.ensure factory now c
  rw [run]
  exact .grown grown

theorem Linked.ensure_evolved (factory : PayloadFactory N L) (now : SimTime) (c : Coord) :
    Evolved may h (h.ensure factory now c).2.2 := .single (linked.ensure_change factory now c)

theorem Linked.createPending_change (factory : PayloadFactory N L) (now : SimTime) :
    Change may h (h.createPending factory now).2 := by
  obtain ⟨created, g, run, grown, -⟩ := linked.createPending factory now
  rw [run]
  exact .grown grown

theorem Linked.createPending_evolved (factory : PayloadFactory N L) (now : SimTime) :
    Evolved may h (h.createPending factory now).2 :=
  .single (linked.createPending_change factory now)

theorem Linked.unloadSubtree_change (ps : List (NodeProcessor σ N L)) (ctx : BatchContext)
    (c : Coord) (s : σ) : Change may h (h.unloadSubtree ps ctx c s).2.1 := by
  by_cases resident : h.contains c = true
  · obtain ⟨g, s', run, pruned, -⟩ := linked.unloadSubtree ps ctx resident s
    rw [run]
    refine .pruned pruned fun i listed => ?_
    cases listed
  · rw [unloadSubtree_of_absent linked.numbered ps ctx (Bool.eq_false_iff.mpr resident) s]
    exact .refl h

theorem Linked.unloadSubtree_evolved (ps : List (NodeProcessor σ N L)) (ctx : BatchContext)
    (c : Coord) (s : σ) : Evolved may h (h.unloadSubtree ps ctx c s).2.1 :=
  .single (linked.unloadSubtree_change ps ctx c s)

theorem Linked.destroyPending_change (ps : List (NodeProcessor σ N L)) (ctx : BatchContext)
    (s : σ) : Change may h (h.destroyPending ps ctx s).2.1 := by
  obtain ⟨removed, g, s', run, pruned, -⟩ := linked.destroyPending ps ctx s
  rw [run]
  refine .pruned pruned fun i listed c named resident => ?_
  exact ⟨i, listed, c, named, resident, Coord.Under.refl c⟩

theorem Linked.destroyPending_evolved (ps : List (NodeProcessor σ N L)) (ctx : BatchContext)
    (s : σ) : Evolved may h (h.destroyPending ps ctx s).2.1 :=
  .single (linked.destroyPending_change ps ctx s)

end Linked

end Hierarchy

end OctreeWorld
