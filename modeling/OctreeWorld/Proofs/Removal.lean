import Mathlib.Data.List.Nodup
import OctreeWorld.Proofs.Batches
import OctreeWorld.Proofs.Linking

/-!
# Removal

A subtree leaves leaf first, so that no removal is refused. `Hierarchy.Pruned` says what came of it:
exactly the cells under the doomed ones are gone, no other node has been touched but for its links,
and the hierarchy is linked again. The unload processors may do what they like to the nodes that
leave.
-/

namespace OctreeWorld

variable {N L σ : Type}

namespace Hierarchy

/-- What removals did: the cells of `gone` have left, and the destroy queues of the levels of
`drained` have been emptied. -/
structure Pruned (drained : List UInt8) (gone : Coord → Prop) (h g : Hierarchy N L) : Prop where
  linked : g.Linked
  length : g.levels.length = h.levels.length
  destroy : ∀ i, g.pending i .destroy = if i ∈ drained then [] else h.pending i .destroy
  other : ∀ i q, q ≠ .destroy → g.pending i q = h.pending i q
  absent : ∀ x, gone x → g.contains x = false
  kept : ∀ x, ¬ gone x → g.body x = h.body x

namespace Pruned

variable {drained more : List UInt8} {gone later : Coord → Prop} {h g k : Hierarchy N L}

theorem refl (linked : h.Linked) : Pruned [] (fun _ => False) h h :=
  ⟨linked, rfl, fun _ => rfl, fun _ _ _ => rfl, fun _ none_ => none_.elim, fun _ _ => rfl⟩

/-- Which cells are doomed matters only where there is a node. -/
theorem congr (pruned : Pruned drained gone h g) (sound : ∀ x, gone x → later x)
    (complete : ∀ x, h.contains x = true → later x → gone x) : Pruned drained later h g := by
  refine ⟨pruned.linked, pruned.length, pruned.destroy, pruned.other, fun x doomed => ?_,
    fun x stays => pruned.kept x fun gone_ => stays (sound x gone_)⟩
  by_cases gone_ : gone x
  · exact pruned.absent x gone_
  · rw [contains_congr_body (pruned.kept x gone_), Bool.eq_false_iff]
    exact fun resident => gone_ (complete x resident doomed)

theorem contains (pruned : Pruned drained gone h g) (x : Coord) :
    g.contains x = true ↔ h.contains x = true ∧ ¬ gone x := by
  by_cases gone_ : gone x
  · rw [pruned.absent x gone_]
    simp [gone_]
  · rw [contains_congr_body (pruned.kept x gone_)]
    simp [gone_]

theorem trans (first : Pruned drained gone h g) (second : Pruned more later g k) :
    Pruned (drained ++ more) (fun x => gone x ∨ later x) h k := by
  refine ⟨second.linked, second.length.trans first.length, fun i => ?_,
    fun i q other => (second.other i q other).trans (first.other i q other), fun x gone_ => ?_,
    fun x stays => ?_⟩
  · rw [second.destroy, first.destroy]
    by_cases a : i ∈ drained <;> by_cases b : i ∈ more <;> simp [a, b]
  · by_cases late : later x
    · exact second.absent x late
    · rw [contains_congr_body (second.kept x late)]
      exact first.absent x (gone_.resolve_right late)
  · rw [not_or] at stays
    exact (second.kept x stays.2).trans (first.kept x stays.1)

end Pruned

/-! ### Children -/

/-- The child that a child bit stands for. -/
theorem Linked.child_of_hasChild {h : Hierarchy N L} (linked : h.Linked) {c d : Coord} {n : Node N}
    (found : h.get? c = some n) {o : Octant} (bit : n.hasChild o = true)
    (down : c.child? o = some d) : h.contains d = true ∧ d.parent = c ∧ d.octant = o := by
  obtain ⟨e, resident, up, octant⟩ := (linked.child c n found o).mp bit
  have back := Coord.child?_parent_octant (linked.numbered.level_ne resident)
  rw [up, octant, down, Option.some.injEq] at back
  rw [back]
  exact ⟨resident, up, octant⟩

/-- The linked children of a node are exactly the residents below it. -/
theorem Linked.mem_childCoords {h : Hierarchy N L} (linked : h.Linked) {c : Coord} {n : Node N}
    (found : h.get? c = some n) {e : Coord} :
    e ∈ n.childCoords ↔ h.contains e = true ∧ e.parent = c := by
  have place := linked.placed c n found
  rw [Node.childCoords, place, List.mem_filterMap]
  constructor
  · rintro ⟨o, listed, child⟩
    obtain ⟨resident, up, -⟩ := linked.child_of_hasChild found (List.mem_filter.mp listed).2 child
    exact ⟨resident, up⟩
  · rintro ⟨resident, up⟩
    have down := Coord.child?_parent_octant (linked.numbered.level_ne resident)
    rw [up] at down
    have bit := (linked.child c n found e.octant).mpr ⟨e, resident, up, rfl⟩
    exact ⟨e.octant, List.mem_filter.mpr ⟨Octant.mem_all _, bit⟩, down⟩

/-- A node without resident cells below it is a leaf. -/
theorem Linked.isLeaf_iff {h : Hierarchy N L} (linked : h.Linked) {c : Coord} {n : Node N}
    (found : h.get? c = some n) :
    n.isLeaf = true ↔ ∀ e, h.contains e = true → e.parent ≠ c := by
  constructor
  · intro leaf e resident
    exact linked.not_parent_of_isLeaf found leaf resident
  · intro childless
    refine (Node.isLeaf_iff n).mpr fun o => ?_
    rw [Bool.eq_false_iff]
    intro bit
    obtain ⟨e, resident, up, -⟩ := (linked.child c n found o).mp bit
    exact childless e resident up

theorem Linked.resident_of_under {h : Hierarchy N L} (linked : h.Linked) {x c : Coord}
    (resident : h.contains x = true) (under : x.Under c) (inside : c.level < h.levelCount) :
    h.contains c = true := by
  obtain ⟨n, rfl, level⟩ := under
  have below := UInt8.lt_iff_toNat_lt.mp inside
  rw [linked.numbered.toNat_levelCount] at below
  exact linked.climb_resident resident (by omega)

/-- The walk over a subtree visits exactly the residents under its root. -/
theorem Linked.mem_postOrderFrom {h : Hierarchy N L} (linked : h.Linked) {fuel : Nat} {c : Coord}
    (resident : h.contains c = true) (enough : c.level.toNat < fuel) {x : Coord} :
    x ∈ h.postOrderFrom fuel c ↔ h.contains x = true ∧ x.Under c := by
  induction fuel generalizing c with
  | zero => omega
  | succ fuel ih =>
    obtain ⟨n, found⟩ := contains_iff.mp resident
    have below : ∀ d, h.contains d = true → d.parent = c → d.level.toNat < fuel := by
      intro d stays up
      have := Coord.toNat_parent_level (linked.numbered.level_ne stays)
      rw [up] at this
      omega
    rw [postOrderFrom, found, List.mem_append, List.mem_flatMap, List.mem_singleton]
    constructor
    · rintro (⟨d, child, deeper⟩ | rfl)
      · obtain ⟨stays, up⟩ := (linked.mem_childCoords found).mp child
        obtain ⟨there, under⟩ := (ih stays (below d stays up)).mp deeper
        refine ⟨there, under.trans ?_⟩
        rw [← up]
        exact Coord.Under.parent (linked.numbered.level_ne stays)
      · exact ⟨resident, Coord.Under.refl x⟩
    · rintro ⟨there, under⟩
      rcases under.cases with rfl | ⟨d, lower, up, deeper⟩
      · exact Or.inr rfl
      · have inside : d.level < h.levelCount := by
          have upper := UInt8.lt_iff_toNat_lt.mp (linked.numbered.level_lt resident)
          rw [← up, Coord.toNat_parent_level lower] at upper
          rw [UInt8.lt_iff_toNat_lt]
          omega
        have stays := linked.resident_of_under there deeper inside
        exact Or.inl ⟨d, (linked.mem_childCoords found).mpr ⟨stays, up⟩,
          (ih stays (below d stays up)).mpr ⟨there, deeper⟩⟩

theorem nodup_childCoords (n : Node N) : n.childCoords.Nodup := by
  have octants : Octant.all.Nodup := by decide
  exact List.Nodup.filterMap (fun _ _ _ one other => Coord.child?_injective one other)
    (octants.filter _)

theorem Linked.level_of_child {h : Hierarchy N L} (linked : h.Linked) {c d : Coord} {n : Node N}
    (found : h.get? c = some n) (child : d ∈ n.childCoords) :
    c.level.toNat = d.level.toNat + 1 := by
  obtain ⟨resident, rfl⟩ := (linked.mem_childCoords found).mp child
  exact Coord.toNat_parent_level (linked.numbered.level_ne resident)

/-- The walk over a subtree comes to nothing that lies in a cell once it has been to the cell. -/
theorem Linked.postOrderFrom_ordered {h : Hierarchy N L} (linked : h.Linked) {fuel : Nat}
    {c : Coord} (resident : h.contains c = true) (enough : c.level.toNat < fuel) :
    (h.postOrderFrom fuel c).Pairwise fun x y => ¬ y.Under x := by
  induction fuel generalizing c with
  | zero => omega
  | succ fuel ih =>
    obtain ⟨n, found⟩ := contains_iff.mp resident
    have level : ∀ d ∈ n.childCoords, c.level.toNat = d.level.toNat + 1 :=
      fun d listed => linked.level_of_child found listed
    have stays : ∀ d ∈ n.childCoords, h.contains d = true :=
      fun d listed => ((linked.mem_childCoords found).mp listed).1
    have under : ∀ d ∈ n.childCoords, ∀ x ∈ h.postOrderFrom fuel d, x.Under d := by
      intro d listed x walked
      have := level d listed
      exact ((linked.mem_postOrderFrom (stays d listed) (by omega)).mp walked).2
    rw [postOrderFrom, found]
    refine List.pairwise_append.mpr ⟨List.pairwise_flatMap.mpr ⟨fun d listed => ?_, ?_⟩,
      List.pairwise_singleton _ c, fun x walked y at_ within => ?_⟩
    · have := level d listed
      exact ih (stays d listed) (by omega)
    · refine (nodup_childCoords n).imp_of_mem fun {d e} hd he differ x one y other within => ?_
      have same := (level d hd).symm.trans (level e he)
      have shared := within.trans (under d hd x one)
      exact differ (shared.eq_of_level (under e he y other) (UInt8.toNat_inj.mp (by omega)))
    · obtain ⟨d, listed, deeper⟩ := List.mem_flatMap.mp walked
      have lower := (under d listed x deeper).level_le
      have higher := within.level_le
      have := level d listed
      rw [List.mem_singleton.mp at_] at higher
      omega

/-- The walk over a subtree visits every node once. -/
theorem Linked.nodup_postOrderFrom {h : Hierarchy N L} (linked : h.Linked) {fuel : Nat} {c : Coord}
    (resident : h.contains c = true) (enough : c.level.toNat < fuel) :
    (h.postOrderFrom fuel c).Nodup := by
  refine (linked.postOrderFrom_ordered resident enough).imp fun after => ?_
  rintro rfl
  exact after (Coord.Under.refl _)

/-! ### Removing a subtree -/

theorem removeAll_append (as bs : List Coord) (h : Hierarchy N L) :
    removeAll (as ++ bs) h = match removeAll as h with
      | (.error e, k) => (.error e, k)
      | (.ok (), k) => removeAll bs k := by
  induction as generalizing h with
  | nil => rfl
  | cons a as ih =>
    rw [List.cons_append, removeAll, removeAll]
    cases h.remove a with
    | error e => rfl
    | ok k => exact ih k

/-- Removing the subtrees of some siblings in turn, given that each of them can be removed. -/
theorem removeAll_siblings {h : Hierarchy N L} {walk : Coord → List Coord} {ds : List Coord}
    (each : ∀ d ∈ ds, ∀ g : Hierarchy N L, g.Linked →
      (∀ x : Coord, x.Under d → g.contains x = h.contains x) →
      ∃ k, removeAll (walk d) g = (.ok (), k) ∧ Pruned [] (·.Under d) g k)
    (nodup : ds.Nodup) (level : ∀ d ∈ ds, ∀ e ∈ ds, d.level = e.level) {g : Hierarchy N L}
    (linked : g.Linked)
    (same : ∀ d ∈ ds, ∀ x : Coord, x.Under d → g.contains x = h.contains x) :
    ∃ k, removeAll (ds.flatMap walk) g = (.ok (), k) ∧
      Pruned [] (fun x => ∃ d ∈ ds, x.Under d) g k := by
  induction ds generalizing g with
  | nil =>
    refine ⟨g, rfl, (Pruned.refl linked).congr (fun x none_ => none_.elim) ?_⟩
    rintro x - ⟨d, listed, -⟩
    cases listed
  | cons d ds ih =>
    obtain ⟨apart, nodup⟩ := List.nodup_cons.mp nodup
    obtain ⟨m, run, first⟩ := each d List.mem_cons_self g linked (same d List.mem_cons_self)
    -- Nothing under the other siblings has left with the first one.
    have untouched : ∀ e ∈ ds, ∀ x : Coord, x.Under e → m.contains x = h.contains x := by
      intro e listed x under
      have away : ¬ x.Under d := by
        intro shared
        have level := level d List.mem_cons_self e (List.mem_cons_of_mem d listed)
        rw [Coord.Under.eq_of_level shared under level] at apart
        exact apart listed
      rw [contains_congr_body (first.kept x away)]
      exact same e (List.mem_cons_of_mem d listed) x under
    obtain ⟨k, rest, second⟩ := ih (fun e listed => each e (List.mem_cons_of_mem d listed)) nodup
      (fun e he f hf => level e (List.mem_cons_of_mem d he) f (List.mem_cons_of_mem d hf))
      first.linked untouched
    refine ⟨k, ?_, (first.trans second).congr (fun x => ?_) fun x _ => ?_⟩
    · rw [List.flatMap_cons, removeAll_append, run]
      exact rest
    · exact (List.exists_mem_cons_iff ..).mpr
    · exact (List.exists_mem_cons_iff ..).mp

theorem Pruned.of_remove {h g : Hierarchy N L} {c : Coord} (linked : g.Linked)
    (patch : Relinked c h g) (gone : g.get? c = none) : Pruned [] (· = c) h g := by
  refine ⟨linked, length_of_frame patch.frame, fun i => pending_of_frame patch.frame i .destroy,
    fun i q _ => pending_of_frame patch.frame i q, ?_, fun x other => patch.body x other⟩
  rintro x rfl
  exact contains_eq_false_iff.mpr gone

/-- Removing the cells of a subtree in the order of a walk over it never fails, also once other
cells have left and nodes of the subtree have been edited. -/
theorem Linked.removeAll_postOrder {h : Hierarchy N L} (linked : h.Linked) {fuel : Nat} {c : Coord}
    (resident : h.contains c = true) (enough : c.level.toNat < fuel) {g : Hierarchy N L}
    (linked_g : g.Linked) (same : ∀ x : Coord, x.Under c → g.contains x = h.contains x) :
    ∃ k, removeAll (h.postOrderFrom fuel c) g = (.ok (), k) ∧ Pruned [] (·.Under c) g k := by
  induction fuel generalizing c g with
  | zero => omega
  | succ fuel ih =>
    obtain ⟨n, found⟩ := contains_iff.mp resident
    have child : ∀ d ∈ n.childCoords, h.contains d = true ∧ d.parent = c ∧
        d.level ≠ 255 ∧ c.level.toNat = d.level.toNat + 1 := by
      intro d listed
      obtain ⟨stays, up⟩ := (linked.mem_childCoords found).mp listed
      exact ⟨stays, up, linked.numbered.level_ne stays, linked.level_of_child found listed⟩
    have each : ∀ d ∈ n.childCoords, ∀ g : Hierarchy N L, g.Linked →
        (∀ x : Coord, x.Under d → g.contains x = h.contains x) →
        ∃ k, removeAll (h.postOrderFrom fuel d) g = (.ok (), k) ∧ Pruned [] (·.Under d) g k := by
      intro d listed g linked_g same
      obtain ⟨stays, -, -, level⟩ := child d listed
      exact ih stays (by omega) linked_g same
    have lower : ∀ d ∈ n.childCoords, ∀ x : Coord, x.Under d → x.Under c := by
      intro d listed x under
      obtain ⟨-, up, ne, -⟩ := child d listed
      refine under.trans ?_
      rw [← up]
      exact Coord.Under.parent ne
    have level : ∀ d ∈ n.childCoords, ∀ e ∈ n.childCoords, d.level = e.level := by
      intro d hd e he
      have := (child d hd).2.2.2
      have := (child e he).2.2.2
      exact UInt8.toNat_inj.mp (by omega)
    obtain ⟨m, run, first⟩ := removeAll_siblings each (nodup_childCoords n) level linked_g
      fun d listed x under => same x (lower d listed x under)
    have top : ¬ ∃ d ∈ n.childCoords, c.Under d := by
      rintro ⟨d, listed, under⟩
      have := (child d listed).2.2.2
      have := under.level_le
      omega
    have stays : m.contains c = true := by
      rw [contains_congr_body (first.kept c top), same c (Coord.Under.refl c)]
      exact resident
    obtain ⟨p, found_m⟩ := contains_iff.mp stays
    have leaf : p.isLeaf = true := by
      refine (first.linked.isLeaf_iff found_m).mpr fun e there up => ?_
      obtain ⟨before, away⟩ := (first.contains e).mp there
      have ne := linked_g.numbered.level_ne before
      have under : e.Under c := by
        rw [← up]
        exact Coord.Under.parent ne
      rw [same e under] at before
      exact away ⟨e, (linked.mem_childCoords found).mpr ⟨before, up⟩, Coord.Under.refl e⟩
    obtain ⟨k, last, linked_k, patch, gone⟩ := first.linked.remove found_m leaf
    refine ⟨k, ?_, (first.trans (Pruned.of_remove linked_k patch gone)).congr ?_ ?_⟩
    · rw [postOrderFrom, found, removeAll_append, run]
      simp only [removeAll, last]
    · rintro x (⟨d, listed, under⟩ | rfl)
      · exact lower d listed x under
      · exact Coord.Under.refl x
    · intro x there under
      rw [same x under] at there
      have walked := (linked.mem_postOrderFrom resident enough).mpr ⟨there, under⟩
      rw [postOrderFrom, found, List.mem_append, List.mem_flatMap, List.mem_singleton] at walked
      rcases walked with ⟨d, listed, deeper⟩ | at_
      · obtain ⟨stays, -, -, level⟩ := child d listed
        exact Or.inl ⟨d, listed, ((linked.mem_postOrderFrom stays (by omega)).mp deeper).2⟩
      · exact Or.inr at_

end Hierarchy

/-! ### Retiring -/

theorem Processor.obeys_any {V E : Type} {ps : List (Processor σ V E)} :
    ∀ p ∈ ps, p.Obeys fun _ => True :=
  fun _ _ _ _ _ _ _ => trivial

theorem Level.Edited.sameLinks {may : NodeEdit N L → Prop} {cs : List Coord} {l m : Level N L}
    (edited : l.Edited may cs m) : l.SameLinks m :=
  ⟨edited.index, edited.map_eq fun _ _ => Node.Edited.links⟩

/-- The nodes of a list have been changed, but not their links; all else stays as it was. -/
structure Level.Retired (order : List Coord) (l m : Level N L) : Prop where
  links : l.SameLinks m
  queues : m.queues = l.queues
  away : ∀ c, c ∉ order → m.get? c = l.get? c

namespace Level.Retired

variable {order : List Coord} {l m k : Level N L}

theorem refl (l : Level N L) : l.Retired order l := ⟨.refl l, rfl, fun _ _ => rfl⟩

theorem trans (first : l.Retired order m) (second : m.Retired order k) : l.Retired order k :=
  ⟨first.links.trans second.links, second.queues.trans first.queues,
    fun c away => (second.away c away).trans (first.away c away)⟩

theorem batch (ps : List (NodeProcessor σ N L)) (ctx : BatchContext) (l : Level N L)
    {cs : List Coord} (listed : ∀ c ∈ cs, c ∈ order) (s : σ) :
    l.Retired order ((runNodeBatch ps ctx l cs s).1.modifyAll cs (·.withState .deleting)) := by
  have edited : l.Edited (fun _ => True) cs (runNodeBatch ps ctx l cs s).1 :=
    runNodeBatch_edited Processor.obeys_any ctx l cs s
  refine ⟨edited.sameLinks.trans (.modifyAll _ cs fun _ => rfl),
    (queues_modifyAll _ cs _).trans edited.queues, fun c away => ?_⟩
  have away : c ∉ cs := fun named => away (listed c named)
  rw [get?_modifyAll _ cs (f := (·.withState .deleting)) (fun _ => rfl), if_neg away,
    edited.away c away]

end Level.Retired

namespace Hierarchy

theorem retireAt_retired (ps : List (NodeProcessor σ N L)) (ctx : BatchContext)
    (order : List Coord) (i : UInt8) (h : Hierarchy N L) (s : σ) :
    Levelwise (Level.Retired order) h (retireAt ps ctx order i h s).1 := by
  unfold retireAt
  split
  · exact Levelwise.refl Level.Retired.refl h
  · rename_i l stored
    refine levelwise_modifyLevel Level.Retired.refl fun m at_ => ?_
    rw [stored] at at_
    cases at_
    exact Level.Retired.batch ps _ l (fun c named => (List.mem_filter.mp named).1) s

theorem retire_retired (ps : List (NodeProcessor σ N L)) (ctx : BatchContext)
    (order : List Coord) (is : List UInt8) (h : Hierarchy N L) (s : σ) :
    Levelwise (Level.Retired order) h (retire ps ctx order is h s).1 := by
  induction is generalizing h s with
  | nil => exact Levelwise.refl Level.Retired.refl h
  | cons i is ih =>
    have first := retireAt_retired ps ctx order i h s
    exact first.trans (fun _ _ _ => Level.Retired.trans) (ih _ _)

section Retired

variable {order : List Coord} {h g : Hierarchy N L}
  (retired : Levelwise (Level.Retired order) h g)

include retired

theorem linked_of_retired (linked : h.Linked) : g.Linked :=
  linked.levelwise (retired.imp fun _ _ step => step.links)

theorem pending_of_retired (i : UInt8) (q : Queue) : g.pending i q = h.pending i q := by
  cases stored : h.level? i with
  | none =>
    rw [pending_of_level?_none stored, pending_of_level?_none (retired.level?_none stored)]
  | some l =>
    obtain ⟨m, found, step⟩ := retired.level? stored
    rw [pending_of_level? stored, pending_of_level? found, Level.pending_congr step.queues]

theorem contains_of_retired (c : Coord) : g.contains c = h.contains c :=
  contains_of_sameLinks (retired.imp fun _ _ step => step.links) c

theorem body_of_retired {c : Coord} (away : c ∉ order) : g.body c = h.body c := by
  rcases retired.get? c with ⟨before, after⟩ | ⟨l, m, step, -, -, before, after⟩
  · rw [body, body, before, after]
  · rw [body, body, before, after, step.away c away]

end Retired

/-! ### Unloading -/

theorem subtree_eq {h : Hierarchy N L} (num : h.Numbered) (root : Coord) :
    h.subtree root = if h.contains root then .ok (h.postOrderFrom walkFuel root)
      else if root.level < h.levelCount then .error (.nodeMissing root)
      else .error (.levelOutOfRange root.level h.levelCount) := by
  rw [subtree, checkLevel]
  by_cases inside : root.level < h.levelCount
  · by_cases resident : h.contains root = true
    · simp only [if_pos inside, if_pos resident]
      rfl
    · simp only [if_pos inside, if_neg resident]
      rfl
  · have absent : h.contains root ≠ true := fun resident => inside (num.level_lt resident)
    simp only [if_neg inside, if_neg absent]
    rfl

/-- Unloading a resident's subtree retires it level by level and then removes it leaf first. -/
theorem Numbered.unloadSubtree {h : Hierarchy N L} (num : h.Numbered)
    (ps : List (NodeProcessor σ N L)) (ctx : BatchContext) {root : Coord}
    (resident : h.contains root = true) {s : σ} {retired : Hierarchy N L × σ}
    (retires : retired = retire ps ctx (h.postOrderFrom walkFuel root)
      ((List.range (root.level.toNat + 1)).map UInt8.ofNat) h s) {g : Hierarchy N L}
    (run : removeAll (h.postOrderFrom walkFuel root) retired.1 = (.ok (), g)) :
    h.unloadSubtree ps ctx root s = (.ok (h.postOrderFrom walkFuel root), g, retired.2) := by
  subst retires
  rw [Hierarchy.unloadSubtree, subtree_eq num, if_pos resident]
  simp only [run]
  rfl

/-- Unloading a resident's subtree never fails and takes out exactly the cells under it; a request
for an absent one changes nothing. -/
theorem Linked.unloadSubtree {h : Hierarchy N L} (linked : h.Linked)
    (ps : List (NodeProcessor σ N L)) (ctx : BatchContext) {root : Coord}
    (resident : h.contains root = true) (s : σ) :
    ∃ g s', h.unloadSubtree ps ctx root s = (.ok (h.postOrderFrom walkFuel root), g, s') ∧
      Pruned [] (·.Under root) h g ∧
      ∀ x, x ∈ h.postOrderFrom walkFuel root ↔ h.contains x = true ∧ x.Under root := by
  let order := h.postOrderFrom walkFuel root
  let levels := (List.range (root.level.toNat + 1)).map UInt8.ofNat
  let m := (retire ps ctx order levels h s).1
  have enough : root.level.toNat < walkFuel := root.level.toNat_lt
  have walked : ∀ x, x ∈ order ↔ h.contains x = true ∧ x.Under root :=
    fun x => linked.mem_postOrderFrom resident enough
  have retired : Levelwise (Level.Retired order) h m := retire_retired ps ctx order levels h s
  have linked_m := linked_of_retired retired linked
  obtain ⟨g, run, pruned⟩ := linked.removeAll_postOrder resident enough linked_m
    fun x _ => contains_of_retired retired x
  refine ⟨g, (retire ps ctx order levels h s).2,
    linked.numbered.unloadSubtree ps ctx resident rfl run, ?_, walked⟩
  · refine ⟨pruned.linked, pruned.length.trans retired.length_eq, fun i => ?_, fun i q other => ?_,
      pruned.absent, fun x stays => ?_⟩
    · rw [pruned.destroy]
      exact pending_of_retired retired i .destroy
    · rw [pruned.other i q other]
      exact pending_of_retired retired i q
    · rw [pruned.kept x stays]
      exact body_of_retired retired fun listed => stays ((walked x).mp listed).2

theorem unloadSubtree_of_absent {h : Hierarchy N L} (num : h.Numbered)
    (ps : List (NodeProcessor σ N L)) (ctx : BatchContext) {root : Coord}
    (absent : h.contains root = false) (s : σ) :
    h.unloadSubtree ps ctx root s = (.error (if root.level < h.levelCount then .nodeMissing root
      else .levelOutOfRange root.level h.levelCount), h, s) := by
  rw [unloadSubtree, subtree_eq num, absent]
  by_cases inside : root.level < h.levelCount <;> simp [inside]

/-! ### Draining the destroy queues -/

theorem Linked.destroyAll {h : Hierarchy N L} (linked : h.Linked)
    (ps : List (NodeProcessor σ N L)) (ctx : BatchContext) (cs : List Coord) (s : σ) :
    ∃ removed g s', destroyAll ps ctx cs h s = (removed, g, s') ∧
      Pruned [] (fun x => ∃ c ∈ cs, h.contains c = true ∧ x.Under c) h g ∧
      ∀ x, x ∈ removed ↔ h.contains x = true ∧ ∃ c ∈ cs, h.contains c = true ∧ x.Under c := by
  induction cs generalizing h s with
  | nil =>
    refine ⟨[], h, s, rfl, (Pruned.refl linked).congr (fun x none_ => none_.elim) ?_, fun x => ?_⟩
    · rintro x - ⟨c, listed, -⟩
      cases listed
    · simp
  | cons c cs ih =>
    by_cases resident : h.contains c = true
    · obtain ⟨k, s₁, run, first, walked⟩ := linked.unloadSubtree ps ctx resident s
      obtain ⟨removed, g, s₂, rest, second, listed⟩ := ih first.linked s₁
      -- A later command acts only where its cell has not left with the first subtree.
      have doomed : ∀ x : Coord, (∃ d ∈ c :: cs, h.contains d = true ∧ x.Under d) ↔
          x.Under c ∨ ∃ d ∈ cs, k.contains d = true ∧ x.Under d := by
        intro x
        constructor
        · rintro ⟨d, named, stays, under⟩
          rcases List.mem_cons.mp named with rfl | named
          · exact Or.inl under
          · by_cases lower : d.Under c
            · exact Or.inl (under.trans lower)
            · exact Or.inr ⟨d, named, (first.contains d).mpr ⟨stays, lower⟩, under⟩
        · rintro (under | ⟨d, named, stays, under⟩)
          · exact ⟨c, List.mem_cons_self, resident, under⟩
          · exact ⟨d, List.mem_cons_of_mem c named, ((first.contains d).mp stays).1, under⟩
      refine ⟨h.postOrderFrom walkFuel c ++ removed, g, s₂, ?_,
        (first.trans second).congr (fun x => (doomed x).mpr) fun x _ => (doomed x).mp, fun x => ?_⟩
      · rw [Hierarchy.destroyAll, if_pos resident, run]
        simp only [rest]
      · rw [List.mem_append, walked, listed, doomed, first.contains]
        by_cases under : x.Under c <;> simp [under]
    · obtain ⟨removed, g, s', run, pruned, listed⟩ := ih linked s
      have same : ∀ x : Coord, (∃ d ∈ c :: cs, h.contains d = true ∧ x.Under d) ↔
          ∃ d ∈ cs, h.contains d = true ∧ x.Under d := by
        intro x
        rw [List.exists_mem_cons_iff, or_iff_right]
        exact fun both => resident both.1
      refine ⟨removed, g, s', ?_,
        pruned.congr (fun x => (same x).mpr) fun x _ => (same x).mp, fun x => ?_⟩
      · rw [Hierarchy.destroyAll, if_neg resident]
        exact run
      · rw [listed, same]

theorem destroyAt_cons (ps : List (NodeProcessor σ N L)) (ctx : BatchContext) (i : UInt8)
    (is : List UInt8) (h : Hierarchy N L) (s : σ) :
    destroyAt ps ctx (i :: is) h s =
      let (removed, k, s) := destroyAll ps (ctx.atLevel i) (CoordSet.sorted (h.pending i .destroy))
        (h.modifyLevel i (·.clear .destroy)) s
      let (more, g, s) := destroyAt ps ctx is k s
      (removed ++ more, g, s) := by
  rw [destroyAt, pending]
  cases h.level? i with
  | none => rfl
  | some l => rfl

theorem Pruned.clear {h : Hierarchy N L} (linked : h.Linked) (i : UInt8) :
    Pruned [i] (fun _ => False) h (h.modifyLevel i (·.clear .destroy)) := by
  refine ⟨linked.clear i .destroy, length_modifyLevel h i _, fun j => ?_, fun j q other => ?_,
    fun x none_ => none_.elim, fun x _ => ?_⟩
  · rw [pending_clear]
    simp [eq_comm]
  · rw [pending_clear, if_neg fun both => other both.2.symm]
  · rw [body, get?_modifyLevel_of_get? i fun l c => Level.get?_clear l .destroy c]
    rfl

/-- What the destroy queues of some levels doom: everything under a resident they name. -/
def Doomed (h : Hierarchy N L) (is : List UInt8) (x : Coord) : Prop :=
  ∃ i ∈ is, ∃ c ∈ h.pending i .destroy, h.contains c = true ∧ x.Under c

theorem doomed_singleton {h : Hierarchy N L} {i : UInt8} {x : Coord} :
    h.Doomed [i] x ↔ ∃ c ∈ h.pending i .destroy, h.contains c = true ∧ x.Under c := by
  simp only [Doomed, List.mem_singleton, exists_eq_left]

/-- Draining a first queue takes away nothing that would have doomed a cell later. -/
theorem doomed_cons {h k : Hierarchy N L} {i : UInt8} {is : List UInt8}
    (first : Pruned [i] (h.Doomed [i]) h k) (x : Coord) :
    h.Doomed (i :: is) x ↔ h.Doomed [i] x ∨ k.Doomed is x := by
  constructor
  · rintro ⟨j, listed, c, named, resident, under⟩
    by_cases same : j = i
    · subst same
      exact Or.inl (doomed_singleton.mpr ⟨c, named, resident, under⟩)
    · by_cases gone : h.Doomed [i] c
      · -- The cell has left already, so it lay under another doomed one.
        obtain ⟨d, named, resident, lower⟩ := doomed_singleton.mp gone
        exact Or.inl (doomed_singleton.mpr ⟨d, named, resident, under.trans lower⟩)
      · refine Or.inr ⟨j, (List.mem_cons.mp listed).resolve_left same, c, ?_,
          (first.contains c).mpr ⟨resident, gone⟩, under⟩
        rw [first.destroy, if_neg (by simpa using same)]
        exact named
  · rintro (gone | ⟨j, listed, c, named, stays, under⟩)
    · obtain ⟨c, named, resident, under⟩ := doomed_singleton.mp gone
      exact ⟨i, List.mem_cons_self, c, named, resident, under⟩
    · rw [first.destroy] at named
      split at named
      · cases named
      · exact ⟨j, List.mem_cons_of_mem i listed, c, named, ((first.contains c).mp stays).1, under⟩

/-- Draining one destroy queue. -/
theorem Linked.destroyLevel {h : Hierarchy N L} (linked : h.Linked)
    (ps : List (NodeProcessor σ N L)) (ctx : BatchContext) (i : UInt8) (s : σ) :
    ∃ removed k s', Hierarchy.destroyAll ps ctx (CoordSet.sorted (h.pending i .destroy))
        (h.modifyLevel i (·.clear .destroy)) s = (removed, k, s') ∧
      Pruned [i] (h.Doomed [i]) h k ∧ ∀ x, x ∈ removed ↔ h.contains x = true ∧ h.Doomed [i] x := by
  have cleared := Pruned.clear linked i
  have there : ∀ x, (h.modifyLevel i (·.clear .destroy)).contains x = h.contains x :=
    fun x => contains_congr_body (cleared.kept x not_false)
  have same : ∀ x : Coord, (∃ c ∈ CoordSet.sorted (h.pending i .destroy),
      (h.modifyLevel i (·.clear .destroy)).contains c = true ∧ x.Under c) ↔ h.Doomed [i] x := by
    intro x
    simp only [doomed_singleton, Level.mem_sorted, there]
  obtain ⟨removed, k, s', run, pruned, listed⟩ :=
    cleared.linked.destroyAll ps ctx (CoordSet.sorted (h.pending i .destroy)) s
  refine ⟨removed, k, s', run, (cleared.trans pruned).congr (fun x gone => ?_) fun x _ doomed => ?_,
    fun x => ?_⟩
  · exact (same x).mp (gone.resolve_left not_false)
  · exact Or.inr ((same x).mpr doomed)
  · rw [listed, there, same]

theorem Linked.destroyAt {h : Hierarchy N L} (linked : h.Linked)
    (ps : List (NodeProcessor σ N L)) (ctx : BatchContext) (is : List UInt8) (s : σ) :
    ∃ removed g s', destroyAt ps ctx is h s = (removed, g, s') ∧
      Pruned is (h.Doomed is) h g ∧
      ∀ x, x ∈ removed ↔ h.contains x = true ∧ h.Doomed is x := by
  induction is generalizing h s with
  | nil =>
    refine ⟨[], h, s, rfl, (Pruned.refl linked).congr (fun x none_ => none_.elim) ?_, fun x => ?_⟩
    · rintro x - ⟨i, listed, -⟩
      cases listed
    · simp [Doomed]
  | cons i is ih =>
    obtain ⟨first, k, s₁, run, step, listed₁⟩ := linked.destroyLevel ps (ctx.atLevel i) i s
    obtain ⟨later, g, s₂, rest, pruned, listed₂⟩ := ih step.linked s₁
    have doomed : ∀ x, h.Doomed (i :: is) x ↔ h.Doomed [i] x ∨ k.Doomed is x := doomed_cons step
    refine ⟨first ++ later, g, s₂, ?_, (step.trans pruned).congr (fun x => (doomed x).mpr)
      fun x _ => (doomed x).mp, fun x => ?_⟩
    · rw [destroyAt_cons]
      simp only [run, rest]
    · rw [List.mem_append, listed₁, listed₂, doomed, step.contains]
      by_cases gone : h.Doomed [i] x <;> simp [gone]

/-- Draining all destroy queues empties them and takes out everything under a resident they name. -/
theorem Linked.destroyPending {h : Hierarchy N L} (linked : h.Linked)
    (ps : List (NodeProcessor σ N L)) (ctx : BatchContext) (s : σ) :
    ∃ removed g s', h.destroyPending ps ctx s = (removed, g, s') ∧
      Pruned h.indices (h.Doomed h.indices) h g ∧ (∀ i, g.pending i .destroy = []) ∧
      ∀ x, x ∈ removed ↔ h.contains x = true ∧ h.Doomed h.indices x := by
  obtain ⟨removed, g, s', run, pruned, listed⟩ := linked.destroyAt ps ctx h.indices s
  refine ⟨removed, g, s', run, pruned, fun i => ?_, listed⟩
  rw [pruned.destroy]
  split
  · rfl
  · rename_i away
    exact linked.numbered.pending_of_not_mem_indices away .destroy

end Hierarchy

end OctreeWorld
