import Mathlib.Data.List.Forall2
import OctreeWorld.Lifecycle
import OctreeWorld.Proofs.Family
import OctreeWorld.Proofs.Level

/-!
# Views of a hierarchy

The contents of a hierarchy are read in three parts: its frame, which is the levels without their
nodes, the body of the node at each coordinate, which is the node without its links, and the
links. Link maintenance leaves the first two alone, and the rest of the life of a node leaves the
links alone.
-/

namespace OctreeWorld

/-- Two related steps on every element of a list, one after the other. -/
theorem forall₂_comp {α β γ : Type} {R : α → β → Prop} {S : β → γ → Prop} {T : α → γ → Prop}
    (compose : ∀ a b c, R a b → S b c → T a c) {as : List α} {bs : List β} {cs : List γ}
    (first : List.Forall₂ R as bs) (second : List.Forall₂ S bs cs) : List.Forall₂ T as cs := by
  induction first generalizing cs with
  | nil =>
    cases second
    exact .nil
  | cons step _ ih =>
    cases second with
    | cons next rest => exact .cons (compose _ _ _ step next) (ih rest)

theorem exists_of_forall₂ {α β : Type} {R : α → β → Prop} {as : List α} {bs : List β}
    (related : List.Forall₂ R as bs) {b : β} (mem : b ∈ bs) : ∃ a ∈ as, R a b := by
  obtain ⟨i, hi, rfl⟩ := List.mem_iff_getElem.mp mem
  have hi' : i < as.length := by rwa [related.length_eq]
  exact ⟨as[i], List.getElem_mem hi', related.get hi' hi⟩

theorem getElem?_of_forall₂ {α β : Type} {R : α → β → Prop} {as : List α} {bs : List β}
    (related : List.Forall₂ R as bs) {i : Nat} {a : α} (at_ : as[i]? = some a) :
    ∃ b, bs[i]? = some b ∧ R a b := by
  obtain ⟨hi, rfl⟩ := List.getElem?_eq_some_iff.mp at_
  have hi' : i < bs.length := by rwa [← related.length_eq]
  exact ⟨bs[i], List.getElem?_eq_getElem hi', related.get hi hi'⟩

/-- Where a list never goes from one element to another, it comes to the other one first. -/
theorem sublist_pair_of_pairwise {α : Type} {R : α → α → Prop} {as : List α}
    (ordered : as.Pairwise R) {x y : α} (hx : x ∈ as) (hy : y ∈ as) (differ : x ≠ y)
    (back : ¬ R y x) : [x, y].Sublist as := by
  induction ordered with
  | nil => cases hx
  | @cons a as ahead _ ih =>
    rcases List.mem_cons.mp hx with rfl | behind
    · have later := (List.mem_cons.mp hy).resolve_left differ.symm
      exact (List.singleton_sublist.mpr later).cons_cons x
    · rcases List.mem_cons.mp hy with rfl | later
      · exact absurd (ahead x behind) back
      · exact (ih behind later).cons a

namespace Hierarchy

variable {N L : Type}

/-- The levels stand in the order of their indices, and one byte counts them. -/
structure Numbered (h : Hierarchy N L) : Prop where
  length_lt : h.levels.length < 256
  index : ∀ i l, h.level? i = some l → l.index = i

/-- The levels without their nodes. -/
def frame (h : Hierarchy N L) : List (Level N L) := h.levels.map Level.bare

/-- The node at a coordinate without its links. -/
def body (h : Hierarchy N L) (c : Coord) : Option (Node N) := (h.get? c).map Node.clearLinks

/-- The pending commands of one queue of the level at an index. -/
def pending (h : Hierarchy N L) (i : UInt8) (q : Queue) : List Coord :=
  match h.level? i with
  | some l => l.pending q
  | none => []

/-! ### Levels by index -/

theorem level?_modifyLevel (h : Hierarchy N L) (i j : UInt8) (f : Level N L → Level N L) :
    (h.modifyLevel i f).level? j = if i = j then (h.level? j).map f else h.level? j := by
  simp only [level?, modifyLevel]
  by_cases same : i = j
  · subst same
    simp
  · have differ : i.toNat ≠ j.toNat := fun e => same (UInt8.toNat_inj.mp e)
    simp [same, differ]

theorem length_modifyLevel (h : Hierarchy N L) (i : UInt8) (f : Level N L → Level N L) :
    (h.modifyLevel i f).levels.length = h.levels.length := by
  simp [modifyLevel]

theorem levelCount_congr {h g : Hierarchy N L} (same : g.levels.length = h.levels.length) :
    g.levelCount = h.levelCount := by
  rw [levelCount, levelCount, same]

theorem coarsest_congr {h g : Hierarchy N L} (same : g.levels.length = h.levels.length) :
    g.coarsest = h.coarsest := by
  rw [coarsest, coarsest, levelCount_congr same]

theorem coarsest_modifyLevel (h : Hierarchy N L) (i : UInt8) (f : Level N L → Level N L) :
    (h.modifyLevel i f).coarsest = h.coarsest :=
  coarsest_congr (length_modifyLevel h i f)

namespace Numbered

variable {h : Hierarchy N L}

theorem toNat_levelCount (num : h.Numbered) : h.levelCount.toNat = h.levels.length := by
  have := num.length_lt
  simp only [levelCount, UInt8.toNat_ofNat']
  omega

theorem lt_levelCount_iff (num : h.Numbered) (i : UInt8) :
    i < h.levelCount ↔ ∃ l, h.level? i = some l := by
  rw [UInt8.lt_iff_toNat_lt, num.toNat_levelCount]
  constructor
  · intro below
    exact ⟨h.levels[i.toNat], List.getElem?_eq_getElem below⟩
  · rintro ⟨l, stored⟩
    exact (List.getElem?_eq_some_iff.mp stored).1

theorem lt_coarsest_iff (num : h.Numbered) (i : UInt8) :
    i < h.coarsest ↔ i.toNat + 1 < h.levels.length := by
  have count := num.toNat_levelCount
  rw [UInt8.lt_iff_toNat_lt, coarsest]
  by_cases none : h.levelCount = 0
  · rw [none] at count
    simp only [none, if_true]
    simp at count ⊢
    omega
  · have pos : h.levelCount.toNat ≠ 0 := fun e => none (UInt8.toNat_inj.mp e)
    have bound := h.levelCount.toNat_lt
    simp only [none, if_false, UInt8.toNat_sub, UInt8.toNat_one]
    omega

theorem toNat_coarsest (num : h.Numbered) (inhabited : 0 < h.levels.length) :
    h.coarsest.toNat + 1 = h.levels.length := by
  have count := num.toNat_levelCount
  have ne : h.levelCount ≠ 0 := by
    intro none_
    rw [none_] at count
    simp at count
    omega
  have bound := h.levelCount.toNat_lt
  rw [coarsest, if_neg ne, UInt8.toNat_sub, UInt8.toNat_one]
  omega

theorem toNat_index (num : h.Numbered) {i : Nat} (hi : i < h.levels.length) :
    h.levels[i].index.toNat = i := by
  have short := num.length_lt
  have back : (UInt8.ofNat i).toNat = i := by
    rw [UInt8.toNat_ofNat']
    omega
  have stored : h.level? (UInt8.ofNat i) = some h.levels[i] := by
    rw [level?, back]
    exact List.getElem?_eq_getElem hi
  rw [num.index _ _ stored, back]

theorem level?_index (num : h.Numbered) {l : Level N L} (mem : l ∈ h.levels) :
    h.level? l.index = some l := by
  obtain ⟨i, hi, rfl⟩ := List.mem_iff_getElem.mp mem
  rw [level?, num.toNat_index hi]
  exact List.getElem?_eq_getElem hi

end Numbered

theorem mem_levels_of_level? {h : Hierarchy N L} {i : UInt8} {l : Level N L}
    (stored : h.level? i = some l) : l ∈ h.levels :=
  List.mem_of_getElem? stored

/-! ### Nodes by coordinate -/

theorem get?_of_level? {h : Hierarchy N L} {c : Coord} {l : Level N L}
    (stored : h.level? c.level = some l) : h.get? c = l.get? c := by
  simp [get?, stored]

theorem get?_of_level?_none {h : Hierarchy N L} {c : Coord}
    (absent : h.level? c.level = none) : h.get? c = none := by
  simp [get?, absent]

theorem level?_of_get? {h : Hierarchy N L} {c : Coord} {n : Node N} (found : h.get? c = some n) :
    ∃ l, h.level? c.level = some l ∧ l.get? c = some n :=
  Option.bind_eq_some_iff.mp found

theorem contains_iff {h : Hierarchy N L} {c : Coord} :
    h.contains c = true ↔ ∃ n, h.get? c = some n :=
  Option.isSome_iff_exists

theorem contains_eq_false_iff {h : Hierarchy N L} {c : Coord} :
    h.contains c = false ↔ h.get? c = none := by
  rw [contains, Option.isSome_eq_false_iff, Option.isNone_iff_eq_none]

theorem isSome_body (h : Hierarchy N L) (c : Coord) : (h.body c).isSome = h.contains c := by
  simp [body, contains]

theorem exists_of_body {h g : Hierarchy N L} {c : Coord} (same : g.body c = h.body c) {n : Node N}
    (found : g.get? c = some n) : ∃ m, h.get? c = some m ∧ m.clearLinks = n.clearLinks := by
  rw [body, found] at same
  exact Option.map_eq_some_iff.mp same.symm

theorem contains_congr_body {h g : Hierarchy N L} {c : Coord} (same : g.body c = h.body c) :
    g.contains c = h.contains c := by
  rw [← isSome_body, ← isSome_body, same]

theorem get?_modifyLevel {h : Hierarchy N L} (i : UInt8) (f : Level N L → Level N L) (c : Coord) :
    (h.modifyLevel i f).get? c =
      if i = c.level then (h.level? i).bind fun l => (f l).get? c else h.get? c := by
  rw [get?, level?_modifyLevel]
  by_cases same : i = c.level
  · subst same
    cases h.level? c.level <;> simp
  · simp [same, get?]

/-- Another level at an index. -/
theorem get?_modifyLevel_of_level? {h : Hierarchy N L} {i : UInt8} {l : Level N L}
    (stored : h.level? i = some l) (m : Level N L) (c : Coord) :
    (h.modifyLevel i fun _ => m).get? c = if i = c.level then m.get? c else h.get? c := by
  rw [get?_modifyLevel, stored]
  rfl

/-- A change of the level at an index that no node notices. -/
theorem get?_modifyLevel_of_get? {h : Hierarchy N L} (i : UInt8) {f : Level N L → Level N L}
    (same : ∀ l c, (f l).get? c = l.get? c) (c : Coord) :
    (h.modifyLevel i f).get? c = h.get? c := by
  rw [get?_modifyLevel]
  by_cases at_ : i = c.level
  · subst at_
    simp [get?, same]
  · simp [at_]

theorem get?_modify (h : Hierarchy N L) (c e : Coord) (f : Node N → Node N) :
    (h.modify c f).get? e = if c = e then (h.get? e).map f else h.get? e := by
  rw [modify, get?_modifyLevel]
  by_cases level : c.level = e.level
  · rw [level, if_pos rfl, get?]
    cases h.level? e.level with
    | none => simp
    | some l => simpa using Level.get?_modify l c e f
  · have differ : c ≠ e := fun same => level (congrArg Coord.level same)
    simp [level, differ]

theorem contains_modify (h : Hierarchy N L) (c : Coord) (f : Node N → Node N)
    (x : Coord) : (h.modify c f).contains x = h.contains x := by
  rw [contains, get?_modify]
  split
  · rename_i same
    subst same
    simp [contains]
  · rfl

/-- The listing of a hierarchy holds what its coordinates hold. -/
theorem mem_flatMap_nodeList {h : Hierarchy N L} (num : h.Numbered) {k : Nat} {n : Node N} :
    n ∈ (h.levels.take k).flatMap Level.nodeList ↔ ∃ c, c.level.toNat < k ∧ h.get? c = some n := by
  rw [List.mem_flatMap]
  constructor
  · rintro ⟨l, mem, listed⟩
    obtain ⟨p, at_⟩ := Level.mem_nodeList.mp listed
    obtain ⟨i, hi, rfl⟩ := List.mem_iff_getElem.mp mem
    rw [List.length_take] at hi
    rw [List.getElem_take] at at_
    have inside : i < h.levels.length := by omega
    have stored := num.level?_index (List.getElem_mem inside)
    refine ⟨⟨p, h.levels[i].index⟩, ?_, ?_⟩
    · rw [num.toNat_index inside]
      omega
    · rw [get?_of_level? stored, Level.get?_mk]
      exact at_
  · rintro ⟨c, below, found⟩
    obtain ⟨l, stored, at_⟩ := level?_of_get? found
    refine ⟨l, ?_, Level.mem_nodeList.mpr ⟨c.pos, (Level.get?_eq_some_iff.mp at_).2⟩⟩
    obtain ⟨hi, rfl⟩ := List.getElem?_eq_some_iff.mp stored
    exact List.mem_iff_getElem.mpr
      ⟨c.level.toNat, by rw [List.length_take]; omega, List.getElem_take⟩

namespace Numbered

variable {h : Hierarchy N L} {c : Coord}

theorem mem_nodeList (num : h.Numbered) {n : Node N} :
    n ∈ h.nodeList ↔ ∃ c, h.get? c = some n := by
  have all : h.nodeList = (h.levels.take h.levels.length).flatMap Level.nodeList := by
    rw [List.take_length, nodeList]
  rw [all, mem_flatMap_nodeList num]
  constructor
  · rintro ⟨c, -, found⟩
    exact ⟨c, found⟩
  · rintro ⟨c, found⟩
    obtain ⟨l, stored, -⟩ := level?_of_get? found
    exact ⟨c, (List.getElem?_eq_some_iff.mp stored).1, found⟩

theorem level_lt (num : h.Numbered) (resident : h.contains c = true) : c.level < h.levelCount := by
  obtain ⟨n, found⟩ := contains_iff.mp resident
  obtain ⟨l, stored, _⟩ := level?_of_get? found
  exact (num.lt_levelCount_iff c.level).mpr ⟨l, stored⟩

theorem level_ne (num : h.Numbered) (resident : h.contains c = true) : c.level ≠ 255 :=
  Coord.level_ne_of_lt (num.level_lt resident)

/-- A resident parent shows that its child does not lie on the coarsest level. -/
theorem lt_coarsest_of_parent (num : h.Numbered) (below : c.level ≠ 255)
    (resident : h.contains c.parent = true) : c.level < h.coarsest := by
  have inside := UInt8.lt_iff_toNat_lt.mp (num.level_lt resident)
  rw [num.toNat_levelCount, Coord.toNat_parent_level below] at inside
  exact (num.lt_coarsest_iff c.level).mpr inside

end Numbered

/-! ### Queues by level -/

theorem pending_of_level? {h : Hierarchy N L} {i : UInt8} {l : Level N L}
    (stored : h.level? i = some l) (q : Queue) : h.pending i q = l.pending q := by
  rw [pending, stored]

theorem pending_of_level?_none {h : Hierarchy N L} {i : UInt8} (absent : h.level? i = none)
    (q : Queue) : h.pending i q = [] := by
  rw [pending, absent]

theorem pending_eq_nil {h : Hierarchy N L} {q : Queue} (each : ∀ l ∈ h.levels, l.pending q = [])
    (i : UInt8) : h.pending i q = [] := by
  cases stored : h.level? i with
  | none => exact pending_of_level?_none stored q
  | some l => rw [pending_of_level? stored, each l (mem_levels_of_level? stored)]

theorem pending_modifyLevel (h : Hierarchy N L) (i j : UInt8) (f : Level N L → Level N L)
    (q : Queue) : (h.modifyLevel i f).pending j q =
      if i = j then ((h.level? j).map fun l => (f l).pending q).getD [] else h.pending j q := by
  rw [pending, pending, level?_modifyLevel]
  by_cases level : i = j
  · rw [if_pos level, if_pos level]
    cases h.level? j <;> rfl
  · rw [if_neg level, if_neg level]

theorem pending_clear (h : Hierarchy N L) (i j : UInt8) (p q : Queue) :
    (h.modifyLevel i (·.clear p)).pending j q =
      if i = j ∧ p = q then [] else h.pending j q := by
  rw [pending_modifyLevel]
  by_cases level : i = j
  · cases stored : h.level? j with
    | none => simp [level, pending_of_level?_none stored]
    | some l => simp [level, pending_of_level? stored, Level.pending_clear]
  · simp [level]

theorem mem_range_levels {k : Nat} (short : k ≤ 256) {i : UInt8} :
    i ∈ (List.range k).map UInt8.ofNat ↔ i.toNat < k := by
  rw [List.mem_map]
  constructor
  · rintro ⟨n, listed, rfl⟩
    have small := List.mem_range.mp listed
    rw [UInt8.toNat_ofNat']
    omega
  · intro below
    exact ⟨i.toNat, List.mem_range.mpr below, UInt8.ofNat_toNat⟩

theorem range_levels_ascending {k : Nat} (short : k ≤ 256) :
    ((List.range k).map UInt8.ofNat).Pairwise (· < ·) := by
  refine List.pairwise_map.mpr (List.pairwise_lt_range.imp_of_mem fun {a b} ha hb lower => ?_)
  have small := List.mem_range.mp ha
  have small' := List.mem_range.mp hb
  rw [UInt8.lt_iff_toNat_lt, UInt8.toNat_ofNat', UInt8.toNat_ofNat']
  omega

theorem mem_indices {h : Hierarchy N L} {i : UInt8} :
    i ∈ h.indices ↔ i < h.levelCount := by
  rw [indices, mem_range_levels (Nat.le_of_lt h.levelCount.toNat_lt), UInt8.lt_iff_toNat_lt]

theorem Numbered.pending_of_not_mem_indices {h : Hierarchy N L} (num : h.Numbered) {i : UInt8}
    (away : i ∉ h.indices) (q : Queue) : h.pending i q = [] := by
  refine pending_of_level?_none ?_ q
  cases stored : h.level? i with
  | none => rfl
  | some l => exact absurd (mem_indices.mpr ((num.lt_levelCount_iff i).mpr ⟨l, stored⟩)) away

/-! ### Marking a node for a command -/

/-- Change the node at a coordinate and queue a command for it. -/
def mark (h : Hierarchy N L) (c : Coord) (f : Node N → Node N) (q : Queue) : Hierarchy N L :=
  h.modifyLevel c.level fun l => (l.modify c f).push q c

theorem modifyLevel_congr {h : Hierarchy N L} {i : UInt8} {f g : Level N L → Level N L}
    (same : ∀ l, h.level? i = some l → f l = g l) : h.modifyLevel i f = h.modifyLevel i g := by
  have levels : h.levels.modify i.toNat f = h.levels.modify i.toNat g := by
    apply List.ext_getElem?
    intro j
    simp only [List.getElem?_modify]
    cases at_ : h.levels[j]? with
    | none => rfl
    | some l =>
      by_cases here : i.toNat = j
      · subst here
        simpa using same l at_
      · simp [here]
  rw [modifyLevel, modifyLevel, levels]

theorem modifyLevel_modifyLevel (h : Hierarchy N L) (i : UInt8) (f g : Level N L → Level N L) :
    (h.modifyLevel i f).modifyLevel i g = h.modifyLevel i fun l => g (f l) := by
  rw [modifyLevel, modifyLevel, List.modify_modify_eq]
  rfl

/-- The command may as well be queued before the node changes. -/
theorem modify_push (h : Hierarchy N L) (c : Coord) (f : Node N → Node N) (q : Queue) :
    (h.modifyLevel c.level (·.push q c)).modify c f = h.mark c f q := by
  have swap : ∀ l : Level N L, (l.push q c).modify c f = (l.modify c f).push q c := by
    intro l
    have index : (l.push q c).index = l.index := rfl
    rw [Level.modify, Level.modify, index]
    split <;> rfl
  rw [modify, modifyLevel_modifyLevel, mark]
  exact modifyLevel_congr fun l _ => swap l

/-- On its own level a node may as well be addressed by its position. -/
theorem mark_eq_modifyAt {h : Hierarchy N L} (num : h.Numbered) (c : Coord) (f : Node N → Node N)
    (q : Queue) :
    h.mark c f q = h.modifyLevel c.level fun l => (l.modifyAt c.pos f).push q c :=
  modifyLevel_congr fun l stored => by rw [Level.modify, if_pos (num.index _ l stored).symm]

theorem get?_mark (h : Hierarchy N L) (c e : Coord) (f : Node N → Node N) (q : Queue) :
    (h.mark c f q).get? e = if c = e then (h.get? e).map f else h.get? e := by
  rw [← get?_modify, modify, mark, get?_modifyLevel, get?_modifyLevel]
  rfl

theorem length_mark (h : Hierarchy N L) (c : Coord) (f : Node N → Node N) (q : Queue) :
    (h.mark c f q).levels.length = h.levels.length := length_modifyLevel h c.level _

theorem pending_mark {h : Hierarchy N L} (num : h.Numbered) {c : Coord}
    (inside : c.level < h.levelCount) (f : Node N → Node N) (q : Queue) (i : UInt8) (p : Queue) :
    (h.mark c f q).pending i p =
      if c.level = i ∧ q = p then h.pending i p ++ [c] else h.pending i p := by
  obtain ⟨l, stored⟩ := (num.lt_levelCount_iff c.level).mp inside
  have own : c.level = l.index := (num.index _ l stored).symm
  have keeps : (l.modify c f).pending p = l.pending p :=
    Level.pending_congr (Level.bare_eq_iff.mp (Level.bare_modify l c f)).2.1 p
  rw [mark, pending_modifyLevel]
  by_cases level : c.level = i
  · subst level
    have owned : c.level = (l.modify c f).index := own.trans (Level.index_modify l c f).symm
    rw [if_pos rfl, stored, Option.map_some, Option.getD_some, Level.pending_push _ q p c owned,
      keeps, pending_of_level? stored]
    simp
  · simp [level]

/-! ### Frames -/

theorem frame_modifyLevel (h : Hierarchy N L) (i : UInt8) {f : Level N L → Level N L}
    (same : ∀ l, (f l).bare = l.bare) : (h.modifyLevel i f).frame = h.frame := by
  apply List.ext_getElem?
  intro j
  simp only [frame, modifyLevel, List.getElem?_map, List.getElem?_modify]
  cases h.levels[j]? with
  | none => rfl
  | some l =>
    by_cases at_ : i.toNat = j
    · simp [at_, same]
    · simp [at_]

theorem frame_modify (h : Hierarchy N L) (c : Coord) (f : Node N → Node N) :
    (h.modify c f).frame = h.frame :=
  frame_modifyLevel h c.level fun l => Level.bare_modify l c f

section Frame

variable {h g : Hierarchy N L} (same : g.frame = h.frame)

include same

theorem length_of_frame : g.levels.length = h.levels.length := by
  simpa [frame] using congrArg List.length same

theorem level?_of_frame {i : UInt8} {l : Level N L} (stored : h.level? i = some l) :
    ∃ m, g.level? i = some m ∧ m.bare = l.bare := by
  have at_ : g.frame[i.toNat]? = h.frame[i.toNat]? := by rw [same]
  simp only [level?] at stored ⊢
  simpa [frame, stored] using at_

theorem level?_none_of_frame {i : UInt8} (absent : h.level? i = none) : g.level? i = none := by
  have at_ : g.frame[i.toNat]? = h.frame[i.toNat]? := by rw [same]
  simp only [level?] at absent ⊢
  simpa [frame, absent] using at_

theorem pending_of_frame (i : UInt8) (q : Queue) : g.pending i q = h.pending i q := by
  unfold pending
  cases stored : h.level? i with
  | none => rw [level?_none_of_frame same stored]
  | some l =>
    obtain ⟨m, found, bare⟩ := level?_of_frame same stored
    rw [found]
    exact Level.pending_congr (Level.bare_eq_iff.mp bare).2.1 q

theorem Numbered.of_frame (num : h.Numbered) : g.Numbered where
  length_lt := by rw [length_of_frame same]; exact num.length_lt
  index := by
    intro i m found
    obtain ⟨l, stored, bare⟩ := level?_of_frame same.symm found
    rw [(Level.bare_eq_iff.mp bare).1.symm]
    exact num.index i l stored

end Frame

theorem empty_numbered (factory : PayloadFactory N L) (count : UInt8) :
    (empty factory count).Numbered where
  length_lt := by simpa [empty] using count.toNat_lt
  index := by
    intro i l found
    obtain ⟨_, rfl⟩ := List.getElem?_eq_some_iff.mp found
    simp [empty, Level.empty]

/-! ### Level by level -/

/-- A relation between the levels at each index. -/
def Levelwise (R : Level N L → Level N L → Prop) (h g : Hierarchy N L) : Prop :=
  List.Forall₂ R h.levels g.levels

namespace Levelwise

variable {R S : Level N L → Level N L → Prop} {h g k : Hierarchy N L}

theorem refl (same : ∀ l, R l l) (h : Hierarchy N L) : Levelwise R h h :=
  List.forall₂_same.mpr fun l _ => same l

theorem imp (weaker : ∀ l m, R l m → S l m) (rel : Levelwise R h g) : Levelwise S h g :=
  List.Forall₂.imp weaker rel

theorem trans (compose : ∀ l m n, R l m → R m n → R l n) (first : Levelwise R h g)
    (second : Levelwise R g k) : Levelwise R h k :=
  forall₂_comp compose first second

theorem length_eq (rel : Levelwise R h g) : g.levels.length = h.levels.length :=
  (List.Forall₂.length_eq rel).symm

theorem level? (rel : Levelwise R h g) {i : UInt8} {l : Level N L}
    (stored : h.level? i = some l) : ∃ m, g.level? i = some m ∧ R l m := by
  obtain ⟨hi, rfl⟩ := List.getElem?_eq_some_iff.mp stored
  have hi' : i.toNat < g.levels.length := by rw [rel.length_eq]; exact hi
  exact ⟨g.levels[i.toNat], List.getElem?_eq_getElem hi', List.Forall₂.get rel hi hi'⟩

theorem level?_back (rel : Levelwise R h g) {i : UInt8} {m : Level N L}
    (stored : g.level? i = some m) : ∃ l, h.level? i = some l ∧ R l m := by
  obtain ⟨hi', rfl⟩ := List.getElem?_eq_some_iff.mp stored
  have hi : i.toNat < h.levels.length := by rw [← rel.length_eq]; exact hi'
  exact ⟨h.levels[i.toNat], List.getElem?_eq_getElem hi, List.Forall₂.get rel hi hi'⟩

theorem level?_none (rel : Levelwise R h g) {i : UInt8} (absent : h.level? i = none) :
    g.level? i = none := by
  cases stored : g.level? i with
  | none => rfl
  | some m =>
    obtain ⟨l, found, _⟩ := rel.level?_back stored
    rw [absent] at found
    cases found

/-- What two related hierarchies have at a coordinate is what two related levels have there. -/
theorem get? (rel : Levelwise R h g) (c : Coord) :
    (h.get? c = none ∧ g.get? c = none) ∨
      ∃ l m, R l m ∧ h.level? c.level = some l ∧ g.level? c.level = some m ∧
        h.get? c = l.get? c ∧ g.get? c = m.get? c := by
  cases stored : h.level? c.level with
  | none =>
    exact Or.inl ⟨get?_of_level?_none stored, get?_of_level?_none (rel.level?_none stored)⟩
  | some l =>
    obtain ⟨m, found, step⟩ := rel.level? stored
    exact Or.inr ⟨l, m, step, rfl, found, get?_of_level? stored, get?_of_level? found⟩

/-- What becomes of the nodes of every level becomes of those of the hierarchy. -/
theorem nodewise {T : Node N → Node N → Prop} (rel : Levelwise (Level.Nodewise T) h g)
    (c : Coord) : Option.Rel T (h.get? c) (g.get? c) := by
  rcases rel.get? c with ⟨before, after⟩ | ⟨l, m, nodes, -, -, before, after⟩
  · rw [before, after]
    exact .none
  · rw [before, after]
    exact nodes c

/-- What becomes of a queue on every level becomes of it in the hierarchy. -/
theorem pending {q : Queue} (rel : Levelwise R h g) {f : List Coord → List Coord}
    (empty : f [] = []) (each : ∀ l m, R l m → m.pending q = f (l.pending q)) (i : UInt8) :
    g.pending i q = f (h.pending i q) := by
  cases stored : h.level? i with
  | none =>
    rw [pending_of_level?_none stored, pending_of_level?_none (rel.level?_none stored), empty]
  | some l =>
    obtain ⟨m, found, step⟩ := rel.level? stored
    rw [pending_of_level? stored, pending_of_level? found]
    exact each l m step

theorem numbered (index : ∀ l m, R l m → m.index = l.index) (rel : Levelwise R h g)
    (num : h.Numbered) : g.Numbered where
  length_lt := by rw [rel.length_eq]; exact num.length_lt
  index := by
    intro i m stored
    obtain ⟨l, found, step⟩ := rel.level?_back stored
    rw [index l m step]
    exact num.index i l found

end Levelwise

theorem levelwise_modifyLevel {R : Level N L → Level N L → Prop} (same : ∀ l, R l l)
    {h : Hierarchy N L} {i : UInt8} {f : Level N L → Level N L}
    (step : ∀ l, h.level? i = some l → R l (f l)) : Levelwise R h (h.modifyLevel i f) := by
  refine List.forall₂_iff_get.mpr ⟨(length_modifyLevel h i f).symm, ?_⟩
  intro j hj hj'
  simp only [List.get_eq_getElem, modifyLevel, List.getElem_modify]
  split
  · rename_i at_
    apply step
    rw [level?, at_]
    exact List.getElem?_eq_getElem hj
  · exact same _

end Hierarchy

/-- What a step does to each element, a sweep does to each element of the list. -/
theorem forall₂_sweep {τ σ α : Type} {R : τ → τ → Prop} {step : τ → σ → α × τ × σ} {ts : List τ}
    (each : ∀ t ∈ ts, ∀ s, R t (step t s).2.1) (s : σ) :
    List.Forall₂ R ts (sweep step ts s).2.1 := by
  induction ts generalizing s with
  | nil => exact .nil
  | cons t ts ih =>
    exact .cons (each t List.mem_cons_self s)
      (ih (fun u hu => each u (List.mem_cons_of_mem t hu)) _)

/-- A sweep over the levels takes a step on one level after the other. -/
theorem Hierarchy.sweep_induct {σ α : Type} {step : Level N L → σ → α × Level N L × σ}
    {P : Hierarchy N L → σ → Prop} {h : Hierarchy N L} (short : h.levels.length < 256)
    (each : ∀ l ∈ h.levels, ∀ g i s, g.level? i = some l → P g s →
      P (g.modifyLevel i fun _ => (step l s).2.1) (step l s).2.2) {s : σ} (before : P h s) :
    P ⟨(sweep step h.levels s).2.1⟩ (sweep step h.levels s).2.2 := by
  -- With the levels that have been swept already in front.
  have walk : ∀ (rest done : List (Level N L)) (s : σ), done.length + rest.length < 256 →
      (∀ l ∈ rest, l ∈ h.levels) → P ⟨done ++ rest⟩ s →
      P ⟨done ++ (sweep step rest s).2.1⟩ (sweep step rest s).2.2 := by
    intro rest
    induction rest with
    | nil => exact fun done s _ _ before => before
    | cons l ls ih =>
      intro done s short among before
      rw [List.length_cons] at short
      have here : (UInt8.ofNat done.length).toNat = done.length := by
        rw [UInt8.toNat_ofNat']
        omega
      have stored :
          (Hierarchy.mk (done ++ l :: ls)).level? (UInt8.ofNat done.length) = some l := by
        rw [level?, here]
        simp
      have result : (Hierarchy.mk (done ++ l :: ls)).modifyLevel (UInt8.ofNat done.length)
          (fun _ => (step l s).2.1) = ⟨done ++ [(step l s).2.1] ++ ls⟩ := by
        rw [modifyLevel, here]
        simp [List.modify_eq_take_drop]
      have first := each l (among l List.mem_cons_self) _ _ s stored before
      rw [result] at first
      have later := ih (done ++ [(step l s).2.1]) (step l s).2.2
        (by rw [List.length_append, List.length_singleton]; omega)
        (fun m listed => among m (List.mem_cons_of_mem l listed)) first
      rwa [List.append_assoc _ [_] (sweep step ls _).2.1] at later
  exact walk h.levels [] s (by rwa [List.length_nil, Nat.zero_add]) (fun _ => id) before

/-- What a step carries over, a sweep carries over to all elements. -/
theorem forall_sweep {τ σ α : Type} {P : τ → Prop} {step : τ → σ → α × τ × σ} {ts : List τ}
    (each : ∀ t ∈ ts, ∀ s, P t → P (step t s).2.1) (before : ∀ t ∈ ts, P t) (s : σ) :
    ∀ t ∈ (sweep step ts s).2.1, P t := by
  intro u listed
  have related := forall₂_sweep (R := fun t u => P t → P u) each s
  obtain ⟨t, mem, carry⟩ := exists_of_forall₂ related listed
  exact carry (before t mem)

end OctreeWorld
