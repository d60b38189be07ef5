import OctreeWorld.Processor

/-!
# Views of a level

A level is read through `Level.get?`, its queues and its payload. Every operation on one level is
described here by what it does to these views; the modules above never look at the map of nodes.
-/

/-- The values of a map are those of its listing. -/
theorem Std.ExtTreeMap.values_eq_map_toList {α β : Type} {cmp : α → α → Ordering}
    [Std.TransCmp cmp] (t : Std.ExtTreeMap α β cmp) : t.values = t.toList.map (·.2) := by
  obtain ⟨⟨q⟩⟩ := t
  induction q using Quotient.ind with
  | _ m =>
    obtain ⟨m, _⟩ := m
    let _ : Ord α := ⟨cmp⟩
    change m.values = (Std.DTreeMap.Internal.Impl.Const.toList m).map (·.2)
    rw [Std.DTreeMap.Internal.Impl.values_eq_map_snd,
      Std.DTreeMap.Internal.Impl.Const.toList_eq_toListModel_map]
    simp

namespace OctreeWorld

variable {N L : Type}

/-! ### Nodes -/

namespace Node

/-- What the hierarchy writes into a node. -/
def links (n : Node N) : Coord × Option UInt8 × ChildMask × NeighbourMask :=
  (n.coord, n.parentIndex, n.childMask, n.neighbourMask)

/-- Two nodes with the same bits of one kind agree on every one of them. -/
theorem links_eq_iff {n m : Node N} : n.links = m.links ↔
    n.coord = m.coord ∧ n.parentIndex = m.parentIndex ∧
      n.childMask = m.childMask ∧ n.neighbourMask = m.neighbourMask := by
  simp [links]

/-- The effect of a processor's edit on the node it is about. -/
def edit (n : Node N) : NodeEdit N L → Node N
  | .setState s => n.withState s
  | .bumpVersion => n.bumpVersion
  | .raiseVersion v => n.raiseVersion v
  | .touch now => n.touch now
  | .setData d => { n with data := d }
  | .setLevelData _ => n

theorem links_edit (n : Node N) (e : NodeEdit N L) : (n.edit e).links = n.links := by
  cases e <;> rfl

theorem observers_edit (n : Node N) (e : NodeEdit N L) :
    (n.edit e).observers = n.observers := by
  cases e <;> rfl

theorem version_le_edit (n : Node N) (e : NodeEdit N L) : n.version ≤ (n.edit e).version := by
  cases e with
  | bumpVersion =>
    simp only [edit, bumpVersion]
    split
    · exact UInt32.le_refl _
    · rename_i below
      have room := n.version.toNat_lt
      have distinct : n.version.toNat ≠ 4294967295 := fun top => below (UInt32.toNat_inj.mp top)
      rw [UInt32.le_iff_toNat_le, UInt32.toNat_add]
      have one : (1 : UInt32).toNat = 1 := rfl
      omega
  | raiseVersion v =>
    simp only [edit, raiseVersion]
    by_cases newer : n.version ≤ v
    · rwa [show max n.version v = v from if_pos newer]
    · rw [show max n.version v = n.version from if_neg newer]
      exact UInt32.le_refl _
  | _ => exact UInt32.le_refl _

theorem removeObserver?_eq_some {n m : Node N} (taken : n.removeObserver? = some m) :
    ∃ count, m = { n with observers := count } := by
  unfold removeObserver? at taken
  split at taken
  · cases taken
  · exact ⟨_, (Option.some.inj taken).symm⟩

theorem state_congr {n m : Node N} (same : n.clearLinks = m.clearLinks) : n.state = m.state := by
  have state := congrArg Node.state same
  exact state

theorem hasChild_congr {n m : Node N} (same : n.childMask = m.childMask) (o : Octant) :
    n.hasChild o = m.hasChild o := by
  rw [hasChild, hasChild, same]

theorem hasNeighbour_congr {n m : Node N} (same : n.neighbourMask = m.neighbourMask)
    (d : Direction) : n.hasNeighbour d = m.hasNeighbour d := by
  rw [hasNeighbour, hasNeighbour, same]

theorem isLeaf_iff (n : Node N) : n.isLeaf = true ↔ ∀ o, n.hasChild o = false := by
  rw [isLeaf, beq_iff_eq]
  constructor
  · intro h o
    simp [hasChild, h]
  · intro h
    apply BitVec.eq_of_getLsbD_eq
    intro i hi
    simpa [hasChild] using h ⟨i, hi⟩

end Node

/-! ### Levels -/

namespace Level

/-- The level without its nodes. -/
def bare (l : Level N L) : Level N L := { l with nodes := ∅ }

theorem bare_eq_iff {l m : Level N L} : l.bare = m.bare ↔
    l.index = m.index ∧ l.queues = m.queues ∧ l.data = m.data := by
  simp [bare]

theorem get?_eq_some_iff {l : Level N L} {c : Coord} {n : Node N} :
    l.get? c = some n ↔ c.level = l.index ∧ l.nodes[c.pos]? = some n := by
  unfold get?
  split <;> simp_all

theorem get?_mk (l : Level N L) (p : Position) : l.get? ⟨p, l.index⟩ = l.nodes[p]? := by
  simp [get?]

theorem level_eq_of_get? {l : Level N L} {c : Coord} {n : Node N} (h : l.get? c = some n) :
    c.level = l.index := (get?_eq_some_iff.mp h).1

/-! #### Changing nodes -/

theorem getElem?_modifyAt (l : Level N L) (p q : Position) (f : Node N → Node N) :
    (l.modifyAt p f).nodes[q]? = if p = q then (l.nodes[q]?).map f else l.nodes[q]? := by
  by_cases same : p = q
  · subst same
    simp [modifyAt]
  · simp [modifyAt, Std.ExtTreeMap.getElem?_modify, same]

theorem get?_modify (l : Level N L) (c e : Coord) (f : Node N → Node N) :
    (l.modify c f).get? e = if c = e then (l.get? e).map f else l.get? e := by
  obtain ⟨p, i⟩ := c
  obtain ⟨q, j⟩ := e
  by_cases own : i = l.index
  · subst own
    simp only [modify, if_true, get?]
    change (if j = l.index then (l.modifyAt p f).nodes[q]? else none) = _
    rw [getElem?_modifyAt]
    by_cases hj : j = l.index
    · subst hj
      by_cases hp : p = q <;> simp [hp]
    · simp [hj, Ne.symm hj]
  · simp only [modify, own, if_false]
    by_cases same : (⟨p, i⟩ : Coord) = ⟨q, j⟩
    · cases same
      simp [get?, own]
    · simp [same]

/-- What a change leaves alone in a node, it leaves alone in all nodes. -/
theorem map_get?_modify {α : Type} {view : Node N → α} (l : Level N L) (c : Coord)
    {f : Node N → Node N} (same : ∀ n, view (f n) = view n) (e : Coord) :
    ((l.modify c f).get? e).map view = (l.get? e).map view := by
  rw [get?_modify]
  split
  · cases l.get? e <;> simp [same]
  · rfl

theorem map_get?_modifyAll {α : Type} {view : Node N → α} (l : Level N L) (cs : List Coord)
    {f : Node N → Node N} (same : ∀ n, view (f n) = view n) (e : Coord) :
    ((l.modifyAll cs f).get? e).map view = (l.get? e).map view := by
  induction cs generalizing l with
  | nil => rfl
  | cons c cs ih => exact (ih (l.modify c f)).trans (map_get?_modify l c same e)

theorem bare_modify (l : Level N L) (c : Coord) (f : Node N → Node N) :
    (l.modify c f).bare = l.bare := by
  unfold modify
  split <;> rfl

theorem index_modify (l : Level N L) (c : Coord) (f : Node N → Node N) :
    (l.modify c f).index = l.index := (bare_eq_iff.mp (bare_modify l c f)).1

theorem bare_modifyAll (l : Level N L) (cs : List Coord) (f : Node N → Node N) :
    (l.modifyAll cs f).bare = l.bare := by
  induction cs generalizing l with
  | nil => rfl
  | cons c cs ih => exact (ih (l.modify c f)).trans (bare_modify l c f)

theorem index_modifyAll (l : Level N L) (cs : List Coord) (f : Node N → Node N) :
    (l.modifyAll cs f).index = l.index := (bare_eq_iff.mp (bare_modifyAll l cs f)).1

theorem queues_modifyAll (l : Level N L) (cs : List Coord) (f : Node N → Node N) :
    (l.modifyAll cs f).queues = l.queues := (bare_eq_iff.mp (bare_modifyAll l cs f)).2.1

/-- A change that repeats without effect reaches each listed node, however often it is listed. -/
theorem get?_modifyAll (l : Level N L) (cs : List Coord) {f : Node N → Node N}
    (twice : ∀ n, f (f n) = f n) (e : Coord) :
    (l.modifyAll cs f).get? e = if e ∈ cs then (l.get? e).map f else l.get? e := by
  induction cs generalizing l with
  | nil => simp [modifyAll]
  | cons c cs ih =>
    change ((l.modify c f).modifyAll cs f).get? e = _
    rw [ih, get?_modify]
    by_cases hc : c = e
    · subst hc
      cases l.get? c <;> simp [twice]
    · simp [hc, Ne.symm hc]

theorem get?_editNode (l : Level N L) (c x : Coord) (e : NodeEdit N L) :
    (l.editNode c e).get? x = if c = x then (l.get? x).map (·.edit e) else l.get? x := by
  cases e with
  | setLevelData d =>
    change l.get? x = _
    split
    · exact Option.map_id'.symm
    · rfl
  | _ => exact get?_modify l c x _

theorem index_editNode (l : Level N L) (c : Coord) (e : NodeEdit N L) :
    (l.editNode c e).index = l.index := by
  cases e with
  | setLevelData d => rfl
  | _ => exact index_modify l c _

theorem queues_editNode (l : Level N L) (c : Coord) (e : NodeEdit N L) :
    (l.editNode c e).queues = l.queues := by
  cases e with
  | setLevelData d => rfl
  | _ => exact (bare_eq_iff.mp (bare_modify l c _)).2.1

/-! #### Queues -/

theorem get?_pushAll (l : Level N L) (q : Queue) (cs : List Coord) (c : Coord) :
    (l.pushAll q cs).get? c = l.get? c := rfl

theorem get?_clear (l : Level N L) (q : Queue) (c : Coord) : (l.clear q).get? c = l.get? c := rfl

theorem mem_own {l : Level N L} {cs : List Coord} {c : Coord} :
    c ∈ l.own cs ↔ c ∈ cs ∧ c.level = l.index := by
  simp [own]

theorem pending_pushAll (l : Level N L) (q p : Queue) (cs : List Coord) :
    (l.pushAll q cs).pending p = if q = p then l.pending p ++ l.own cs else l.pending p :=
  Queues.get_append ..

theorem pending_push (l : Level N L) (q p : Queue) (c : Coord) (own : c.level = l.index) :
    (l.push q c).pending p = if q = p then l.pending p ++ [c] else l.pending p := by
  rw [push, pending_pushAll]
  simp [Level.own, own]

theorem pending_clear (l : Level N L) (q p : Queue) :
    (l.clear q).pending p = if q = p then [] else l.pending p :=
  Queues.get_set ..

theorem pending_congr {l m : Level N L} (same : l.queues = m.queues) (q : Queue) :
    l.pending q = m.pending q := by
  rw [pending, pending, same]

theorem mem_addAll {s : CoordSet} {cs : List Coord} {c : Coord} :
    c ∈ s.addAll cs ↔ c ∈ s ∨ c ∈ cs := by
  rw [CoordSet.addAll, Std.ExtTreeSet.mem_insertMany_list, List.contains_iff_mem]

theorem mem_sorted {cs : List Coord} {c : Coord} : c ∈ CoordSet.sorted cs ↔ c ∈ cs := by
  rw [CoordSet.sorted, Std.ExtTreeSet.mem_toList, Std.ExtTreeSet.mem_ofList,
    List.contains_iff_mem]

theorem mem_drained {l : Level N L} {q : Queue} {c : Coord} :
    c ∈ l.drained q ↔ c ∈ l.pending q := mem_sorted

theorem nodup_toList (s : CoordSet) : s.toList.Nodup := by
  refine (Std.ExtTreeSet.distinct_toList (t := s)).imp ?_
  intro a b differ same
  exact differ (Std.compare_eq_iff_eq.mpr same)

theorem nodup_drained (l : Level N L) (q : Queue) : (l.drained q).Nodup := by
  rw [drained, CoordSet.sorted]
  exact nodup_toList _

/-! #### Listings -/

theorem mem_nodeList {l : Level N L} {n : Node N} :
    n ∈ l.nodeList ↔ ∃ p : Position, l.nodes[p]? = some n := by
  rw [nodeList, Std.ExtTreeMap.values_eq_map_toList, List.mem_map]
  constructor
  · rintro ⟨⟨p, m⟩, listed, rfl⟩
    exact ⟨p, Std.ExtTreeMap.mem_toList_iff_getElem?_eq_some.mp listed⟩
  · rintro ⟨p, stored⟩
    exact ⟨⟨p, n⟩, Std.ExtTreeMap.mem_toList_iff_getElem?_eq_some.mpr stored, rfl⟩

/-! #### Node by node -/

/-- The same cells are resident, and each node relates to what it was. -/
def Nodewise (R : Node N → Node N → Prop) (l m : Level N L) : Prop :=
  ∀ c, Option.Rel R (l.get? c) (m.get? c)

namespace Nodewise

variable {R S : Node N → Node N → Prop} {l m k : Level N L}

theorem imp (weaker : ∀ n m, R n m → S n m) (rel : l.Nodewise R m) : l.Nodewise S m := by
  intro c
  have related := rel c
  generalize l.get? c = x at related
  generalize m.get? c = y at related
  cases related with
  | none => exact .none
  | some step => exact .some (weaker _ _ step)

theorem trans (compose : ∀ n m k, R n m → R m k → R n k) (first : l.Nodewise R m)
    (second : m.Nodewise R k) : l.Nodewise R k := by
  intro c
  have a := first c
  have b := second c
  generalize l.get? c = x at a
  generalize m.get? c = y at a b
  generalize k.get? c = z at b
  cases a with
  | none => exact b
  | some step =>
    cases b with
    | some next => exact .some (compose _ _ _ step next)

section Refl

variable (refl : ∀ n, R n n)

include refl

theorem of_get? (same : ∀ c, m.get? c = l.get? c) : l.Nodewise R m := by
  intro c
  rw [same]
  cases l.get? c with
  | none => exact .none
  | some n => exact .some (refl n)

theorem modify (l : Level N L) (c : Coord) {f : Node N → Node N}
    (each : ∀ n, l.get? c = some n → R n (f n)) : l.Nodewise R (l.modify c f) := by
  intro e
  rw [get?_modify]
  by_cases here : c = e
  · subst here
    rw [if_pos rfl]
    cases found : l.get? c with
    | none => exact .none
    | some n => exact .some (each n found)
  · rw [if_neg here]
    cases l.get? e with
    | none => exact .none
    | some n => exact .some (refl n)

/-- The change is made as often as a node is listed. -/
theorem modifyAll (compose : ∀ n m k, R n m → R m k → R n k) (l : Level N L) (cs : List Coord)
    {f : Node N → Node N} (each : ∀ n, R n (f n)) : l.Nodewise R (l.modifyAll cs f) := by
  induction cs generalizing l with
  | nil => exact of_get? refl fun _ => rfl
  | cons c cs ih => exact (modify refl l c fun n _ => each n).trans compose (ih (l.modify c f))

end Refl

end Nodewise

end Level

end OctreeWorld
