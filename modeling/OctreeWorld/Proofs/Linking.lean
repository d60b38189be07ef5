import OctreeWorld.Proofs.Links

/-!
# Insertion and removal

What `Hierarchy.insert` and `Hierarchy.remove` do to a linked hierarchy: a node may enter exactly
when its level exists, its cell is free and its parent is there, and a resident may leave exactly
when it is a leaf. Both leave the frame alone, patch the links around one cell, and end in a linked
hierarchy.
-/

namespace OctreeWorld

variable {N L : Type}

namespace Hierarchy

/-! ### One level -/

theorem bare_foldl_modifyAt (c : Coord) (change : Direction → Node N → Node N)
    (faces : List Direction) (l : Level N L) :
    (faces.foldl (fun l d => l.modifyAt (c.neighbour d).pos (change d)) l).bare = l.bare := by
  induction faces generalizing l with
  | nil => rfl
  | cons d ds ih => exact (ih (l.modifyAt (c.neighbour d).pos (change d))).trans rfl

/-- The nodes that look at a cell across some faces change, all others stay. -/
theorem get?_foldl_modifyAt {c : Coord} (e : Coord) (change : Direction → Node N → Node N)
    (faces : List Direction) {l : Level N L} (own : c.level = l.index) :
    (faces.foldl (fun l d => l.modifyAt (c.neighbour d).pos (change d)) l).get? e =
      (l.get? e).map (Node.patch change (fun d => c.neighbour d = e) faces) := by
  induction faces generalizing l with
  | nil => exact Option.map_id'.symm
  | cons d ds ih =>
    have step : l.modifyAt (c.neighbour d).pos (change d) = l.modify (c.neighbour d) (change d) :=
      (if_pos own).symm
    rw [List.foldl_cons, ih (l := l.modifyAt (c.neighbour d).pos (change d)) own, step,
      Level.get?_modify]
    cases l.get? e with
    | none => split <;> rfl
    | some n =>
      by_cases at_ : c.neighbour d = e
      · simp [at_, Node.patch_cons]
      · simp [at_, Node.patch_cons]

/-- The same on a hierarchy, where nodes of other levels see none of the faces. -/
theorem get?_modifyLevel_faces {h : Hierarchy N L} {c : Coord} {l : Level N L}
    (own : c.level = l.index) (stored : h.level? c.level = some l) {f : Level N L → Level N L}
    {change : Direction → Node N → Node N} {faces : List Direction}
    (same : f l = faces.foldl (fun l d => l.modifyAt (c.neighbour d).pos (change d)) l)
    (e : Coord) :
    (h.modifyLevel c.level f).get? e =
      (h.get? e).map (Node.patch change (fun d => c.neighbour d = e) faces) := by
  rw [get?_modifyLevel]
  split
  · rename_i level
    have stored' : h.level? e.level = some l := by rw [← level]; exact stored
    rw [stored, Option.bind_some, same, get?_foldl_modifyAt e change faces own,
      get?_of_level? stored']
  · rename_i level
    have away : ∀ d ∈ faces, c.neighbour d ≠ e := by
      rintro d - rfl
      exact level rfl
    have idle : Node.patch change (fun d => c.neighbour d = e) faces = id :=
      funext fun n => Node.patch_of_none away n
    rw [idle, Option.map_id, id]

theorem get?_insertIfNew (l : Level N L) (c e : Coord) (n : Node N) (own : c.level = l.index) :
    ({ l with nodes := l.nodes.insertIfNew c.pos n } : Level N L).get? e =
      if c = e ∧ l.get? c = none then some n else l.get? e := by
  obtain ⟨p, i⟩ := c
  obtain ⟨q, j⟩ := e
  have own : i = l.index := own
  subst own
  simp only [Level.get?, Std.ExtTreeMap.getElem?_insertIfNew, Std.compare_eq_iff_eq, if_true,
    Coord.mk.injEq]
  by_cases hj : j = l.index
  · subst hj
    simp [← Std.ExtTreeMap.contains_iff_mem]
  · simp [hj, Ne.symm hj]

theorem get?_erase (l : Level N L) (c e : Coord) (own : c.level = l.index) :
    ({ l with nodes := l.nodes.erase c.pos } : Level N L).get? e =
      if c = e then none else l.get? e := by
  obtain ⟨p, i⟩ := c
  obtain ⟨q, j⟩ := e
  have own : i = l.index := own
  subst own
  simp only [Level.get?, Std.ExtTreeMap.getElem?_erase, Std.compare_eq_iff_eq, Coord.mk.injEq]
  by_cases hj : j = l.index
  · subst hj
    simp
  · simp [hj, Ne.symm hj]

theorem mem_residentFaces {l : Level N L} {c : Coord} (own : c.level = l.index) {d : Direction} :
    d ∈ residentFaces l c ↔ l.contains (c.neighbour d) = true := by
  rw [residentFaces, List.mem_filter, Level.contains, Level.get?, Coord.neighbour_level, if_pos own,
    Std.ExtTreeMap.isSome_getElem?_eq_contains]
  exact and_iff_right d.mem_all

/-! ### Insertion -/

/-- The bits a node enters with: those of its resident neighbours and of its parent. -/
structure Entering (h : Hierarchy N L) (n m : Node N) : Prop where
  body : m.clearLinks = n.clearLinks
  neighbour : ∀ d, m.hasNeighbour d = h.contains (n.coord.neighbour d)
  parentIndex : m.parentIndex =
    if n.coord.level < h.coarsest then some n.coord.octant.index else none
  leaf : m.isLeaf = true

theorem entering_linked {h : Hierarchy N L} (num : h.Numbered) (n : Node N)
    (inside : n.coord.level < h.levelCount) : Entering h n (h.linked n) := by
  obtain ⟨l, stored⟩ := (num.lt_levelCount_iff _).mp inside
  let change (d : Direction) (m : Node N) : Node N := m.linkNeighbour d
  let m := Node.patch change (fun _ => True) (residentFaces l n.coord) n.clearLinks
  have coord : m.coord = n.coord := Node.patch_keeps Node.coord fun _ _ => rfl
  have linked : h.linked n =
      if n.coord.level < h.coarsest then { m with parentIndex := some n.coord.octant.index }
      else m := by
    rw [← coord]
    unfold Hierarchy.linked
    rw [stored]
    rfl
  have body : m.clearLinks = n.clearLinks :=
    Node.patch_keeps Node.clearLinks fun _ _ => rfl
  have mask : m.childMask = 0 := Node.patch_keeps Node.childMask fun _ _ => rfl
  have index : m.parentIndex = none := Node.patch_keeps Node.parentIndex fun _ _ => rfl
  have faces : ∀ d, m.hasNeighbour d = h.contains (n.coord.neighbour d) := by
    intro d
    have own : n.coord.level = l.index := (num.index _ l stored).symm
    have none_ : n.clearLinks.hasNeighbour d = false := by simp [Node.hasNeighbour, Node.clearLinks]
    have stored' : h.level? (n.coord.neighbour d).level = some l := stored
    apply Bool.eq_iff_iff.mpr
    rw [Node.hasNeighbour_patch_link (fun d => d) d, none_, contains, get?_of_level? stored']
    simp [mem_residentFaces own, Level.contains]
  have leaf : m.isLeaf = true := by rw [Node.isLeaf, mask]; rfl
  rw [linked]
  by_cases below : n.coord.level < h.coarsest
  · rw [if_pos below]
    exact ⟨body, faces, (if_pos below).symm, leaf⟩
  · rw [if_neg below]
    exact ⟨body, faces, index.trans (if_neg below).symm, leaf⟩

/-- Why a node may enter. -/
theorem insertError?_eq_none_iff {h : Hierarchy N L} {c : Coord} :
    h.insertError? c = none ↔ c.level < h.levelCount ∧ h.contains c = false ∧
      (c.level < h.coarsest → h.contains c.parent = true) := by
  unfold insertError?
  by_cases inside : h.levelCount ≤ c.level
  · simp [inside, UInt8.not_lt.mpr inside]
  · have inside' : c.level < h.levelCount := UInt8.not_le.mp inside
    by_cases resident : h.contains c = true
    · simp [inside, resident]
    · by_cases below : c.level < h.coarsest <;> simp [inside, inside', resident, below]

theorem Relinked.of_map {x : Coord} {h g : Hierarchy N L} (frame : g.frame = h.frame)
    (change : Coord → Node N → Node N)
    (seen : ∀ e, e ≠ x → g.get? e = (h.get? e).map (change e))
    (body : ∀ e m, (change e m).clearLinks = m.clearLinks)
    (parentIndex : ∀ e m, (change e m).parentIndex = m.parentIndex)
    (neighbour : ∀ e m, h.get? e = some m → ∀ d, (change e m).hasNeighbour d =
      if e.neighbour d = x then g.contains x else m.hasNeighbour d)
    (child : ∀ e m, h.get? e = some m → ∀ o, (change e m).hasChild o =
      if x.parent = e ∧ x.octant = o then g.contains x else m.hasChild o) : Relinked x h g := by
  have at_ : ∀ e, e ≠ x → ∀ m m', h.get? e = some m → g.get? e = some m' → m' = change e m := by
    intro e other m m' before after
    rw [seen e other, before] at after
    exact (Option.some.inj after).symm
  refine ⟨frame, ?_, ?_, ?_, ?_⟩
  · intro e other
    rw [Hierarchy.body, Hierarchy.body, seen e other]
    cases h.get? e with
    | none => rfl
    | some m => exact congrArg some (body e m)
  · intro e other m m' before after
    rw [at_ e other m m' before after]
    exact parentIndex e m
  · intro e other m m' before after d
    rw [at_ e other m m' before after]
    exact neighbour e m before d
  · intro e other m m' before after o
    rw [at_ e other m m' before after]
    exact child e m before o

/-- The node of a cell `e` once a newcomer at `c` has been linked in: the bits that look at `c`
are set. -/
def welcome (h : Hierarchy N L) (c : Coord) (faces : List Direction) (e : Coord) (m : Node N) :
    Node N :=
  if c.level < h.coarsest ∧ c.parent = e then
    (m.patch (fun d n => n.linkNeighbour d.opposite) (fun d => c.neighbour d = e) faces).linkChild
      c.octant
  else m.patch (fun d n => n.linkNeighbour d.opposite) (fun d => c.neighbour d = e) faces

section Welcome

variable {h : Hierarchy N L} {c e : Coord} {faces : List Direction} {m : Node N}

theorem welcome_keeps {α : Type} (view : Node N → α)
    (neighbour : ∀ (d : Direction) (n : Node N), view (n.linkNeighbour d.opposite) = view n)
    (child : ∀ n : Node N, view (n.linkChild c.octant) = view n) :
    view (welcome h c faces e m) = view m := by
  have patched : view (m.patch (fun d n => n.linkNeighbour d.opposite) (fun d => c.neighbour d = e)
      faces) = view m := Node.patch_keeps view neighbour
  unfold welcome
  split
  · exact (child _).trans patched
  · exact patched

theorem hasNeighbour_welcome (found : h.get? e = some m)
    (listed : ∀ d, d ∈ faces ↔ h.contains (c.neighbour d) = true) (d : Direction) :
    (welcome h c faces e m).hasNeighbour d =
      if e.neighbour d = c then true else m.hasNeighbour d := by
  have resident : h.contains e = true := contains_iff.mpr ⟨m, found⟩
  have patched : (welcome h c faces e m).hasNeighbour d = true ↔
      (∃ f ∈ faces, c.neighbour f = e ∧ f.opposite = d) ∨ m.hasNeighbour d = true := by
    rw [← Node.hasNeighbour_patch_link]
    unfold welcome
    split <;> rfl
  apply Bool.eq_iff_iff.mpr
  rw [patched]
  by_cases towards : e.neighbour d = c
  · have back : c.neighbour d.opposite = e := Coord.neighbour_eq_iff.mp towards
    have seen : d.opposite ∈ faces := (listed d.opposite).mpr (by rw [back]; exact resident)
    simp only [towards, if_true, iff_true]
    exact Or.inl ⟨d.opposite, seen, back, Direction.opposite_opposite d⟩
  · rw [if_neg towards, or_iff_right]
    rintro ⟨f, -, at_, rfl⟩
    exact towards (Coord.neighbour_eq_iff.mp at_)

theorem hasChild_welcome (num : h.Numbered) (inside : c.level < h.levelCount)
    (found : h.get? e = some m) (o : Octant) :
    (welcome h c faces e m).hasChild o =
      if c.parent = e ∧ c.octant = o then true else m.hasChild o := by
  have patched : (m.patch (fun d n => n.linkNeighbour d.opposite)
      (fun d => c.neighbour d = e) faces).hasChild o = m.hasChild o :=
    Node.patch_keeps (fun n => n.hasChild o) fun _ _ => rfl
  unfold welcome
  by_cases up : c.parent = e
  · have resident : h.contains c.parent = true := by
      rw [up]
      exact contains_iff.mpr ⟨m, found⟩
    have below : c.level < h.coarsest :=
      num.lt_coarsest_of_parent (Coord.level_ne_of_lt inside) resident
    rw [if_pos ⟨below, up⟩, Node.hasChild_linkChild, patched]
    by_cases at_ : c.octant = o <;> simp [up, at_]
  · simp [up, patched]

end Welcome

/-- Inserting a node that may enter never fails, and what it leaves at each coordinate. -/
theorem insert_eq {h : Hierarchy N L} {n : Node N} {l : Level N L}
    (free : h.insertError? n.coord = none) (stored : h.level? n.coord.level = some l)
    (own : n.coord.level = l.index) :
    ∃ g, h.insert n = .ok g ∧ g.frame = h.frame ∧ ∀ e, g.get? e = if n.coord = e then
      some (h.linked n) else (h.get? e).map (welcome h n.coord (residentFaces l n.coord) e) := by
  obtain ⟨c, hc⟩ : ∃ c, c = n.coord := ⟨_, rfl⟩
  rw [← hc] at free stored own ⊢
  obtain ⟨-, absent, -⟩ := insertError?_eq_none_iff.mp free
  let h₁ := h.modifyLevel c.level fun l => linkBack l c (residentFaces l c)
  let h₂ := if c.level < h₁.coarsest then h₁.modify c.parent (·.linkChild c.octant) else h₁
  let enter (l : Level N L) : Level N L :=
    { l with nodes := l.nodes.insertIfNew c.pos (h.linked n) }
  have result : h.insert n = .ok (h₂.modifyLevel c.level enter) := by
    rw [insert, ← hc, free]
  have top : h₁.coarsest = h.coarsest := coarsest_modifyLevel ..
  have seen₂ : ∀ e, h₂.get? e = (h.get? e).map (welcome h c (residentFaces l c) e) := by
    intro e
    have seen₁ : h₁.get? e = (h.get? e).map (Node.patch (fun d n => n.linkNeighbour d.opposite)
        (fun d => c.neighbour d = e) (residentFaces l c)) :=
      get?_modifyLevel_faces own stored rfl e
    simp only [h₂, top]
    by_cases below : c.level < h.coarsest
    · rw [if_pos below, get?_modify, seen₁]
      cases h.get? e with
      | none => simp
      | some m => by_cases up : c.parent = e <;> simp [welcome, below, up]
    · rw [if_neg below, seen₁]
      cases h.get? e with
      | none => rfl
      | some m => simp [welcome, below]
  have frame₂ : h₂.frame = h.frame := by
    have frame₁ : h₁.frame = h.frame :=
      frame_modifyLevel h c.level fun l =>
        bare_foldl_modifyAt c (fun d n => n.linkNeighbour d.opposite) _ l
    simp only [h₂]
    split
    · exact (frame_modify h₁ c.parent _).trans frame₁
    · exact frame₁
  have absent₂ : h₂.get? c = none := by
    rw [seen₂, contains_eq_false_iff.mp absent]
    rfl
  obtain ⟨l₂, stored₂, bare₂⟩ := level?_of_frame frame₂ stored
  have own₂ : c.level = l₂.index := own.trans (Level.bare_eq_iff.mp bare₂).1.symm
  refine ⟨_, result, (frame_modifyLevel h₂ c.level (f := enter) fun l => rfl).trans frame₂, ?_⟩
  intro e
  rw [← seen₂, get?_modifyLevel]
  by_cases level : c.level = e.level
  · have stored₂' : h₂.level? e.level = some l₂ := by rw [← level]; exact stored₂
    rw [if_pos level, stored₂, Option.bind_some, get?_insertIfNew l₂ c e _ own₂,
      ← get?_of_level? stored₂, ← get?_of_level? stored₂', absent₂]
    simp
  · rw [if_neg level, if_neg fun same => level (congrArg Coord.level same)]

/-- Inserting a node that may enter never fails. It patches the links around the node's cell and
stores the node there, linked. -/
theorem insert_of_insertError?_eq_none {h : Hierarchy N L} (num : h.Numbered) {n : Node N}
    (free : h.insertError? n.coord = none) :
    ∃ g, h.insert n = .ok g ∧ Relinked n.coord h g ∧ g.get? n.coord = some (h.linked n) := by
  obtain ⟨inside, -, -⟩ := insertError?_eq_none_iff.mp free
  obtain ⟨l, stored⟩ := (num.lt_levelCount_iff _).mp inside
  have own : n.coord.level = l.index := (num.index _ l stored).symm
  obtain ⟨g, result, frame, seen⟩ := insert_eq free stored own
  have arrived : g.get? n.coord = some (h.linked n) := by rw [seen, if_pos rfl]
  have resident : g.contains n.coord = true := contains_iff.mpr ⟨_, arrived⟩
  have listed : ∀ d, d ∈ residentFaces l n.coord ↔ h.contains (n.coord.neighbour d) = true := by
    intro d
    have stored' : h.level? (n.coord.neighbour d).level = some l := stored
    rw [mem_residentFaces own, Level.contains, contains, get?_of_level? stored']
  refine ⟨g, result, ?_, arrived⟩
  refine Relinked.of_map frame (welcome h n.coord (residentFaces l n.coord)) ?_ ?_ ?_ ?_ ?_
  · intro e other
    rw [seen, if_neg other.symm]
  · exact fun e m => welcome_keeps Node.clearLinks (fun _ _ => rfl) fun _ => rfl
  · exact fun e m => welcome_keeps Node.parentIndex (fun _ _ => rfl) fun _ => rfl
  · intro e m found d
    rw [resident]
    exact hasNeighbour_welcome found listed d
  · intro e m found o
    rw [resident]
    exact hasChild_welcome num inside found o

/-- An insertion keeps the hierarchy linked: nobody resident can be a child of the newcomer, since
every resident below the coarsest level has its parent there already. -/
theorem Linked.insert {h : Hierarchy N L} (linked : h.Linked) {n : Node N}
    (free : h.insertError? n.coord = none) :
    ∃ g, h.insert n = .ok g ∧ g.Linked ∧ Relinked n.coord h g ∧
      g.body n.coord = some n.clearLinks := by
  have num := linked.numbered
  obtain ⟨inside, absent, parent⟩ := insertError?_eq_none_iff.mp free
  obtain ⟨g, result, patch, arrived⟩ := insert_of_insertError?_eq_none num free
  have entering := entering_linked num n inside
  have resident : g.contains n.coord = true := contains_iff.mpr ⟨_, arrived⟩
  have childless : ∀ c, h.contains c = true → c ≠ n.coord → c.parent ≠ n.coord := by
    intro c stays other up
    have below := num.level_ne stays
    have inside_ := UInt8.lt_iff_toNat_lt.mp inside
    rw [← up, Coord.toNat_parent_level below, num.toNat_levelCount] at inside_
    have kept := linked.parent_resident stays ((num.lt_coarsest_iff c.level).mpr inside_)
    rw [up, absent] at kept
    cases kept
  refine ⟨g, result, ?_, patch, by rw [body, arrived, Option.map_some, entering.body]⟩
  refine patch.linked linked (Coord.level_ne_of_lt inside) (fun _ _ _ _ => resident) ?_
  intro m found
  rw [arrived, Option.some.injEq] at found
  subst found
  have coord : (h.linked n).clearLinks.coord = n.clearLinks.coord := by rw [entering.body]
  refine ⟨coord, entering.neighbour, fun below => ?_, fun above => ?_,
    entering.leaf, childless⟩
  · exact ⟨parent below, entering.parentIndex.trans (if_pos below)⟩
  · exact entering.parentIndex.trans (if_neg above)

theorem insert_of_insertError?_eq_some {h : Hierarchy N L} {n : Node N} {e : OctreeError}
    (refused : h.insertError? n.coord = some e) : h.insert n = .error e := by
  rw [Hierarchy.insert, refused]

/-! ### Removal -/

/-- The node of a cell `e` once the leaf at `c` has been taken out: the bits that look at `c` are
clear. -/
def farewell (index : Option UInt8) (c : Coord) (faces : List Direction) (e : Coord) (m : Node N) :
    Node N :=
  let m := m.patch (fun d n => n.unlinkNeighbour d.opposite) (fun d => c.neighbour d = e) faces
  match index with
  | some i => if c.parent = e then m.unlinkChild (.ofIndex i) else m
  | none => m

section Farewell

variable {h : Hierarchy N L} {index : Option UInt8} {c e : Coord} {faces : List Direction}
  {n m : Node N}

theorem farewell_keeps {α : Type} (view : Node N → α)
    (neighbour : ∀ (d : Direction) (n : Node N), view (n.unlinkNeighbour d.opposite) = view n)
    (child : ∀ (o : Octant) (n : Node N), view (n.unlinkChild o) = view n) :
    view (farewell index c faces e m) = view m := by
  have patched : view (m.patch (fun d n => n.unlinkNeighbour d.opposite)
      (fun d => c.neighbour d = e) faces) = view m := Node.patch_keeps view neighbour
  unfold farewell
  split
  · split
    · exact (child _ _).trans patched
    · exact patched
  · exact patched

theorem hasNeighbour_farewell (linked : h.Linked) (leaving : h.get? c = some n)
    (found : h.get? e = some m) (d : Direction) :
    (farewell index c (Direction.all.filter n.hasNeighbour) e m).hasNeighbour d =
      if e.neighbour d = c then false else m.hasNeighbour d := by
  have patched : (farewell index c (Direction.all.filter n.hasNeighbour) e m).hasNeighbour d =
      (m.patch (fun d n => n.unlinkNeighbour d.opposite) (fun d => c.neighbour d = e)
        (Direction.all.filter n.hasNeighbour)).hasNeighbour d := by
    unfold farewell
    split
    · split <;> rfl
    · rfl
  apply Bool.eq_iff_iff.mpr
  rw [patched, Node.hasNeighbour_patch_unlink]
  by_cases towards : e.neighbour d = c
  · have back : c.neighbour d.opposite = e := Coord.neighbour_eq_iff.mp towards
    have bit : n.hasNeighbour d.opposite = true := by
      rw [linked.neighbour c n leaving, back]
      exact contains_iff.mpr ⟨m, found⟩
    have seen : d.opposite ∈ Direction.all.filter n.hasNeighbour :=
      List.mem_filter.mpr ⟨d.opposite.mem_all, bit⟩
    simp only [towards, if_true, Bool.false_eq_true, iff_false, not_and]
    exact fun none_ => absurd ⟨d.opposite, seen, back, Direction.opposite_opposite d⟩ none_
  · rw [if_neg towards, and_iff_right]
    rintro ⟨f, -, at_, rfl⟩
    exact towards (Coord.neighbour_eq_iff.mp at_)

theorem hasChild_farewell (linked : h.Linked) (leaving : h.get? c = some n)
    (found : h.get? e = some m) (o : Octant) :
    (farewell n.parentIndex c faces e m).hasChild o =
      if c.parent = e ∧ c.octant = o then false else m.hasChild o := by
  have patched : (m.patch (fun d n => n.unlinkNeighbour d.opposite)
      (fun d => c.neighbour d = e) faces).hasChild o = m.hasChild o :=
    Node.patch_keeps (fun n => n.hasChild o) fun _ _ => rfl
  have resident : h.contains c = true := contains_iff.mpr ⟨n, leaving⟩
  unfold farewell
  by_cases below : c.level < h.coarsest
  · rw [(linked.parent c n leaving below).2]
    by_cases up : c.parent = e
    · simp only [up, if_true, Octant.ofIndex_index, Node.hasChild_unlinkChild, patched, true_and]
      by_cases at_ : c.octant = o <;> simp [at_]
    · simp [up, patched]
  · have away : c.parent ≠ e := by
      intro up
      refine below (linked.numbered.lt_coarsest_of_parent (linked.numbered.level_ne resident) ?_)
      rw [up]
      exact contains_iff.mpr ⟨m, found⟩
    rw [linked.top c n leaving below]
    simp [away, patched]

end Farewell

/-- Removing a leaf never fails, and what it leaves at each coordinate. -/
theorem remove_eq {h : Hierarchy N L} (num : h.Numbered) {c : Coord} {n : Node N}
    (found : h.get? c = some n) (leaf : n.isLeaf = true) :
    ∃ g, h.remove c = .ok g ∧ g.frame = h.frame ∧ ∀ e, g.get? e = if c = e then none else
      (h.get? e).map (farewell n.parentIndex c (Direction.all.filter n.hasNeighbour) e) := by
  obtain ⟨l, stored, -⟩ := level?_of_get? found
  have own : c.level = l.index := (num.index _ l stored).symm
  let faces := Direction.all.filter n.hasNeighbour
  let leave (l : Level N L) : Level N L :=
    { unlinkBack l c faces with nodes := (unlinkBack l c faces).nodes.erase c.pos }
  let h₁ := h.modifyLevel c.level leave
  let g := match n.parentIndex with
    | some i => h₁.modify c.parent (·.unlinkChild (.ofIndex i))
    | none => h₁
  have result : h.remove c = .ok g := by
    have inside : h.checkLevel c.level = .ok () :=
      if_pos (num.level_lt (contains_iff.mpr ⟨n, found⟩))
    have stays : (!n.isLeaf) = false := by rw [leaf]; rfl
    simp only [Hierarchy.remove, inside, found, stays, g, h₁, leave, faces]
    cases n.parentIndex <;> rfl
  have seen₁ : ∀ e, h₁.get? e = if c = e then none else (h.get? e).map
      (Node.patch (fun d n => n.unlinkNeighbour d.opposite) (fun d => c.neighbour d = e)
        faces) := by
    intro e
    have split_ : h₁.get? e = if c = e then none
        else (h.modifyLevel c.level fun l => unlinkBack l c faces).get? e := by
      rw [get?_modifyLevel, get?_modifyLevel]
      by_cases level : c.level = e.level
      · have own' : c.level = (unlinkBack l c faces).index := own.trans
          (Level.bare_eq_iff.mp
            (bare_foldl_modifyAt c (fun d n => n.unlinkNeighbour d.opposite) faces l)).1.symm
        rw [if_pos level, if_pos level, stored, Option.bind_some, Option.bind_some]
        exact get?_erase (unlinkBack l c faces) c e own'
      · rw [if_neg level, if_neg level, if_neg fun same => level (congrArg Coord.level same)]
    rw [split_, get?_modifyLevel_faces own stored rfl e]
  have frame₁ : h₁.frame = h.frame := frame_modifyLevel h c.level (f := leave) fun l =>
    bare_foldl_modifyAt c (fun d n => n.unlinkNeighbour d.opposite) faces l
  refine ⟨g, result, ?_, fun e => ?_⟩
  · simp only [g]
    split
    · exact (frame_modify h₁ c.parent _).trans frame₁
    · exact frame₁
  · simp only [g]
    cases n.parentIndex with
    | none => rw [seen₁]; rfl
    | some i =>
      simp only [get?_modify, seen₁]
      by_cases same : c = e
      · simp [same]
      · cases h.get? e with
        | none => simp
        | some m => by_cases up : c.parent = e <;> simp [farewell, same, up, faces]

/-- Removing a leaf never fails. It patches the links around the leaf's cell and takes the leaf out,
and the hierarchy stays linked: a leaf is nobody's parent. -/
theorem Linked.remove {h : Hierarchy N L} (linked : h.Linked) {c : Coord} {n : Node N}
    (found : h.get? c = some n) (leaf : n.isLeaf = true) :
    ∃ g, h.remove c = .ok g ∧ g.Linked ∧ Relinked c h g ∧ g.get? c = none := by
  have num := linked.numbered
  have resident : h.contains c = true := contains_iff.mpr ⟨n, found⟩
  obtain ⟨g, result, frame, seen⟩ := remove_eq num found leaf
  have gone : g.get? c = none := by rw [seen, if_pos rfl]
  have absent : g.contains c = false := contains_eq_false_iff.mpr gone
  have patch : Relinked c h g := by
    refine Relinked.of_map frame
      (farewell n.parentIndex c (Direction.all.filter n.hasNeighbour)) ?_ ?_ ?_ ?_ ?_
    · intro e other
      rw [seen, if_neg other.symm]
    · exact fun e m => farewell_keeps Node.clearLinks (fun _ _ => rfl) fun _ _ => rfl
    · exact fun e m => farewell_keeps Node.parentIndex (fun _ _ => rfl) fun _ _ => rfl
    · intro e m at_ d
      rw [absent]
      exact hasNeighbour_farewell linked found at_ d
    · intro e m at_ o
      rw [absent]
      exact hasChild_farewell linked found at_ o
  refine ⟨g, result, ?_, patch, gone⟩
  refine patch.linked linked (num.level_ne resident) ?_ ?_
  · intro e stays other up
    exact absurd up (linked.not_parent_of_isLeaf found leaf stays)
  · intro m at_
    rw [gone] at at_
    cases at_

/-- Only a resident leaf is removed. -/
theorem leaf_of_remove {h g : Hierarchy N L} {c : Coord} (done : h.remove c = .ok g) :
    ∃ n, h.get? c = some n ∧ n.isLeaf = true := by
  rw [Hierarchy.remove] at done
  cases level : h.checkLevel c.level with
  | error e =>
    rw [level] at done
    cases done
  | ok =>
    rw [level] at done
    cases found : h.get? c with
    | none =>
      rw [found] at done
      cases done
    | some n =>
      cases leaf : n.isLeaf with
      | true => exact ⟨n, rfl, leaf⟩
      | false =>
        simp only [found, leaf, Bool.not_false, if_true] at done
        cases done

theorem Linked.of_insert {h g : Hierarchy N L} (linked : h.Linked) {n : Node N}
    (done : h.insert n = .ok g) : g.Linked := by
  cases free : h.insertError? n.coord with
  | some e =>
    rw [insert_of_insertError?_eq_some free] at done
    cases done
  | none =>
    obtain ⟨k, result, linked_k, -⟩ := linked.insert free
    rw [result] at done
    cases done
    exact linked_k

theorem Linked.of_remove {h g : Hierarchy N L} (linked : h.Linked) {c : Coord}
    (done : h.remove c = .ok g) : g.Linked := by
  obtain ⟨n, found, leaf⟩ := leaf_of_remove done
  obtain ⟨k, result, linked_k, -⟩ := linked.remove found leaf
  rw [result] at done
  cases done
  exact linked_k

end Hierarchy

end OctreeWorld
