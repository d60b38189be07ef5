import OctreeWorld.Region.Merge
import OctreeWorld.Proofs.Linking

/-!
# Merging hierarchies

A merge is described pointwise: `combined` says what becomes of the copies that destination and
source have of one cell. The destination receives the source coarsest level first, so at every
moment the parent of the next node is there and no insertion is refused.
-/

namespace OctreeWorld

variable {N L : Type}

/-- The copy that a merge leaves of a cell: the destination's, with the source's folded in. -/
def combined : Option (Node N) → Option (Node N) → Option (Node N)
  | none, source => source
  | some n, none => some n
  | some n, some m => some (n.absorb m)

@[simp] theorem combined_none (n : Option (Node N)) : combined n none = n := by
  cases n <;> rfl

theorem isSome_combined (n m : Option (Node N)) :
    (combined n m).isSome = (n.isSome || m.isSome) := by
  cases n <;> cases m <;> rfl

theorem Node.clearLinks_absorb (n m : Node N) :
    (n.absorb m).clearLinks = n.clearLinks.absorb m.clearLinks := by
  unfold Node.absorb
  by_cases newer : n.version < m.version <;> simp [newer, Node.clearLinks, Node.touch]

theorem Node.links_absorb (n m : Node N) : (n.absorb m).links = n.links := by
  unfold Node.absorb
  by_cases newer : n.version < m.version <;> simp [newer, Node.links, Node.touch]

/-- Apart from its links, `k` is `n` with `m` folded in. -/
structure Node.Folded (n m k : Node N) : Prop where
  coord : k.coord = n.coord
  data : k.data = if n.version < m.version then m.data else n.data
  state : k.state = if n.version < m.version then m.state else n.state
  version : k.version = max n.version m.version
  observers : k.observers.toNat = min (n.observers.toNat + m.observers.toNat) 4294967295
  lastUpdate : k.lastUpdate.micros = max n.lastUpdate.micros m.lastUpdate.micros

theorem Node.toNat_addCounts (a b : UInt32) :
    (Node.addCounts a b).toNat = min (a.toNat + b.toNat) 4294967295 := by
  rw [Node.addCounts, UInt32.toNat_ofNat']
  omega

theorem Node.folded_absorb (n m : Node N) : n.Folded m (n.absorb m) := by
  unfold Node.absorb
  by_cases newer : n.version < m.version
  · have version : max n.version m.version = m.version := if_pos (UInt32.le_of_lt newer)
    simp only [if_pos newer]
    exact ⟨rfl, (if_pos newer).symm, (if_pos newer).symm, version.symm, toNat_addCounts _ _,
      SimTime.micros_latest ..⟩
  · have version : max n.version m.version = n.version := by
      refine ite_eq_right_iff.mpr fun below => ?_
      exact UInt32.le_antisymm (UInt32.not_lt.mp newer) below
    simp only [if_neg newer]
    exact ⟨rfl, (if_neg newer).symm, (if_neg newer).symm, version.symm, toNat_addCounts _ _,
      SimTime.micros_latest ..⟩

/-- Links have no part in folding. -/
theorem Node.Folded.of_clearLinks {n m k : Node N}
    (folded : n.clearLinks.Folded m.clearLinks k.clearLinks) : n.Folded m k :=
  ⟨folded.coord, folded.data, folded.state, folded.version, folded.observers, folded.lastUpdate⟩

namespace MergeStats

theorem moved_add (a b : MergeStats) : (a + b).moved = a.moved + b.moved := rfl

theorem collisions_add (a b : MergeStats) : (a + b).collisions = a.collisions + b.collisions := rfl

theorem commands_add (a b : MergeStats) : (a + b).commands = a.commands + b.commands := rfl

end MergeStats

/-! ### Levels as lists -/

namespace Level

theorem nodup_nodeList_coords {l : Level N L}
    (placed : ∀ c n, l.get? c = some n → n.coord = c) : (l.nodeList.map (·.coord)).Nodup := by
  have keys : l.nodeList.map (·.coord) =
      l.nodes.toList.map fun e => (⟨e.1, l.index⟩ : Coord) := by
    rw [nodeList, Std.ExtTreeMap.values_eq_map_toList, List.map_map]
    refine List.map_congr_left ?_
    rintro ⟨p, n⟩ listed
    have stored := Std.ExtTreeMap.mem_toList_iff_getElem?_eq_some.mp listed
    exact placed ⟨p, l.index⟩ n ((get?_mk l p).trans stored)
  rw [keys, List.Nodup, List.pairwise_map]
  refine (Std.ExtTreeMap.distinct_keys_toList (t := l.nodes)).imp ?_
  intro a b differ same
  exact differ (Std.compare_eq_iff_eq.mpr (congrArg Coord.pos same))

theorem find?_nodeList {l : Level N L} (placed : ∀ c n, l.get? c = some n → n.coord = c)
    {c : Coord} (own : c.level = l.index) : l.nodeList.find? (·.coord == c) = l.get? c := by
  obtain ⟨p, i⟩ := c
  have own : i = l.index := own
  subst own
  cases stored : l.get? ⟨p, l.index⟩ with
  | none =>
    refine List.find?_eq_none.mpr fun n listed => ?_
    obtain ⟨q, at_⟩ := mem_nodeList.mp listed
    have coord := placed ⟨q, l.index⟩ n ((get?_mk l q).trans at_)
    rw [beq_iff_eq, coord]
    intro same
    cases same
    rw [get?_mk, at_] at stored
    cases stored
  | some n =>
    have coord := placed _ n stored
    rw [get?_mk] at stored
    have listed : n ∈ l.nodeList := mem_nodeList.mpr ⟨p, stored⟩
    cases search : l.nodeList.find? (·.coord == ⟨p, l.index⟩) with
    | none =>
      have missed := List.find?_eq_none.mp search n listed
      exact absurd (beq_iff_eq.mpr coord) missed
    | some m =>
      obtain ⟨q, at_⟩ := mem_nodeList.mp (List.mem_of_find?_eq_some search)
      have here := List.find?_some search
      rw [beq_iff_eq, placed ⟨q, l.index⟩ m ((get?_mk l q).trans at_)] at here
      cases here
      rw [stored] at at_
      exact at_.symm

/-- A level that has given away its nodes and commands. -/
def emptied (l : Level N L) : Level N L := { l with nodes := ∅, queues := {} }

end Level

namespace Hierarchy

/-! ### Taking in nodes -/

theorem Linked.modify {h : Hierarchy N L} (linked : h.Linked) (c : Coord) {f : Node N → Node N}
    (same : ∀ n, (f n).links = n.links) : (h.modify c f).Linked :=
  linked.levelwise (levelwise_modifyLevel Level.SameLinks.refl fun l _ =>
    Level.SameLinks.modify l c same)

/-- What taking in nodes of distinct cells did. -/
structure Taken (ns : List (Node N)) (h g : Hierarchy N L) : Prop where
  linked : g.Linked
  frame : g.frame = h.frame
  body : ∀ c, g.body c = combined (h.body c) ((ns.find? (·.coord == c)).map Node.clearLinks)

theorem find?_here (n : Node N) (ns : List (Node N)) :
    (n :: ns).find? (·.coord == n.coord) = some n :=
  List.find?_cons_of_pos (beq_self_eq_true n.coord)

theorem find?_away {n : Node N} {c : Coord} (other : n.coord ≠ c) (ns : List (Node N)) :
    (n :: ns).find? (·.coord == c) = ns.find? (·.coord == c) :=
  List.find?_cons_of_neg (by simpa using other)

namespace Taken

variable {n : Node N} {ns : List (Node N)} {h k g : Hierarchy N L}

theorem of_body (linked : k.Linked) (frame : k.frame = h.frame)
    (here : k.body n.coord = combined (h.body n.coord) (some n.clearLinks))
    (away : ∀ c, n.coord ≠ c → k.body c = h.body c) : Taken [n] h k := by
  refine ⟨linked, frame, fun c => ?_⟩
  by_cases at_ : n.coord = c
  · subst at_
    rw [here, find?_here]
    rfl
  · rw [away c at_, find?_away at_]
    exact (combined_none _).symm

theorem away (taken : Taken [n] h k) {c : Coord} (other : n.coord ≠ c) : k.body c = h.body c := by
  rw [taken.body, find?_away other]
  exact combined_none _

theorem contains (taken : Taken ns h g) {c : Coord} (resident : h.contains c = true) :
    g.contains c = true := by
  rw [← isSome_body, taken.body, isSome_combined, isSome_body, resident]
  rfl

theorem cons (first : Taken [n] h k) (rest : Taken ns k g) (fresh : n.coord ∉ ns.map (·.coord)) :
    Taken (n :: ns) h g := by
  refine ⟨rest.linked, rest.frame.trans first.frame, fun c => ?_⟩
  rw [rest.body]
  by_cases at_ : n.coord = c
  · subst at_
    have unlisted : ns.find? (·.coord == n.coord) = none := by
      refine List.find?_eq_none.mpr fun m listed => ?_
      rw [beq_iff_eq]
      exact fun same => fresh (List.mem_map.mpr ⟨m, listed, same⟩)
    rw [unlisted, first.body, find?_here, find?_here]
    exact combined_none _
  · rw [first.away at_, find?_away at_]

end Taken

/-- A node is taken in whether its cell is occupied or free, if its parent is there. -/
theorem Linked.receive_cons {h : Hierarchy N L} (linked : h.Linked) {n : Node N}
    (inside : n.coord.level < h.levelCount)
    (parent : n.coord.level < h.coarsest → h.contains n.coord.parent = true) :
    ∃ k, Taken [n] h k ∧ ∀ ns, Hierarchy.receive (n :: ns) h =
      ((Hierarchy.receive ns k).1.map
        (· + if h.contains n.coord then { collisions := 1 } else { moved := 1 }),
        (Hierarchy.receive ns k).2) := by
  by_cases resident : h.contains n.coord = true
  · refine ⟨h.modify n.coord (·.absorb n), .of_body ?_ (frame_modify h n.coord _) ?_ ?_, ?_⟩
    · exact linked.modify n.coord fun m => Node.links_absorb m n
    · obtain ⟨m, found⟩ := contains_iff.mp resident
      rw [body, get?_modify, if_pos rfl, body, found]
      exact congrArg some (Node.clearLinks_absorb m n)
    · intro c other
      rw [body, get?_modify, if_neg other]
      rfl
    · intro ns
      rw [Hierarchy.receive, if_pos resident, if_pos resident]
  · have absent : h.contains n.coord = false := Bool.eq_false_iff.mpr resident
    have free : h.insertError? n.coord = none :=
      insertError?_eq_none_iff.mpr ⟨inside, absent, parent⟩
    obtain ⟨k, entered, linked_k, patch, arrived⟩ := linked.insert free
    refine ⟨k, .of_body linked_k patch.frame ?_ fun c other => patch.body c (Ne.symm other), ?_⟩
    · have none_ : h.body n.coord = none := by
        rw [body, contains_eq_false_iff.mp absent]
        rfl
      rw [arrived, none_]
      rfl
    · intro ns
      rw [Hierarchy.receive, if_neg resident, if_neg resident, entered]

/-- Nodes of distinct cells whose parents are there are all taken in. -/
theorem Linked.receive {h : Hierarchy N L} (linked : h.Linked) (ns : List (Node N))
    (apart : (ns.map (·.coord)).Nodup) (inside : ∀ n ∈ ns, n.coord.level < h.levelCount)
    (parents : ∀ n ∈ ns, n.coord.level < h.coarsest → h.contains n.coord.parent = true) :
    ∃ g, Hierarchy.receive ns h = (.ok
        { moved := (ns.filter fun n => !h.contains n.coord).length
          collisions := (ns.filter fun n => h.contains n.coord).length }, g) ∧ Taken ns h g := by
  induction ns generalizing h with
  | nil => exact ⟨h, rfl, linked, rfl, fun c => (combined_none _).symm⟩
  | cons n ns ih =>
    obtain ⟨fresh, apart⟩ := List.nodup_cons.mp apart
    obtain ⟨k, first, step⟩ :=
      linked.receive_cons (inside n List.mem_cons_self) (parents n List.mem_cons_self)
    have length := length_of_frame first.frame
    have same : ∀ m ∈ ns, k.contains m.coord = h.contains m.coord := fun m listed =>
      contains_congr_body (first.away fun at_ => fresh (List.mem_map.mpr ⟨m, listed, at_.symm⟩))
    obtain ⟨g, run, rest⟩ := ih first.linked apart
      (fun m listed => by
        rw [levelCount_congr length]
        exact inside m (List.mem_cons_of_mem n listed))
      (fun m listed below => by
        rw [coarsest_congr length] at below
        exact first.contains (parents m (List.mem_cons_of_mem n listed) below))
    refine ⟨g, ?_, first.cons rest fresh⟩
    rw [step, run, List.filter_congr fun m listed => by rw [same m listed],
      List.filter_congr fun m listed => same m listed]
    by_cases resident : h.contains n.coord = true
    · simp only [Except.map, HAdd.hAdd, Add.add]
      simp [resident]
    · simp only [Except.map, HAdd.hAdd, Add.add]
      simp [Bool.eq_false_iff.mpr resident]

/-! ### Moving levels -/

/-- Appending the commands of another level to those of one. -/
theorem Linked.appendQueues {h : Hierarchy N L} (linked : h.Linked) (i : UInt8) (qs : Queues) :
    (h.modifyLevel i fun d => { d with queues := d.queues.appendAll qs }).Linked :=
  linked.levelwise (levelwise_modifyLevel Level.SameLinks.refl fun _ _ => .of_get? rfl fun _ => rfl)

/-- The counts of taking in one level. -/
def levelStats (l : Level N L) (h : Hierarchy N L) : MergeStats where
  moved := (l.nodeList.filter fun n => !h.contains n.coord).length
  collisions := (l.nodeList.filter fun n => h.contains n.coord).length
  commands := l.pendingTotal

/-- What taking in the nodes and the commands of one level did. -/
structure Received (l : Level N L) (h g : Hierarchy N L) : Prop where
  linked : g.Linked
  length : g.levels.length = h.levels.length
  body : ∀ c, g.body c = if c.level = l.index then
      combined (h.body c) ((l.get? c).map Node.clearLinks) else h.body c
  pending : ∀ i q, g.pending i q = if i = l.index then h.pending i q ++ l.pending q
    else h.pending i q

theorem mergeLevel_of_level? {source h : Hierarchy N L} (linked : h.Linked) {l : Level N L}
    (stored : source.level? l.index = some l) (inside : l.index < h.levelCount)
    (placed : ∀ c n, l.get? c = some n → n.coord = c)
    (parents : ∀ c n, l.get? c = some n → c.level < h.coarsest → h.contains c.parent = true) :
    ∃ g, mergeLevel l.index source h =
        (.ok (levelStats l h), source.modifyLevel l.index Level.emptied, g) ∧ Received l h g := by
  have listed : ∀ n ∈ l.nodeList, l.get? n.coord = some n := by
    intro n mem
    obtain ⟨p, at_⟩ := Level.mem_nodeList.mp mem
    have found : l.get? ⟨p, l.index⟩ = some n := (Level.get?_mk l p).trans at_
    rw [placed _ n found]
    exact found
  obtain ⟨k, run, linked_k, frame, body_k⟩ := linked.receive l.nodeList
    (Level.nodup_nodeList_coords placed)
    (fun n mem => by rw [Level.level_eq_of_get? (listed n mem)]; exact inside)
    (fun n mem below => parents n.coord n (listed n mem) below)
  have length := length_of_frame frame
  let g := k.modifyLevel l.index fun d => { d with queues := d.queues.appendAll l.queues }
  refine ⟨g, ?_, linked_k.appendQueues l.index l.queues,
    (length_modifyLevel k l.index _).trans length, fun c => ?_, fun j q => ?_⟩
  · rw [mergeLevel, stored]
    simp only [run]
    refine Prod.ext_iff.mpr ⟨congrArg Except.ok ?_, rfl⟩
    change MergeStats.mk _ _ (0 + l.pendingTotal) = _
    rw [Nat.zero_add]
    rfl
  · have same : ∀ e, g.get? e = k.get? e := get?_modifyLevel_of_get? l.index fun _ _ => rfl
    rw [body, same, ← body, body_k]
    by_cases level : c.level = l.index
    · rw [if_pos level, Level.find?_nodeList placed level]
    · have none_ : l.nodeList.find? (·.coord == c) = none := by
        refine List.find?_eq_none.mpr fun n mem => ?_
        rw [beq_iff_eq]
        rintro rfl
        exact level (Level.level_eq_of_get? (listed n mem))
      rw [if_neg level, none_]
      exact combined_none _
  · rw [pending_modifyLevel, ← pending_of_frame frame]
    by_cases level : l.index = j
    · subst level
      obtain ⟨d, stored_k⟩ := (linked_k.numbered.lt_levelCount_iff l.index).mp
        (by rw [levelCount_congr length]; exact inside)
      rw [if_pos rfl, if_pos rfl, stored_k, pending_of_level? stored_k]
      exact Queues.get_appendAll d.queues l.queues q
    · rw [if_neg level, if_neg (Ne.symm level)]

/-- The indices below `k`, highest first. -/
def downFrom (k : Nat) : List UInt8 := ((List.range k).map UInt8.ofNat).reverse

theorem downFrom_succ (k : Nat) : downFrom (k + 1) = UInt8.ofNat k :: downFrom k := by
  simp [downFrom, List.range_succ]

/-- What merging the levels below `k` made of a source and a destination. -/
structure Merged (k : Nat) (source into spent g : Hierarchy N L) (stats : MergeStats) : Prop where
  linked : g.Linked
  length : g.levels.length = into.levels.length
  body : ∀ c, g.body c = if c.level.toNat < k then combined (into.body c) (source.body c)
    else into.body c
  pending : ∀ i q, g.pending i q = if i.toNat < k then into.pending i q ++ source.pending i q
    else into.pending i q
  moved : stats.moved = (((source.levels.take k).flatMap Level.nodeList).filter
    fun n => !into.contains n.coord).length
  collisions : stats.collisions = (((source.levels.take k).flatMap Level.nodeList).filter
    fun n => into.contains n.coord).length
  commands : stats.commands = tally ((source.levels.take k).map Level.pendingTotal)
  spentLength : spent.levels.length = source.levels.length
  spentBelow : ∀ i : UInt8, i.toNat < k → spent.level? i = (source.level? i).map Level.emptied

/-- A coordinate or a queue lies on the level that stands at `k` exactly when its index is `k`. -/
theorem Numbered.eq_index_iff {h : Hierarchy N L} (num : h.Numbered) {k : Nat}
    (inside : k < h.levels.length) (i : UInt8) : i = h.levels[k].index ↔ i.toNat = k := by
  rw [← UInt8.toNat_inj, num.toNat_index inside]

theorem Numbered.get?_of_level_eq {h : Hierarchy N L} (num : h.Numbered) {k : Nat}
    (inside : k < h.levels.length) {c : Coord} (level : c.level.toNat = k) :
    h.get? c = h.levels[k].get? c := by
  refine get?_of_level? ?_
  rw [(num.eq_index_iff inside c.level).mpr level]
  exact num.level?_index (List.getElem_mem inside)

/-- Merging level `k` and then the levels below it merges the levels below `k + 1`. -/
theorem Merged.succ {source into m spent g : Hierarchy N L} {stats : MergeStats} {k : Nat}
    (linked : source.Linked) (inside : k < source.levels.length)
    (received : Received source.levels[k] into m) (merged : Merged k source m spent g stats)
    (last : spent.level? source.levels[k].index = some source.levels[k].emptied) :
    Merged (k + 1) source into spent g (levelStats source.levels[k] into + stats) := by
  have num := linked.numbered
  have at_k := num.eq_index_iff inside
  -- The nodes of the lower levels meet the destination as it was before this level.
  have lower : ∀ n ∈ (source.levels.take k).flatMap Level.nodeList,
      m.contains n.coord = into.contains n.coord := by
    intro n mem
    obtain ⟨c, below, found⟩ := (mem_flatMap_nodeList num).mp mem
    rw [linked.placed c n found]
    refine contains_congr_body ?_
    rw [received.body, if_neg]
    intro level
    have := (at_k c.level).mp level
    omega
  have all : source.levels.take (k + 1) = source.levels.take k ++ [source.levels[k]] := by
    rw [List.take_add_one, List.getElem?_eq_getElem inside]
    rfl
  refine ⟨merged.linked, merged.length.trans received.length, fun c => ?_, fun i q => ?_, ?_, ?_,
    ?_, merged.spentLength, fun i below => ?_⟩
  · rw [merged.body, received.body]
    by_cases level : c.level.toNat = k
    · rw [if_neg (by omega), if_pos ((at_k c.level).mpr level), if_pos (by omega),
        ← num.get?_of_level_eq inside level]
      rfl
    · rw [if_neg fun h => level ((at_k c.level).mp h)]
      by_cases below : c.level.toNat < k
      · rw [if_pos below, if_pos (by omega)]
      · rw [if_neg below, if_neg (by omega)]
  · rw [merged.pending, received.pending]
    by_cases level : i.toNat = k
    · have here := (at_k i).mpr level
      rw [if_neg (by omega), if_pos here, if_pos (by omega), here,
        pending_of_level? (num.level?_index (List.getElem_mem inside))]
    · rw [if_neg fun h => level ((at_k i).mp h)]
      by_cases below : i.toNat < k
      · rw [if_pos below, if_pos (by omega)]
      · rw [if_neg below, if_neg (by omega)]
  · rw [MergeStats.moved_add, merged.moved, List.filter_congr fun n mem => by rw [lower n mem],
      all, List.flatMap_append, List.filter_append, List.length_append, Nat.add_comm]
    simp [levelStats]
  · rw [MergeStats.collisions_add, merged.collisions, List.filter_congr lower, all,
      List.flatMap_append, List.filter_append, List.length_append, Nat.add_comm]
    simp [levelStats]
  · rw [MergeStats.commands_add, merged.commands, all, List.map_append, tally_append, Nat.add_comm]
    simp [levelStats]
  · by_cases level : i.toNat = k
    · have here := (at_k i).mpr level
      rw [here, last, num.level?_index (List.getElem_mem inside)]
      rfl
    · exact merged.spentBelow i (by omega)

/-- Merging never fails: the levels that are done hold the parents of those to come. -/
theorem Linked.mergeLevels {source into : Hierarchy N L} (linked : source.Linked)
    (same : into.levels.length = source.levels.length) {k : Nat}
    (room : k ≤ source.levels.length) (linked_into : into.Linked) {rest : Hierarchy N L}
    (length : rest.levels.length = source.levels.length)
    (agrees : ∀ i : UInt8, i.toNat < k → rest.level? i = source.level? i)
    (above : ∀ c, source.contains c = true → k ≤ c.level.toNat → into.contains c = true) :
    ∃ stats spent g, mergeLevels (downFrom k) rest into = (.ok stats, spent, g) ∧
      Merged k source into spent g stats ∧
      ∀ i : UInt8, k ≤ i.toNat → spent.level? i = rest.level? i := by
  induction k generalizing into rest with
  | zero =>
    refine ⟨{}, rest, into, rfl, ⟨linked_into, rfl, fun c => ?_, fun i q => ?_, rfl, rfl, rfl,
      length, fun i below => absurd below (Nat.not_lt_zero _)⟩, fun _ _ => rfl⟩
    · exact (if_neg (Nat.not_lt_zero _)).symm
    · exact (if_neg (Nat.not_lt_zero _)).symm
  | succ k ih =>
    have num := linked.numbered
    have at_k := num.eq_index_iff room
    have stored := num.level?_index (List.getElem_mem room)
    have index := num.toNat_index room
    have seen : ∀ c : Coord, c.level.toNat = k → source.get? c = source.levels[k].get? c :=
      fun c level => num.get?_of_level_eq room level
    have level_of : ∀ c n, source.levels[k].get? c = some n → c.level.toNat = k := by
      intro c n found
      rw [Level.level_eq_of_get? found, index]
    have top : into.coarsest = source.coarsest := coarsest_congr same
    obtain ⟨m, step, received⟩ :=
      mergeLevel_of_level? linked_into ((agrees _ (by omega)).trans stored)
        (by
          rw [UInt8.lt_iff_toNat_lt, linked_into.numbered.toNat_levelCount, index]
          omega)
        (fun c n found => linked.placed c n ((seen c (level_of c n found)).trans found))
        (fun c n found below => by
          have level := level_of c n found
          have resident : source.contains c = true :=
            contains_iff.mpr ⟨n, (seen c level).trans found⟩
          rw [top] at below
          have parent : c.parent.level.toNat = k + 1 := by
            rw [Coord.toNat_parent_level (num.level_ne resident), level]
          exact above _ (linked.parent_resident resident below) (Nat.le_of_eq parent.symm))
    have reach : ∀ c, source.contains c = true → k ≤ c.level.toNat → m.contains c = true := by
      intro c resident high
      rw [← isSome_body, received.body]
      by_cases level : c.level.toNat = k
      · rw [contains, seen c level] at resident
        rw [if_pos ((at_k c.level).mpr level), isSome_combined, Option.isSome_map, resident,
          Bool.or_true]
      · rw [if_neg fun h => level ((at_k c.level).mp h), isSome_body]
        exact above c resident (by omega)
    have agrees' : ∀ i : UInt8, i.toNat < k →
        (rest.modifyLevel source.levels[k].index Level.emptied).level? i = source.level? i := by
      intro i below
      rw [level?_modifyLevel, if_neg]
      · exact agrees i (by omega)
      · intro level
        have := (at_k i).mp level.symm
        omega
    obtain ⟨stats, spent, g, run, merged, kept⟩ := @ih m (received.length.trans same) (by omega)
      received.linked _ ((length_modifyLevel rest _ _).trans length) agrees' reach
    have last : spent.level? source.levels[k].index = some source.levels[k].emptied := by
      rw [kept _ (by omega), level?_modifyLevel, if_pos rfl, agrees _ (by omega), stored]
      rfl
    refine ⟨levelStats source.levels[k] into + stats, spent, g, ?_,
      Merged.succ linked room received merged last, fun i high => ?_⟩
    · rw [downFrom_succ, (at_k (UInt8.ofNat k)).mpr ?_, Hierarchy.mergeLevels, step]
      · simp only [run]
        rfl
      · have short := num.length_lt
        rw [UInt8.toNat_ofNat']
        omega
    · rw [kept i (by omega), level?_modifyLevel, if_neg]
      intro level
      have := (at_k i).mp level.symm
      omega

end Hierarchy

end OctreeWorld
