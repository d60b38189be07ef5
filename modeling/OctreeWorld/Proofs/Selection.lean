import OctreeWorld.Proofs.Budgets

/-!
# What streaming selects

On a tick on which it is due, a level asks for missing cells that active loaders cover and lets unused
nodes go. Both selections are determined by what the level holds: the requests are distinct missing
cells, in the order of their positions and as many as the budget grants; the evictions are the first
unused nodes in that order, up to the other budget. Nothing else on the level changes.

Eviction goes by the coordinate that a node carries and looks it up again, so it relies on every node
being stored under its own coordinate. A node that is stored elsewhere is asked to go but stays, and
is asked again.
-/

namespace OctreeWorld

variable {N L : Type}

theorem Node.isUnused_iff {n : Node N} {now : SimTime} {timeout : Duration} :
    n.isUnused now timeout = true ↔ n.state = .loaded ∧ n.isLeaf = true ∧ n.observers = 0 ∧
      timeout.nanos < (now.since n.lastUpdate).nanos := by
  simp only [isUnused, isExpired, Bool.and_eq_true, beq_iff_eq, decide_eq_true_eq]
  constructor
  · rintro ⟨⟨⟨leaf, alone⟩, state⟩, expired⟩
    exact ⟨state, leaf, alone, expired⟩
  · rintro ⟨state, leaf, alone, expired⟩
    exact ⟨⟨⟨leaf, alone⟩, state⟩, expired⟩

/-- What stays below the budget and falls short of the count only by using the budget up is what the
budget grants. -/
theorem StreamConfig.eq_granted {config : StreamConfig} {n count : Nat} (few : n ≤ count)
    (most : ∀ b ∈ config.createBudget, n ≤ b.toNat)
    (enough : n = count ∨ ∃ b, config.createBudget = some b ∧ b.toNat ≤ n) :
    n = config.granted count := by
  unfold granted
  cases budget : config.createBudget with
  | none =>
    rcases enough with all | ⟨b, limit, -⟩
    · exact all
    · cases budget.symm.trans limit
  | some b =>
    have under := most b budget
    rcases enough with all | ⟨b', limit, full⟩
    · exact all.trans (Nat.min_eq_right (all ▸ under)).symm
    · obtain rfl := Option.some.inj (budget.symm.trans limit)
      exact (Nat.le_antisymm under full).trans (Nat.min_eq_left (full.trans few)).symm

namespace Level

/-! ### Requests -/

/-- The cells of the level that active loaders cover and that are not resident. -/
def missing (l : Level N L) (loaders : List Loader) (tick : UInt64) : Finset Coord :=
  ((l.wanted loaders tick).filter (!l.contains ·)).toFinset

/-- The coordinates come in the order of their positions, each once. -/
def InOrder (cs : List Coord) : Prop := cs.Pairwise fun a b => compare a.pos b.pos = .lt

/-- The coordinates are what the level may ask for: missing cells, as many as the budget grants. -/
structure Asks (config : StreamConfig) (loaders : List Loader) (tick : UInt64) (l : Level N L)
    (requested : List Coord) : Prop where
  missing : ∀ c ∈ requested, c ∈ l.missing loaders tick
  distinct : requested.Nodup
  inOrder : InOrder requested
  count : requested.length = config.granted (l.missing loaders tick).card

variable {l m : Level N L} {loaders : List Loader} {tick : UInt64}

theorem mem_level_missing {c : Coord} : c ∈ l.missing loaders tick ↔
    (∃ ld ∈ loaders, ld.isActive tick = true ∧ c ∈ ld.cells l.index) ∧ l.contains c = false := by
  rw [missing, List.mem_toFinset, List.mem_filter, mem_wanted, Bool.not_eq_true']

theorem level_of_mem_missing {c : Coord} (mem : c ∈ l.missing loaders tick) :
    c.level = l.index := by
  obtain ⟨⟨ld, -, -, covered⟩, -⟩ := mem_level_missing.mp mem
  exact Loader.level_of_mem_cells covered

/-- A set of one level's coordinates is listed in the order of their positions. -/
theorem inOrder_toList {s : CoordSet} {i : UInt8} (level : ∀ c ∈ s, c.level = i) :
    InOrder s.toList := by
  refine Std.ExtTreeSet.ordered_toList.imp_of_mem fun {a b} here there below => ?_
  have la := level a (Std.ExtTreeSet.mem_toList.mp here)
  have lb := level b (Std.ExtTreeSet.mem_toList.mp there)
  rwa [Coord.compare_pos (la.trans lb.symm)] at below

theorem mem_missing_of_collected {budget : Option UInt64} {c : Coord}
    (mem : c ∈ l.collectMissing budget (l.wanted loaders tick) ∅) : c ∈ l.missing loaders tick := by
  obtain ⟨-, sound, -⟩ := collectMissing_spec l budget (l.wanted loaders tick) ∅
  obtain ⟨wanted, absent⟩ := (sound c mem).resolve_left Std.ExtTreeSet.not_mem_empty
  exact mem_level_missing.mpr ⟨mem_wanted.mp wanted, absent⟩

/-- Collecting goes on until nothing is missing or the budget is used up. -/
theorem size_collected (config : StreamConfig) (loaders : List Loader) (tick : UInt64)
    (l : Level N L) : (l.collectMissing config.createBudget (l.wanted loaders tick) ∅).size =
      config.granted (l.missing loaders tick).card := by
  obtain ⟨-, -, enough⟩ := collectMissing_spec l config.createBudget (l.wanted loaders tick) ∅
  let found := (l.collectMissing config.createBudget (l.wanted loaders tick) ∅).toList
  have card : found.toFinset.card =
      (l.collectMissing config.createBudget (l.wanted loaders tick) ∅).size :=
    (List.toFinset_card_of_nodup (nodup_toList _)).trans Std.ExtTreeSet.length_toList
  have subset : found.toFinset ⊆ l.missing loaders tick := fun c mem =>
    mem_missing_of_collected (Std.ExtTreeSet.mem_toList.mp (List.mem_toFinset.mp mem))
  refine StreamConfig.eq_granted (card ▸ Finset.card_le_card subset)
    (fun b limit => l.size_collectMissing limit _ (Nat.zero_le _)) (enough.imp_left fun all => ?_)
  rw [← card]
  congr 1
  refine Finset.Subset.antisymm subset fun c mem => List.mem_toFinset.mpr ?_
  obtain ⟨wanted, absent⟩ := mem_level_missing.mp mem
  exact Std.ExtTreeSet.mem_toList.mpr (all c (mem_wanted.mpr wanted) absent)

theorem requestLoads_asks (config : StreamConfig) (loaders : List Loader) (tick : UInt64)
    (l : Level N L) : ∃ requested, l.requestLoads loaders tick config.createBudget =
      (requested.length, l.pushAll .create requested) ∧ l.own requested = requested ∧
        Asks config loaders tick l requested := by
  have missing : ∀ c ∈ l.collectMissing config.createBudget (l.wanted loaders tick) ∅,
      c ∈ l.missing loaders tick := fun c => mem_missing_of_collected
  have listed : ∀ c ∈ (l.collectMissing config.createBudget (l.wanted loaders tick) ∅).toList,
      c ∈ l.missing loaders tick := fun c mem => missing c (Std.ExtTreeSet.mem_toList.mp mem)
  refine ⟨_, rfl, List.filter_eq_self.mpr fun c mem => ?_, listed, nodup_toList _,
    inOrder_toList fun c mem => level_of_mem_missing (missing c mem), ?_⟩
  · exact beq_iff_eq.mpr (level_of_mem_missing (listed c mem))
  · exact Std.ExtTreeSet.length_toList.trans (size_collected config loaders tick l)

/-- Without a budget every missing cell is asked for. -/
theorem Asks.complete {config : StreamConfig} {requested : List Coord}
    (asks : Asks config loaders tick l requested) (unlimited : config.createBudget = none) {c : Coord}
    (absent : c ∈ l.missing loaders tick) : c ∈ requested := by
  have count := asks.count
  rw [StreamConfig.granted, unlimited, ← List.toFinset_card_of_nodup asks.distinct] at count
  have subset : requested.toFinset ⊆ l.missing loaders tick :=
    fun c mem => asks.missing c (List.mem_toFinset.mp mem)
  rw [← Finset.eq_of_subset_of_card_le subset count.ge] at absent
  exact List.mem_toFinset.mp absent

/-! ### Evictions -/

section Placed

variable (placed : ∀ c n, l.get? c = some n → n.coord = c) (now : SimTime) (timeout : Duration)

include placed

theorem mem_unused {c : Coord} :
    c ∈ l.unused now timeout ↔ ∃ n, l.get? c = some n ∧ n.isUnused now timeout = true := by
  constructor
  · intro mem
    have mem : c ∈ takeBudget none (l.unused now timeout) := mem
    exact unused_of_collected placed mem
  · rintro ⟨n, found, idle⟩
    obtain ⟨-, stored⟩ := get?_eq_some_iff.mp found
    rw [unused, (perm_byPosition _).mem_iff, ← placed c n found]
    exact List.mem_map_of_mem (List.mem_filter.mpr ⟨mem_nodeList.mpr ⟨c.pos, stored⟩, idle⟩)

theorem inOrder_unused : InOrder (l.unused now timeout) := by
  have once : (l.unused now timeout).Nodup := by
    refine (perm_byPosition _).nodup_iff.mpr ?_
    exact (nodup_nodeList_coords placed).sublist (List.filter_sublist.map _)
  have level : ∀ c ∈ l.unused now timeout, c.level = l.index := by
    intro c mem
    obtain ⟨n, found, -⟩ := (mem_unused placed now timeout).mp mem
    exact level_eq_of_get? found
  refine ((sorted_byPosition _).and once).imp_of_mem fun {a b} here there both => ?_
  obtain ⟨le, differ⟩ := both
  cases order : compare a.pos b.pos with
  | lt => rfl
  | eq =>
    have pos : a.pos = b.pos := Std.LawfulEqCmp.eq_of_compare order
    exact absurd (congrArg₂ Coord.mk pos ((level a here).trans (level b there).symm)) differ
  | gt =>
    rw [order] at le
    cases le

end Placed

/-- What a step has left of a level from which it asked for cells and let others go. -/
structure Selected (l : Level N L) (requested evicted : List Coord) (m : Level N L) : Prop where
  index : m.index = l.index
  data : m.data = l.data
  queues : m.queues = (l.queues.append .create requested).append .unload (l.own evicted)
  nodes : ∀ c, m.get? c =
    if c ∈ evicted then (l.get? c).map (·.withState .unloading) else l.get? c

/-- The coordinates are the first unused nodes up to the budget, and none of them is selected when
eviction runs once more. -/
structure Evicts (budget : Option UInt64) (now : SimTime) (timeout : Duration) (l : Level N L)
    (evicted : List Coord) (m : Level N L) : Prop where
  unused : ∀ c, c ∈ l.unused now timeout ↔ ∃ n, l.get? c = some n ∧ n.state = .loaded ∧
    n.isLeaf = true ∧ n.observers = 0 ∧ timeout.nanos < (now.since n.lastUpdate).nanos
  inOrder : InOrder (l.unused now timeout)
  first : evicted = takeBudget budget (l.unused now timeout)
  queued : m.pending .unload = l.pending .unload ++ evicted
  again : ∀ more, ∃ next, (m.collectUnused now timeout more).1 = next.length ∧
    (m.collectUnused now timeout more).2.pending .unload = m.pending .unload ++ next ∧
      ∀ c ∈ next, c ∉ evicted

namespace Selected

variable {requested evicted : List Coord} (selected : Selected l requested evicted m)

include selected

theorem pending_create : m.pending .create = l.pending .create ++ requested := by
  rw [pending, selected.queues, Queues.get_append, if_neg (by decide), Queues.get_append, if_pos rfl]
  rfl

theorem pending_unload : m.pending .unload = l.pending .unload ++ l.own evicted := by
  rw [pending, selected.queues, Queues.get_append, if_pos rfl, Queues.get_append,
    if_neg (by decide)]
  rfl

theorem placed (placed : ∀ c n, l.get? c = some n → n.coord = c) :
    ∀ c n, m.get? c = some n → n.coord = c := by
  intro c n found
  rw [selected.nodes] at found
  split at found
  · obtain ⟨k, before, rfl⟩ := Option.map_eq_some_iff.mp found
    exact placed c k before
  · exact placed c n found

theorem evicts (placed : ∀ c n, l.get? c = some n → n.coord = c) {budget : Option UInt64}
    {now : SimTime} {timeout : Duration} (first : evicted = takeBudget budget (l.unused now timeout)) :
    Evicts budget now timeout l evicted m := by
  have kept := selected.placed placed
  have own : ∀ {k : Level N L} more, (∀ c n, k.get? c = some n → n.coord = c) →
      k.own (takeBudget more (k.unused now timeout)) = takeBudget more (k.unused now timeout) := by
    intro k more placed
    refine List.filter_eq_self.mpr fun c mem => ?_
    obtain ⟨n, found, -⟩ := (mem_unused placed now timeout).mp (mem_takeBudget mem)
    exact beq_iff_eq.mpr (level_eq_of_get? found)
  refine ⟨fun c => ?_, inOrder_unused placed now timeout, first, ?_, fun more => ?_⟩
  · rw [mem_unused placed now timeout]
    simp only [Node.isUnused_iff]
  · rw [selected.pending_unload, first, own budget placed]
  · refine ⟨_, rfl, ?_, fun c mem gone => ?_⟩
    · rw [(m.collectUnused_queued now timeout more).pending_unload, own more kept]
      rfl
    · obtain ⟨n, found, idle⟩ := (mem_unused kept now timeout).mp (mem_takeBudget mem)
      rw [selected.nodes, if_pos gone] at found
      obtain ⟨k, -, rfl⟩ := Option.map_eq_some_iff.mp found
      cases (Node.isUnused_iff.mp idle).1

end Selected

theorem collectUnused_selected (now : SimTime) (timeout : Duration) (budget : Option UInt64)
    (l : Level N L) : Selected l [] (takeBudget budget (l.unused now timeout))
      (l.collectUnused now timeout budget).2 := by
  have queued := l.collectUnused_queued now timeout budget
  refine ⟨queued.index, (bare_eq_iff.mp (bare_modifyAll l _ _)).2.2, queued.queues, ?_⟩
  exact get?_modifyAll l (f := (·.withState .unloading)) _ fun _ => rfl

/-- Asking first makes no difference to what is let go. -/
theorem Selected.after_requests {requested evicted : List Coord} (own : l.own requested = requested)
    (selected : Selected (l.pushAll .create requested) [] evicted m) :
    Selected l requested evicted m := by
  refine ⟨selected.index, selected.data, ?_, selected.nodes⟩
  rw [selected.queues, Queues.append_nil]
  change (l.queues.append .create (l.own requested)).append .unload (l.own evicted) = _
  rw [own]

theorem stream_selected {config : StreamConfig} {tick : UInt64} {l : Level N L}
    (due : config.levelDue tick l.index = true) (loaders : List Loader) (now : SimTime)
    (timeout : Duration) :
    ∃ requested, Asks config loaders tick l requested ∧
      (l.stream config loaders tick now timeout).1 =
        { requested := requested.length,
          evicted := (takeBudget config.unloadBudget (l.unused now timeout)).length } ∧
      Selected l requested (takeBudget config.unloadBudget (l.unused now timeout))
        (l.stream config loaders tick now timeout).2 := by
  obtain ⟨requested, asked, own, asks⟩ := requestLoads_asks config loaders tick l
  have selected := (collectUnused_selected now timeout config.unloadBudget
    (l.pushAll .create requested)).after_requests own
  refine ⟨requested, asks, ?_⟩
  rw [stream, if_pos due, asked]
  exact ⟨rfl, selected⟩

/-- On a tick on which it is due, a level of any contents asks for as many of its missing cells as the
budget grants, and nothing else changes but the states and commands of the nodes that it lets go. If
its nodes are stored under their own coordinates, it lets go the first unused nodes up to the budget,
and none of them a second time. -/
theorem stream_selects {config : StreamConfig} {tick : UInt64} {l : Level N L}
    (due : config.levelDue tick l.index = true) (loaders : List Loader) (now : SimTime)
    (timeout : Duration) :
    ∃ requested evicted m, l.stream config loaders tick now timeout =
        ({ requested := requested.length, evicted := evicted.length }, m) ∧
      Asks config loaders tick l requested ∧ Selected l requested evicted m ∧
      ((∀ c n, l.get? c = some n → n.coord = c) →
        Evicts config.unloadBudget now timeout l evicted m) := by
  obtain ⟨requested, asks, tally, selected⟩ := stream_selected due loaders now timeout
  exact ⟨requested, _, _, Prod.ext tally rfl, asks, selected,
    fun placed => selected.evicts placed rfl⟩

/-- Two loaded nodes that nobody needs, and two loaders whose spheres overlap. -/
theorem stream_selects_from_overlap :
    let node (x : Int32) : Node Unit := { coord := ⟨⟨x, 0, 0⟩, 0⟩, state := .loaded, data := () }
    let nodes : Std.ExtTreeMap Position (Node Unit) :=
      (Std.ExtTreeMap.empty.insert ⟨5, 0, 0⟩ (node 5)).insert ⟨-7, 0, 0⟩ (node (-7))
    let l : Level Unit Unit := { index := 0, nodes, data := () }
    let loaders : List Loader := [{}, { position := ⟨1, 0, 0⟩ }]
    let config : StreamConfig := { createBudget := some 40, unloadBudget := some 1 }
    let now := SimTime.ofDuration (Duration.ofSeconds 21)
    let timeout := Duration.ofSeconds 20
    config.levelDue 3 l.index = true ∧ (∀ c n, l.get? c = some n → n.coord = c) ∧
      ∃ requested m, l.stream config loaders 3 now timeout =
          ({ requested := 36, evicted := 1 }, m) ∧ requested.length = 36 ∧
        Asks config loaders 3 l requested ∧ Selected l requested [⟨⟨-7, 0, 0⟩, 0⟩] m ∧
          Evicts (some 1) now timeout l [⟨⟨-7, 0, 0⟩, 0⟩] m := by
  intro node nodes l loaders config now timeout
  have due : config.levelDue 3 l.index = true := by decide
  have placed : ∀ c n, l.get? c = some n → n.coord = c := by
    have pairs : ∀ stored ∈ l.nodes.toList, stored.2.coord = ⟨stored.1, l.index⟩ := by
      decide +kernel
    intro c n found
    obtain ⟨level, stored⟩ := get?_eq_some_iff.mp found
    rw [pairs (c.pos, n) (Std.ExtTreeMap.mem_toList_iff_getElem?_eq_some.mpr stored), ← level]
  have idle : l.unused now timeout = [⟨⟨-7, 0, 0⟩, 0⟩, ⟨⟨5, 0, 0⟩, 0⟩] := by
    have listed : (l.nodeList.filter (·.isUnused now timeout)).map (·.coord) =
        [⟨⟨-7, 0, 0⟩, 0⟩, ⟨⟨5, 0, 0⟩, 0⟩] := by decide +kernel
    rw [unused, listed]
    exact List.mergeSort_of_pairwise (by decide)
  have card : config.granted (l.missing loaders 3).card = 36 := by decide +kernel
  obtain ⟨requested, evicted, m, streamed, asks, selected, evicts⟩ :=
    stream_selects due loaders now timeout
  have first := (evicts placed).first
  rw [idle] at first
  subst first
  have count := asks.count.trans card
  rw [count] at streamed
  exact ⟨due, placed, requested, m, streamed, count, asks, selected, evicts placed⟩

/-- A node that is stored under another coordinate than its own is asked to go at its own, where there
is none. It stays loaded and is asked again. -/
theorem stray_node_selected_again :
    let stray : Node Unit := { coord := ⟨⟨5, 0, 0⟩, 0⟩, state := .loaded, data := () }
    let nodes : Std.ExtTreeMap Position (Node Unit) := Std.ExtTreeMap.empty.insert ⟨0, 0, 0⟩ stray
    let l : Level Unit Unit := { index := 0, nodes, data := () }
    let now := SimTime.ofDuration (Duration.ofSeconds 25)
    let timeout := Duration.ofSeconds 20
    let once := l.stream {} [] 0 now timeout
    let twice := once.2.collectUnused now timeout none
    ({} : StreamConfig).levelDue 0 l.index = true ∧ stray.isUnused now timeout = true ∧
      once.1.evicted = 1 ∧ (once.2.get? ⟨⟨0, 0, 0⟩, 0⟩).map Node.state = some .loaded ∧
        twice.1 = 1 ∧ twice.2.pending .unload = [⟨⟨5, 0, 0⟩, 0⟩, ⟨⟨5, 0, 0⟩, 0⟩] := by
  decide +kernel

end Level

end OctreeWorld
