import OctreeWorld.Proofs.Accounts

/-!
# Residencies

What the history of a run tells about the nodes of the world. Whatever way a node leaves, the unload
processors have run on it once by then, and they run on no node that stays in service. The load
processors run once on every node that is put into service, except that a command to unload a node
that is still loading lets it skip its load.
-/

namespace OctreeWorld

variable {N L σ : Type}

/-! ### What one operation tells -/

/-- How many of `n` load processors run where nodes can stop loading in some way. -/
def Exit.loaders (n : Nat) : Option Exit → Nat
  | some .loaded => n
  | _ => 0

namespace Hierarchy

/-- What has become of the residents. -/
def survivors (h g : Hierarchy N L) (c : Coord) : Option (Node N) :=
  if h.contains c then g.get? c else none

/-- The record accounts for what has become of the residents, given `m` unload processors and `n`
load processors. What is new is loading, and nothing that stays has stopped loading where there is
no way to do so. -/
structure Told (m n : Nat) (exit : Option Exit) (h g : Hierarchy N L) (record : History) :
    Prop where
  linked : g.Linked
  account : Accounted m (Exit.loaders n exit) h.get? (h.survivors g) record
  newborn : ∀ c a, h.contains c = false → g.get? c = some a → a.state = .loading
  steady : exit = none → ∀ c, h.contains c = true → g.contains c = true →
    Node.waits (g.get? c) = Node.waits (h.get? c)

namespace Told

variable {m n : Nat} {exit : Option Exit} {h g : Hierarchy N L} {record : History}

/-- Without creation all residents are survivors. -/
theorem of_booked (linked : g.Linked)
    (booked : Booked m (Exit.loaders n exit) h.get? g.get? [] record)
    (steady : exit = none → ∀ c, g.contains c = true →
      Node.waits (g.get? c) = Node.waits (h.get? c)) : Told m n exit h g record := by
  obtain ⟨record, rfl, account⟩ := booked
  rw [List.append_nil]
  have absent : ∀ c, h.contains c = false → g.get? c = none := by
    intro c absent
    cases found : g.get? c with
    | none => rfl
    | some a =>
      have there := account.resident c (by rw [found]; rfl)
      rw [contains_eq_false_iff.mp absent] at there
      cases there
  have all : h.survivors g = g.get? := by
    funext c
    rw [survivors]
    split
    · rfl
    · rename_i none_
      exact (absent c (Bool.eq_false_iff.mpr none_)).symm
  refine ⟨linked, by rw [all]; exact account, fun c a none_ found => ?_,
    fun quiet c _ there => steady quiet c there⟩
  rw [absent c none_] at found
  cases found

theorem of_exit {way : Exit} (linked : g.Linked)
    (booked : Booked m (Exit.loaders n (some way)) h.get? g.get? [] record) :
    Told m n (some way) h g record :=
  .of_booked linked booked fun none_ => absurd none_ (Option.some_ne_none way)

/-- Where load processors could be counted too and none runs, nothing stops loading. -/
theorem of_calm (linked : g.Linked) (booked : ∀ k, Booked m k h.get? g.get? [] record) :
    Told m n exit h g record :=
  .of_booked linked (booked _) fun _ c _ => (booked 0).steady (booked 1) c

theorem of_quiet (linked : g.Linked) (account : ∀ k, Accounted m k h.get? g.get? []) :
    Told m n exit h g [] :=
  .of_calm linked fun k => .quiet (account k) []

theorem of_grown {factory : PayloadFactory N L} {now : SimTime} {drained : List UInt8}
    {created : List Coord} (grown : Grown factory now drained created h g) :
    Told m n exit h g [] := by
  have states : ∀ c, ∀ test : NodeState → Bool,
      (h.survivors g c).any (fun a => test a.state) = (h.get? c).any fun a => test a.state := by
    intro c test
    rw [survivors]
    split
    · rename_i resident
      exact any_congr_body (grown.old resident) test
    · rename_i absent
      rw [contains_eq_false_iff.mp (Bool.eq_false_iff.mpr absent)]
  have waits : ∀ c, Node.waits (h.survivors g c) = Node.waits (h.get? c) :=
    fun c => states c (· == .loading)
  refine ⟨grown.linked, .of_states (fun c there => ?_) (fun c => states c (· != .deleting))
    (fun c yes => (waits c).symm.trans yes) fun _ c yes => (waits c).trans yes,
    fun c a absent found => Node.state_congr (grown.young absent found).2,
    fun _ c resident _ => any_congr_body (grown.old resident) (· == .loading)⟩
  · rw [survivors] at there
    split at there
    · assumption
    · cases there

end Told

end Hierarchy

namespace World

variable {w : World σ N L}

/-- Processors that write no states. -/
structure Calm (w : World σ N L) : Prop where
  node : w.processors.toNodeProcessors.Obey NodeEdit.Calm
  level : ∀ p ∈ w.processors.level, p.Obeys (LevelEdit.Allowed NodeEdit.Calm)

/-- Watching hides nothing from a world that writes no states. -/
theorem Calm.watched (calm : w.Calm) : w.watched.Calm where
  node := ⟨watchFrom_obeys calm.node.load .load 0, watchFrom_obeys calm.node.unload .unload 0,
    watchFrom_obeys calm.node.tick .tick 0⟩
  level := by
    intro q listed
    obtain ⟨p, among, rfl⟩ := List.mem_map.mp listed
    exact fun ctx v t => calm.level p among ctx v t.1

/-- Draining a queue books what it does to each level. -/
theorem drainLevels_booked {m k : Nat} (linked : w.hierarchy.Linked) (kind : CommandKind)
    {step : BatchContext → Level N L → σ × History → Nat × Level N L × (σ × History)}
    (each : ∀ ctx l t, (∀ c n, l.get? c = some n → n.coord = c) →
      (step ctx l t).2.1.index = l.index ∧
        Booked m k l.get? (step ctx l t).2.1.get? t.2 (step ctx l t).2.2.2) (t : σ × History) :
    Booked m k w.hierarchy.get? (w.watched.drainLevels kind step t).2.1.hierarchy.get? t.2
      (w.watched.drainLevels kind step t).2.2.2 :=
  linked.numbered.sweep_booked (fun _ mem t => each _ _ t (linked.placed_level mem)) t

/-- What processors record in an operation accounts for what it does to the nodes. -/
theorem perform_told (linked : w.hierarchy.Linked) (calm : w.Calm) {op : Operation N L}
    (fair : op.Fair NodeEdit.Calm) (s : σ) : Hierarchy.Told w.processors.unload.length
      w.processors.load.length op.exit w.hierarchy (op.perform w.watched (s, [])).1.hierarchy
      (op.perform w.watched (s, [])).2.2 := by
  have before : w.watched.hierarchy.Linked := linked
  have node := calm.watched.node
  have linked' : (op.perform w.watched (s, [])).1.hierarchy.Linked :=
    (Operation.perform_evolved before node calm.watched.level fair (s, [])).linked before
  have push : ∀ q c k, Accounted w.processors.unload.length k w.hierarchy.get?
      (w.hierarchy.modifyLevel c.level (·.push q c)).get? [] := by
    intro q c k
    rw [show (w.hierarchy.modifyLevel c.level (·.push q c)).get? = w.hierarchy.get? from
      funext (Hierarchy.get?_modifyLevel_of_get? c.level fun l x => Level.get?_pushAll l q [c] x)]
    exact .refl _
  cases op with
  | setTime tick now => exact .of_quiet linked' fun _ => .refl _
  | createNode c =>
    revert linked'
    rw [Operation.perform]
    split
    · exact fun linked' => .of_quiet linked' fun _ => .refl _
    · rename_i w' done
      obtain ⟨g, rfl, grown⟩ := createNode_eq before done
      exact fun _ => .of_grown grown
  | unloadNode c =>
    exact .of_booked linked' (linked.unloadSubtree_booked calm.node.unload _ c (s, []))
      fun _ x there => linked.unloadSubtree_waits _ _ c (s, []) there
  | observe c =>
    revert linked'
    rw [Operation.perform, World.observe]
    cases w.watched.hierarchy.get? c with
    | none => exact fun linked' => .of_quiet linked' fun _ => .refl _
    | some n =>
      exact fun linked' => .of_quiet linked' fun k => .of_change
        (fun x => Hierarchy.get?_modify w.hierarchy c x _) fun _ _ => .refl _ _
  | release c =>
    revert linked'
    rw [Operation.perform, World.release]
    cases found : w.watched.hierarchy.get? c with
    | none => exact fun linked' => .of_quiet linked' fun _ => .refl _
    | some n =>
      simp only
      cases taken : n.removeObserver? with
      | none => exact fun linked' => .of_quiet linked' fun _ => .refl _
      | some released =>
        obtain ⟨count, rfl⟩ := Node.removeObserver?_eq_some taken
        refine fun linked' => .of_quiet linked' fun k => .of_change
          (fun x => Hierarchy.get?_modify w.hierarchy c x _) fun m at_ => ?_
        have same : w.hierarchy.get? c = some n := found
        rw [same, Option.some.injEq] at at_
        subst at_
        exact .refl _ _
  | queueCreate c => exact .of_quiet linked' (push .create c)
  | queueUnload c =>
    refine .of_exit linked' (.quiet (.of_change
      (fun x => Hierarchy.get?_mark w.hierarchy c x _ .unload) fun n _ => ?_) [])
    split
    · exact .refl _ _
    · rename_i live
      exact ⟨⟨NodeState.noConfusion, fun deleting => absurd deleting live⟩, NodeState.noConfusion,
        fun counted => absurd counted (Nat.lt_irrefl 0)⟩
  | queueTick c => exact .of_quiet linked' (push .tick c)
  | levelWorkerPhase f =>
    refine .of_calm linked' fun k => linked.numbered.sweep_booked (fun l mem t => ?_) (s, [])
    let ctx := (w.watched.batchContext .level).atLevel l.index
    have batch := Level.runLevelBatch_called calm.watched.level ctx l t
    have called : Level.Called NodeEdit.Calm l _ := Relation.ReflTransGen.trans batch (fair _)
    have links := (Level.Stepped.of_called called).sameLinks
    have same : (runLevelBatch w.watched.processors.level ctx l t).2.2 = t.2 :=
      runLevelBatch_beside w.processors.level t
    refine ⟨links.1, [], same, called.accounted (linked.placed_level mem)⟩
  | worldWorkerPhase =>
    refine .of_calm linked' fun k =>
      drainLevels_booked linked .tick (fun ctx l t placed => ?_) (s, [])
    exact ⟨(Level.tick_edited Processor.obeys_any ctx l t).index,
      Level.tick_booked calm.node.tick placed ctx t⟩
  | createPhase =>
    obtain ⟨created, g, run, grown, -⟩ := linked.createPending w.factory w.now
    have result : w.watched.createPhase.2.hierarchy = g := by
      rw [World.createPhase, show w.watched.hierarchy.createPending w.watched.factory
        w.watched.now = (created, g) from run]
    rw [Operation.perform, result]
    exact .of_grown grown
  | loadPhase =>
    refine .of_exit linked' (drainLevels_booked linked .load (fun ctx l t placed => ?_) (s, []))
    exact ⟨(Level.Step.load node.load ctx t).sameLinks.1,
      Level.load_booked calm.node.load placed ctx t⟩
  | unloadPhase =>
    refine .of_exit linked' (drainLevels_booked linked .unload (fun ctx l t placed => ?_) (s, []))
    exact ⟨(Level.Step.unload node.unload ctx t).sameLinks.1,
      Level.unload_booked calm.node.unload placed ctx t⟩
  | destroyPhase =>
    exact .of_booked linked' (linked.destroyAt_booked calm.node.unload _ _ (s, []))
      fun _ x there => linked.destroyPending_waits _ _ (s, []) there

end World

/-! ### What an operation adds to a history -/

namespace Hierarchy

variable {m n : Nat} {exit : Option Exit} {h g : Hierarchy N L} {record hist : History} {c : Coord}

theorem Linked.mem_coords (linked : h.Linked) : c ∈ h.coords ↔ h.contains c = true := by
  rw [coords, List.mem_map, contains_iff]
  constructor
  · rintro ⟨a, listed, rfl⟩
    obtain ⟨d, found⟩ := linked.numbered.mem_nodeList.mp listed
    rw [linked.placed d a found]
    exact ⟨a, found⟩
  · rintro ⟨a, found⟩
    exact ⟨a, linked.numbered.mem_nodeList.mpr ⟨c, found⟩, linked.placed c a found⟩

theorem Linked.mem_exits (linked : g.Linked) {e : Event} : e ∈ h.exits g exit ↔
    ∃ way x, exit = some way ∧ g.contains x = true ∧ Node.waits (h.get? x) = true ∧
      Node.waits (g.get? x) = false ∧ e = .left way x := by
  cases exit with
  | none => simp [exits]
  | some way =>
    simp only [exits, List.mem_map, List.mem_filter, linked.mem_coords, Bool.and_eq_true,
      Bool.not_eq_true', Option.some.injEq]
    constructor
    · rintro ⟨x, ⟨there, waited, done⟩, rfl⟩
      exact ⟨way, x, rfl, there, waited, done, rfl⟩
    · rintro ⟨_, x, rfl, there, waited, done, rfl⟩
      exact ⟨x, ⟨there, waited, done⟩, rfl⟩

theorem count_turns (h g : Hierarchy N L) (exit : Option Exit) (record : History)
    (kind : CommandKind) (i : Nat) (c : Coord) :
    (h.turns g exit record).count (.ran kind i c) = record.count (.ran kind i c) := by
  have quiet : (h.exits g exit).count (.ran kind i c) = 0 := by
    cases exit with
    | none => rfl
    | some way => exact History.count_map_ran fun _ => Event.noConfusion
  rw [turns, List.count_append, List.count_append, List.count_append, quiet,
    History.count_map_ran fun _ => Event.noConfusion,
    History.count_map_ran fun _ => Event.noConfusion, Nat.zero_add, Nat.zero_add, Nat.add_zero]

namespace Told

variable (linked : h.Linked) (told : Told m n exit h g record)

include linked told

/-- What stands in the record stands for runs, and the rest for what the hierarchies show. -/
theorem mem_turns (e : Event) : e ∈ h.turns g exit record ↔
    match e with
    | .ran .. => e ∈ record
    | .created c => h.contains c = false ∧ g.contains c = true
    | .left way c => exit = some way ∧ g.contains c = true ∧ Node.waits (h.get? c) = true ∧
        Node.waits (g.get? c) = false
    | .retired c => Node.serves (h.get? c) = true ∧ Node.serves (g.get? c) = false
    | .registered .. | .removed _ => False := by
  have resident : ∀ x, Node.serves (h.get? x) = true → h.contains x = true := by
    intro x serves
    obtain ⟨a, found, -⟩ := (Option.any_eq_true ..).mp serves
    exact contains_iff.mpr ⟨a, found⟩
  have other : ∀ e, (∀ k i c, e ≠ .ran k i c) → e ∉ record := by
    intro e differ listed
    obtain ⟨k, i, c, same⟩ := told.account.runs e listed
    exact differ k i c same
  simp only [turns, List.mem_append, List.mem_map, List.mem_filter, linked.mem_coords,
    told.linked.mem_coords, told.linked.mem_exits, Bool.and_eq_true, Bool.not_eq_true']
  cases e with
  | ran k i c => simp
  | created c => simp [other (.created c) fun _ _ _ => Event.noConfusion, and_comm]
  | left way c => simp [other (.left way c) fun _ _ _ => Event.noConfusion]
  | retired c =>
    simpa [other (.retired c) fun _ _ _ => Event.noConfusion] using
      fun served _ => resident c served
  | registered k i => simpa using other (.registered k i) fun _ _ _ => Event.noConfusion
  | removed c => simpa using other (.removed c) fun _ _ _ => Event.noConfusion

theorem created_turns : .created c ∈ h.turns g exit record ↔
    h.contains c = false ∧ g.contains c = true := told.mem_turns linked (.created c)

theorem not_created (resident : h.contains c = true) : .created c ∉ h.turns g exit record := by
  rw [told.created_turns linked, resident]
  exact fun both => absurd both.1 nofun

theorem left_turns {way : Exit} : .left way c ∈ h.turns g exit record ↔ exit = some way ∧
    g.contains c = true ∧ Node.waits (h.get? c) = true ∧ Node.waits (g.get? c) = false :=
  told.mem_turns linked (.left way c)

theorem retired_turns : .retired c ∈ h.turns g exit record ↔
    Node.serves (h.get? c) = true ∧ Node.serves (g.get? c) = false :=
  told.mem_turns linked (.retired c)

theorem registered_turns (kind : CommandKind) (i : Nat) :
    .registered kind i ∉ h.turns g exit record :=
  (told.mem_turns linked (.registered kind i)).mp

theorem removed_turns (c : Coord) : .removed c ∉ h.turns g exit record :=
  (told.mem_turns linked (.removed c)).mp

/-- On a resident whose mark is not set, an operation that runs no processor is silent. -/
theorem silent (resident : h.contains c = true) {kind : CommandKind} {mark : Event}
    (unmarked : mark ∉ h.turns g exit record) (nothing : ∀ i, record.count (.ran kind i c) = 0) :
    (h.turns g exit record).Silent kind mark c :=
  ⟨told.not_created linked resident, unmarked, fun i =>
    (count_turns h g exit record kind i c).trans (nothing i)⟩

/-- What a history says about the service of a resident stays right through an operation. -/
theorem turn (resident : h.contains c = true)
    (known : ∀ i, .registered .unload i ∈ hist ↔ i < m)
    (tells : hist.Tells c (Node.serves (h.get? c))) :
    (h.turns g exit record ++ hist).Tells c (Node.serves (g.get? c)) := by
  have survivor : h.survivors g c = g.get? c := if_pos resident
  have balance : ∀ i, record.count (.ran .unload i c) +
      (if i < m then (Node.serves (g.get? c)).toNat else 0) =
        if i < m then (Node.serves (h.get? c)).toNat else 0 := by
    intro i
    rw [← survivor]
    exact told.account.unload i c
  by_cases same : Node.serves (g.get? c) = Node.serves (h.get? c)
  · rw [same]
    refine tells.append (told.silent linked resident (fun listed => ?_) fun i => ?_)
    · obtain ⟨served, gone⟩ := (told.retired_turns linked).mp listed
      rw [same, served] at gone
      cases gone
    · have even := balance i
      rw [same] at even
      omega
  · cases serves : Node.serves (g.get? c) with
    | true =>
      -- Nothing comes to life again.
      have served := told.account.serving c (by rw [survivor]; exact serves)
      exact absurd (serves.trans served.symm) same
    | false =>
      have served : Node.serves (h.get? c) = true := by simpa [serves] using Ne.symm same
      rw [served] at tells
      refine History.Untouched.pass tells (told.not_created linked resident)
        ((told.retired_turns linked).mpr ⟨served, serves⟩)
        (told.registered_turns linked .unload) fun i => ?_
      have even := balance i
      rw [serves, served] at even
      rw [count_turns]
      by_cases below : i < m
      · simpa [below, known] using even
      · simpa [below, known] using even

/-- What a history says about the load of a resident that stays remains right. -/
theorem turn_load (resident : h.contains c = true) (there : g.contains c = true)
    (known : ∀ i, .registered .load i ∈ hist ↔ i < n)
    (tells : hist.TellsLoad c (Node.waits (h.get? c))) :
    (h.turns g exit record ++ hist).TellsLoad c (Node.waits (g.get? c)) := by
  have survivor : h.survivors g c = g.get? c := if_pos resident
  have created := told.not_created linked resident
  have balance : ∀ i, record.count (.ran .load i c) +
      (if i < Exit.loaders n exit then (Node.waits (g.get? c)).toNat else 0) =
        if i < Exit.loaders n exit then (Node.waits (h.get? c)).toNat else 0 := by
    intro i
    rw [← survivor]
    exact told.account.load i c
  by_cases same : Node.waits (g.get? c) = Node.waits (h.get? c)
  · rw [same]
    refine tells.append (told.silent linked resident (fun listed => ?_) fun i => ?_)
    · obtain ⟨-, -, waited, done⟩ := (told.left_turns linked).mp listed
      rw [same, waited] at done
      cases done
    · have even := balance i
      rw [same] at even
      omega
  · have waited : Node.waits (g.get? c) = false ∧ Node.waits (h.get? c) = true := by
      have waiting := told.account.waiting c
      rw [survivor] at waiting
      revert same waiting
      cases Node.waits (g.get? c) <;> cases Node.waits (h.get? c) <;> simp
    obtain ⟨done, waited⟩ := waited
    rw [waited] at tells
    rw [done]
    cases exit with
    | none => exact absurd (told.steady rfl c resident there) same
    | some way =>
      have leaves := (told.left_turns linked).mpr ⟨rfl, there, waited, done⟩
      cases way with
      | loaded =>
        refine Or.inl (History.Untouched.pass tells created leaves
          (told.registered_turns linked .load) fun i => ?_)
        have even := balance i
        rw [done, waited] at even
        rw [count_turns]
        by_cases below : i < n
        · simpa [below, known, Exit.loaders] using even
        · simpa [below, known, Exit.loaders] using even
      | withdrawn =>
        have silent : (h.turns g (some .withdrawn) record).Silent .load (.left .loaded c) c :=
          told.silent linked resident
            (fun listed =>
              Exit.noConfusion (Option.some.inj ((told.left_turns linked).mp listed).1))
            fun i => by simpa [Exit.loaders] using balance i
        refine Or.inr ⟨?_, History.Untouched.append tells silent⟩
        rw [History.since_append created]
        exact List.mem_append_left _ leaves

/-- On a cell that an operation creates nothing has run yet. -/
theorem enter (absent : h.contains c = false) (there : g.contains c = true) {kind : CommandKind}
    {mark : Event} (unmarked : mark ∉ h.turns g exit record)
    (nothing : ∀ i, record.count (.ran kind i c) = 0) :
    (h.turns g exit record ++ hist).Untouched kind mark c := by
  have created : .created c ∈ h.turns g exit record :=
    (told.created_turns linked).mpr ⟨absent, there⟩
  refine ⟨?_, fun i => ?_⟩
  · rw [History.since_append_of_mem created]
    exact fun listed => unmarked ((List.takeWhile_sublist _).subset listed)
  · rw [History.runs, History.since_append_of_mem created, ← Nat.le_zero, ← nothing i,
      ← count_turns h g exit record]
    exact (List.takeWhile_sublist _).count_le _

theorem registered_changes {kind : CommandKind} {i : Nat} :
    .registered kind i ∈ h.changes g exit record ++ hist ↔ .registered kind i ∈ hist := by
  rw [changes, List.append_assoc, List.mem_append, List.mem_append, or_iff_right (by simp),
    or_iff_right (told.registered_turns linked kind i)]

theorem created (created : h.contains c = true → .created c ∈ hist) (there : g.contains c = true) :
    .created c ∈ h.changes g exit record ++ hist := by
  rw [changes, List.append_assoc, List.mem_append, List.mem_append, told.created_turns linked]
  by_cases resident : h.contains c = true
  · exact Or.inr (Or.inr (created resident))
  · exact Or.inr (Or.inl ⟨Bool.eq_false_iff.mpr resident, there⟩)

/-- What a history says about the service of the residents stays right through an operation. -/
theorem tells (known : ∀ i, .registered .unload i ∈ hist ↔ i < m)
    (tells : h.contains c = true → hist.Tells c (Node.serves (h.get? c)))
    (there : g.contains c = true) :
    (h.changes g exit record ++ hist).Tells c (Node.serves (g.get? c)) := by
  have turned : (h.turns g exit record ++ hist).Tells c (Node.serves (g.get? c)) := by
    by_cases resident : h.contains c = true
    · exact told.turn linked resident known (tells resident)
    · have absent := Bool.eq_false_iff.mpr resident
      have none_ : Node.serves (h.get? c) = false := by
        rw [contains_eq_false_iff.mp absent]
        rfl
      obtain ⟨a, found⟩ := contains_iff.mp there
      rw [found, Node.serves, Option.any_some, told.newborn c a absent found]
      refine told.enter linked absent there (fun listed => ?_) fun i => ?_
      · rw [told.retired_turns linked, none_] at listed
        cases listed.1
      · have even := told.account.unload i c
        rw [none_] at even
        simp only [Bool.toNat_false, ite_self] at even
        omega
  rw [changes, List.append_assoc]
  exact turned.append (History.silent_removed (fun _ => Event.noConfusion) .unload _ c)

/-- What a history says about the load of the residents stays right through an operation. -/
theorem tells_load (known : ∀ i, .registered .load i ∈ hist ↔ i < n)
    (tells : h.contains c = true → hist.TellsLoad c (Node.waits (h.get? c)))
    (there : g.contains c = true) :
    (h.changes g exit record ++ hist).TellsLoad c (Node.waits (g.get? c)) := by
  have turned : (h.turns g exit record ++ hist).TellsLoad c (Node.waits (g.get? c)) := by
    by_cases resident : h.contains c = true
    · exact told.turn_load linked resident there known (tells resident)
    · have absent := Bool.eq_false_iff.mpr resident
      have none_ : Node.waits (h.get? c) = false := by
        rw [contains_eq_false_iff.mp absent]
        rfl
      obtain ⟨a, found⟩ := contains_iff.mp there
      rw [found, Node.waits, Option.any_some, told.newborn c a absent found]
      refine told.enter linked absent there (fun listed => ?_) fun i => ?_
      · rw [told.left_turns linked, none_] at listed
        cases listed.2.2.1
      · have even := told.account.load i c
        rw [none_] at even
        simp only [Bool.toNat_false, ite_self] at even
        omega
  rw [changes, List.append_assoc]
  exact turned.append (History.silent_removed (fun _ => Event.noConfusion) .load _ c)

/-- At the removal of a node its unload processors have run. -/
theorem removal (known : ∀ i, .registered .unload i ∈ hist ↔ i < m)
    (tells : h.contains c = true → hist.Tells c (Node.serves (h.get? c)))
    {earlier : History} (removal : .removed c :: earlier <:+ h.changes g exit record ++ hist) :
    (h.contains c = true ∧ (∃ new, earlier = new ++ hist) ∧ earlier.Unloaded c) ∨
      .removed c :: earlier <:+ hist := by
  rw [changes, List.append_assoc] at removal
  rcases History.removal_of_removed removal with ⟨listed, ds, rfl⟩ | removal
  · obtain ⟨among, absent⟩ := List.mem_filter.mp listed
    have resident := linked.mem_coords.mp among
    have gone : g.get? c = none := contains_eq_false_iff.mp (by simpa using absent)
    have turned := told.turn linked resident known (tells resident)
    rw [gone] at turned
    exact Or.inl ⟨resident, ⟨_, (List.append_assoc ..).symm⟩,
      turned.append (History.silent_removed (fun _ => Event.noConfusion) .unload ds c)⟩
  · exact Or.inr (History.removal_of_append (told.removed_turns linked c) removal)

end Told

end Hierarchy

/-! ### Whole runs -/

namespace World

/-- The history of a run agrees with the nodes of its world. -/
structure Faithful (w : World σ N L) (hist : History) : Prop where
  linked : w.hierarchy.Linked
  calm : w.Calm
  unload : ∀ i, .registered .unload i ∈ hist ↔ i < w.processors.unload.length
  load : ∀ i, .registered .load i ∈ hist ↔ i < w.processors.load.length
  created : ∀ c, w.hierarchy.contains c = true → .created c ∈ hist
  tells : ∀ c, w.hierarchy.contains c = true → hist.Tells c (Node.serves (w.hierarchy.get? c))
  tells_load : ∀ c, w.hierarchy.contains c = true →
    hist.TellsLoad c (Node.waits (w.hierarchy.get? c))
  removed : ∀ c (earlier : History), .removed c :: earlier <:+ hist →
    .created c ∈ earlier ∧ earlier.Unloaded c

namespace Faithful

variable {w : World σ N L} {hist : History}

theorem empty (id : WorldId) (config : WorldConfig) (factory : PayloadFactory N L) :
    (World.empty id config factory : World σ N L).Faithful [] := by
  have absent : ∀ c, (World.empty id config factory : World σ N L).hierarchy.contains c ≠ true := by
    intro c resident
    obtain ⟨n, found⟩ := Hierarchy.contains_iff.mp resident
    rw [World.empty, Hierarchy.empty_get?] at found
    cases found
  have none_ : (World.empty id config factory : World σ N L).processors = {} := rfl
  refine ⟨Hierarchy.empty_linked _ _, ⟨⟨?_, ?_, ?_⟩, ?_⟩, fun i => ?_, fun i => ?_,
    fun c there => absurd there (absent c), fun c there => absurd there (absent c),
    fun c there => absurd there (absent c), fun c earlier removal => ?_⟩
  iterate 4
    · rw [none_]
      exact nofun
  iterate 2
    · rw [none_]
      exact ⟨nofun, nofun⟩
  · exact absurd (List.suffix_nil.mp removal) nofun

theorem perform (faithful : w.Faithful hist) {op : Operation N L} (fair : op.Fair NodeEdit.Calm)
    (s : σ) : (op.perform w s).1.Faithful (w.record s op ++ hist) := by
  have told := perform_told faithful.linked faithful.calm fair s
  rw [record, perform_watched w s op]
  revert told
  generalize (op.perform w.watched (s, [])).1 = w'
  generalize (op.perform w.watched (s, [])).2.2 = record
  intro told
  have linked := faithful.linked
  refine ⟨told.linked, ⟨faithful.calm.node, faithful.calm.level⟩,
    fun i => (told.registered_changes linked).trans (faithful.unload i),
    fun i => (told.registered_changes linked).trans (faithful.load i),
    fun c there => told.created linked (faithful.created c) there,
    fun c there => told.tells linked faithful.unload (faithful.tells c) there,
    fun c there => told.tells_load linked faithful.load (faithful.tells_load c) there,
    fun c earlier removal => ?_⟩
  rcases told.removal linked faithful.unload (faithful.tells c) removal with
    ⟨resident, ⟨new, rfl⟩, unloaded⟩ | removal
  · exact ⟨List.mem_append_right _ (faithful.created c resident), unloaded⟩
  · exact faithful.removed c earlier removal

theorem register (faithful : w.Faithful hist) (kind : CommandKind) {p : NodeProcessor σ N L}
    (obeys : p.Obeys NodeEdit.Calm) :
    ({ w with processors := w.processors.add p kind } : World σ N L).Faithful
      (.registered kind (w.processors.ofKind kind).length :: hist) := by
  have more : ∀ ps : List (NodeProcessor σ N L), (∀ q ∈ ps, q.Obeys NodeEdit.Calm) →
      ∀ q ∈ ps ++ [p], q.Obeys NodeEdit.Calm := by
    intro ps all q listed
    rcases List.mem_append.mp listed with listed | listed
    · exact all q listed
    · rwa [List.mem_singleton.mp listed]
  obtain ⟨⟨load, unload, tick⟩, level⟩ := faithful.calm
  refine ⟨faithful.linked, ?_, fun i => ?_, fun i => ?_,
    fun c there => List.mem_cons_of_mem _ (faithful.created c there),
    fun c there => (faithful.tells c there).append
      (History.silent_registered (fun _ _ => Event.noConfusion) .unload _ _ c),
    fun c there => (faithful.tells_load c there).append
      (History.silent_registered (fun _ _ => Event.noConfusion) .load _ _ c),
    fun c earlier removal => ?_⟩
  · cases kind with
    | load => exact ⟨⟨more _ load, unload, tick⟩, level⟩
    | unload => exact ⟨⟨load, more _ unload, tick⟩, level⟩
    | tick => exact ⟨⟨load, unload, more _ tick⟩, level⟩
    | level => exact ⟨⟨load, unload, tick⟩, level⟩
    | region => exact ⟨⟨load, unload, tick⟩, level⟩
  · have known := faithful.unload i
    cases kind with
    | unload =>
      simp [ProcessorRegistry.add, ProcessorRegistry.ofKind, known]
      omega
    | _ => simpa [ProcessorRegistry.add] using known
  · have known := faithful.load i
    cases kind with
    | load =>
      simp [ProcessorRegistry.add, ProcessorRegistry.ofKind, known]
      omega
    | _ => simpa [ProcessorRegistry.add] using known
  · rcases List.suffix_cons_iff.mp removal with same | removal
    · cases same
    · exact faithful.removed c earlier removal

end Faithful

/-- The history of a run agrees with the nodes of its world. -/
theorem Recorded.faithful {w : World σ N L} {s : σ} {hist : History}
    (recorded : w.Recorded s hist) : w.Faithful hist := by
  induction recorded with
  | empty id config factory s => exact .empty id config factory
  | perform recorded op fair ih => exact ih.perform fair _
  | register recorded kind obeys ih => exact ih.register kind obeys
  | registerLevel recorded obeys ih =>
    refine { ih with calm := ⟨ih.calm.node, fun q listed => ?_⟩ }
    rcases List.mem_append.mp listed with listed | listed
    · exact ih.calm.level q listed
    · rwa [List.mem_singleton.mp listed]
  | elsewhere recorded regions ps s' ih =>
    exact { ih with calm := ⟨ih.calm.node, ih.calm.level⟩ }

namespace Recorded

variable {w : World σ N L} {s : σ} {hist : History}

/-- However a node left, the unload processors that were registered at its retirement have run on it
once by then. They have run in the same way on the residents that are deleting, and on no others. -/
theorem unload_runs_once (recorded : w.Recorded s hist) :
    (∀ c n, w.hierarchy.get? c = some n → .created c ∈ hist ∧
      if n.state = .deleting then hist.Unloaded c else hist.Serving c) ∧
    ∀ c (earlier : History), .removed c :: earlier <:+ hist →
      .created c ∈ earlier ∧ earlier.Unloaded c := by
  have faithful := recorded.faithful
  refine ⟨fun c n found => ?_, faithful.removed⟩
  have resident := Hierarchy.contains_iff.mpr ⟨n, found⟩
  have tells := faithful.tells c resident
  rw [found, Node.serves, Option.any_some] at tells
  refine ⟨faithful.created c resident, ?_⟩
  split
  · rename_i deleting
    rwa [deleting] at tells
  · rename_i live
    rwa [bne_iff_ne.mpr live] at tells

end Recorded

/-- A leaf that is unloaded by a command and destroyed. -/
theorem unload_runs_once_on_leaf :
    let c : Coord := ⟨⟨0, 0, 0⟩, 0⟩
    let run := (Run.idle .unload 1).on
      [.createNode c, .loadPhase, .queueUnload c, .unloadPhase, .destroyPhase]
    let earlier : History :=
      [.retired c, .ran .unload 0 c, .left .loaded c, .created c, .registered .unload 0]
    run.world.Recorded run.state run.hist ∧ run.hist = .removed c :: earlier ∧
      .created c ∈ earlier ∧ earlier.Unloaded c := by
  intro c run earlier
  have recorded : run.world.Recorded run.state run.hist :=
    (Run.idle_recorded .unload 1).on (by simp [Operation.Fair])
  have hist : run.hist = .removed c :: earlier := by decide +kernel
  exact ⟨recorded, hist, recorded.unload_runs_once.2 c earlier ⟨[], hist.symm⟩⟩

/-- No load processor has run on a node that is loading. On any other node those that were
registered by its load have run once, unless it was withdrawn: a command to unload it came before
its load. -/
theorem Recorded.load_runs_once {w : World σ N L} {s : σ} {hist : History}
    (recorded : w.Recorded s hist) {c : Coord} {n : Node N} (found : w.hierarchy.get? c = some n) :
    if n.state = .loading then hist.Waiting c else hist.Loaded c ∨ hist.Withdrawn c := by
  have tells := recorded.faithful.tells_load c (Hierarchy.contains_iff.mpr ⟨n, found⟩)
  rw [found, Node.waits, Option.any_some] at tells
  split
  · rename_i loading
    rwa [loading] at tells
  · rename_i other
    rwa [beq_eq_false_iff_ne.mpr other] at tells

/-- A node that is queued for unload while it is loading and has a child by the time the queue is
drained. Its load command has been dropped by then, and it is put back into service as if it had
been loaded. -/
theorem loaded_without_load_processors :
    let c : Coord := ⟨⟨0, 0, 0⟩, 1⟩
    let d : Coord := ⟨⟨0, 0, 0⟩, 0⟩
    let run := (Run.idle .load 2).on
      [.createNode c, .createNode d, .queueUnload c, .loadPhase, .unloadPhase]
    run.world.Recorded run.state run.hist ∧
      run.hist = [.left .loaded d, .ran .load 0 d, .left .withdrawn c, .created d, .created c,
        .registered .load 0] ∧
      (run.world.hierarchy.get? c).map (·.state) = some .loaded ∧ run.hist.runs .load 0 c = 0 := by
  intro c d run
  have recorded : run.world.Recorded run.state run.hist :=
    (Run.idle_recorded .load 2).on (by simp [Operation.Fair])
  exact ⟨recorded, by decide +kernel, by decide +kernel, by decide +kernel⟩

/-- The child of such a node, which is loaded in the ordinary way. -/
theorem load_runs_once_on_child :
    let c : Coord := ⟨⟨0, 0, 0⟩, 1⟩
    let d : Coord := ⟨⟨0, 0, 0⟩, 0⟩
    let run := (Run.idle .load 2).on
      [.createNode c, .createNode d, .queueUnload c, .loadPhase, .unloadPhase]
    run.world.Recorded run.state run.hist ∧ run.hist.runs .load 0 d = 1 ∧
      ∃ n, run.world.hierarchy.get? d = some n ∧
        if n.state = .loading then run.hist.Waiting d
          else run.hist.Loaded d ∨ run.hist.Withdrawn d := by
  intro c d run
  have recorded : run.world.Recorded run.state run.hist :=
    (Run.idle_recorded .load 2).on (by simp [Operation.Fair])
  obtain ⟨n, found⟩ : ∃ n, run.world.hierarchy.get? d = some n :=
    Option.isSome_iff_exists.mp (by decide +kernel)
  exact ⟨recorded, by decide +kernel, n, found, recorded.load_runs_once found⟩

end World

end OctreeWorld
