import OctreeWorld.Proofs.Attendance
import OctreeWorld.Proofs.Streaming
import OctreeWorld.Proofs.Watching

/-!
# Accounts of processor runs

Between creations every operation keeps an account for each cell: as often as an unload processor
runs on a node, the node stops serving, and as often as a load processor runs on it, it stops
waiting. Where load processors do not run, no such account is asked for, and nodes may stop waiting
as they please. Accounts add up, so they are shown for one batch and for the other steps of one
level, and carried from there to whole operations.
-/

namespace OctreeWorld

variable {N L σ : Type}

/-! ### Accounts -/

/-- The record accounts for what became of the nodes: nothing has come to life or to wait, each of
`m` unload processors has run once on each node that stopped serving, and each of `k` load
processors once on each that stopped waiting, and none of them ran anywhere else. -/
structure Accounted (m k : Nat) (before after : Coord → Option (Node N)) (record : History) :
    Prop where
  runs : ∀ e ∈ record, ∃ kind i c, e = .ran kind i c
  resident : ∀ c, (after c).isSome = true → (before c).isSome = true
  serving : ∀ c, Node.serves (after c) = true → Node.serves (before c) = true
  waiting : ∀ c, Node.waits (after c) = true → Node.waits (before c) = true
  unload : ∀ i c, record.count (.ran .unload i c) +
    (if i < m then (Node.serves (after c)).toNat else 0) =
      if i < m then (Node.serves (before c)).toNat else 0
  load : ∀ i c, record.count (.ran .load i c) +
    (if i < k then (Node.waits (after c)).toNat else 0) =
      if i < k then (Node.waits (before c)).toNat else 0

namespace Accounted

variable {m k : Nat} {before between after : Coord → Option (Node N)} {record later : History}

theorem refl (before : Coord → Option (Node N)) : Accounted m k before before [] :=
  ⟨nofun, fun _ => id, fun _ => id, fun _ => id, fun _ _ => by simp, fun _ _ => by simp⟩

theorem trans (first : Accounted m k before between record)
    (second : Accounted m k between after later) :
    Accounted m k before after (later ++ record) := by
  refine ⟨fun e listed => ?_, fun c => first.resident c ∘ second.resident c,
    fun c => first.serving c ∘ second.serving c, fun c => first.waiting c ∘ second.waiting c,
    fun i c => ?_, fun i c => ?_⟩
  · exact (List.mem_append.mp listed).elim (second.runs e) (first.runs e)
  · have one := first.unload i c
    have two := second.unload i c
    rw [List.count_append]
    omega
  · have one := first.load i c
    have two := second.load i c
    rw [List.count_append]
    omega

/-- Nothing runs, and no node starts or stops serving, starts to wait or, where load processors are
counted, stops to wait. -/
theorem of_states (resident : ∀ c, (after c).isSome = true → (before c).isSome = true)
    (serving : ∀ c, Node.serves (after c) = Node.serves (before c))
    (waiting : ∀ c, Node.waits (after c) = true → Node.waits (before c) = true)
    (steady : 0 < k → ∀ c, Node.waits (before c) = true → Node.waits (after c) = true) :
    Accounted m k before after [] := by
  refine ⟨nofun, resident, fun c yes => serving c ▸ yes, waiting, fun i c => ?_, fun i c => ?_⟩
  · rw [serving, List.count_nil, Nat.zero_add]
  · rw [List.count_nil, Nat.zero_add]
    split
    · rename_i below
      rw [Bool.eq_iff_iff.mpr ⟨waiting c, steady (Nat.zero_lt_of_lt below) c⟩]
    · rfl

/-- What an account without load processors says of one with some, by the same record. -/
theorem steady (quiet : Accounted m 0 before after record)
    (counted : Accounted m 1 before after record) (c : Coord) :
    Node.waits (after c) = Node.waits (before c) := by
  have none_ := quiet.load 0 c
  have even := counted.load 0 c
  simp only [Nat.lt_irrefl, if_false, Nat.add_zero, Nat.zero_lt_one, if_true] at none_ even
  rw [none_, Nat.zero_add] at even
  rw [Bool.eq_iff_iff, ← Bool.toNat_eq_one, ← Bool.toNat_eq_one, even]

end Accounted

/-- A change of state that neither starts nor stops service, lets nothing start to wait and, where
load processors are counted, lets nothing stop to wait. -/
structure NodeState.Steady (k : Nat) (s t : NodeState) : Prop where
  deleting : t = .deleting ↔ s = .deleting
  loading : t = .loading → s = .loading
  waiting : 0 < k → s = .loading → t = .loading

theorem NodeState.Steady.refl (k : Nat) (s : NodeState) : s.Steady k s :=
  ⟨Iff.rfl, fun loading => loading, fun _ loading => loading⟩

/-- What a transition leaves of a property of states. -/
theorem Moved.any {next : Coord → Node N → NodeState} {before after : Coord → Option (Node N)}
    (moved : Moved next before after) (test : NodeState → Bool) (c : Coord) :
    (after c).any (fun n => test n.state) = (before c).any fun n => test (next c n) := by
  have stage := congrArg (Option.any fun s : _ × NodeState => test s.2) (moved c)
  simpa [Option.any_map, Function.comp_def, Node.stage] using stage

/-- What giving one state to some of the nodes leaves of a property of states. -/
theorem Moved.any_given {cs : List Coord} {s : NodeState} {before after : Coord → Option (Node N)}
    (moved : Moved (fun c n => if c ∈ cs then s else n.state) before after)
    (test : NodeState → Bool) (c : Coord) : (after c).any (fun n => test n.state) =
      if c ∈ cs then (before c).isSome && test s else (before c).any fun n => test n.state := by
  rw [moved.any test]
  split
  · cases before c <;> rfl
  · rfl

namespace Accounted

variable {m k : Nat} {before after : Coord → Option (Node N)} {next : Coord → Node N → NodeState}

theorem of_moved (moved : Moved next before after)
    (steady : ∀ c n, before c = some n → n.state.Steady k (next c n)) :
    Accounted m k before after [] := by
  refine of_states (fun c there => (moved.isSome c).symm.trans there) (fun c => ?_) (fun c => ?_)
    fun counted c => ?_
  · rw [Node.serves, Node.serves, moved.any (· != .deleting)]
    cases found : before c with
    | none => rfl
    | some n =>
      rw [Bool.eq_iff_iff]
      simp only [Option.any_some, bne_iff_ne, ne_eq, (steady c n found).deleting]
  · rw [Node.waits, Node.waits, moved.any (· == .loading)]
    cases found : before c with
    | none => exact fun waits => waits
    | some n => simpa using (steady c n found).loading
  · rw [Node.waits, Node.waits, moved.any (· == .loading)]
    cases found : before c with
    | none => exact fun waits => waits
    | some n => simpa using (steady c n found).waiting counted

theorem of_change {c : Coord} {f : Node N → Node N}
    (same : ∀ x, after x = if c = x then (before x).map f else before x)
    (steady : ∀ n, before c = some n → n.state.Steady k (f n).state) :
    Accounted m k before after [] := by
  have each : ∀ x, (after x = before x) ∨
      ∃ n, before x = some n ∧ after x = some (f n) ∧ n.state.Steady k (f n).state := by
    intro x
    rw [same]
    split
    · rename_i here
      cases found : before x with
      | none => exact Or.inl rfl
      | some n => exact Or.inr ⟨n, rfl, rfl, steady n (here ▸ found)⟩
    · exact Or.inl rfl
  refine of_states (fun x there => ?_) (fun x => ?_) (fun x => ?_) fun counted x => ?_
  all_goals rcases each x with here | ⟨n, found, changed, steady⟩
  · rwa [← here]
  · rw [found]
    rfl
  · rw [here]
  · rw [changed, found, Bool.eq_iff_iff]
    simp only [Node.serves, Option.any_some, bne_iff_ne, ne_eq, steady.deleting]
  · rw [here]
    exact fun waits => waits
  · rw [changed, found]
    simpa [Node.waits] using steady.loading
  · rw [here]
    exact fun waits => waits
  · rw [changed, found]
    simpa [Node.waits] using steady.waiting counted

/-- Processors that neither load nor unload may run anywhere. -/
theorem beside {record : History} (account : Accounted m k before after record) {kind : CommandKind}
    (unload : kind ≠ .unload) (load : kind ≠ .load) (j : Nat) (cs : List Coord) :
    Accounted m k before after (showings kind j cs ++ record) := by
  have none_ : ∀ other i c, kind ≠ other → (showings kind j cs).count (.ran other i c) = 0 := by
    intro other i c differ
    refine List.count_eq_zero.mpr fun listed => ?_
    obtain ⟨d, -, j, -, same⟩ := mem_showings.mp listed
    exact differ (Event.ran.inj same).1
  refine ⟨fun e listed => ?_, account.resident, account.serving, account.waiting, fun i c => ?_,
    fun i c => ?_⟩
  · rcases List.mem_append.mp listed with listed | listed
    · obtain ⟨c, -, i, -, rfl⟩ := mem_showings.mp listed
      exact ⟨kind, i, c, rfl⟩
    · exact account.runs e listed
  · rw [List.count_append, none_ .unload i c unload, Nat.zero_add]
    exact account.unload i c
  · rw [List.count_append, none_ .load i c load, Nat.zero_add]
    exact account.load i c

variable {cs : List Coord} (nodup : cs.Nodup)

include nodup

/-- The unload processors run on some nodes in service, which are deleting afterwards. -/
theorem of_retiring (moved : Moved (fun c n => if c ∈ cs then .deleting else n.state) before after)
    (serving : ∀ c ∈ cs, Node.serves (before c) = true) :
    Accounted m 0 before after (showings .unload m cs) := by
  have serves : ∀ c, Node.serves (after c) = if c ∈ cs then false else Node.serves (before c) := by
    intro c
    rw [Node.serves, moved.any_given (· != .deleting)]
    split
    · exact Bool.and_false _
    · rfl
  refine ⟨fun e listed => ?_, fun c there => (moved.isSome c).symm.trans there, fun c => ?_,
    fun c => ?_, fun i c => ?_, fun i c => ?_⟩
  · obtain ⟨c, -, i, -, rfl⟩ := mem_showings.mp listed
    exact ⟨.unload, i, c, rfl⟩
  · rw [serves]
    split
    · exact nofun
    · exact fun yes => yes
  · rw [Node.waits, moved.any_given (· == .loading)]
    split
    · rw [show (NodeState.deleting == .loading) = false from rfl, Bool.and_false]
      exact nofun
    · exact fun yes => yes
  · rw [count_showings nodup, serves]
    by_cases named : c ∈ cs
    · by_cases below : i < m <;> simp [named, below, serving c named]
    · simp [named]
  · rw [count_showings nodup, if_neg (by simp)]
    rfl

/-- The load processors run on some nodes that wait for it, which are loaded afterwards. -/
theorem of_loading (moved : Moved (fun c n => if c ∈ cs then .loaded else n.state) before after)
    (waiting : ∀ c ∈ cs, Node.waits (before c) = true) :
    Accounted m k before after (showings .load k cs) := by
  have serves : ∀ c, Node.serves (after c) = Node.serves (before c) := by
    intro c
    rw [Node.serves, moved.any_given (· != .deleting)]
    split
    · rename_i named
      obtain ⟨n, found, loading⟩ := (Option.any_eq_true ..).mp (waiting c named)
      rw [found, Node.serves, Option.any_some, beq_iff_eq.mp loading]
      rfl
    · rfl
  have waits : ∀ c, Node.waits (after c) = if c ∈ cs then false else Node.waits (before c) := by
    intro c
    rw [Node.waits, moved.any_given (· == .loading)]
    split
    · exact Bool.and_false _
    · rfl
  refine ⟨fun e listed => ?_, fun c there => (moved.isSome c).symm.trans there,
    fun c yes => serves c ▸ yes, fun c => ?_, fun i c => ?_, fun i c => ?_⟩
  · obtain ⟨c, -, i, -, rfl⟩ := mem_showings.mp listed
    exact ⟨.load, i, c, rfl⟩
  · rw [waits]
    split
    · exact nofun
    · exact fun yes => yes
  · rw [count_showings nodup, if_neg (by simp), Nat.zero_add, serves]
  · rw [count_showings nodup, waits]
    by_cases named : c ∈ cs
    · by_cases below : i < k <;> simp [named, below, waiting c named]
    · simp [named]

end Accounted

/-- Between two stages of the record, an account of what became of the nodes has been added. -/
def Booked (m k : Nat) (before after : Coord → Option (Node N)) (old new : History) : Prop :=
  ∃ record, new = record ++ old ∧ Accounted m k before after record

namespace Booked

variable {m k : Nat} {before between after : Coord → Option (Node N)} {old mid new : History}

theorem refl (before : Coord → Option (Node N)) (old : History) :
    Booked m k before before old old := ⟨[], rfl, .refl before⟩

theorem trans (first : Booked m k before between old mid)
    (second : Booked m k between after mid new) : Booked m k before after old new := by
  obtain ⟨record, rfl, one⟩ := first
  obtain ⟨later, rfl, two⟩ := second
  exact ⟨later ++ record, (List.append_assoc ..).symm, one.trans two⟩

/-- What is booked without load processors and with one lets no node stop waiting. -/
theorem steady (quiet : Booked m 0 before after old new) (counted : Booked m 1 before after old new)
    (c : Coord) : Node.waits (after c) = Node.waits (before c) := by
  obtain ⟨record, rfl, one⟩ := quiet
  obtain ⟨record', same, two⟩ := counted
  rw [← List.append_cancel_right same] at two
  exact one.steady two c

theorem quiet (account : Accounted m k before after []) (old : History) :
    Booked m k before after old old := ⟨[], rfl, account⟩

end Booked

/-! ### Levels -/

namespace Level

variable {m k : Nat} {l : Level N L}

theorem holds_of_serves (placed : ∀ c n, l.get? c = some n → n.coord = c) {c : Coord}
    (serving : Node.serves (l.get? c) = true) : l.Holds c := by
  obtain ⟨n, found, -⟩ := (Option.any_eq_true ..).mp serving
  exact ⟨n, found, placed c n found⟩

theorem serves_of_waits {n : Option (Node N)} (waiting : Node.waits n = true) :
    Node.serves n = true := by
  obtain ⟨n, rfl, loading⟩ := (Option.any_eq_true ..).mp waiting
  rw [Node.serves, Option.any_some, beq_iff_eq.mp loading]
  rfl

/-- The leaves that an unload retires are in service when their processors run. -/
theorem serves_of_retiring {c : Coord} (named : c ∈ l.retiring) : Node.serves
    (((l.clear .unload).modifyAll l.sparing (·.withState .loaded)).get? c) = true := by
  obtain ⟨-, n, found, live, leaf⟩ := mem_retiring.mp named
  have other : c ∉ l.sparing := by
    intro spare
    have branching := ((mem_sparing found).mp spare).2.2
    rw [leaf] at branching
    cases branching
  rw [get?_modifyAll _ _ (f := (·.withState .loaded)) fun _ => rfl, if_neg other, get?_clear, found]
  exact bne_iff_ne.mpr live

section Batches

variable {ps : List (NodeProcessor σ N L)} (obeys : ∀ p ∈ ps, p.Obeys NodeEdit.Calm)
  (placed : ∀ c n, l.get? c = some n → n.coord = c) (ctx : BatchContext) (t : σ × History)

include obeys placed

/-- The unload processors run on some nodes in service, and these are marked deleting. -/
theorem retire_booked {cs : List Coord} (nodup : cs.Nodup)
    (serving : ∀ c ∈ cs, Node.serves (l.get? c) = true) :
    Booked ps.length 0 l.get? ((runNodeBatch (watchFrom .unload 0 ps) ctx l cs t).1.modifyAll cs
        (·.withState .deleting)).get? t.2
      (runNodeBatch (watchFrom .unload 0 ps) ctx l cs t).2.2 := by
  have edited := runNodeBatch_edited (watchFrom_obeys obeys .unload 0) ctx l cs t
  have holds : ∀ c ∈ cs, l.Holds c := fun c named => holds_of_serves placed (serving c named)
  exact ⟨_, runNodeBatch_watched holds ps t, .of_retiring nodup
    (moved_edited (moved_of_get? fun _ => rfl) edited .deleting) serving⟩

theorem load_booked : Booked m ps.length l.get? (l.load (watchFrom .load 0 ps) ctx t).2.1.get? t.2
    (l.load (watchFrom .load 0 ps) ctx t).2.2.2 := by
  let cs := (l.drained .load).filter fun c => (l.get? c).any (·.state == .loading)
  have nodup : cs.Nodup := (nodup_drained l .load).filter _
  have waiting : ∀ c ∈ cs, Node.waits (l.get? c) = true := fun c named =>
    (List.mem_filter.mp named).2
  have edited := runNodeBatch_edited (watchFrom_obeys obeys .load 0) ctx (l.clear .load) cs t
  have before : Moved (fun _ n => n.state) l.get? (l.clear .load).get? := fun _ => rfl
  have holds : ∀ c ∈ cs, (l.clear .load).Holds c := fun c named =>
    holds_of_serves (l := l.clear .load) placed (serves_of_waits (waiting c named))
  exact ⟨_, runNodeBatch_watched holds ps t, .of_loading nodup
    (moved_edited before edited .loaded) waiting⟩

theorem unload_booked : Booked ps.length 0 l.get? (l.unload (watchFrom .unload 0 ps) ctx t).2.1.get?
    t.2 (l.unload (watchFrom .unload 0 ps) ctx t).2.2.2 := by
  let spared := (l.clear .unload).modifyAll l.sparing (·.withState .loaded)
  have moved : Moved (fun c n => if c ∈ l.sparing then .loaded else n.state) l.get? spared.get? :=
    moved_modifyAll (l.clear .unload) l.sparing .loaded
  have first : Accounted ps.length 0 l.get? spared.get? [] := by
    refine .of_moved moved fun c n found => ?_
    split
    · rename_i named
      -- A node that is loading stops waiting here, although no load processor runs on it.
      have live := ((mem_sparing found).mp named).2.1
      exact ⟨⟨NodeState.noConfusion, fun deleting => absurd deleting live⟩, NodeState.noConfusion,
        fun counted => absurd counted (Nat.lt_irrefl 0)⟩
    · exact .refl _ _
  have placed' : ∀ c n, spared.get? c = some n → n.coord = c :=
    ((SameLinks.clear l .unload).trans
      (.modifyAll _ _ (f := (·.withState .loaded)) fun _ => rfl)).placed placed
  have nodup : l.retiring.Nodup := ((nodup_drained l .unload).filter _).filter _
  exact (Booked.quiet first t.2).trans
    (retire_booked obeys placed' ctx t nodup fun c => serves_of_retiring)

theorem tick_booked : Booked m k l.get? (l.tick (watchFrom .tick 0 ps) ctx t).2.1.get? t.2
    (l.tick (watchFrom .tick 0 ps) ctx t).2.2.2 := by
  let cs := (l.drained .tick).filter l.contains
  have edited := tick_edited (watchFrom_obeys obeys .tick 0) ctx l t
  have same : Accounted m k l.get? (l.tick (watchFrom .tick 0 ps) ctx t).2.1.get? [] :=
    .of_moved ((moved_of_get? (l := l) fun _ => rfl).then_same edited.moved)
      fun _ _ _ => .refl _ _
  have holds : ∀ c ∈ cs, (l.clear .tick).Holds c := by
    intro c named
    obtain ⟨n, found⟩ := Option.isSome_iff_exists.mp (List.mem_filter.mp named).2
    exact ⟨n, found, placed c n found⟩
  have account : Accounted m k l.get? (l.tick (watchFrom .tick 0 ps) ctx t).2.1.get?
      (showings .tick ps.length cs ++ []) := same.beside (by decide) (by decide) ps.length cs
  rw [List.append_nil] at account
  exact ⟨_, runNodeBatch_watched holds ps t, account⟩

end Batches

/-- Calls run no processors of nodes, and evict only what is loaded. -/
theorem Call.accounted {l' : Level N L} (call : Call NodeEdit.Calm l l')
    (placed : ∀ c n, l.get? c = some n → n.coord = c) : Accounted m k l.get? l'.get? [] := by
  cases call with
  | edit e allowed =>
    cases e with
    | setData d => exact .refl _
    | push q c => exact .refl _
    | node c e =>
      have edited : l.Edited NodeEdit.Calm [c] (l.editNode c e) :=
        .editNode l List.mem_cons_self allowed
      exact .of_moved edited.moved fun _ _ _ => .refl _ _
  | keepAlive loader now =>
    have moved : Moved (fun _ n => n.state) l.get? (l.keepAlive loader now).2.get? :=
      map_get?_modifyAll l _ (f := (·.touch now)) fun _ => rfl
    exact .of_moved moved fun _ _ _ => .refl _ _
  | requestLoads loaders tick budget => exact .refl _
  | collectUnused now timeout budget =>
    refine .of_moved (moved_modifyAll l _ .unloading) fun c n found => ?_
    split
    · rename_i chosen
      obtain ⟨n', found', unused⟩ := unused_of_collected placed chosen
      rw [found, Option.some.injEq] at found'
      subst found'
      simp only [Node.isUnused, Bool.and_eq_true, beq_iff_eq] at unused
      rw [unused.1.2]
      exact ⟨by decide, NodeState.noConfusion, fun _ => NodeState.noConfusion⟩
    · exact .refl _ _

theorem Called.accounted {l' : Level N L} (called : Called NodeEdit.Calm l l')
    (placed : ∀ c n, l.get? c = some n → n.coord = c) : Accounted m k l.get? l'.get? [] := by
  induction called with
  | refl => exact .refl _
  | tail calls call ih =>
    have links := (Stepped.of_called calls).sameLinks
    exact ih.trans (call.accounted (links.placed placed))

end Level

/-! ### Hierarchies -/

namespace Accounted

variable {m k : Nat} {before after before' after' : Coord → Option (Node N)} {record : History}

/-- An account of some cells is one of all cells when nothing happens elsewhere. -/
theorem extend (account : Accounted m k before after record)
    (each : ∀ c, (before' c = before c ∧ after' c = after c) ∨
      (before c = none ∧ after' c = before' c)) : Accounted m k before' after' record := by
  have quiet : ∀ c, before c = none →
      (∀ i, record.count (.ran .unload i c) = 0) ∧ ∀ i, record.count (.ran .load i c) = 0 := by
    intro c absent
    refine ⟨fun i => ?_, fun i => ?_⟩
    · have balance := account.unload i c
      rw [absent] at balance
      simp only [Node.serves, Option.any_none, Bool.toNat_false, ite_self] at balance
      omega
    · have balance := account.load i c
      rw [absent] at balance
      simp only [Node.waits, Option.any_none, Bool.toNat_false, ite_self] at balance
      omega
  refine ⟨account.runs, fun c => ?_, fun c => ?_, fun c => ?_, fun i c => ?_, fun i c => ?_⟩ <;>
    rcases each c with ⟨here, there⟩ | ⟨absent, same⟩
  · rw [here, there]
    exact account.resident c
  · rw [same]
    exact id
  · rw [here, there]
    exact account.serving c
  · rw [same]
    exact id
  · rw [here, there]
    exact account.waiting c
  · rw [same]
    exact id
  · rw [here, there]
    exact account.unload i c
  · rw [same, (quiet c absent).1, Nat.zero_add]
  · rw [here, there]
    exact account.load i c
  · rw [same, (quiet c absent).2, Nat.zero_add]

end Accounted

namespace Hierarchy

variable {m k : Nat} {h : Hierarchy N L}

/-- What is booked for one level is booked for the hierarchy. -/
theorem Numbered.booked_level (num : h.Numbered) {i : UInt8} {l l' : Level N L}
    (stored : h.level? i = some l) {old new : History}
    (booked : Booked m k l.get? l'.get? old new) :
    Booked m k h.get? (h.modifyLevel i fun _ => l').get? old new := by
  obtain ⟨record, rfl, account⟩ := booked
  refine ⟨record, rfl, account.extend fun c => ?_⟩
  rw [get?_modifyLevel]
  by_cases level : i = c.level
  · subst level
    rw [if_pos rfl, stored]
    exact Or.inl ⟨get?_of_level? stored, rfl⟩
  · rw [if_neg level, Level.get?, num.index i l stored, if_neg (Ne.symm level)]
    exact Or.inr ⟨rfl, rfl⟩

/-- What a step books on each level, a sweep books on the hierarchy. -/
theorem Numbered.sweep_booked {α : Type}
    {step : Level N L → σ × History → α × Level N L × (σ × History)} (num : h.Numbered)
    (each : ∀ l ∈ h.levels, ∀ t, (step l t).2.1.index = l.index ∧
      Booked m k l.get? (step l t).2.1.get? t.2 (step l t).2.2.2) (t : σ × History) :
    Booked m k h.get? (Hierarchy.mk (sweep step h.levels t).2.1).get? t.2
      (sweep step h.levels t).2.2.2 := by
  refine (sweep_induct (P := fun g (t' : σ × History) =>
      g.Numbered ∧ Booked m k h.get? g.get? t.2 t'.2)
    num.length_lt (fun l listed g i t' stored before => ?_) ⟨num, .refl _ _⟩).2
  obtain ⟨num', earlier⟩ := before
  obtain ⟨index, booked⟩ := each l listed t'
  refine ⟨?_, earlier.trans (num'.booked_level stored booked)⟩
  refine (levelwise_modifyLevel (R := fun l m => m.index = l.index) (fun _ => rfl)
    fun m at_ => ?_).numbered (fun _ _ => id) num'
  rw [stored, Option.some.injEq] at at_
  rw [index, at_]

/-- A body shows the state of its node. -/
theorem any_body (h : Hierarchy N L) (c : Coord) (test : NodeState → Bool) :
    (h.body c).any (fun n => test n.state) = (h.get? c).any fun n => test n.state := by
  rw [body, Option.any_map]
  rfl

theorem any_congr_body {g : Hierarchy N L} {c : Coord} (same : g.body c = h.body c)
    (test : NodeState → Bool) :
    (g.get? c).any (fun n => test n.state) = (h.get? c).any fun n => test n.state := by
  rw [← any_body, same, any_body]

/-! ### Removal -/

section Pruning

variable {drained : List UInt8} {gone : Coord → Prop} {g : Hierarchy N L}
  (pruned : Pruned drained gone h g)

include pruned

/-- Nodes that are deleting leave unnoticed. -/
theorem Pruned.accounted (retired : ∀ c, gone c → Node.serves (h.get? c) = false) :
    Accounted m 0 h.get? g.get? [] := by
  refine .of_states (fun c there => ((pruned.contains c).mp there).1) (fun c => ?_) (fun c => ?_)
    fun counted => absurd counted (Nat.lt_irrefl 0)
  · by_cases left : gone c
    · rw [retired c left, contains_eq_false_iff.mp (pruned.absent c left)]
      rfl
    · exact any_congr_body (pruned.kept c left) (· != .deleting)
  · by_cases left : gone c
    · rw [contains_eq_false_iff.mp (pruned.absent c left)]
      exact nofun
    · rw [Node.waits, any_congr_body (pruned.kept c left) (· == .loading)]
      exact fun waits => waits

/-- What stays waits as it did. -/
theorem Pruned.waits {c : Coord} (there : g.contains c = true) :
    Node.waits (g.get? c) = Node.waits (h.get? c) :=
  any_congr_body (pruned.kept c ((pruned.contains c).mp there).2) (· == .loading)

end Pruning

theorem Linked.unloadSubtree_waits (linked : h.Linked) (ps : List (NodeProcessor σ N L))
    (ctx : BatchContext) (root : Coord) (s : σ) {c : Coord}
    (there : (h.unloadSubtree ps ctx root s).2.1.contains c = true) :
    Node.waits ((h.unloadSubtree ps ctx root s).2.1.get? c) = Node.waits (h.get? c) := by
  by_cases resident : h.contains root = true
  · obtain ⟨g, s', run, pruned, -⟩ := linked.unloadSubtree ps ctx resident s
    rw [run] at there ⊢
    exact pruned.waits there
  · rw [unloadSubtree_of_absent linked.numbered ps ctx (Bool.eq_false_iff.mpr resident)]

theorem Linked.destroyPending_waits (linked : h.Linked) (ps : List (NodeProcessor σ N L))
    (ctx : BatchContext) (s : σ) {c : Coord}
    (there : (h.destroyPending ps ctx s).2.1.contains c = true) :
    Node.waits ((h.destroyPending ps ctx s).2.1.get? c) = Node.waits (h.get? c) := by
  obtain ⟨removed, g, s', run, pruned, -⟩ := linked.destroyPending ps ctx s
  rw [run] at there ⊢
  exact pruned.waits there

/-- Whoever is in service after a retirement on one level was so before, and was not named there. -/
theorem serves_of_retireAt {ps : List (NodeProcessor σ N L)} {ctx : BatchContext}
    {order : List Coord} {i : UInt8} {s : σ} {c : Coord}
    (serves : Node.serves ((retireAt ps ctx order i h s).1.get? c) = true) :
    Node.serves (h.get? c) = true ∧ ¬ (c ∈ order ∧ c.level = i) := by
  cases stored : h.level? i with
  | none =>
    simp only [retireAt, stored] at serves
    refine ⟨serves, fun named => ?_⟩
    obtain ⟨-, rfl⟩ := named
    rw [get?_of_level?_none stored] at serves
    cases serves
  | some l =>
    simp only [retireAt, stored] at serves
    rw [get?_modifyLevel_of_level? stored] at serves
    by_cases level : i = c.level
    · subst level
      rw [if_pos rfl,
        Level.get?_modifyAll _ _ (f := (·.withState .deleting)) fun _ => rfl] at serves
      split at serves
      · obtain ⟨n, found, live⟩ := (Option.any_eq_true ..).mp serves
        obtain ⟨m, -, rfl⟩ := Option.map_eq_some_iff.mp found
        cases live
      · rename_i away
        rw [(runNodeBatch_edited Processor.obeys_any _ l _ s).away c away] at serves
        refine ⟨by rwa [get?_of_level? stored], fun named => away ?_⟩
        exact List.mem_filter.mpr
          ⟨named.1, Bool.and_eq_true_iff.mpr ⟨beq_self_eq_true _, serves⟩⟩
    · rw [if_neg level] at serves
      exact ⟨serves, fun named => level named.2.symm⟩

/-- Whoever is in service after a retirement was so before, and was not named. -/
theorem serves_of_retire {ps : List (NodeProcessor σ N L)} {ctx : BatchContext}
    {order : List Coord} {is : List UInt8} {s : σ} {c : Coord}
    (serves : Node.serves ((retire ps ctx order is h s).1.get? c) = true) :
    Node.serves (h.get? c) = true ∧ ¬ (c ∈ order ∧ c.level ∈ is) := by
  induction is generalizing h s with
  | nil => exact ⟨serves, fun named => absurd named.2 List.not_mem_nil⟩
  | cons i is ih =>
    obtain ⟨later, rest⟩ := ih serves
    obtain ⟨before, here⟩ := serves_of_retireAt later
    refine ⟨before, fun named => ?_⟩
    rcases List.mem_cons.mp named.2 with level | deeper
    · exact here ⟨named.1, level⟩
    · exact rest ⟨named.1, deeper⟩

/-- After its retirement nothing in a subtree is in service. -/
theorem Linked.retired_subtree (linked : h.Linked) {root : Coord}
    (resident : h.contains root = true) (ps : List (NodeProcessor σ N L)) (ctx : BatchContext)
    (s : σ) {c : Coord} (under : c.Under root) :
    Node.serves ((retire ps ctx (h.postOrderFrom walkFuel root)
      ((List.range (root.level.toNat + 1)).map UInt8.ofNat) h s).1.get? c) = false := by
  rw [Bool.eq_false_iff]
  intro serves
  obtain ⟨before, away⟩ := serves_of_retire serves
  obtain ⟨n, found, -⟩ := (Option.any_eq_true ..).mp before
  have enough : root.level.toNat < walkFuel := root.level.toNat_lt
  refine away ⟨(linked.mem_postOrderFrom resident enough).mpr
    ⟨contains_iff.mpr ⟨n, found⟩, under⟩, List.mem_map.mpr
    ⟨c.level.toNat, List.mem_range.mpr (Nat.lt_succ_of_le under.level_le), UInt8.ofNat_toNat⟩⟩

section Unloading

variable {ps : List (NodeProcessor σ N L)} (obeys : ∀ p ∈ ps, p.Obeys NodeEdit.Calm)
  (ctx : BatchContext) (linked : h.Linked)

include obeys linked

/-- Retiring the nodes of a list on one level books their unload. -/
theorem Linked.retireAt_booked {order : List Coord} (nodup : order.Nodup) (i : UInt8)
    (t : σ × History) :
    Booked ps.length 0 h.get? (retireAt (watchFrom .unload 0 ps) ctx order i h t).1.get? t.2
      (retireAt (watchFrom .unload 0 ps) ctx order i h t).2.2 := by
  cases stored : h.level? i with
  | none =>
    simp only [retireAt, stored]
    exact .refl _ _
  | some l =>
    let cs := order.filter fun c => c.level == i && (l.get? c).any (·.state != .deleting)
    have serving : ∀ c ∈ cs, Node.serves (l.get? c) = true := fun c named =>
      (Bool.and_eq_true_iff.mp (List.mem_filter.mp named).2).2
    have placed := linked.placed_level (mem_levels_of_level? stored)
    have booked := linked.numbered.booked_level stored
      (Level.retire_booked obeys placed (ctx.atLevel i) t (nodup.filter _) serving)
    simp only [retireAt, stored]
    exact booked

theorem Linked.retire_booked {order : List Coord} (nodup : order.Nodup) (is : List UInt8)
    (t : σ × History) :
    Booked ps.length 0 h.get? (retire (watchFrom .unload 0 ps) ctx order is h t).1.get? t.2
      (retire (watchFrom .unload 0 ps) ctx order is h t).2.2 := by
  induction is generalizing h t with
  | nil => exact .refl _ _
  | cons i is ih =>
    have retired := retireAt_retired (watchFrom .unload 0 ps) ctx order i h t
    exact (linked.retireAt_booked obeys ctx nodup i t).trans
      (ih (linked_of_retired retired linked) (retireAt (watchFrom .unload 0 ps) ctx order i h t).2)

/-- Unloading a subtree at once books the unload of every node in it that was in service. -/
theorem Linked.unloadSubtree_booked (root : Coord) (t : σ × History) :
    Booked ps.length 0 h.get? (h.unloadSubtree (watchFrom .unload 0 ps) ctx root t).2.1.get? t.2
      (h.unloadSubtree (watchFrom .unload 0 ps) ctx root t).2.2.2 := by
  by_cases resident : h.contains root = true
  · let order := h.postOrderFrom walkFuel root
    let levels := (List.range (root.level.toNat + 1)).map UInt8.ofNat
    have enough : root.level.toNat < walkFuel := root.level.toNat_lt
    have nodup : order.Nodup := linked.nodup_postOrderFrom resident enough
    have retired := retire_retired (watchFrom .unload 0 ps) ctx order levels h t
    have there := contains_of_retired retired
    have booked := linked.retire_booked obeys ctx nodup levels t
    obtain ⟨g, run, pruned⟩ := linked.removeAll_postOrder resident enough
      (linked_of_retired retired linked) fun x _ => there x
    have gone : ∀ c : Coord, c.Under root → Node.serves
        ((retire (watchFrom .unload 0 ps) ctx order levels h t).1.get? c) = false :=
      fun c => linked.retired_subtree resident (watchFrom .unload 0 ps) ctx t
    rw [linked.numbered.unloadSubtree _ ctx resident rfl run]
    exact booked.trans (.quiet (pruned.accounted gone) _)
  · rw [unloadSubtree_of_absent linked.numbered _ ctx (Bool.eq_false_iff.mpr resident)]
    exact .refl _ _

theorem Linked.destroyAll_booked (cs : List Coord) (t : σ × History) :
    Booked ps.length 0 h.get?
      (Hierarchy.destroyAll (watchFrom .unload 0 ps) ctx cs h t).2.1.get? t.2
      (Hierarchy.destroyAll (watchFrom .unload 0 ps) ctx cs h t).2.2.2 := by
  induction cs generalizing h t with
  | nil => exact .refl _ _
  | cons c cs ih =>
    rw [Hierarchy.destroyAll]
    split
    · have evolved : Evolved (fun _ => True) h
          (h.unloadSubtree (watchFrom .unload 0 ps) ctx c t).2.1 :=
        linked.unloadSubtree_evolved _ ctx c t
      exact (linked.unloadSubtree_booked obeys ctx c t).trans (ih (evolved.linked linked) _)
    · exact ih linked t

theorem Linked.destroyAt_booked (is : List UInt8) (t : σ × History) :
    Booked ps.length 0 h.get? (Hierarchy.destroyAt (watchFrom .unload 0 ps) ctx is h t).2.1.get? t.2
      (Hierarchy.destroyAt (watchFrom .unload 0 ps) ctx is h t).2.2.2 := by
  induction is generalizing h t with
  | nil => exact .refl _ _
  | cons i is ih =>
    obtain ⟨removed, k, t', run, pruned, -⟩ :=
      linked.destroyLevel (watchFrom .unload 0 ps) (ctx.atLevel i) i t
    have cleared : (h.modifyLevel i (·.clear .destroy)).get? = h.get? :=
      funext (get?_modifyLevel_of_get? i fun l c => Level.get?_clear l .destroy c)
    have first := (linked.clear i .destroy).destroyAll_booked obeys (ctx.atLevel i)
      (CoordSet.sorted (h.pending i .destroy)) t
    rw [cleared, run] at first
    rw [destroyAt_cons, run]
    exact first.trans (ih pruned.linked t')

end Unloading

end Hierarchy

end OctreeWorld
