import OctreeWorld.Proofs.Spheres
import OctreeWorld.Proofs.Transitions

/-!
# Streaming one level

What keep-alive, load requests and eviction do to a level. A covered node is stamped before any
level evicts, so none is evicted in the same tick; of the covered cells that are missing, as many
are requested as the budget allows.
-/

namespace OctreeWorld

variable {N L σ : Type}

/-! ### Cells of a loader -/

theorem Loader.level_of_mem_cells {l : Loader} {level : UInt8} {c : Coord}
    (mem : c ∈ l.cells level) : c.level = level := by
  unfold Loader.cells at mem
  split at mem
  · exact (Sphere.mem_cells_iff.mp mem).1.trans (Coord.under_ancestor UInt8.zero_le).2
  · cases mem

/-! ### Edits that leave states alone -/

/-- Edits of a level that leave states and commands alone. -/
def LevelEdit.Calm : LevelEdit N L → Prop
  | .setData _ => True
  | .push _ _ => False
  | .node _ e => e.Calm

namespace Level

theorem Edited.mono {may : NodeEdit N L → Prop} {cs more : List Coord} {l m : Level N L}
    (edited : l.Edited may cs m) (among : ∀ c ∈ cs, c ∈ more) : l.Edited may more m :=
  ⟨edited.index, edited.queues, fun c away => edited.away c fun named => away (among c named),
    edited.node⟩

/-- Some nodes have been edited, their states left alone, and no command has been touched. -/
def Retouched (l m : Level N L) : Prop := ∃ cs, l.Edited NodeEdit.Calm cs m

namespace Retouched

variable {l m k : Level N L}

theorem refl (l : Level N L) : Retouched l l := ⟨[], .refl l⟩

theorem trans (first : Retouched l m) (second : Retouched m k) : Retouched l k := by
  obtain ⟨cs, first⟩ := first
  obtain ⟨ds, second⟩ := second
  exact ⟨cs ++ ds, (first.mono fun c => List.mem_append_left ds).trans
    (second.mono fun c => List.mem_append_right cs)⟩

theorem node (retouched : Retouched l m) (c : Coord) :
    Option.Rel (Node.Edited (NodeEdit.Calm (L := L))) (l.get? c) (m.get? c) := by
  obtain ⟨cs, edited⟩ := retouched
  exact edited.node c

theorem moved (retouched : Retouched l m) : Moved (fun _ n => n.state) l.get? m.get? := by
  obtain ⟨cs, edited⟩ := retouched
  exact edited.moved

theorem pending (retouched : Retouched l m) (q : Queue) : m.pending q = l.pending q := by
  obtain ⟨cs, edited⟩ := retouched
  exact pending_congr edited.queues q

theorem index (retouched : Retouched l m) : m.index = l.index := by
  obtain ⟨cs, edited⟩ := retouched
  exact edited.index

theorem back (retouched : Retouched l m) {c : Coord} {n' : Node N} (found : m.get? c = some n') :
    ∃ n, l.get? c = some n ∧ Node.Edited (NodeEdit.Calm (L := L)) n n' := by
  obtain ⟨cs, edited⟩ := retouched
  exact edited.get?_back found

theorem editNode (l : Level N L) (c : Coord) {e : NodeEdit N L} (calm : e.Calm) :
    Retouched l (l.editNode c e) := ⟨[c], .editNode l List.mem_cons_self calm⟩

theorem touchAll (l : Level N L) (cs : List Coord) (now : SimTime) :
    Retouched l (l.modifyAll cs (·.touch now)) := by
  induction cs generalizing l with
  | nil => exact refl l
  | cons c cs ih =>
    have first : Retouched l (l.modify c (·.touch now)) :=
      editNode l c (e := .touch now) fun _ => nofun
    exact first.trans (ih _)

end Retouched

theorem runLevelBatch_retouched {ps : List (LevelProcessor σ N L)}
    (obeys : ∀ p ∈ ps, p.Obeys LevelEdit.Calm) (ctx : BatchContext) (l : Level N L) (s : σ) :
    Retouched l (runLevelBatch ps ctx l s).1 := by
  have edit : ∀ c ∈ [()], ∀ l : Level N L, ∀ e : LevelEdit N L, e.Calm →
      Retouched l (levelAddressing.edit c l e) := by
    intro c _ l e calm
    cases e with
    | setData d => exact ⟨[], rfl, rfl, fun _ _ => rfl, (Retouched.refl l).node⟩
    | push q c => exact calm.elim
    | node c e => exact .editNode l c calm
  have respects : levelAddressing.Respects LevelEdit.Calm [()] (Retouched (N := N) (L := L)) :=
    ⟨.refl, fun _ _ _ => .trans, edit⟩
  exact respects.runBatch obeys ctx l s

/-! ### Keep-alive -/

theorem keepAlive_retouched (loader : Loader) (now : SimTime) (l : Level N L) :
    Retouched l (l.keepAlive loader now).2 := .touchAll l _ now

theorem touch_touch (n : Node N) (now : SimTime) : (n.touch now).touch now = n.touch now := by
  have same : (n.lastUpdate.latest now).latest now = n.lastUpdate.latest now := by
    unfold SimTime.latest
    split <;> simp_all
  unfold Node.touch
  rw [same]

/-- Every covered node is stamped. -/
theorem stamped_keepAlive {loader : Loader} {now : SimTime} {l : Level N L} {c : Coord} {n : Node N}
    (found : (l.keepAlive loader now).2.get? c = some n) (covered : c ∈ loader.cells l.index) :
    now.micros ≤ n.lastUpdate.micros := by
  have result : (l.keepAlive loader now).2 =
      l.modifyAll ((loader.cells l.index).filter l.contains) (·.touch now) := rfl
  rw [result, get?_modifyAll _ _ fun n => touch_touch n now] at found
  split at found
  · obtain ⟨m, -, rfl⟩ := Option.map_eq_some_iff.mp found
    exact SimTime.le_latest_right ..
  · rename_i away
    exact absurd (List.mem_filter.mpr ⟨covered, Option.isSome_iff_exists.mpr ⟨n, found⟩⟩) away

/-- What was stamped at a time has not expired at that time. -/
theorem not_isExpired {n : Node N} {now : SimTime} (stamped : now.micros ≤ n.lastUpdate.micros)
    (timeout : Duration) : n.isExpired now timeout = false := by
  have since : (now.since n.lastUpdate).nanos = 0 := by
    have le := UInt64.le_iff_toNat_le.mp stamped
    simp only [SimTime.since]
    omega
  simp [Node.isExpired, since]

/-- What was stamped at a time is not unused at that time. -/
theorem not_isUnused {n : Node N} {now : SimTime} (stamped : now.micros ≤ n.lastUpdate.micros)
    (timeout : Duration) : n.isUnused now timeout = false := by
  rw [Node.isUnused, not_isExpired stamped, Bool.and_false]

theorem isExpired_mono {n m : Node N} (earlier : n.lastUpdate.micros ≤ m.lastUpdate.micros)
    {now : SimTime} {timeout : Duration} (expired : m.isExpired now timeout = true) :
    n.isExpired now timeout = true := by
  have le := UInt64.le_iff_toNat_le.mp earlier
  refine decide_eq_true (Nat.lt_of_lt_of_le (of_decide_eq_true expired) ?_)
  exact Nat.mul_le_mul_right 1000 (Nat.sub_le_sub_left le _)

/-- Edits make no node unused. -/
theorem isUnused_of_edited {n m : Node N} (edited : Node.Edited (NodeEdit.Calm (L := L)) n m)
    {now : SimTime} {timeout : Duration} (unused : m.isUnused now timeout = true) :
    n.isUnused now timeout = true := by
  have state : m.state = n.state := (Prod.ext_iff.mp edited.stage).2
  have leaf : m.childMask = n.childMask := (Node.links_eq_iff.mp edited.links).2.2.1
  simp only [Node.isUnused, Node.isLeaf, Bool.and_eq_true, state, leaf, edited.observers]
    at unused ⊢
  exact ⟨unused.1, isExpired_mono edited.lastUpdate_le unused.2⟩

/-! ### Load requests -/

theorem mem_wanted {l : Level N L} {loaders : List Loader} {tick : UInt64} {c : Coord} :
    c ∈ l.wanted loaders tick ↔
      ∃ ld ∈ loaders, ld.isActive tick = true ∧ c ∈ ld.cells l.index := by
  simp only [wanted, List.mem_flatMap, List.mem_filter, and_assoc]

/-- Collecting finds missing cells only, and either all of them or as many as the budget allows. -/
theorem collectMissing_spec (l : Level N L) (budget : Option UInt64) (cs : List Coord)
    (found : CoordSet) :
    (∀ c ∈ found, c ∈ l.collectMissing budget cs found) ∧
    (∀ c ∈ l.collectMissing budget cs found, c ∈ found ∨ c ∈ cs ∧ l.contains c = false) ∧
    ((∀ c ∈ cs, l.contains c = false → c ∈ l.collectMissing budget cs found) ∨
      ∃ b, budget = some b ∧ b.toNat ≤ (l.collectMissing budget cs found).size) := by
  induction cs generalizing found with
  | nil =>
    refine ⟨fun c mem => mem, fun c mem => Or.inl mem, Or.inl fun c mem => ?_⟩
    cases mem
  | cons c cs ih =>
    rw [collectMissing]
    split
    · rename_i full
      refine ⟨fun e mem => mem, fun e mem => Or.inl mem, Or.inr ?_⟩
      cases budget with
      | none => cases full
      | some b => exact ⟨b, rfl, of_decide_eq_true full⟩
    · by_cases resident : l.contains c = true
      · rw [if_pos resident]
        obtain ⟨kept, sound, enough⟩ := ih found
        refine ⟨kept, fun e mem => ?_, enough.imp_left fun all e mem missing => ?_⟩
        · exact (sound e mem).imp_right fun both => ⟨List.mem_cons_of_mem c both.1, both.2⟩
        · rcases List.mem_cons.mp mem with rfl | mem
          · rw [resident] at missing
            cases missing
          · exact all e mem missing
      · rw [if_neg resident]
        obtain ⟨kept, sound, enough⟩ := ih (found.insert c)
        refine ⟨fun e mem => kept e (Std.ExtTreeSet.mem_insert.mpr (Or.inr mem)), fun e mem => ?_,
          enough.imp_left fun all e mem missing => ?_⟩
        · rcases sound e mem with new | ⟨listed, missing⟩
          · rcases Std.ExtTreeSet.mem_insert.mp new with same | old
            · have same : c = e := Std.compare_eq_iff_eq.mp same
              rw [← same]
              exact Or.inr ⟨List.mem_cons_self, Bool.eq_false_iff.mpr resident⟩
            · exact Or.inl old
          · exact Or.inr ⟨List.mem_cons_of_mem c listed, missing⟩
        · rcases List.mem_cons.mp mem with rfl | mem
          · exact kept e Std.ExtTreeSet.mem_insert_self
          · exact all e mem missing

/-- Load requests are for distinct missing cells that active loaders cover, and either for all of
these or for as many as the budget allows. -/
theorem requestLoads_spec (loaders : List Loader) (tick : UInt64) (budget : Option UInt64)
    (l : Level N L) : ∃ requested, (l.requestLoads loaders tick budget).2 =
        l.pushAll .create requested ∧ l.own requested = requested ∧ requested.Nodup ∧
      (∀ c ∈ requested, c ∈ l.wanted loaders tick ∧ l.contains c = false) ∧
      ((∀ c ∈ l.wanted loaders tick, l.contains c = false → c ∈ requested) ∨
        ∃ b, budget = some b ∧ b.toNat ≤ requested.length) := by
  let requested := (l.collectMissing budget (l.wanted loaders tick) ∅).toList
  obtain ⟨-, sound, enough⟩ := collectMissing_spec l budget (l.wanted loaders tick) ∅
  have missing : ∀ c ∈ requested, c ∈ l.wanted loaders tick ∧ l.contains c = false := by
    intro c mem
    exact (sound c (Std.ExtTreeSet.mem_toList.mp mem)).resolve_left Std.ExtTreeSet.not_mem_empty
  refine ⟨requested, rfl, List.filter_eq_self.mpr fun c mem => ?_, nodup_toList _, missing,
    enough.imp (fun all c listed absent => ?_) fun full => ?_⟩
  · obtain ⟨ld, -, -, covered⟩ := mem_wanted.mp (missing c mem).1
    exact beq_iff_eq.mpr (Loader.level_of_mem_cells covered)
  · exact Std.ExtTreeSet.mem_toList.mpr (all c listed absent)
  · obtain ⟨b, bound, le⟩ := full
    exact ⟨b, bound, by rwa [Std.ExtTreeSet.length_toList]⟩

/-! ### Eviction -/

theorem mem_takeBudget {α : Type} {budget : Option UInt64} {xs : List α} {x : α}
    (mem : x ∈ takeBudget budget xs) : x ∈ xs := by
  cases budget with
  | none => exact mem
  | some b => exact List.mem_of_mem_take mem

/-- What a level looks like after streaming, given what was requested and what evicted. -/
structure Streamed (config : StreamConfig) (loaders : List Loader) (tick : UInt64) (now : SimTime)
    (timeout : Duration) (requested evicted : List Coord) (l m : Level N L) : Prop where
  index : m.index = l.index
  node : Moved (fun c n => if c ∈ evicted then .unloading else n.state) l.get? m.get?
  pending : ∀ q, m.pending q =
    if q = .create then l.pending q ++ requested
    else if q = .unload then l.pending q ++ evicted else l.pending q
  distinct : requested.Nodup
  missing : ∀ c ∈ requested, c ∈ l.wanted loaders tick ∧ l.contains c = false
  enough : config.levelDue tick l.index = true →
    (∀ c ∈ l.wanted loaders tick, l.contains c = false → c ∈ requested) ∨
      ∃ b, config.createBudget = some b ∧ b.toNat ≤ requested.length
  unused : ∀ c ∈ evicted, ∃ n, l.get? c = some n ∧ n.isUnused now timeout = true

/-- What eviction chooses is in use by nobody. -/
theorem unused_of_collected {l : Level N L} (placed : ∀ c n, l.get? c = some n → n.coord = c)
    {now : SimTime} {timeout : Duration} {budget : Option UInt64} {c : Coord}
    (mem : c ∈ takeBudget budget
      (byPosition ((l.nodeList.filter (·.isUnused now timeout)).map (·.coord)))) :
    ∃ n, l.get? c = some n ∧ n.isUnused now timeout = true := by
  obtain ⟨n, listed, rfl⟩ := List.mem_map.mp (List.mem_mergeSort.mp (mem_takeBudget mem))
  obtain ⟨listed, idle⟩ := List.mem_filter.mp listed
  obtain ⟨p, stored⟩ := mem_nodeList.mp listed
  have found : l.get? ⟨p, l.index⟩ = some n := (get?_mk l p).trans stored
  rw [placed _ n found]
  exact ⟨n, found, idle⟩

theorem stream_streamed (config : StreamConfig) (loaders : List Loader) (tick : UInt64)
    (now : SimTime) (timeout : Duration) {l : Level N L}
    (placed : ∀ c n, l.get? c = some n → n.coord = c) :
    ∃ requested evicted, Streamed config loaders tick now timeout requested evicted l
      (l.stream config loaders tick now timeout).2 := by
  unfold Level.stream
  split
  · obtain ⟨requested, asks, own_requested, distinct, missing, enough⟩ :=
      l.requestLoads_spec loaders tick config.createBudget
    let asking := l.pushAll .create requested
    let evicted := takeBudget config.unloadBudget
      (byPosition ((asking.nodeList.filter (·.isUnused now timeout)).map (·.coord)))
    have unused : ∀ c ∈ evicted, ∃ n, l.get? c = some n ∧ n.isUnused now timeout = true :=
      fun c mem => unused_of_collected (l := asking) placed mem
    have own_evicted : l.own evicted = evicted := by
      refine List.filter_eq_self.mpr fun c mem => ?_
      obtain ⟨n, found, -⟩ := unused c mem
      exact beq_iff_eq.mpr (level_eq_of_get? found)
    simp only [asks]
    refine ⟨requested, evicted, index_modifyAll asking evicted _,
      moved_modifyAll asking evicted .unloading, fun q => ?_, distinct, missing, fun _ => enough,
      unused⟩
    change ((asking.modifyAll evicted (·.withState .unloading)).pushAll .unload evicted).pending q
      = _
    have own : (asking.modifyAll evicted (·.withState .unloading)).own evicted = evicted := by
      rw [own, index_modifyAll]
      exact own_evicted
    rw [pending_pushAll, own, pending_congr (queues_modifyAll asking evicted _), pending_pushAll,
      own_requested]
    cases q <;> rfl
  · rename_i idle
    refine ⟨[], [], rfl, moved_modifyAll l [] .unloading, fun q => ?_, List.nodup_nil,
      fun _ none_ => absurd none_ List.not_mem_nil, fun due => absurd due idle,
      fun _ none_ => absurd none_ List.not_mem_nil⟩
    cases q <;> simp

/-- What processors of levels did before does not show in what streaming did. -/
theorem Streamed.of_retouched {config : StreamConfig} {loaders : List Loader} {tick : UInt64}
    {now : SimTime} {timeout : Duration} {requested evicted : List Coord} {l k m : Level N L}
    (retouched : Retouched l k)
    (streamed : Streamed config loaders tick now timeout requested evicted k m) :
    Streamed config loaders tick now timeout requested evicted l m := by
  have resident : ∀ c, k.contains c = l.contains c := retouched.moved.isSome
  have wanted : k.wanted loaders tick = l.wanted loaders tick := by
    rw [Level.wanted, Level.wanted, retouched.index]
  obtain ⟨index, node, pending, distinct, missing, enough, unused⟩ := streamed
  rw [wanted] at missing enough
  simp only [resident] at missing enough
  simp only [retouched.pending] at pending
  rw [retouched.index] at index enough
  refine ⟨index, ?_, pending, distinct, missing, enough, ?_⟩
  · refine retouched.moved.trans node fun c n n' same => ?_
    simp only [same]
  · intro c mem
    obtain ⟨n', found, idle⟩ := unused c mem
    obtain ⟨n, before, edited⟩ := retouched.back found
    exact ⟨n, before, isUnused_of_edited edited idle⟩

end Level

end OctreeWorld
