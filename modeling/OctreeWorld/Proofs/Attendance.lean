import OctreeWorld.Proofs.Evolution
import OctreeWorld.Proofs.Transitions

/-!
# Attended nodes

A node that waits for something is in the queue whose draining ends the wait, as long as nobody
writes states by hand. State and queue are written apart, so this is shown for every step of a
level, for creations, for removals and for merges.
-/

namespace OctreeWorld

variable {N L : Type}

/-- The queue in which a node waits for its state to end. -/
def NodeState.awaits : NodeState → Option Queue
  | .loading => some .load
  | .unloading => some .unload
  | .deleting => some .destroy
  | .unloaded | .loaded => none

/-- No two states wait in one queue. -/
theorem NodeState.awaits_injective {s t : NodeState} {q : Queue} (waits : s.awaits = some q)
    (waits' : t.awaits = some q) : s = t := by
  cases s <;> cases waits <;> cases t <;> first | rfl | cases waits'

/-- A state that a resident node may be in, given what is pending for its cell. -/
def NodeState.HeldBy (s : NodeState) (pending : Queue → List Coord) (c : Coord) : Prop :=
  s ≠ .unloaded ∧ ∀ q, s.awaits = some q → c ∈ pending q

namespace NodeState.HeldBy

variable {s : NodeState} {before after : Queue → List Coord} {c : Coord}

theorem loaded (pending : Queue → List Coord) (c : Coord) : NodeState.loaded.HeldBy pending c := by
  refine ⟨NodeState.noConfusion, fun q waits => ?_⟩
  cases waits

/-- Only what the queue of the state loses matters. -/
theorem mono (held : s.HeldBy before c)
    (kept : ∀ q, s.awaits = some q → c ∈ before q → c ∈ after q) : s.HeldBy after c :=
  ⟨held.1, fun q waits => kept q waits (held.2 q waits)⟩

end NodeState.HeldBy

/-! ### Levels -/

namespace Level

/-- No node has been unloaded in place, and every node that waits is queued for what it waits. -/
def Attended (l : Level N L) : Prop :=
  ∀ c n, l.get? c = some n → n.state.HeldBy l.pending c

variable {l m : Level N L}

/-- States that stay keep a level attended, whatever is put into its queues. -/
theorem Attended.moved (attended : l.Attended) (moved : Moved (fun _ n => n.state) l.get? m.get?)
    (kept : ∀ q, q ≠ .tick → ∀ c ∈ l.pending q, c ∈ m.pending q) : m.Attended := by
  intro c n' found
  obtain ⟨n, found', -, state⟩ := moved.back found
  rw [state]
  refine (attended c n found').mono fun q waits => kept q ?_ c
  rintro rfl
  revert waits
  cases n.state <;> exact nofun

theorem moved_of_get? (same : ∀ c, m.get? c = l.get? c) :
    Moved (fun _ n => n.state) l.get? m.get? := by
  intro c
  rw [same]
  rfl

theorem mem_pending_pushAll {q p : Queue} {cs : List Coord} {c : Coord} (queued : c ∈ l.pending p) :
    c ∈ (l.pushAll q cs).pending p := by
  rw [pending_pushAll]
  split
  · exact List.mem_append_left _ queued
  · exact queued

/-- Putting nodes into the unload queue and into the state that goes with it. -/
theorem Attended.queueUnload (attended : l.Attended) (cs : List Coord) {f : Node N → Node N}
    (twice : ∀ n, f (f n) = f n)
    (states : ∀ n, (f n).state = .unloading ∨ (f n).state = n.state) :
    ((l.modifyAll cs f).pushAll .unload cs).Attended := by
  intro c n' found
  rw [get?_pushAll, get?_modifyAll _ _ twice] at found
  have kept : ∀ q, c ∈ l.pending q → c ∈ ((l.modifyAll cs f).pushAll .unload cs).pending q := by
    intro q queued
    apply mem_pending_pushAll
    rwa [pending_congr (queues_modifyAll l cs f)]
  split at found
  · rename_i named
    obtain ⟨n, before, rfl⟩ := Option.map_eq_some_iff.mp found
    rcases states n with state | state
    · rw [state]
      refine ⟨NodeState.noConfusion, fun q waits => ?_⟩
      cases waits
      rw [pending_pushAll, if_pos rfl]
      refine List.mem_append_right _ (mem_own.mpr ⟨named, ?_⟩)
      rw [index_modifyAll]
      exact level_eq_of_get? before
    · rw [state]
      exact (attended c n before).mono fun q _ => kept q
  · exact (attended c n' found).mono fun q _ => kept q

theorem Call.attended (call : Call NodeEdit.Calm l m) (attended : l.Attended) : m.Attended := by
  cases call with
  | edit e allowed =>
    cases e with
    | setData d => exact attended.moved (moved_of_get? fun _ => rfl) fun _ _ _ => id
    | push q c =>
      exact attended.moved (moved_of_get? fun _ => rfl) fun _ _ _ => mem_pending_pushAll
    | node c e =>
      have edited : l.Edited NodeEdit.Calm [c] (l.editNode c e) :=
        .editNode l List.mem_cons_self allowed
      refine attended.moved edited.moved fun q _ x queued => ?_
      rwa [Level.edit, pending_congr edited.queues]
  | keepAlive loader now =>
    refine attended.moved (map_get?_modifyAll l _ (f := (·.touch now)) fun _ => rfl)
      fun q _ c queued => ?_
    rwa [Level.keepAlive, pending_congr (queues_modifyAll l _ _)]
  | requestLoads loaders tick budget =>
    exact attended.moved (moved_of_get? fun _ => rfl) fun _ _ _ => mem_pending_pushAll
  | collectUnused now timeout budget =>
    exact attended.queueUnload _ (fun _ => rfl) fun _ => Or.inl rfl

theorem batch_attended {σ : Type} {ps : List (NodeProcessor σ N L)}
    (obeys : ∀ p ∈ ps, p.Obeys NodeEdit.Calm) (ctx : BatchContext) (attended : l.Attended)
    (cs : List Coord) (s : σ) : (runNodeBatch ps ctx l cs s).1.Attended := by
  have edited := runNodeBatch_edited obeys ctx l cs s
  refine attended.moved edited.moved fun q _ c queued => ?_
  rwa [pending_congr edited.queues]

theorem load_attended {σ : Type} {ps : List (NodeProcessor σ N L)}
    (obeys : ∀ p ∈ ps, p.Obeys NodeEdit.Calm) (ctx : BatchContext) (attended : l.Attended) (s : σ) :
    (l.load ps ctx s).2.1.Attended := by
  intro c n' found
  obtain ⟨n, before, -, state⟩ := (load_moved obeys ctx l s).back found
  have held := attended c n before
  rw [state, loadedState]
  split
  · exact .loaded _ c
  · rename_i stays
    refine held.mono fun q waits queued => ?_
    rw [pending_load, if_neg]
    · exact queued
    · rintro rfl
      exact stays ⟨NodeState.awaits_injective waits rfl, queued⟩

theorem unload_attended {σ : Type} {ps : List (NodeProcessor σ N L)}
    (obeys : ∀ p ∈ ps, p.Obeys NodeEdit.Calm) (ctx : BatchContext) (attended : l.Attended) (s : σ) :
    (l.unload ps ctx s).2.1.Attended := by
  intro c n' found
  obtain ⟨n, before, -, state⟩ := (unload_moved obeys ctx l s).back found
  have held := attended c n before
  rw [state, unloadedState]
  split
  · rename_i live
    split
    · rename_i leaf
      refine ⟨NodeState.noConfusion, fun q waits => ?_⟩
      cases waits
      rw [pending_unload, if_neg Queue.noConfusion, if_pos rfl]
      exact List.mem_append_right _ (mem_retiring.mpr ⟨live.1, n, before, live.2, leaf⟩)
    · exact .loaded _ c
  · rename_i stays
    refine held.mono fun q waits queued => ?_
    rw [pending_unload]
    split
    · rename_i same
      subst same
      have unloading : n.state = .unloading := NodeState.awaits_injective waits rfl
      refine absurd ⟨queued, ?_⟩ stays
      rw [unloading]
      exact NodeState.noConfusion
    · split
      · rename_i same
        subst same
        exact List.mem_append_left _ queued
      · exact queued

theorem Step.attended (step : Step NodeEdit.Calm l m) (attended : l.Attended) : m.Attended := by
  cases step with
  | call call => exact call.attended attended
  | load obeys ctx s => exact load_attended obeys ctx attended s
  | unload obeys ctx s => exact unload_attended obeys ctx attended s
  | tick obeys ctx s =>
    have cleared : (l.clear .tick).Attended := by
      refine attended.moved (moved_of_get? fun _ => rfl) fun q other c queued => ?_
      rwa [pending_clear, if_neg (Ne.symm other)]
    exact batch_attended obeys ctx cleared _ s
  | flush obeys ctx changed s =>
    refine batch_attended obeys _ ?_ _ s
    refine attended.moved (map_get?_modifyAll l _
      (f := fun n => n.bumpVersion.touch ctx.now) fun _ => rfl) fun q _ c queued => ?_
    rwa [pending_congr (queues_modifyAll l _ _)]
  | observers c f same =>
    refine attended.moved (fun e => ?_) fun q _ x queued => ?_
    · rw [get?_modify]
      split
      · rename_i at_
        subst at_
        cases found : l.get? c with
        | none => rfl
        | some n =>
          obtain ⟨count, change⟩ := same n found
          rw [Option.map_some, change]
          rfl
      · rfl
    · rwa [pending_congr (bare_eq_iff.mp (bare_modify l c f)).2.1]
  | doom c =>
    refine attended.queueUnload [c] (fun n => ?_) fun n => ?_
    · by_cases deleting : n.state = .deleting
      · simp only [if_pos deleting]
      · simp only [if_neg deleting]
        split <;> rfl
    · by_cases deleting : n.state = .deleting
      · exact Or.inr (by rw [if_pos deleting])
      · exact Or.inl (by rw [if_neg deleting]; rfl)
  | evict c => exact attended.queueUnload [c] (fun _ => rfl) fun _ => Or.inl rfl

theorem Stepped.attended (stepped : Stepped NodeEdit.Calm l m) (attended : l.Attended) :
    m.Attended :=
  stepped.induct (fun _ _ step => step.attended) attended

end Level

/-! ### Hierarchies -/

namespace Hierarchy

/-- Every level is attended. -/
def Attended (h : Hierarchy N L) : Prop :=
  ∀ c n, h.get? c = some n → n.state.HeldBy (h.pending c.level) c

theorem attended_iff {h : Hierarchy N L} (num : h.Numbered) :
    h.Attended ↔ ∀ i l, h.level? i = some l → l.Attended := by
  constructor
  · intro attended i l stored c n found
    have level : c.level = i := (Level.level_eq_of_get? found).trans (num.index i l stored)
    subst level
    have held := attended c n ((get?_of_level? stored).trans found)
    exact held.mono fun q _ queued => by rwa [← pending_of_level? stored]
  · intro levels c n found
    obtain ⟨l, stored, at_⟩ := level?_of_get? found
    have held := levels c.level l stored c n at_
    exact held.mono fun q _ queued => by rwa [pending_of_level? stored]

variable {h g : Hierarchy N L}

theorem Attended.stepped (num : h.Numbered) (attended : h.Attended)
    (stepped : Levelwise (Level.Stepped NodeEdit.Calm) h g) : g.Attended := by
  have num_g : g.Numbered := stepped.numbered (fun _ _ step => step.sameLinks.1) num
  refine (attended_iff num_g).mpr fun i m stored => ?_
  obtain ⟨l, before, step⟩ := stepped.level?_back stored
  exact step.attended ((attended_iff num).mp attended i l before)

theorem Attended.grown {factory : PayloadFactory N L} {now : SimTime} {drained : List UInt8}
    {created : List Coord} (attended : h.Attended)
    (grown : Grown factory now drained created h g) : g.Attended := by
  intro c n found
  by_cases made : c ∈ created
  · -- A newborn is loading, and its load is among those queued.
    have body := grown.body c
    rw [if_pos made, Hierarchy.body, found] at body
    have newborn : n.clearLinks = (factory.newborn now c).clearLinks := Option.some.inj body
    have state : n.state = .loading := Node.state_congr newborn
    rw [state]
    refine ⟨NodeState.noConfusion, fun q waits => ?_⟩
    cases waits
    rw [grown.load]
    exact List.mem_append_right _ (List.mem_filter.mpr ⟨made, beq_self_eq_true c.level⟩)
  · obtain ⟨m, before, same⟩ := exists_of_body ((grown.body c).trans (if_neg made)) found
    have state : m.state = n.state := Node.state_congr same
    rw [← state]
    refine (attended c m before).mono fun q waits queued => ?_
    by_cases load : q = .load
    · rw [load, grown.load, ← load]
      exact List.mem_append_left _ queued
    · rw [grown.other c.level q ?_ load]
      · exact queued
      · rintro rfl
        revert waits
        cases m.state <;> decide

theorem Attended.pruned {drained : List UInt8} {gone : Coord → Prop} (attended : h.Attended)
    (pruned : Pruned drained gone h g)
    (thorough : ∀ i ∈ drained, ∀ c ∈ h.pending i .destroy, h.contains c = true → gone c) :
    g.Attended := by
  intro c n found
  have stays : ¬ gone c := by
    intro left
    rw [contains_eq_false_iff.mp (pruned.absent c left)] at found
    cases found
  obtain ⟨m, before, same⟩ := exists_of_body (pruned.kept c stays) found
  have state : m.state = n.state := Node.state_congr same
  rw [← state]
  refine (attended c m before).mono fun q _ queued => ?_
  by_cases destroy : q = .destroy
  · subst destroy
    rw [pruned.destroy]
    split
    · rename_i drained
      exact absurd (thorough c.level drained c queued (contains_iff.mpr ⟨m, before⟩)) stays
    · exact queued
  · rwa [pruned.other c.level q destroy]

theorem Attended.merged {source into spent : Hierarchy N L} {stats : MergeStats}
    (attended : source.Attended) (attended_into : into.Attended)
    (merged : Merged source.levels.length source into spent g stats) : g.Attended := by
  have arrive : ∀ c m, source.get? c = some m → m.state.HeldBy (g.pending c.level) c := by
    intro c m found
    refine (attended c m found).mono fun q _ queued => ?_
    rw [merged.pending_append]
    exact List.mem_append_right _ queued
  have stay : ∀ c n, into.get? c = some n → n.state.HeldBy (g.pending c.level) c := by
    intro c n found
    refine (attended_into c n found).mono fun q _ queued => ?_
    rw [merged.pending_append]
    exact List.mem_append_left _ queued
  intro c k found
  have body := merged.body_combined c
  rw [Hierarchy.body, Hierarchy.body, Hierarchy.body, found] at body
  cases native : into.get? c with
  | none =>
    rw [native] at body
    obtain ⟨m, foreign, same⟩ := Option.map_eq_some_iff.mp body.symm
    have state : m.state = k.state := Node.state_congr same
    rw [← state]
    exact arrive c m foreign
  | some n =>
    cases foreign : source.get? c with
    | none =>
      rw [native, foreign] at body
      have state : k.state = n.state := Node.state_congr (Option.some.inj body)
      rw [state]
      exact stay c n native
    | some m =>
      rw [native, foreign] at body
      have state := congrArg Node.state (Option.some.inj body)
      rw [(Node.folded_absorb _ _).state] at state
      have state : k.state = if n.version < m.version then m.state else n.state := state
      rw [state]
      split
      · exact arrive c m foreign
      · exact stay c n native

/-- As long as nobody writes states, every node that waits is queued for what it waits. -/
theorem attended_kept : Kept (N := N) (L := L) NodeEdit.Calm Attended where
  empty := by
    intro factory count c n found
    rw [empty_get?] at found
    cases found
  change := by
    intro h g linked change attended
    cases change with
    | steps stepped => exact attended.stepped linked.numbered stepped
    | grown grown => exact attended.grown grown
    | pruned pruned thorough => exact attended.pruned pruned thorough
  merged := by
    intro source into spent g stats _ _ _ merged attended attended_into
    refine ⟨fun c n found => ?_, attended.merged attended_into merged⟩
    rw [merged.spent_get?] at found
    cases found

end Hierarchy

end OctreeWorld
