import Mathlib.Data.List.Chain
import OctreeWorld.Archive
import OctreeWorld.Archive.Standard
import OctreeWorld.Proofs.Aging
import OctreeWorld.Proofs.PhaseOrder

/-!
# Timelines

A timeline lists the moments that a region, a world or an engine goes through, with one operation
between any two of them. While a node is resident at each of them, its version and its stamp only
rise, and so do the clocks, whatever times callers pass and whatever processors do.

Region workers do several operations on a region at once, and a processor of regions might remove a
node and make it anew in its turn. `watch` names the cells for which that is excluded, that is,
which are resident at the moments in between as well.
-/

namespace OctreeWorld

variable {N L σ : Type}

/-- The moments of a run, each an operation after the one before it. -/
structure Timeline {α : Type} (next : α → α → Prop) (begins : α → Prop) (run : List α) : Prop where
  chain : run.IsChain next
  start : ∀ a ∈ run.head?, begins a

/-- In any stretch of the moments at each of which something is there, it is never followed by what
does not come after it. -/
def Rises {α β : Type} (R : β → β → Prop) (look : α → Option β) (run : List α) : Prop :=
  ∀ stretch, stretch <:+: run → (∀ a ∈ stretch, (look a).isSome) →
    stretch.Pairwise fun a b => ∀ x y, look a = some x → look b = some y → R x y

namespace Timeline

variable {α β : Type} {next : α → α → Prop} {begins P : α → Prop} {run : List α}

section

variable (timeline : Timeline next P run) (keeps : ∀ a b, P a → next a b → P b)

include timeline keeps

theorem forall_mem : ∀ a ∈ run, P a :=
  timeline.chain.induction P run (fun a b next at_ => keeps a b at_ next) fun some_ =>
    timeline.start _ (List.head?_eq_some_head some_)

/-- What holds of any two moments next to each other holds of any two. -/
theorem pairwise {R : α → α → Prop} (step : ∀ a ∈ run, ∀ b ∈ run, P a → next a b → R a b)
    (trans : ∀ a b c, R a b → R b c → R a c) : run.Pairwise R := by
  have related : run.IsChain R :=
    timeline.chain.imp_of_mem_imp fun a b listed listed' next =>
      step a listed b listed' (timeline.forall_mem keeps a listed) next
  have : Trans R R R := ⟨fun {a b c} => trans a b c⟩
  exact related.pairwise

theorem stretch {stretch : List α} (within : stretch <:+: run) : Timeline next P stretch where
  chain := timeline.chain.infix within
  start a first := timeline.forall_mem keeps a (within.mem (List.mem_of_mem_head? first))

/-- What is there at every moment of a stretch rises along it if each operation lets it rise. -/
theorem rises {look : α → Option β} {R : β → β → Prop}
    (step : ∀ a b, P a → next a b → ∀ x y, look a = some x → look b = some y → R x y)
    (trans : ∀ x y z, R x y → R y z → R x z) : Rises R look run := by
  intro stretch within present
  -- With what is there named, the relation passes from one moment over the next to a third.
  have ordered : stretch.Pairwise fun a b => ∃ x y, look a = some x ∧ look b = some y ∧ R x y := by
    refine (timeline.stretch keeps within).pairwise keeps (fun a listed b listed' at_ next => ?_) ?_
    · obtain ⟨x, found⟩ := Option.isSome_iff_exists.mp (present a listed)
      obtain ⟨y, found'⟩ := Option.isSome_iff_exists.mp (present b listed')
      exact ⟨x, y, found, found', step a b at_ next x y found found'⟩
    · rintro a b c ⟨x, y, found, there, first⟩ ⟨y', z, there', found', second⟩
      rw [there, Option.some.injEq] at there'
      exact ⟨x, z, found, found', trans _ _ _ first (there' ▸ second)⟩
  refine ordered.imp ?_
  rintro a b ⟨x', y', here, there, related⟩ x y found found'
  rw [here, Option.some.injEq] at found
  rw [there, Option.some.injEq] at found'
  exact found ▸ found' ▸ related

end

theorem imp (timeline : Timeline next begins run) (start : ∀ a, begins a → P a) :
    Timeline next P run := ⟨timeline.chain, fun a first => start a (timeline.start a first)⟩

end Timeline

/-! ### Lookups -/

section Lookup

variable {α κ : Type} [DecidableEq κ] {name : α → κ}

/-- What a list has first under a name after a change of what it has under another. -/
theorem find?_map_named {f : α → α} {id : κ} {as : List α}
    (named : ∀ a ∈ as, name a = id → name (f a) = id) (other : κ) :
    (as.map fun a => if name a = id then f a else a).find? (name · == other) =
      if other = id then (as.find? (name · == id)).map f else as.find? (name · == other) := by
  induction as with
  | nil =>
    rw [List.map_nil, List.find?_nil, List.find?_nil, Option.map_none, ite_self]
  | cons a as ih =>
    have rest := ih fun b listed => named b (List.mem_cons_of_mem a listed)
    simp only [List.map_cons, List.find?_cons, rest]
    by_cases own : name a = id
    · have again := named a List.mem_cons_self own
      rw [if_pos own, again, own, beq_self_eq_true]
      by_cases same : other = id
      · rw [if_pos same, if_pos same, same, beq_self_eq_true]
        rfl
      · rw [if_neg same, if_neg same, beq_false_of_ne (Ne.symm same)]
    · rw [if_neg own, beq_false_of_ne own]
      by_cases same : other = id
      · rw [if_pos same, if_pos same, same, beq_false_of_ne own]
      · rw [if_neg same, if_neg same]

/-- What a list has first under a name after all under another have been taken out. -/
theorem find?_filter_named (as : List α) (id other : κ) :
    (as.filter (name · != id)).find? (name · == other) =
      if other = id then none else as.find? (name · == other) := by
  rw [List.find?_filter]
  split
  · rename_i same
    refine List.find?_eq_none.mpr fun a _ => ?_
    simp [same]
  · rename_i away
    congr 1
    funext a
    by_cases here : name a = other
    · simp [here, away]
    · simp [here]

end Lookup

/-- What two lists, related one by one, have first under a name. -/
theorem rel_find?_of_forall₂ {α β : Type} {R : α → β → Prop} {p : α → Bool} {q : β → Bool}
    (same : ∀ a b, R a b → q b = p a) {as : List α} {bs : List β}
    (related : List.Forall₂ R as bs) : Option.Rel R (as.find? p) (bs.find? q) := by
  induction related with
  | nil => exact .none
  | @cons a b as bs first _ ih =>
    rw [List.find?_cons, List.find?_cons, same a b first]
    cases p a with
    | false => exact ih
    | true => exact .some first

namespace World

theorem region?_addRegion {w : World σ N L} {id : RegionId} {r : Region N L}
    (found : w.region? id = some r) (new : RegionId) (box : Box) :
    (w.addRegion new box).region? id = some r := by
  unfold region? at found
  rw [region?, addRegion, List.find?_append, found, Option.some_or]

theorem region?_modifyRegion {w : World σ N L} {id : RegionId} {f : Region N L → Region N L}
    (named : ∀ r ∈ w.regions, r.id = id → (f r).id = id) (other : RegionId) :
    (w.modifyRegion id f).region? other =
      if other = id then (w.region? id).map f else w.region? other := find?_map_named named other

theorem region?_removeRegion (w : World σ N L) (id other : RegionId) :
    (w.removeRegion id).region? other = if other = id then none else w.region? other :=
  find?_filter_named w.regions id other

end World

/-! ### Regions -/

namespace Region

variable {r r' : Region N L} {c : Coord}

/-- Operations lead from the one region to the other, and the cell is resident all the while. -/
def Abides (c : Coord) : Region N L → Region N L → Prop :=
  Relation.ReflTransGen fun r r' =>
    Next r r' ∧ r.hierarchy.contains c = true ∧ r'.hierarchy.contains c = true

section Reached

variable (reached : r.Reached fun _ => True)

include reached

theorem Reached.abides (abides : Abides c r r') : r'.Reached (fun _ => True) ∧
    ∀ n, r.hierarchy.get? c = some n → ∃ m, r'.hierarchy.get? c = some m ∧ n.Precedes m := by
  induction abides with
  | refl => exact ⟨reached, fun n found => ⟨n, found, .refl n⟩⟩
  | tail _ step ih =>
    obtain ⟨next, -, resident⟩ := step
    obtain ⟨reached', earlier⟩ := ih
    refine ⟨(reached'.next next).reached, fun n found => ?_⟩
    obtain ⟨m, there, precedes⟩ := earlier n found
    obtain ⟨k, there'⟩ := Hierarchy.contains_iff.mp resident
    exact ⟨k, there', precedes.trans (reached'.onward next c m k there there')⟩

theorem Reached.contains_of_abides (abides : Abides c r r')
    (resident : r.hierarchy.contains c = true) : r'.hierarchy.contains c = true := by
  obtain ⟨n, found⟩ := Hierarchy.contains_iff.mp resident
  obtain ⟨m, there, -⟩ := (reached.abides abides).2 n found
  exact Hierarchy.contains_iff.mpr ⟨m, there⟩

/-- Processors that remove nothing leave what is resident in its place. -/
theorem Reached.abides_runRegionBatch {ps : List (RegionProcessor σ N L)}
    (obeys : ∀ p ∈ ps, p.Obeys fun e => e.Allowed (fun _ => True) ∧ e.Retains)
    (ctx : BatchContext) (resident : r.hierarchy.contains c = true) (s : σ) :
    Abides c r (runRegionBatch ps ctx r s).1 := by
  have respects : regionAddressing.Respects
      (fun e : RegionEdit N L => e.Allowed (fun _ => True) ∧ e.Retains) [()] fun r r' =>
      r.Reached (fun _ => True) → r.hierarchy.contains c = true → Abides c r r' := by
    refine ⟨fun _ _ _ => .refl, fun _ _ _ first second reached resident => ?_,
      fun _ _ r e may reached resident => ?_⟩
    · have early := first reached resident
      have late := second (reached.abides early).1 (reached.contains_of_abides early resident)
      exact early.trans late
    · have carries := reached.edit_carries may.1 may.2
      exact .single ⟨.edit e may.1, resident, carries.contains resident⟩
  exact respects.runBatch obeys ctx r s reached resident

theorem Reached.abides_stream (config : StreamConfig) (tick : UInt64) (now : SimTime)
    (resident : r.hierarchy.contains c = true) : Abides c r (r.stream config tick now).2 := by
  have carries := reached.edit_carries (e := .stream config tick now) trivial trivial
  exact .single ⟨.edit (.stream config tick now) trivial, resident, carries.contains resident⟩

end Reached

end Region

/-! ### Worlds -/

namespace World

/-- Between two moments of a world, each watched cell of a region that is resident at both stays
resident through the operations that lead from the one to the other. -/
def Unbroken (watch : RegionId → Coord → Prop) (w w' : World σ N L) : Prop :=
  ∀ id r r', w.region? id = some r → w'.region? id = some r' → ∀ c, watch id c →
    r.hierarchy.contains c = true → r'.hierarchy.contains c = true → Region.Abides c r r'

/-- One operation on a world or on one of its regions. One that is refused leaves all as it was. -/
inductive Next (watch : RegionId → Coord → Prop) : World σ N L → World σ N L → Prop
  | bounds {w} (box : Box) : Next watch w { w with bounds := box }
  | register {w} {ps : ProcessorRegistry σ N L} (obey : ps.Obey fun _ => True) :
      Next watch w { w with processors := ps }
  | perform {w} (op : Operation N L) (fair : op.Fair fun _ => True) (s : σ) :
      Next watch w (op.perform w s).1
  | calls {w h} (called : Hierarchy.Levelwise (Level.Called fun _ => True) w.hierarchy h) :
      Next watch w { w with hierarchy := h }
  | addRegion {w} (id : RegionId) (box : Box) : Next watch w (w.addRegion id box)
  | modifyRegion {w} (id : RegionId) {f : Region N L → Region N L}
      (operates : ∀ r, r.Reached (fun _ => True) → Region.Next r (f r)) :
      Next watch w (w.modifyRegion id f)
  | regionWorkerPhase {α : Type} {w} {f : Region N L → α × Region N L}
      (operates : ∀ r, r.Reached (fun _ => True) → (f r).2.Reached fun _ => True) (s : σ)
      (unbroken : w.Unbroken watch (w.regionWorkerPhase f s).2.2.1) :
      Next watch w (w.regionWorkerPhase f s).2.2.1
  | removeRegion {w} (id : RegionId) : Next watch w (w.removeRegion id)
  | mergeRegions {w} (source destination : RegionId) :
      Next watch w (w.mergeRegions source destination).2

variable {watch : RegionId → Coord → Prop} {w w' : World σ N L}

theorem Reached.next (reached : w.Reached fun _ => True) (next : Next watch w w') :
    w'.Reached fun _ => True := by
  cases next with
  | bounds box => exact reached.bounds box
  | register obey => exact reached.register obey
  | perform op fair s => exact Operation.perform_reached reached op fair s
  | calls called => exact reached.calls called
  | addRegion id box => exact reached.addRegion id box
  | modifyRegion id operates =>
    exact reached.modifyRegion id fun r at_ => (at_.next (operates r at_)).reached
  | regionWorkerPhase operates s _ => exact reached.regionWorkerPhase operates s
  | removeRegion id => exact reached.removeRegion id
  | mergeRegions source destination => exact reached.mergeRegions source destination

/-- The second moment of a world comes after the first: its clock is no earlier, and neither is what
both have resident. -/
structure Onward (watch : RegionId → Coord → Prop) (w w' : World σ N L) : Prop where
  clock : w.now.micros ≤ w'.now.micros
  own : w.hierarchy.Onward w'.hierarchy
  regions : ∀ id r r', w.region? id = some r → w'.region? id = some r' → ∀ c, watch id c →
    ∀ n m, r.hierarchy.get? c = some n → r'.hierarchy.get? c = some m → n.Precedes m

/-- Where every region comes after what it was, so does the world. -/
theorem Onward.of_regions (clock : w.now.micros ≤ w'.now.micros)
    (own : w.hierarchy.Onward w'.hierarchy)
    (regions : ∀ id r r', w.region? id = some r → w'.region? id = some r' →
      r.hierarchy.Onward r'.hierarchy) : w.Onward watch w' :=
  ⟨clock, own, fun id r r' found found' c _ => regions id r r' found found' c⟩

theorem Onward.of_same (clock : w.now.micros ≤ w'.now.micros)
    (own : w.hierarchy.Onward w'.hierarchy) (same : w'.regions = w.regions) :
    w.Onward watch w' := by
  refine .of_regions clock own fun id r r' found found' => ?_
  rw [region?, same] at found'
  rw [region?, found', Option.some.injEq] at found
  exact found ▸ .refl _

theorem Onward.refl (w : World σ N L) : w.Onward watch w :=
  .of_same (UInt64.le_refl _) (.refl _) rfl

theorem Next.id (next : Next watch w w') : w'.id = w.id := by
  cases next with
  | perform op fair s =>
    obtain ⟨h, tick, now, result, -⟩ := Operation.perform_parts w op s
    rw [result]
  | mergeRegions source destination =>
    obtain ⟨regions, result⟩ := w.mergeRegions_parts source destination
    rw [result]
  | _ => rfl

/-- A merge of regions does nothing, or it puts the two that are named in each other's place: the
source goes, unless the merge fails. -/
theorem mergeRegions_cases (w : World σ N L) (source destination : RegionId) :
    ((∀ stats, (w.mergeRegions source destination).1 ≠ .ok stats) ∧
      (w.mergeRegions source destination).2 = w) ∨
    ∃ src dst, w.region? source = some src ∧ w.region? destination = some dst ∧
      (w.mergeRegions source destination).1 = (Region.merge src dst).1 ∧
      ∀ id, (w.mergeRegions source destination).2.region? id =
        if id = destination then some (Region.merge src dst).2.2
        else if id = source then
          match (Region.merge src dst).1 with
          | .ok _ => none
          | .error _ => some (Region.merge src dst).2.1
        else w.region? id := by
  unfold World.mergeRegions
  by_cases same : source = destination
  · rw [if_pos same]
    exact .inl ⟨nofun, rfl⟩
  · rw [if_neg same]
    cases found_dst : w.region? destination with
    | none => exact .inl ⟨nofun, rfl⟩
    | some dst =>
      cases found_src : w.region? source with
      | none => exact .inl ⟨nofun, rfl⟩
      | some src =>
        refine .inr ⟨src, dst, rfl, rfl, ?_⟩
        obtain ⟨name, name'⟩ := Region.merge_id src dst
        rw [region?_id found_src] at name
        rw [region?_id found_dst] at name'
        -- The world after the destination is replaced and before the source is.
        obtain ⟨v, v_def⟩ : ∃ v, v = w.modifyRegion destination fun _ =>
          (Region.merge src dst).2.2 := ⟨_, rfl⟩
        have merged : ∀ id, v.region? id =
            if id = destination then some (Region.merge src dst).2.2 else w.region? id := by
          intro id
          rw [v_def, region?_modifyRegion (fun _ _ _ => name'), found_dst]
          rfl
        simp only [← v_def]
        cases done : (Region.merge src dst).1 with
        | ok stats =>
          refine ⟨rfl, fun id => ?_⟩
          rw [region?_removeRegion, merged]
          by_cases here : id = destination
          · rw [if_pos here, if_pos here, if_neg (here ▸ Ne.symm same)]
          · rw [if_neg here, if_neg here]
        | error err =>
          refine ⟨rfl, fun id => ?_⟩
          rw [region?_modifyRegion (fun _ _ _ => name), merged, merged, if_neg same, found_src]
          by_cases here : id = destination
          · rw [if_pos here, if_pos here, if_neg (here ▸ Ne.symm same)]
          · rw [if_neg here, if_neg here]
            rfl

section Reached

variable (reached : w.Reached fun _ => True)

include reached

theorem Reached.linked_region {id : RegionId} {r : Region N L} (found : w.region? id = some r) :
    r.hierarchy.Linked := ((reached.sound (.trivial _)).regions r (region?_mem found)).linked

/-- Of two regions that are merged, one is emptied or dropped, and the other has the nodes of both
afterwards. -/
theorem Reached.mergeRegions_onward (source destination id : RegionId) {r r' : Region N L}
    (found : w.region? id = some r)
    (found' : (w.mergeRegions source destination).2.region? id = some r') :
    r.hierarchy.Onward r'.hierarchy := by
  have same : w.region? id = some r' → r.hierarchy.Onward r'.hierarchy := by
    intro again
    rw [found, Option.some.injEq] at again
    exact again ▸ .refl _
  rcases w.mergeRegions_cases source destination with ⟨-, unchanged⟩ | merged
  · exact same (unchanged ▸ found')
  · obtain ⟨src, dst, found_src, found_dst, -, regions⟩ := merged
    obtain ⟨spent, carries⟩ :=
      Region.merge_carries (reached.linked_region found_src) (reached.linked_region found_dst)
    rw [regions] at found'
    split at found'
    · rename_i here
      rw [here, found_dst, Option.some.injEq] at found
      rw [← found, ← Option.some.inj found']
      exact carries.onward
    · split at found'
      · rename_i here
        rw [here, found_src, Option.some.injEq] at found
        split at found'
        · cases found'
        · rw [← found, ← Option.some.inj found']
          exact spent
      · exact same found'

/-- No operation leaves an earlier moment than it was given. -/
theorem Reached.onward (next : Next watch w w') : w.Onward watch w' := by
  have now : w.now.micros ≤ w.now.micros := UInt64.le_refl _
  cases next with
  | bounds box => exact .of_same now (.refl _) rfl
  | register obey => exact .of_same now (.refl _) rfl
  | perform op fair s =>
    have sound := reached.sound (.trivial _)
    have change := Operation.perform_change sound.linked sound.obey.node sound.obey.level fair s
    have same := Operation.perform_regions w op s
    obtain ⟨h, tick, now, result, later⟩ := Operation.perform_parts w op s
    have clock : w.now.micros ≤ (op.perform w s).1.now.micros := result ▸ later
    exact .of_same clock change.onward same
  | calls called =>
    have stepped := called.imp fun _ _ => Level.Stepped.of_called
    exact .of_same now (Hierarchy.Levelwise.carries stepped).onward rfl
  | addRegion id box =>
    refine .of_regions now (.refl _) fun other r r' found found' => ?_
    rw [region?_addRegion found, Option.some.injEq] at found'
    exact found' ▸ .refl _
  | modifyRegion id operates =>
    have next : ∀ r ∈ w.regions, Region.Next r _ := fun r listed =>
      operates r ((reached.sound (.trivial _)).regions r listed)
    have regions := (reached.sound (.trivial _)).regions
    refine .of_regions now (.refl _) fun other r r' found found' => ?_
    rw [region?_modifyRegion fun r listed named =>
      ((regions r listed).next (next r listed)).id.trans named] at found'
    split at found'
    · rename_i same
      rw [← same, found, Option.map_some, Option.some.injEq] at found'
      have listed := region?_mem found
      exact found' ▸ (regions r listed).onward (next r listed)
    · rw [found, Option.some.injEq] at found'
      exact found' ▸ .refl _
  | regionWorkerPhase operates s unbroken =>
    refine ⟨now, .refl _, fun id r r' found found' c watched n m here there => ?_⟩
    have resident := Hierarchy.contains_iff.mpr ⟨n, here⟩
    have resident' := Hierarchy.contains_iff.mpr ⟨m, there⟩
    have abides := unbroken id r r' found found' c watched resident resident'
    have regions := (reached.sound (.trivial _)).regions
    obtain ⟨m', there', precedes⟩ := ((regions r (region?_mem found)).abides abides).2 n here
    rw [there, Option.some.injEq] at there'
    exact there' ▸ precedes
  | removeRegion id =>
    refine .of_regions now (.refl _) fun other r r' found found' => ?_
    rw [region?_removeRegion] at found'
    split at found'
    · cases found'
    · rw [found, Option.some.injEq] at found'
      exact found' ▸ .refl _
  | mergeRegions source destination =>
    have regions := reached.mergeRegions_onward source destination
    obtain ⟨rs, result⟩ := w.mergeRegions_parts source destination
    rw [result] at regions ⊢
    exact .of_regions now (.refl _) fun id _ _ => regions id

/-- A cell stays where it is in a region's turn when processors remove nothing, nor does what is
done after them, and the region's own tick leaves it. -/
theorem Reached.abides_workRegion {α : Type} {f : Region N L → α × Region N L}
    (retains : ∀ p ∈ w.processors.region, p.Obeys RegionEdit.Retains) {c : Coord}
    (abides : ∀ r : Region N L, r.Reached (fun _ => True) → r.hierarchy.contains c = true →
      Region.Abides c r (f r).2) {r : Region N L} (listed : r ∈ w.regions)
    (resident : r.hierarchy.contains c = true) (s : σ)
    (resident' : (w.workRegion f r s).2.1.hierarchy.contains c = true) :
    Region.Abides c r (w.workRegion f r s).2.1 := by
  have sound := reached.sound (.trivial _)
  have at_ := sound.regions r listed
  have obeys : ∀ p ∈ w.processors.region,
      p.Obeys fun e => e.Allowed (fun _ => True) ∧ e.Retains := fun p listed ctx r s e given =>
    ⟨sound.obey.region p listed ctx r s e given, retains p listed ctx r s e given⟩
  have batch := at_.abides_runRegionBatch obeys (w.batchContext .region) resident s
  have early := (at_.abides batch).1
  have present := at_.contains_of_abides batch resident
  have called := abides _ early present
  have late := early.contains_of_abides called present
  have ticked : Region.Next
      (f (runRegionBatch w.processors.region (w.batchContext .region) r s).1).2
      (w.workRegion f r s).2.1 := by
    unfold workRegion
    simp only
    exact .tick w.processors.toNodeProcessors w.tick w.now w.config.evictionTimeout _
  exact (batch.trans called).tail ⟨ticked, late, resident'⟩

/-- Processors that remove nothing break nothing. -/
theorem Reached.unbroken_regionWorkerPhase {α : Type} {f : Region N L → α × Region N L}
    (retains : ∀ p ∈ w.processors.region, p.Obeys RegionEdit.Retains)
    (operates : ∀ r : Region N L, r.Reached (fun _ => True) → r.Succeeds (fun _ => True) (f r).2)
    (abides : ∀ c (r : Region N L), r.Reached (fun _ => True) → r.hierarchy.contains c = true →
      Region.Abides c r (f r).2) (s : σ) :
    w.Unbroken watch (w.regionWorkerPhase f s).2.2.1 := by
  have sound := reached.sound (.trivial _)
  have worked : List.Forall₂ (fun r r' => r'.id = r.id ∧ ∀ c, r.hierarchy.contains c = true →
      r'.hierarchy.contains c = true → Region.Abides c r r') w.regions
        (w.regionWorkerPhase f s).2.2.1.regions := by
    rw [regionWorkerPhase_eq]
    refine forall₂_sweep (fun r listed s => ⟨?_, fun c resident => ?_⟩) s
    · exact (workRegion_succeeds sound.obey operates (sound.regions r listed) s).id
    · exact reached.abides_workRegion retains (abides c) listed resident s
  intro id r r' found found' c _
  have rel := rel_find?_of_forall₂ (p := (·.id == id)) (q := (·.id == id))
    (fun a b related => by rw [related.1]) worked
  rw [show w.regions.find? (·.id == id) = some r from found,
    show (w.regionWorkerPhase f s).2.2.1.regions.find? (·.id == id) = some r' from found'] at rel
  cases rel with
  | some related => exact related.2 c

end Reached

/-- The node of a cell in the world's own hierarchy, or in that of one of its regions. -/
def nodeAt? (w : World σ N L) (place : Option RegionId) (c : Coord) : Option (Node N) :=
  match place with
  | none => w.hierarchy.get? c
  | some id => (w.region? id).bind (·.hierarchy.get? c)

theorem nodeAt?_eq_some {id : RegionId} {c : Coord} {n : Node N} :
    w.nodeAt? (some id) c = some n ↔ ∃ r, w.region? id = some r ∧ r.hierarchy.get? c = some n :=
  Option.bind_eq_some_iff

/-- What a merge of regions leaves in a cell is no earlier than either had it there. -/
theorem Reached.mergeRegions_precedes (reached : w.Reached fun _ => True)
    {source destination : RegionId} {stats : MergeStats}
    (done : (w.mergeRegions source destination).1 = .ok stats) {c : Coord} {n : Node N}
    (given : w.nodeAt? (some source) c = some n ∨ w.nodeAt? (some destination) c = some n) :
    ∃ k, (w.mergeRegions source destination).2.nodeAt? (some destination) c = some k ∧
      n.Precedes k := by
  rcases w.mergeRegions_cases source destination with ⟨failed, -⟩ | merged
  · exact absurd done (failed stats)
  · obtain ⟨src, dst, found_src, found_dst, result, regions⟩ := merged
    rw [nodeAt?, nodeAt?, found_src, found_dst] at given
    obtain ⟨k, there, precedes⟩ := Region.merge_precedes (reached.linked_region found_src)
      (reached.linked_region found_dst) (result ▸ done) given
    have folded := regions destination
    rw [if_pos rfl] at folded
    exact ⟨k, nodeAt?_eq_some.mpr ⟨_, folded, there⟩, precedes⟩

theorem Onward.nodeAt? (onward : w.Onward watch w') {place : Option RegionId} {c : Coord}
    (watched : ∀ id ∈ place, watch id c) {n m : Node N} (found : w.nodeAt? place c = some n)
    (found' : w'.nodeAt? place c = some m) : n.Precedes m := by
  cases place with
  | none => exact onward.own c n m found found'
  | some id =>
    obtain ⟨r, region, here⟩ := nodeAt?_eq_some.mp found
    obtain ⟨r', region', there⟩ := nodeAt?_eq_some.mp found'
    exact onward.regions id r r' region region' c (watched id rfl) n m here there

end World

/-! ### Engines -/

namespace Engine

/-- One operation on an engine or on one of its worlds. One that is refused leaves all as it was. -/
inductive Next (watch : WorldId → RegionId → Coord → Prop) : Engine σ N L → Engine σ N L → Prop
  | insertWorld {e} {w : World σ N L} (reached : w.Reached fun _ => True) :
      Next watch e (e.insertWorld w)
  | addWorld {e} (id : WorldId) (factory : PayloadFactory N L) :
      Next watch e (e.addWorld id factory)
  | modifyWorld {e} (id : WorldId) {f : World σ N L → World σ N L}
      (operates : ∀ w ∈ e.worlds, w.id = id → World.Next (watch id) w (f w)) :
      Next watch e (e.modifyWorld id f)
  | removeWorld {e} (id : WorldId) : Next watch e (e.removeWorld id)
  | addLoader {e} (id : LoaderId) (l : Loader) : Next watch e (e.addLoader id l)
  | modifyLoader {e} (id : LoaderId) (f : Loader → Loader) : Next watch e (e.modifyLoader id f)
  | removeLoader {e} (id : LoaderId) : Next watch e (e.removeLoader id)
  | advanceTime {e} (d : Duration) : Next watch e (e.advanceTime d)
  | runPhase {e n e' s'} {p : Phase} {elapsed : Duration} {s : σ}
      (done : e.runPhase p elapsed s = .ok (n, e', s'))
      (unbroken : p = .regionWorker → ∀ id w w', e.world? id = some w → e'.world? id = some w' →
        w.Unbroken (watch id) w') : Next watch e e'

variable {watch : WorldId → RegionId → Coord → Prop} {e e' : Engine σ N L}

theorem world?_mem {id : WorldId} {w : World σ N L} (found : e.world? id = some w) :
    w ∈ e.worlds := List.mem_of_find?_eq_some found

theorem world?_id {id : WorldId} {w : World σ N L} (found : e.world? id = some w) : w.id = id := by
  have named := List.find?_some found
  exact beq_iff_eq.mp named

theorem world?_modifyWorld {id : WorldId} {f : World σ N L → World σ N L}
    (named : ∀ w ∈ e.worlds, w.id = id → (f w).id = id) (other : WorldId) :
    (e.modifyWorld id f).world? other =
      if other = id then (e.world? id).map f else e.world? other := find?_map_named named other

theorem world?_removeWorld (e : Engine σ N L) (id other : WorldId) :
    (e.removeWorld id).world? other = if other = id then none else e.world? other :=
  find?_filter_named e.worlds id other

theorem world?_insertWorld {id : WorldId} {w : World σ N L} (found : e.world? id = some w)
    (new : World σ N L) : (e.insertWorld new).world? id = some w := by
  unfold world? at found
  rw [world?, insertWorld, List.find?_append, found, Option.some_or]

/-- Worlds keep what operations lead to. -/
theorem Next.worlds (next : Next watch e e') (worlds : ∀ w ∈ e.worlds, w.Reached fun _ => True) :
    ∀ w ∈ e'.worlds, w.Reached fun _ => True := by
  have inserted : ∀ v : World σ N L, v.Reached (fun _ => True) →
      ∀ w ∈ (e.insertWorld v).worlds, w.Reached fun _ => True := by
    intro v reached w listed
    rcases List.mem_append.mp listed with before | new
    · exact worlds w before
    · rw [List.mem_singleton.mp new]
      exact reached.setTime _ _
  cases next with
  | insertWorld reached => exact inserted _ reached
  | addWorld id factory => exact inserted _ (.empty ..)
  | modifyWorld id operates =>
    intro w' listed
    obtain ⟨w, before, rfl⟩ := List.mem_map.mp listed
    split
    · exact (worlds w before).next (operates w before ‹_›)
    · exact worlds w before
  | removeWorld id => exact fun w listed => worlds w (List.mem_filter.mp listed).1
  | addLoader id l => exact worlds
  | modifyLoader id f => exact worlds
  | removeLoader id => exact worlds
  | advanceTime d => exact worlds
  | runPhase done _ =>
    intro w' listed
    obtain ⟨w, before, works⟩ := exists_of_forall₂ (runPhase_works done) listed
    exact works.reached (worlds w before)

/-- A phase leaves no earlier moment of a world than it was given. -/
theorem Works.onward {p : Phase} {w w' : World σ N L} (works : e.Works p w w')
    (reached : w.Reached fun _ => True) {watch : RegionId → Coord → Prop}
    (unbroken : p = .regionWorker → w.Unbroken watch w') (s : σ) : w.Onward watch w' := by
  cases p with
  | loader =>
    rw [show w' = e.stampWorld w from works]
    have stepped : Hierarchy.Levelwise (Level.Stepped fun _ => True) w.hierarchy
        (e.stampWorld w).hierarchy :=
      (Hierarchy.keepAliveAll_levelwise e.now e.loaderList _).imp fun _ _ => Level.Stepped.of_called
    exact .of_same (SimTime.le_latest_left _ _) stepped.carries.onward rfl
  | regionWorker =>
    have unbroken := unbroken rfl
    obtain ⟨s, rfl⟩ := works
    exact reached.onward (.regionWorkerPhase (fun r reached => reached.stream _ _ _) s unbroken)
  | _ =>
    obtain rfl | ⟨op, s, fair, rfl⟩ := works.performs (fun _ => True) s (by decide) (by decide)
    · exact .refl _
    · exact reached.onward (.perform op fair s)

theorem works_of_runPhase {p : Phase} {elapsed : Duration} {s s' : σ} {n : Nat}
    (done : e.runPhase p elapsed s = .ok (n, e', s')) {id : WorldId} {w w' : World σ N L}
    (found : e.world? id = some w) (found' : e'.world? id = some w') : e.Works p w w' := by
  have rel := rel_find?_of_forall₂ (p := (·.id == id)) (q := (·.id == id)) (fun w w' works => by
    obtain ⟨h, regions, tick, now, rfl, -⟩ := Works.parts works
    rfl) (runPhase_works done)
  rw [show e.worlds.find? (·.id == id) = some w from found,
    show e'.worlds.find? (·.id == id) = some w' from found'] at rel
  cases rel with
  | some works => exact works

/-- Any cell can be watched where processors of regions remove nothing, or where there are none. -/
theorem Next.of_retains (worlds : ∀ w ∈ e.worlds, w.Reached fun _ => True)
    (retains : ∀ w ∈ e.worlds, ∀ p ∈ w.processors.region, p.Obeys RegionEdit.Retains) {p : Phase}
    {elapsed : Duration} {s s' : σ} {n : Nat} (done : e.runPhase p elapsed s = .ok (n, e', s')) :
    Next watch e e' := by
  refine .runPhase done ?_
  rintro rfl id w w' found found'
  have listed := world?_mem found
  obtain ⟨s, rfl⟩ := works_of_runPhase done found found'
  rw [tickRegions_world]
  exact (worlds w listed).unbroken_regionWorkerPhase (retains w listed)
    (fun r reached => reached.succeeds_stream _ _ _)
    (fun c r reached resident => reached.abides_stream _ _ _ resident) s

/-- The second moment of an engine comes after the first: its clock is no earlier, at most one tick
is over since, and each world comes after what it was. -/
structure Onward (watch : WorldId → RegionId → Coord → Prop) (e e' : Engine σ N L) : Prop where
  clock : e.now.micros ≤ e'.now.micros
  tick : e'.tick = e.tick ∨ e'.tick = e.tick + 1
  worlds : ∀ id w w', e.world? id = some w → e'.world? id = some w' → w.Onward (watch id) w'

/-- Where worlds are as they were, or gone, no world is earlier than it was. -/
theorem Onward.of_worlds (clock : e.now.micros ≤ e'.now.micros) (tick : e'.tick = e.tick)
    (same : ∀ id w w', e.world? id = some w → e'.world? id = some w' → w' = w) :
    e.Onward watch e' := by
  refine ⟨clock, .inl tick, fun id w w' found found' => ?_⟩
  rw [same id w w' found found']
  exact .refl w

theorem runPhase_clock {p : Phase} {elapsed : Duration} {s s' : σ} {n : Nat}
    (done : e.runPhase p elapsed s = .ok (n, e', s')) :
    e.now.micros ≤ e'.now.micros ∧ (e'.tick = e.tick ∨ e'.tick = e.tick + 1) := by
  rw [runPhase_eq] at done
  split at done
  · obtain ⟨-, tick, now⟩ := { e with cursor := ⟨p.next⟩ }.perform_clock p elapsed s
    rw [Except.ok.inj done] at tick now
    change _ = min _ (e.now.micros.toNat + _) at now
    have bound := e.now.micros.toNat_lt
    have size : UInt64.size = 2 ^ 64 := rfl
    refine ⟨?_, ?_⟩
    · rw [UInt64.le_iff_toNat_le, now]
      omega
    · rw [List.count_singleton] at tick
      split at tick
      · exact .inr tick
      · exact .inl (tick.trans (UInt64.add_zero _))
  · cases done

theorem Next.onward (next : Next watch e e') (worlds : ∀ w ∈ e.worlds, w.Reached fun _ => True) :
    e.Onward watch e' := by
  have now : e.now.micros ≤ e.now.micros := UInt64.le_refl _
  have found_again : ∀ {w w' : World σ N L}, some w = some w' → w' = w := fun same =>
    (Option.some.inj same).symm
  cases next with
  | insertWorld reached =>
    refine .of_worlds now rfl fun id w w' found found' => ?_
    exact found_again ((world?_insertWorld found _).symm.trans found')
  | addWorld new factory =>
    refine .of_worlds now rfl fun id w w' found found' => ?_
    exact found_again ((world?_insertWorld found _).symm.trans found')
  | modifyWorld id operates =>
    refine ⟨now, .inl rfl, fun other w w' found found' => ?_⟩
    rw [world?_modifyWorld fun w listed named => (operates w listed named).id.trans named] at found'
    split at found'
    · rename_i same
      rw [← same, found, Option.map_some, Option.some.injEq] at found'
      have listed := world?_mem found
      have reached := worlds w listed
      exact found' ▸ same ▸ reached.onward (operates w listed (same ▸ world?_id found))
    · rw [found_again (found.symm.trans found')]
      exact .refl w
  | removeWorld id =>
    refine .of_worlds now rfl fun other w w' found found' => ?_
    rw [world?_removeWorld] at found'
    split at found'
    · cases found'
    · exact found_again (found.symm.trans found')
  | addLoader id l =>
    exact .of_worlds now rfl fun id w w' found found' => found_again (found.symm.trans found')
  | modifyLoader id f =>
    exact .of_worlds now rfl fun id w w' found found' => found_again (found.symm.trans found')
  | removeLoader id =>
    exact .of_worlds now rfl fun id w w' found found' => found_again (found.symm.trans found')
  | advanceTime d =>
    exact .of_worlds (e.now.le_advance d) rfl fun id w w' found found' =>
      found_again (found.symm.trans found')
  | @runPhase _ _ _ _ _ s done unbroken =>
    obtain ⟨clock, tick⟩ := runPhase_clock done
    refine ⟨clock, tick, fun id w w' found found' => ?_⟩
    have reached := worlds w (world?_mem found)
    have works := works_of_runPhase done found found'
    exact works.onward reached (fun region => unbroken region id w w' found found') s

/-- The node of a cell in a world, or in one of its regions. -/
def nodeAt? (e : Engine σ N L) (id : WorldId) (place : Option RegionId) (c : Coord) :
    Option (Node N) := (e.world? id).bind (·.nodeAt? place c)

theorem nodeAt?_eq_some {id : WorldId} {place : Option RegionId} {c : Coord} {n : Node N} :
    e.nodeAt? id place c = some n ↔
      ∃ w, e.world? id = some w ∧ w.nodeAt? place c = some n := Option.bind_eq_some_iff

end Engine

/-! ### Timelines -/

/-- The moments of a region, from one that operations lead to. -/
def Region.Timeline (run : List (Region N L)) : Prop :=
  OctreeWorld.Timeline Next (·.Reached fun _ => True) run

namespace World

variable {watch : RegionId → Coord → Prop} {run : List (World σ N L)}

/-- The moments of a world, from one that operations lead to. -/
def Timeline (watch : RegionId → Coord → Prop) (run : List (World σ N L)) : Prop :=
  OctreeWorld.Timeline (Next watch) (·.Reached fun _ => True) run

/-- Neither the clock of a world goes back, nor what stays resident in it. -/
structure Forward (watch : RegionId → Coord → Prop) (run : List (World σ N L)) : Prop where
  clock : run.Pairwise fun w w' => w.now.micros ≤ w'.now.micros
  nodes : ∀ place c, (∀ id ∈ place, watch id c) → Rises Node.Precedes (·.nodeAt? place c) run

theorem Timeline.forward (timeline : Timeline watch run) : Forward watch run := by
  have keeps : ∀ w w' : World σ N L, w.Reached (fun _ => True) → Next watch w w' →
      w'.Reached fun _ => True := fun w w' reached next => reached.next next
  refine ⟨?_, fun place c watched => ?_⟩
  · exact timeline.pairwise keeps (fun w _ w' _ reached next => (reached.onward next).clock)
      fun _ _ _ => UInt64.le_trans
  · exact timeline.rises keeps (fun w w' reached next n m => (reached.onward next).nodeAt? watched)
      fun _ _ _ => .trans

end World

namespace Engine

variable {watch : WorldId → RegionId → Coord → Prop} {run : List (Engine σ N L)}

/-- The moments of an engine, from one that operations lead to. -/
def Timeline (watch : WorldId → RegionId → Coord → Prop) (run : List (Engine σ N L)) : Prop :=
  OctreeWorld.Timeline (Next watch) (·.Reached fun _ => True) run

/-- Neither the clock of an engine goes back, nor its count of ticks as long as there is a greater
word to count on to, nor the clocks of its worlds, nor what stays resident in them. -/
structure Forward (watch : WorldId → RegionId → Coord → Prop) (run : List (Engine σ N L)) :
    Prop where
  clock : run.Pairwise fun e e' => e.now.micros ≤ e'.now.micros
  ticks : (∀ e ∈ run, e.tick.toNat + 1 < UInt64.size) → run.Pairwise fun e e' => e.tick ≤ e'.tick
  clocks : ∀ id, Rises (fun w w' => w.now.micros ≤ w'.now.micros) (·.world? id) run
  nodes : ∀ id place c, (∀ region ∈ place, watch id region c) →
    Rises Node.Precedes (·.nodeAt? id place c) run

theorem Timeline.forward (timeline : Timeline watch run) : Forward watch run := by
  have timeline : OctreeWorld.Timeline (Next watch)
      (fun e : Engine σ N L => ∀ w ∈ e.worlds, w.Reached fun _ => True) run :=
    timeline.imp fun e reached => reached.worlds
  have keeps : ∀ e e' : Engine σ N L, (∀ w ∈ e.worlds, w.Reached fun _ => True) →
      Next watch e e' → ∀ w ∈ e'.worlds, w.Reached fun _ => True :=
    fun e e' worlds next => next.worlds worlds
  constructor
  · exact timeline.pairwise keeps (fun e _ e' _ worlds next => (next.onward worlds).clock)
      fun _ _ _ => UInt64.le_trans
  · intro room
    refine timeline.pairwise keeps (fun e listed e' _ worlds next => ?_)
      fun _ _ _ => UInt64.le_trans
    have bound := room e listed
    rw [UInt64.le_iff_toNat_le]
    rcases (next.onward worlds).tick with same | later
    · exact Nat.le_of_eq (congrArg UInt64.toNat same.symm)
    · rw [later, UInt64.toNat_add]
      change _ ≤ (e.tick.toNat + 1) % UInt64.size
      rw [Nat.mod_eq_of_lt bound]
      exact Nat.le_succ _
  · intro id
    exact timeline.rises keeps (fun e e' worlds next w w' found found' =>
      ((next.onward worlds).worlds id w w' found found').clock) fun _ _ _ => UInt64.le_trans
  · intro id place c watched
    refine timeline.rises keeps (fun e e' worlds next n m found found' => ?_) fun _ _ _ => .trans
    obtain ⟨w, world, here⟩ := nodeAt?_eq_some.mp found
    obtain ⟨w', world', there⟩ := nodeAt?_eq_some.mp found'
    exact ((next.onward worlds).worlds id w w' world world').nodeAt? watched here there

end Engine

/-- Along every run of operations on a region, a world or an engine, whatever processors are at work
and whatever clocks callers go by, what stays resident gets neither a lower version nor an earlier
stamp, and no clock or count of ticks goes back; and what a merge leaves in a cell is no earlier
than any copy that it was made of. -/
theorem nothing_goes_back :
    (∀ run : List (Region N L), Region.Timeline run →
      ∀ c, Rises Node.Precedes (·.hierarchy.get? c) run) ∧
    (∀ watch (run : List (World σ N L)), World.Timeline watch run → World.Forward watch run) ∧
    (∀ watch (run : List (Engine σ N L)), Engine.Timeline watch run → Engine.Forward watch run) ∧
    (∀ (r r' : Region N L) stats, r.Reached (fun _ => True) → r'.Reached (fun _ => True) →
      (Region.merge r r').1 = .ok stats →
      ∀ c n, r.hierarchy.get? c = some n ∨ r'.hierarchy.get? c = some n →
        ∃ k, (Region.merge r r').2.2.hierarchy.get? c = some k ∧ n.Precedes k) ∧
    ∀ (w : World σ N L) source destination stats, w.Reached (fun _ => True) →
      (w.mergeRegions source destination).1 = .ok stats →
      ∀ c n, w.nodeAt? (some source) c = some n ∨ w.nodeAt? (some destination) c = some n →
        ∃ k, (w.mergeRegions source destination).2.nodeAt? (some destination) c = some k ∧
          n.Precedes k := by
  refine ⟨fun run timeline c => ?_, fun watch run timeline => timeline.forward,
    fun watch run timeline => timeline.forward, ?_, ?_⟩
  · exact timeline.rises (fun r r' reached next => (reached.next next).reached)
      (fun r r' reached next n m => reached.onward next c n m) fun _ _ _ => .trans
  · intro r r' stats reached reached' done c n given
    exact Region.merge_precedes reached.linked reached'.linked done given
  · intro w source destination stats reached done c n given
    exact reached.mergeRegions_precedes done given

/-! ### Clocks that are behind -/

namespace Stale

def cell : Coord := ⟨⟨0, 0, 0⟩, 0⟩

def factory : PayloadFactory Bool Unit := ⟨fun _ => false, fun _ => ()⟩

/-- The archive has the cell at its seventh version. -/
def archive : Archive := (Archive.empty.store Codec.bool cell 7 SimTime.zero true).2

/-- A region in which the cell has just been made. -/
def share (id : RegionId) (now : SimTime) : Region Bool Unit :=
  (Region.empty id default Box.everything factory 1).edit (.load cell now)

theorem share_reached (id : RegionId) (now : SimTime) : (share id now).Reached fun _ => True :=
  (Region.Reached.empty id default Box.everything factory 1).edit (.load cell now) trivial

/-- A world whose clock is ahead of others, with the cell waiting to be restored, and with two
regions that have a copy of it. -/
def world : World Archive Bool Unit :=
  let empty : World Archive Bool Unit :=
    { (World.empty default { levelCount := 1 } factory : World Archive Bool Unit) with
      processors := { load := [Archive.loadProcessor (.whole Archive) Codec.bool] } }
  let w := ((empty.setTime 0 ⟨3⟩).queueCreate cell).createPhase.2
  (((w.addRegion ⟨1⟩ Box.everything).addRegion ⟨2⟩ Box.everything).modifyRegion ⟨1⟩
    (·.edit (.load cell ⟨9⟩))).modifyRegion ⟨2⟩ (·.edit (.load cell ⟨5⟩))

theorem world_reached : world.Reached fun _ => True := by
  have obey : ({ load := [Archive.loadProcessor (.whole Archive) Codec.bool] } :
      ProcessorRegistry Archive Bool Unit).Obey fun _ => True :=
    ⟨NodeProcessors.obey_any _, nofun, nofun⟩
  have empty : World.Reached (fun _ => True) _ :=
    (World.Reached.empty default { levelCount := 1 } factory).register obey
  have created := ((empty.setTime 0 ⟨3⟩).queueCreate cell).createPhase
  have regions := (created.addRegion ⟨1⟩ Box.everything).addRegion ⟨2⟩ Box.everything
  exact (regions.modifyRegion ⟨1⟩ fun r at_ => at_.edit (.load cell ⟨9⟩) trivial).modifyRegion ⟨2⟩
    fun r at_ => at_.edit (.load cell ⟨5⟩) trivial

def engine : Engine Archive Bool Unit :=
  ({ config := {}, threads := 1 } : Engine Archive Bool Unit).insertWorld world

/-- The cell is restored. -/
def restored : Engine Archive Bool Unit :=
  engine.modifyWorld default fun w => (World.Operation.perform w archive .loadPhase).1

/-- The engine after a phase. -/
def ran (p : Phase) (e : Engine Archive Bool Unit) : Engine Archive Bool Unit :=
  ({ e with cursor := ⟨p.next⟩ }.perform p Duration.zero archive).2.1

/-- A tick has begun, by a clock that is behind that of the world. -/
def begun : Engine Archive Bool Unit := ran .loader restored

/-- The cell is stamped with a time long gone. -/
def stamped : Engine Archive Bool Unit :=
  begun.modifyWorld default (·.modifyNode cell (·.touch ⟨1⟩))

/-- Levels and regions are worked on. -/
def worked : Engine Archive Bool Unit := ran .regionWorker (ran .levelWorker stamped)

/-- The regions are one. -/
def merged : Engine Archive Bool Unit :=
  worked.modifyWorld default fun w => (w.mergeRegions ⟨1⟩ ⟨2⟩).2

def run : List (Engine Archive Bool Unit) :=
  [engine, restored, begun, stamped, ran .levelWorker stamped, worked, merged]

/-- The version and the stamp of the cell in a place. -/
def shown (place : Option RegionId) (e : Engine Archive Bool Unit) : Option (UInt32 × UInt64) :=
  (e.nodeAt? default place cell).map fun n => (n.version, n.lastUpdate.micros)

theorem next_ran {p : Phase} {e : Engine Archive Bool Unit} (expected : p = e.cursor.expected)
    (worlds : ∀ w ∈ e.worlds, w.Reached fun _ => True)
    (plain : ∀ w ∈ e.worlds, w.processors.region.isEmpty = true) :
    Engine.Next (fun _ _ _ => True) e (ran p e) := by
  refine .of_retains worlds (fun w listed q mem => ?_)
    ((Engine.runPhase_eq e p Duration.zero archive).trans (if_pos expected))
  rw [List.isEmpty_iff.mp (plain w listed)] at mem
  cases mem

theorem engine_reached : engine.Reached fun _ => True :=
  (Engine.Reached.start {} 1).insertWorld world_reached

theorem timeline : Engine.Timeline (fun _ _ _ => True) run := by
  have first : Engine.Next (fun _ _ _ => True) engine restored :=
    .modifyWorld default fun w _ _ => .perform .loadPhase trivial archive
  have worlds₁ := first.worlds engine_reached.worlds
  have second : Engine.Next (fun _ _ _ => True) restored begun :=
    next_ran rfl worlds₁ (by decide +kernel)
  have third : Engine.Next (fun _ _ _ => True) begun stamped :=
    .modifyWorld default fun w _ _ => .calls (Hierarchy.levelwise_modifyLevel (fun _ => .refl)
      fun l _ => .single (.edit (.node cell (.touch ⟨1⟩)) trivial))
  have worlds₃ := third.worlds (second.worlds worlds₁)
  have fourth : Engine.Next (fun _ _ _ => True) stamped (ran .levelWorker stamped) :=
    next_ran rfl worlds₃ (by decide +kernel)
  have fifth : Engine.Next (fun _ _ _ => True) (ran .levelWorker stamped) worked :=
    next_ran (by decide +kernel) (fourth.worlds worlds₃) (by decide +kernel)
  have sixth : Engine.Next (fun _ _ _ => True) worked merged :=
    .modifyWorld default fun w _ _ => .mergeRegions ⟨1⟩ ⟨2⟩
  refine ⟨.cons_cons first (.cons_cons second (.cons_cons third (.cons_cons fourth
    (.cons_cons fifth (.cons_cons sixth (.singleton _)))))), fun e first => ?_⟩
  exact Option.some.inj first ▸ engine_reached

end Stale

open Stale in
/-- A cell that is restored and stamped, and copies of it that are raised and merged, while clocks
lag behind what others have shown before. -/
theorem nothing_goes_back_in_restored_cell :
    let raised := (share ⟨1⟩ ⟨9⟩).edit (.level 0 (.node cell .bumpVersion))
    let copies := [share ⟨1⟩ ⟨9⟩, raised, raised.edit (.tick {} 0 ⟨4⟩ (Duration.ofSeconds 1))]
    let folded := (Region.merge raised (share ⟨2⟩ ⟨5⟩)).2.2
    let after := (world.mergeRegions ⟨1⟩ ⟨2⟩).2
    Rises Node.Precedes (·.hierarchy.get? cell) copies ∧
      World.Forward (fun _ _ => True) [world, after] ∧
      (Engine.Forward (fun _ _ _ => True) run ∧
        run.filterMap (shown none) = [(0, 3), (7, 3), (7, 3), (7, 3), (7, 3), (7, 3), (7, 3)] ∧
        run.filterMap (shown (some ⟨2⟩)) =
          [(0, 5), (0, 5), (0, 5), (0, 5), (0, 5), (7, 5), (7, 9)]) ∧
      (∀ n, raised.hierarchy.get? cell = some n →
        ∃ k, folded.hierarchy.get? cell = some k ∧ n.Precedes k) ∧
      ∀ n, world.nodeAt? (some ⟨1⟩) cell = some n →
        ∃ k, after.nodeAt? (some ⟨2⟩) cell = some k ∧ n.Precedes k := by
  intro raised copies folded after
  obtain ⟨regions, worlds, engines, merges, merges'⟩ :=
    nothing_goes_back (N := Bool) (L := Unit) (σ := Archive)
  have raised_reached : raised.Reached fun _ => True :=
    (share_reached ⟨1⟩ ⟨9⟩).edit (.level 0 (.node cell .bumpVersion)) trivial
  have copies_timeline : Region.Timeline copies := by
    have ticked := Region.Next.edit (r := raised) (.tick {} 0 ⟨4⟩ (Duration.ofSeconds 1))
      (NodeProcessors.obey_any _)
    refine ⟨.cons_cons (.edit _ trivial) (.cons_cons ticked (.singleton _)), fun r first => ?_⟩
    exact Option.some.inj first ▸ share_reached ⟨1⟩ ⟨9⟩
  have world_timeline : World.Timeline (fun _ _ => True) [world, after] := by
    refine ⟨.cons_cons (.mergeRegions ⟨1⟩ ⟨2⟩) (.singleton _), fun w first => ?_⟩
    exact Option.some.inj first ▸ world_reached
  have done : (Region.merge raised (share ⟨2⟩ ⟨5⟩)).1 = .ok { collisions := 1, commands := 1 } := by
    decide +kernel
  have done' : (world.mergeRegions ⟨1⟩ ⟨2⟩).1 = .ok { collisions := 1, commands := 1 } := by
    decide +kernel
  refine ⟨regions copies copies_timeline cell, worlds _ _ world_timeline,
    ⟨engines _ _ timeline, by decide +kernel, by decide +kernel⟩, fun n found => ?_,
    fun n found => ?_⟩
  · exact merges raised (share ⟨2⟩ ⟨5⟩) _ raised_reached (share_reached ⟨2⟩ ⟨5⟩) done cell n
      (.inl found)
  · exact merges' world ⟨1⟩ ⟨2⟩ _ world_reached done' cell n (.inl found)

end OctreeWorld
