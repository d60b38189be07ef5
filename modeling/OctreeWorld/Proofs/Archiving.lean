import OctreeWorld.Archive
import OctreeWorld.Proofs.Transitions

/-!
# What the processors of an archive do

A store is accepted unless the archive holds a higher version, and it leaves the records of other
cells alone. A batch of loads gives each node the record of its cell and leaves the archive as it
is; a batch of unloads leaves the nodes as they are and files each of them.
-/

namespace OctreeWorld

variable {σ N L : Type}

/-- The version and the payload of a node. -/
def Node.content (n : Node N) : UInt32 × N := (n.version, n.data)

/-- What is put into the slot is found there. -/
def Slot.Lawful {α : Type} (slot : Slot σ α) : Prop := ∀ s a, slot.get (slot.set s a) = a

/-- A processor that does nothing at the ends of a batch only has its commands dispatched. -/
theorem runNodeBatch_plain {p : NodeProcessor σ N L} (start : ∀ ctx s, p.start ctx s = s)
    (finish : ∀ ctx s, p.finish ctx s = s) (ctx : BatchContext) (l : Level N L) (cs : List Coord)
    (s : σ) : runNodeBatch [p] ctx l cs s = dispatch nodeAddressing ctx [p] cs l s := by
  cases cs with
  | nil => rfl
  | cons c cs =>
    simp only [runNodeBatch, runBatch, List.isEmpty_cons, Bool.false_eq_true, if_false,
      List.foldl_cons, List.foldl_nil, start, finish]

namespace Archive

variable {a b : Archive} {c x : Coord}

theorem version?_congr (same : b.record? c = a.record? c) : b.version? c = a.version? c := by
  rw [version?, same, version?]

variable [ArchiveFormat] {encoding : Encoding N Bytes} {version : UInt32} {savedAt : SimTime}
  {payload : N}

/-- Neither the compression nor the encoding of payloads loses anything. -/
structure Lossless (encoding : Encoding N Bytes) : Prop where
  compression : ArchiveFormat.compression.Lossless
  payloads : encoding.Lossless

/-- A payload is read back from what is kept of it. -/
theorem unpack_pack (compression : ArchiveFormat.compression.Lossless)
    (kept : encoding.Keeps payload) : unpack encoding (pack encoding payload) = .ok payload := by
  have inflated := compression (encoding.write payload)
  rw [Encoding.Keeps] at inflated kept
  simp only [unpack, pack, inflated, kept]

theorem Lossless.unpack_pack (lossless : Lossless encoding) (payload : N) :
    unpack encoding (pack encoding payload) = .ok payload :=
  Archive.unpack_pack lossless.compression (lossless.payloads payload)

/-! ### Records -/

/-- The record that a store makes. -/
def recordOf (encoding : Encoding N Bytes) (version : UInt32) (savedAt : SimTime) (payload : N) :
    ArchiveRecord :=
  let packed := pack encoding payload
  { version, savedAt, digest := ArchiveFormat.digest packed, payload := packed }

theorem store_of_accepted (accepted : ∀ held, a.version? c = some held → held ≤ version) :
    a.store encoding c version savedAt payload =
      (true,
        { a with records := a.records.insert c (recordOf encoding version savedAt payload) }) := by
  have fresh : ¬ ((a.version? c).any fun held => decide (version < held)) = true := by
    intro stale
    obtain ⟨held, found, newer⟩ := (Option.any_eq_true ..).mp stale
    exact absurd (of_decide_eq_true newer) (UInt32.not_lt.mpr (accepted held found))
  rw [store, if_neg fresh]
  rfl

theorem record?_store (accepted : ∀ held, a.version? c = some held → held ≤ version) :
    (a.store encoding c version savedAt payload).2.record? c =
      some (recordOf encoding version savedAt payload) := by
  rw [store_of_accepted accepted]
  exact Std.ExtTreeMap.getElem?_insert_self

theorem record?_store_of_ne (other : c ≠ x) :
    (a.store encoding c version savedAt payload).2.record? x = a.record? x := by
  have apart : compare c x ≠ .eq := fun same => other (Std.LawfulEqCmp.eq_of_compare same)
  unfold store
  split
  · rfl
  · simp only [record?, Std.ExtTreeMap.getElem?_insert, if_neg apart]

theorem restore_congr (same : b.record? c = a.record? c) (least : UInt32) :
    b.restore encoding c least = a.restore encoding c least := by
  rw [restore, same, restore]

/-- A recorded payload is given out if it is recent, if its digest is right and if it can be
unpacked. -/
theorem restore_of_record? (encoding : Encoding N Bytes) {r : ArchiveRecord}
    (stored : a.record? c = some r) (least : UInt32) :
    a.restore encoding c least =
      if r.version < least then .ok none
      else if ArchiveFormat.digest r.payload = r.digest then
        (unpack encoding r.payload).map fun payload => some (r.version, payload)
      else
        .error
          (.integrityMismatch ("node " ++ c.text) r.digest (ArchiveFormat.digest r.payload)) := by
  rw [restore, stored]
  refine if_congr Iff.rfl rfl ?_
  by_cases intact : ArchiveFormat.digest r.payload = r.digest
  · simp only [verify, if_pos intact]
    cases unpack encoding r.payload <;> rfl
  · simp only [verify, if_neg intact]
    rfl

/-- What has been stored is given out again. -/
theorem restore_store (accepted : ∀ held, a.version? c = some held → held ≤ version)
    (lossless : unpack encoding (pack encoding payload) = .ok payload) :
    (a.store encoding c version savedAt payload).2.restore encoding c 0 =
      .ok (some (version, payload)) := by
  rw [restore_of_record? encoding (record?_store accepted),
    if_neg (UInt32.not_lt.mpr UInt32.zero_le)]
  simp only [recordOf, if_true, lossless]
  rfl

theorem version?_of_restore {found : Option (UInt32 × N)}
    (given : a.restore encoding c 0 = .ok found) : a.version? c = found.map (·.1) := by
  cases stored : a.record? c with
  | none =>
    rw [restore, stored] at given
    cases given
    rw [version?, stored]
    rfl
  | some r =>
    rw [restore_of_record? encoding stored, if_neg (UInt32.not_lt.mpr UInt32.zero_le)] at given
    rw [version?, stored]
    split at given
    · cases legible : unpack encoding r.payload with
      | error e =>
        rw [legible] at given
        cases given
      | ok payload =>
        rw [legible] at given
        cases given
        rfl
    · cases given

/-- What is given out is given out again to a node that has adopted it. -/
theorem restore_adopted {least : UInt32} {found : UInt32 × N}
    (given : a.restore encoding c least = .ok (some found)) :
    least ≤ found.1 ∧ a.restore encoding c found.1 = .ok (some found) := by
  cases stored : a.record? c with
  | none =>
    rw [restore, stored] at given
    cases given
  | some r =>
    have again := restore_of_record? encoding stored
    rw [again] at given
    split at given
    · cases given
    · rename_i recent
      split at given
      · rename_i intact
        cases legible : unpack encoding r.payload with
        | error e =>
          rw [legible] at given
          cases given
        | ok payload =>
          rw [legible] at given
          cases given
          refine ⟨UInt32.not_lt.mp recent, ?_⟩
          rw [again, if_neg (UInt32.lt_irrefl _), if_pos intact, legible]
          rfl
      · cases given

/-! ### Loads -/

/-- The node with what the archive has for it. -/
def revive (encoding : Encoding N Bytes) (a : Archive) (n : Node N) : Node N :=
  match a.restore encoding n.coord n.version with
  | .ok (some (version, payload)) => { n with data := payload }.raiseVersion version
  | _ => n

theorem revive_of_restore {n : Node N} {found : UInt32 × N}
    (given : a.restore encoding n.coord n.version = .ok (some found)) :
    revive encoding a n = { n with version := found.1, data := found.2 } := by
  have recent : max n.version found.1 = found.1 := if_pos (restore_adopted given).1
  rw [revive, given]
  simp only [Node.raiseVersion, recent]

theorem revive_of_not {n : Node N}
    (unknown : ∀ found, a.restore encoding n.coord n.version ≠ .ok (some found)) :
    revive encoding a n = n := by
  rw [revive]
  split
  · rename_i given
    exact absurd given (unknown _)
  · rfl

/-- A revived node has nothing more to restore. -/
theorem revive_revive (n : Node N) :
    revive encoding a (revive encoding a n) = revive encoding a n := by
  by_cases known : ∃ found, a.restore encoding n.coord n.version = .ok (some found)
  · obtain ⟨found, given⟩ := known
    have again := (restore_adopted given).2
    rw [revive_of_restore given, revive_of_restore again]
  · have same : revive encoding a n = n := revive_of_not fun found given => known ⟨found, given⟩
    rw [same, same]

section Load

variable (slot : Slot σ Archive) (encoding : Encoding N Bytes) (ctx : BatchContext) (l : Level N L)

/-- A load shown to the load processor revives its node. -/
theorem offer_loadProcessor (c : Coord) (s : σ) :
    (offer nodeAddressing ctx c [loadProcessor slot encoding] l s).2 = s ∧
      ∀ e, (offer nodeAddressing ctx c [loadProcessor slot encoding] l s).1.get? e =
        if c = e then (l.get? e).map (revive encoding (slot.get s)) else l.get? e := by
  cases found : l.get? c with
  | none =>
    have passed : offer nodeAddressing ctx c [loadProcessor slot encoding] l s = (l, s) := by
      simp only [offer, offerTo, nodeAddressing, found, Option.map_none]
    rw [passed]
    refine ⟨rfl, fun e => ?_⟩
    split
    · rename_i here
      rw [← here, found]
      rfl
    · rfl
  | some n =>
    by_cases known : ∃ stored, (slot.get s).restore encoding n.coord n.version = .ok (some stored)
    · obtain ⟨⟨version, payload⟩, given⟩ := known
      have shown : offer nodeAddressing ctx c [loadProcessor slot encoding] l s =
          ((l.editNode c (.setData payload)).editNode c (.raiseVersion version), s) := by
        simp only [offer, offerTo, nodeAddressing, found, Option.map_some, loadProcessor,
          Processor.plain, given, List.foldl_cons, List.foldl_nil]
      rw [shown]
      refine ⟨rfl, fun e => ?_⟩
      rw [Level.get?_editNode, Level.get?_editNode]
      by_cases here : c = e
      · subst here
        rw [if_pos rfl, if_pos rfl, if_pos rfl, found, Option.map_some, Option.map_some,
          Option.map_some, revive, given]
        rfl
      · rw [if_neg here, if_neg here, if_neg here]
    · have shown : offer nodeAddressing ctx c [loadProcessor slot encoding] l s = (l, s) := by
        simp only [offer, offerTo, nodeAddressing, found, Option.map_some, loadProcessor,
          Processor.plain]
        split
        · rename_i given
          exact absurd ⟨_, given⟩ known
        · rfl
      rw [shown]
      refine ⟨rfl, fun e => ?_⟩
      split
      · rename_i here
        rw [← here, found, Option.map_some,
          revive_of_not fun stored given => known ⟨stored, given⟩]
      · rfl

/-- A batch of loads revives its nodes and leaves the archive as it is. -/
theorem runNodeBatch_loadProcessor (cs : List Coord) (s : σ) :
    (runNodeBatch [loadProcessor slot encoding] ctx l cs s).2 = s ∧
      ∀ e, (runNodeBatch [loadProcessor slot encoding] ctx l cs s).1.get? e =
        if e ∈ cs then (l.get? e).map (revive encoding (slot.get s)) else l.get? e := by
  rw [runNodeBatch_plain (fun _ _ => rfl) fun _ _ => rfl]
  induction cs generalizing l with
  | nil => exact ⟨rfl, fun e => (if_neg List.not_mem_nil).symm⟩
  | cons c cs ih =>
    rcases step : offer nodeAddressing ctx c [loadProcessor slot encoding] l s with ⟨m, t⟩
    obtain ⟨state, first⟩ := offer_loadProcessor slot encoding ctx l c s
    rw [step] at state first
    cases state
    obtain ⟨rest, later⟩ := ih m
    simp only [dispatch, step]
    refine ⟨rest, fun e => ?_⟩
    rw [later, first]
    by_cases here : c = e
    · subst here
      cases l.get? c <;> simp [revive_revive]
    · simp [here, Ne.symm here]

end Load

/-! ### Unloads -/

/-- The archive after a store of a node, if there is one. -/
def file (encoding : Encoding N Bytes) (now : SimTime) (a : Archive) : Option (Node N) → Archive
  | none => a
  | some n => (a.store encoding n.coord n.version now n.data).2

/-- A batch of unloads leaves the nodes as they are and files them in turn. -/
theorem runNodeBatch_unloadProcessor {slot : Slot σ Archive} (lawful : slot.Lawful)
    (encoding : Encoding N Bytes) (ctx : BatchContext) (l : Level N L) (cs : List Coord) (s : σ) :
    (runNodeBatch [unloadProcessor slot encoding] ctx l cs s).1 = l ∧
      slot.get (runNodeBatch [unloadProcessor slot encoding] ctx l cs s).2 =
        cs.foldl (fun a c => file encoding ctx.now a (l.get? c)) (slot.get s) := by
  rw [runNodeBatch_plain (fun _ _ => rfl) fun _ _ => rfl]
  induction cs generalizing s with
  | nil => exact ⟨rfl, rfl⟩
  | cons c cs ih =>
    rw [List.foldl_cons]
    cases found : l.get? c with
    | none =>
      have passed : offer nodeAddressing ctx c [unloadProcessor slot encoding] l s = (l, s) := by
        simp only [offer, offerTo, nodeAddressing, found, Option.map_none]
      simp only [dispatch, passed]
      exact ih s
    | some n =>
      have shown : offer nodeAddressing ctx c [unloadProcessor slot encoding] l s =
          (l, slot.set s (file encoding ctx.now (slot.get s) (some n))) := by
        simp only [offer, offerTo, nodeAddressing, found, Option.map_some, unloadProcessor,
          Processor.plain, List.foldl_nil, file]
      have rest := ih (slot.set s (file encoding ctx.now (slot.get s) (some n)))
      rw [lawful] at rest
      simp only [dispatch, shown]
      exact rest

/-- Between two archives, the nodes of some cells have been filed, and no other cell's. -/
structure Filed (encoding : Encoding N Bytes) (view : Coord → Option (Node N)) (cs : List Coord)
    (a b : Archive) : Prop where
  stored : ∀ c ∈ cs, ∃ n, view c = some n ∧ b.restore encoding c 0 = .ok (some n.content)
  rest : ∀ c, c ∉ cs → b.record? c = a.record? c

/-- Nodes that are not behind the archive are filed. -/
theorem filed_foldl (lossless : Lossless encoding)
    {view : Coord → Option (Node N)} (now : SimTime) {cs : List Coord}
    (ready : ∀ c ∈ cs, ∃ n, view c = some n ∧ n.coord = c ∧
      ∀ held, a.version? c = some held → held ≤ n.version) :
    Filed encoding view cs a (cs.foldl (fun a c => file encoding now a (view c)) a) := by
  induction cs generalizing a with
  | nil => exact ⟨nofun, fun _ _ => rfl⟩
  | cons c cs ih =>
    obtain ⟨n, found, place, accepted⟩ := ready c List.mem_cons_self
    subst place
    have rest := ih (a := file encoding now a (view n.coord)) fun d listed => by
      obtain ⟨m, there, place, newer⟩ := ready d (List.mem_cons_of_mem _ listed)
      refine ⟨m, there, place, fun held => ?_⟩
      rw [found, file]
      by_cases same : n.coord = d
      · subst same
        rw [found, Option.some.injEq] at there
        subst there
        rw [version?, record?_store accepted]
        intro own
        cases own
        exact UInt32.le_refl _
      · rw [version?_congr (record?_store_of_ne same)]
        exact newer held
    rw [List.foldl_cons]
    refine ⟨fun d listed => ?_, fun d away => ?_⟩
    · by_cases again : d ∈ cs
      · exact rest.stored d again
      · have here : d = n.coord := (List.mem_cons.mp listed).resolve_right again
        subst here
        refine ⟨n, found, ?_⟩
        rw [restore_congr (rest.rest _ again), found, file]
        exact restore_store accepted (lossless.unpack_pack _)
    · obtain ⟨other, later⟩ := not_or.mp (mt List.mem_cons.mpr away)
      rw [rest.rest d later, found, file]
      exact record?_store_of_ne (Ne.symm other)

end Archive

end OctreeWorld
