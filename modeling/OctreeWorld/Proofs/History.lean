import Mathlib.Data.List.TakeWhile
import OctreeWorld.Processor

/-!
# Histories

A run of a world leaves a history: which processors of nodes were registered and on which cells
each of them ran, and which cells were created, stopped loading, were retired and removed. A node is
retired when it starts to be deleted, or when it is removed without that.
-/

namespace OctreeWorld

/-- How a node stops loading: its load is carried out, or a command to unload it comes first. -/
inductive Exit where
  | loaded
  | withdrawn
deriving DecidableEq

/-- Something that happens to the cells or to the processors of a world. Processors of one kind are
numbered in the order of their registration. -/
inductive Event where
  | registered (kind : CommandKind) (i : Nat)
  | ran (kind : CommandKind) (i : Nat) (c : Coord)
  | created (c : Coord)
  | left (exit : Exit) (c : Coord)
  | retired (c : Coord)
  | removed (c : Coord)
deriving DecidableEq

/-- Events, the latest first. -/
abbrev History := List Event

namespace History

/-- What has happened since a cell was last created. -/
def since (c : Coord) (hist : History) : History := hist.takeWhile (· ≠ .created c)

/-- How often a processor has run on a cell since the cell was last created. -/
def runs (hist : History) (kind : CommandKind) (i : Nat) (c : Coord) : Nat :=
  (hist.since c).count (.ran kind i c)

/-- Since the cell was created the mark has not been set, and no processor of the kind has run. -/
def Untouched (hist : History) (kind : CommandKind) (mark : Event) (c : Coord) : Prop :=
  mark ∉ hist.since c ∧ ∀ i, hist.runs kind i c = 0

/-- The mark has been set since the cell was created, and of the processors of the kind exactly
those that were registered by then have run on the cell, each once. -/
def Passed (hist : History) (kind : CommandKind) (mark : Event) (c : Coord) : Prop :=
  mark ∈ hist.since c ∧ ∀ i, hist.runs kind i c =
    if .registered kind i ∈ hist.dropWhile (· ≠ mark) then 1 else 0

/-- The node at a cell is in service: it has not been retired, and no unload processor has run
on it. -/
def Serving (hist : History) (c : Coord) : Prop := hist.Untouched .unload (.retired c) c

/-- The node at a cell is retired, and the unload processors have run on it. -/
def Unloaded (hist : History) (c : Coord) : Prop := hist.Passed .unload (.retired c) c

/-- The node at a cell has not been loaded, and no load processor has run on it. -/
def Waiting (hist : History) (c : Coord) : Prop := hist.Untouched .load (.left .loaded c) c

/-- The node at a cell has been loaded, and the load processors have run on it. -/
def Loaded (hist : History) (c : Coord) : Prop := hist.Passed .load (.left .loaded c) c

/-- The node at a cell has stopped loading without having been loaded. -/
def Withdrawn (hist : History) (c : Coord) : Prop :=
  .left .withdrawn c ∈ hist.since c ∧ hist.Waiting c

end History

/-! ### Cells in a growing history -/

namespace History

variable {hist new : History} {c : Coord}

theorem since_append (same : .created c ∉ new) : (new ++ hist).since c = new ++ hist.since c := by
  refine List.takeWhile_append_of_pos fun e listed => ?_
  simp only [ne_eq, decide_not, Bool.not_eq_true', decide_eq_false_iff_not]
  rintro rfl
  exact same listed

theorem runs_append (same : .created c ∉ new) (kind : CommandKind) (i : Nat) :
    (new ++ hist).runs kind i c = new.count (.ran kind i c) + hist.runs kind i c := by
  rw [runs, since_append same, List.count_append, runs]

/-- Before a creation that stands in the later part, nothing counts. -/
theorem since_append_of_mem (made : .created c ∈ new) : (new ++ hist).since c = new.since c := by
  rw [since, List.takeWhile_append, if_neg, since]
  intro all
  have passed := List.takeWhile_eq_self_iff.mp ((List.takeWhile_sublist _).eq_of_length all) _ made
  exact of_decide_eq_true passed rfl

section Marks

variable {kind : CommandKind} {mark : Event}

/-- Up to a mark that is set in the later part, a history holds all of the earlier one. -/
theorem registered_of_mark (marked : mark ∈ new) (none_ : ∀ i, .registered kind i ∉ new) (i : Nat) :
    .registered kind i ∈ (new ++ hist).dropWhile (· ≠ mark) ↔ .registered kind i ∈ hist := by
  have stops : (new.dropWhile (· ≠ mark)).isEmpty = false := by
    rw [List.isEmpty_eq_false_iff]
    intro nil
    rw [List.dropWhile_eq_nil_iff] at nil
    exact of_decide_eq_true (nil _ marked) rfl
  rw [List.dropWhile_append, if_neg (by rw [stops]; exact nofun), List.mem_append, or_iff_right]
  exact fun listed => none_ i ((List.dropWhile_sublist _).subset listed)

theorem dropWhile_append_of_not_mem (absent : mark ∉ new) :
    (new ++ hist).dropWhile (· ≠ mark) = hist.dropWhile (· ≠ mark) := by
  refine List.dropWhile_append_of_pos fun e listed => ?_
  simp only [ne_eq, decide_not, Bool.not_eq_true', decide_eq_false_iff_not]
  rintro rfl
  exact absent listed

/-- The later part neither creates the cell nor sets the mark, and no processor of the kind runs. -/
structure Silent (new : History) (kind : CommandKind) (mark : Event) (c : Coord) : Prop where
  created : .created c ∉ new
  mark : mark ∉ new
  runs : ∀ i, new.count (.ran kind i c) = 0

theorem Untouched.append (untouched : hist.Untouched kind mark c)
    (silent : new.Silent kind mark c) : (new ++ hist).Untouched kind mark c := by
  refine ⟨?_, fun i => ?_⟩
  · rw [since_append silent.created, List.mem_append, not_or]
    exact ⟨silent.mark, untouched.1⟩
  · rw [runs_append silent.created, silent.runs, untouched.2]

theorem Passed.append (passed : hist.Passed kind mark c) (silent : new.Silent kind mark c) :
    (new ++ hist).Passed kind mark c := by
  refine ⟨?_, fun i => ?_⟩
  · rw [since_append silent.created]
    exact List.mem_append_right _ passed.1
  · rw [runs_append silent.created, silent.runs, Nat.zero_add, passed.2 i,
      dropWhile_append_of_not_mem silent.mark]

/-- The mark is set on an untouched cell, and each processor runs once. -/
theorem Untouched.pass (untouched : hist.Untouched kind mark c) (created : .created c ∉ new)
    (marked : mark ∈ new) (none_ : ∀ i, .registered kind i ∉ new)
    (runs : ∀ i, new.count (.ran kind i c) = if .registered kind i ∈ hist then 1 else 0) :
    (new ++ hist).Passed kind mark c := by
  refine ⟨?_, fun i => ?_⟩
  · rw [since_append created]
    exact List.mem_append_left _ marked
  · rw [runs_append created, untouched.2, Nat.add_zero, runs]
    exact if_congr (registered_of_mark marked none_ i).symm rfl rfl

end Marks

/-- What the history says of the node at a cell that is in service or is not. -/
def Tells (hist : History) (c : Coord) (serves : Bool) : Prop :=
  if serves then hist.Serving c else hist.Unloaded c

/-- What the history says of the load of a node that is loading or is not. -/
def TellsLoad (hist : History) (c : Coord) (waits : Bool) : Prop :=
  if waits then hist.Waiting c else hist.Loaded c ∨ hist.Withdrawn c

theorem Tells.append {serves : Bool} (tells : hist.Tells c serves)
    (silent : new.Silent .unload (.retired c) c) : (new ++ hist).Tells c serves := by
  cases serves with
  | false => exact Passed.append tells silent
  | true => exact Untouched.append tells silent

theorem TellsLoad.append {waits : Bool} (tells : hist.TellsLoad c waits)
    (silent : new.Silent .load (.left .loaded c) c) : (new ++ hist).TellsLoad c waits := by
  cases waits with
  | true => exact Untouched.append tells silent
  | false =>
    rcases tells with loaded | ⟨withdrawn, waiting⟩
    · exact Or.inl (Passed.append loaded silent)
    · refine Or.inr ⟨?_, Untouched.append waiting silent⟩
      rw [since_append silent.created]
      exact List.mem_append_right _ withdrawn

theorem count_map_ran {kind : CommandKind} {i : Nat} {event : Coord → Event}
    (other : ∀ x, event x ≠ .ran kind i c) {cs : List Coord} :
    (cs.map event).count (.ran kind i c) = 0 := by
  refine List.count_eq_zero.mpr fun listed => ?_
  obtain ⟨x, -, same⟩ := List.mem_map.mp listed
  exact other x same

theorem silent_removed {mark : Event} (other : ∀ x, .removed x ≠ mark) (kind : CommandKind)
    (cs : List Coord) (c : Coord) : Silent (cs.map .removed) kind mark c := by
  refine ⟨by simp, fun listed => ?_, fun i => count_map_ran fun _ => Event.noConfusion⟩
  obtain ⟨x, -, same⟩ := List.mem_map.mp listed
  exact other x same

theorem silent_registered {mark : Event} (other : ∀ k i, .registered k i ≠ mark)
    (kind k : CommandKind) (i : Nat) (c : Coord) : Silent [.registered k i] kind mark c :=
  ⟨by simp, by simpa using (other k i).symm, fun j => by simp⟩

/-- A removal that a later part does not speak of lies before it. -/
theorem removal_of_append {new earlier : History} (none_ : .removed c ∉ new)
    (removal : .removed c :: earlier <:+ new ++ hist) : .removed c :: earlier <:+ hist := by
  induction new with
  | nil => exact removal
  | cons e new ih =>
    rcases List.suffix_cons_iff.mp removal with same | removal
    · exact absurd (List.cons.inj same).1 fun same => none_ (same ▸ List.mem_cons_self)
    · exact ih (fun listed => none_ (List.mem_cons_of_mem e listed)) removal

/-- A removal is one of those that the later part consists of, or lies before it. -/
theorem removal_of_removed {cs : List Coord} {earlier : History}
    (removal : .removed c :: earlier <:+ cs.map .removed ++ hist) :
    (c ∈ cs ∧ ∃ ds : List Coord, earlier = ds.map .removed ++ hist) ∨
      .removed c :: earlier <:+ hist := by
  induction cs with
  | nil => exact Or.inr removal
  | cons d cs ih =>
    rcases List.suffix_cons_iff.mp removal with same | removal
    · obtain ⟨same, rfl⟩ := List.cons.inj same
      cases same
      exact Or.inl ⟨List.mem_cons_self, cs, rfl⟩
    · exact (ih removal).imp_left fun ⟨listed, rest⟩ => ⟨List.mem_cons_of_mem d listed, rest⟩

end History

end OctreeWorld
