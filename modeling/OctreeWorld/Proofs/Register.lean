import OctreeWorld.Archive.Standard
import OctreeWorld.Proofs.Archiving
import OctreeWorld.Proofs.Frames
import Mathlib.Data.List.Induction

/-!
# An archive as a register of the newest payloads

For each cell, an archive holds the highest version that was ever submitted and the last payload
that came with it. That is said of a list of store calls without running it, and two kinds of runs
are held against it: calls that are made in turn, and calls that look at the archive, pack their
payloads while others are at work, and look again as they store.
-/

namespace OctreeWorld

/-- What a store call is given. Each call may have payloads of a type of its own. -/
structure StoreCall where
  coord : Coord
  version : UInt32
  savedAt : SimTime
  Payload : Type
  encoding : Encoding Payload Bytes
  payload : Payload

namespace StoreCall

/-- The calls for a cell that carry a version. -/
def carrying (c : Coord) (version : UInt32) (calls : List StoreCall) : List StoreCall :=
  calls.filter fun call => decide (call.coord = c ∧ call.version = version)

/-- The highest version that was submitted for a cell. -/
structure IsNewest (calls : List StoreCall) (c : Coord) (version : UInt32) : Prop where
  submitted : ∃ call ∈ calls, call.coord = c ∧ call.version = version
  highest : ∀ call ∈ calls, call.coord = c → call.version ≤ version

/-- Calls with the same cell and version come in the same order. -/
def SameOrder (calls others : List StoreCall) : Prop :=
  ∀ c version, carrying c version others = carrying c version calls

variable {calls others : List StoreCall} {call : StoreCall} {c : Coord}
  {version : UInt32}

theorem mem_carrying :
    call ∈ carrying c version calls ↔ call ∈ calls ∧ call.coord = c ∧ call.version = version := by
  rw [carrying, List.mem_filter, decide_eq_true_iff]

theorem carrying_concat_self :
    carrying call.coord call.version (calls ++ [call]) =
      carrying call.coord call.version calls ++ [call] := by
  rw [carrying, List.filter_append, List.filter_cons_of_pos (by simp)]
  rfl

theorem carrying_concat_of_not (other : ¬ (call.coord = c ∧ call.version = version)) :
    carrying c version (calls ++ [call]) = carrying c version calls := by
  rw [carrying, List.filter_append, List.filter_cons_of_neg (by rwa [decide_eq_true_iff])]
  exact List.append_nil _

theorem IsNewest.unique {w : UInt32} (one : IsNewest calls c version) (two : IsNewest calls c w) :
    version = w := by
  obtain ⟨e, among, rfl, rfl⟩ := one.submitted
  obtain ⟨f, present, place, rfl⟩ := two.submitted
  exact UInt32.le_antisymm (two.highest e among rfl) (one.highest f present place)

theorem SameOrder.mem_iff (same : SameOrder calls others) : call ∈ others ↔ call ∈ calls := by
  have carried (l : List StoreCall) :
      call ∈ carrying call.coord call.version l ↔ call ∈ l := by
    rw [mem_carrying, and_iff_left ⟨rfl, rfl⟩]
  rw [← carried others, same, carried]

theorem SameOrder.isNewest (same : SameOrder calls others) (newest : IsNewest calls c version) :
    IsNewest others c version := by
  obtain ⟨e, among, carries⟩ := newest.submitted
  exact ⟨⟨e, same.mem_iff.mpr among, carries⟩,
    fun f present => newest.highest f (same.mem_iff.mp present)⟩

variable [ArchiveFormat]

/-- The record that a call makes. -/
def record (call : StoreCall) : ArchiveRecord :=
  Archive.recordOf call.encoding call.version call.savedAt call.payload

/-! ### What is kept of some calls -/

/-- The record of a cell after some calls: that of the last call with the highest version. -/
inductive Kept (calls : List StoreCall) (c : Coord) :
    Option ArchiveRecord → Prop where
  | nothing (unknown : ∀ call ∈ calls, call.coord ≠ c) : Kept calls c none
  | last {call : StoreCall} (newest : IsNewest calls c call.version)
      (latest : (carrying c call.version calls).getLast? = some call) :
      Kept calls c (some (call.record))

/-- What is kept does not depend on the order of calls with other cells or versions. -/
theorem Kept.unique {r s : Option ArchiveRecord} (same : SameOrder calls others)
    (one : Kept calls c r) (two : Kept others c s) : s = r := by
  cases one with
  | nothing unknown =>
    cases two with
    | nothing => rfl
    | last newest =>
      obtain ⟨e, among, place, -⟩ := newest.submitted
      exact absurd place (unknown e (same.mem_iff.mp among))
  | last newest latest =>
    cases two with
    | nothing unknown =>
      obtain ⟨e, among, place, -⟩ := newest.submitted
      exact absurd place (unknown e (same.mem_iff.mpr among))
    | last newest' latest' =>
      rw [← (same.isNewest newest).unique newest', same, latest, Option.some.injEq] at latest'
      rw [latest']

/-- A call that is as new as all before it is kept. -/
theorem kept_concat
    (highest : ∀ e ∈ calls, e.coord = call.coord → e.version ≤ call.version) :
    Kept (calls ++ [call]) call.coord (some call.record) := by
  refine .last ⟨⟨call, List.mem_concat_self, rfl, rfl⟩, fun e among place => ?_⟩ ?_
  · rcases List.mem_append.mp among with earlier | own
    · exact highest e earlier place
    · rw [List.mem_singleton.mp own]
      exact UInt32.le_refl _
  · rw [carrying_concat_self, List.getLast?_concat]

/-- Where a newer record is kept, one more call changes nothing. -/
theorem Kept.concat_of_newer {r : ArchiveRecord} (kept : Kept calls call.coord (some r))
    (newer : call.version < r.version) : Kept (calls ++ [call]) call.coord (some r) := by
  cases kept with
  | @last held newest latest =>
    change call.version < held.version at newer
    obtain ⟨e, among, carries⟩ := newest.submitted
    refine .last ⟨⟨e, List.mem_append_left _ among, carries⟩, fun f present place => ?_⟩ ?_
    · rcases List.mem_append.mp present with earlier | own
      · exact newest.highest f earlier place
      · rw [List.mem_singleton.mp own]
        exact UInt32.le_of_lt newer
    · rwa [carrying_concat_of_not fun both => UInt32.ne_of_lt newer both.2]

/-- A call for another cell changes nothing. -/
theorem Kept.concat_of_ne {r : Option ArchiveRecord} (kept : Kept calls c r)
    (other : call.coord ≠ c) : Kept (calls ++ [call]) c r := by
  have away {e : StoreCall} (place : e.coord = c) (present : e ∈ calls ++ [call]) :
      e ∈ calls := by
    refine (List.mem_append.mp present).resolve_right fun own => other ?_
    rwa [← List.mem_singleton.mp own]
  cases kept with
  | nothing unknown => exact .nothing fun e present place => unknown e (away place present) place
  | last newest latest =>
    obtain ⟨e, among, carries⟩ := newest.submitted
    refine .last ⟨⟨e, List.mem_append_left _ among, carries⟩, fun f present place => ?_⟩ ?_
    · exact newest.highest f (away place present) place
    · rwa [carrying_concat_of_not fun both => other both.1]

end StoreCall

namespace Archive

open StoreCall

variable [ArchiveFormat] {a : Archive} {calls others before after : List StoreCall}
  {call : StoreCall} {c : Coord}

def submit (a : Archive) (call : StoreCall) : Bool × Archive :=
  a.store call.encoding call.coord call.version call.savedAt call.payload

/-- No higher version is held. -/
def Accepts (a : Archive) (call : StoreCall) : Prop :=
  ∀ held, a.version? call.coord = some held → held ≤ call.version

theorem submit_of_accepts (accepts : a.Accepts call) :
    (a.submit call).1 = true ∧
      (a.submit call).2.record? call.coord = some call.record :=
  ⟨by rw [submit, store_of_accepted accepts], record?_store accepts⟩

theorem submit_of_not_accepts (refuses : ¬ a.Accepts call) : a.submit call = (false, a) := by
  obtain ⟨held, found⟩ := not_forall.mp refuses
  obtain ⟨found, newer⟩ := Classical.not_imp.mp found
  rw [submit, store, if_pos]
  rw [found, Option.any_some]
  exact decide_eq_true (UInt32.not_le.mp newer)

theorem submit_fst_iff : (a.submit call).1 = true ↔ a.Accepts call := by
  by_cases accepts : a.Accepts call
  · exact iff_of_true (submit_of_accepts accepts).1 accepts
  · rw [submit_of_not_accepts accepts]
    exact iff_of_false Bool.false_ne_true accepts

/-- A call is accepted if no higher version was submitted, stored or not. -/
theorem accepts_iff (kept : Kept calls call.coord (a.record? call.coord)) :
    a.Accepts call ↔ ∀ e ∈ calls, e.coord = call.coord → e.version ≤ call.version := by
  rw [Accepts, version?]
  generalize a.record? call.coord = r at kept ⊢
  cases kept with
  | nothing unknown =>
    exact ⟨fun _ e among place => absurd place (unknown e among), fun _ _ found => by cases found⟩
  | @last held newest =>
    obtain ⟨e, among, place, same⟩ := newest.submitted
    constructor
    · intro accepted f present place
      exact UInt32.le_trans (newest.highest f present place) (accepted _ rfl)
    · rintro highest _ ⟨⟩
      exact (congrArg (· ≤ call.version) same).mp (highest e among place)

/-- One more call keeps what is kept of the calls. -/
theorem kept_submit (kept : Kept calls c (a.record? c)) :
    Kept (calls ++ [call]) c ((a.submit call).2.record? c) := by
  by_cases here : call.coord = c
  · subst here
    by_cases accepts : a.Accepts call
    · rw [(submit_of_accepts accepts).2]
      exact kept_concat ((accepts_iff kept).mp accepts)
    · rw [submit_of_not_accepts accepts]
      obtain ⟨held, found⟩ := not_forall.mp accepts
      obtain ⟨found, newer⟩ := Classical.not_imp.mp found
      obtain ⟨r, stored, rfl⟩ := Option.map_eq_some_iff.mp found
      rw [stored] at kept ⊢
      exact kept.concat_of_newer (UInt32.not_le.mp newer)
  · rw [show (a.submit call).2.record? c = a.record? c from record?_store_of_ne here]
    exact kept.concat_of_ne here

/-! ### Calls in turn -/

/-- Make some calls in turn, and note with each whether it was stored. -/
def storeAll :
    List StoreCall → Archive → List (StoreCall × Bool) × Archive
  | [], a => ([], a)
  | call :: rest, a =>
    let (stored, b) := a.submit call
    let (log, final) := storeAll rest b
    ((call, stored) :: log, final)

/-- The answers to some calls on an archive that is empty at first. -/
def answers (calls : List StoreCall) : List (StoreCall × Bool) :=
  (storeAll calls .empty).1

/-- What some calls make of an empty archive. -/
def filled (calls : List StoreCall) : Archive :=
  (storeAll calls .empty).2

theorem storeAll_append :
    storeAll (before ++ after) a =
      ((storeAll before a).1 ++ (storeAll after (storeAll before a).2).1,
        (storeAll after (storeAll before a).2).2) := by
  induction before generalizing a with
  | nil => rfl
  | cons call rest ih => simp only [List.cons_append, storeAll, ih]

theorem answers_append_cons (before : List StoreCall) (call : StoreCall) (after : List StoreCall) :
    ∃ later, answers (before ++ call :: after) =
      answers before ++ (call, ((filled before).submit call).1) :: later :=
  ⟨_, by rw [answers, storeAll_append]; rfl⟩

theorem answers_concat :
    answers (calls ++ [call]) =
      answers calls ++ [(call, ((filled calls).submit call).1)] := by
  rw [answers, storeAll_append]
  rfl

theorem filled_concat :
    filled (calls ++ [call]) = ((filled calls).submit call).2 := by
  rw [filled, storeAll_append]
  rfl

theorem kept_filled (calls : List StoreCall) (c : Coord) :
    Kept calls c ((filled calls).record? c) := by
  induction calls using List.reverseRecOn with
  | nil => exact .nothing nofun
  | append_singleton calls call ih =>
    rw [filled_concat]
    exact kept_submit ih

/-- No version was submitted that is higher than all that were stored. -/
theorem stored_of_submitted {e : StoreCall} (among : e ∈ calls) :
    ∃ w, (w, true) ∈ answers calls ∧ w.coord = e.coord ∧ e.version ≤ w.version := by
  induction calls using List.reverseRecOn generalizing e with
  | nil => cases among
  | append_singleton calls call ih =>
    have earlier {e : StoreCall} (among : e ∈ calls) : ∃ w,
        (w, true) ∈ answers (calls ++ [call]) ∧ w.coord = e.coord ∧
          e.version ≤ w.version := by
      obtain ⟨w, stored, bound⟩ := ih among
      rw [answers_concat]
      exact ⟨w, List.mem_append_left _ stored, bound⟩
    rcases List.mem_append.mp among with early | own
    · exact earlier early
    · cases List.mem_singleton.mp own
      by_cases accepts : (filled calls).Accepts call
      · refine ⟨call, ?_, rfl, UInt32.le_refl _⟩
        rw [answers_concat, (submit_of_accepts accepts).1]
        exact List.mem_concat_self
      · rw [accepts_iff (kept_filled calls call.coord)] at accepts
        simp only [not_forall] at accepts
        obtain ⟨f, present, place, newer⟩ := accepts
        obtain ⟨w, stored, there, bound⟩ := earlier present
        refine ⟨w, stored, there.trans place, UInt32.le_trans ?_ bound⟩
        exact UInt32.le_of_lt (UInt32.not_le.mp newer)

theorem mem_of_mem_answers {e : StoreCall} {stored : Bool}
    (answered : (e, stored) ∈ answers calls) : e ∈ calls := by
  induction calls using List.reverseRecOn with
  | nil => cases answered
  | append_singleton calls call ih =>
    rw [answers_concat] at answered
    rcases List.mem_append.mp answered with early | own
    · exact List.mem_append_left _ (ih early)
    · cases List.mem_singleton.mp own
      exact List.mem_concat_self

theorem filled_congr (same : SameOrder calls others) :
    filled others = filled calls := by
  have records : (filled others).records = (filled calls).records :=
    Std.ExtTreeMap.ext_getElem? fun c =>
      (kept_filled calls c).unique same (kept_filled others c)
  exact congrArg mk records

end Archive

/-! ### Calls at the same time -/

/-- An archive that several threads store to. A call first looks at the archive. Unless it is
refused at once, it packs its payload while other calls go on, and then looks again and stores. -/
structure SharedArchive where
  archive : Archive := .empty
  /-- The calls that pack their payloads. -/
  packing : List StoreCall := []
  /-- The calls that have ended, in the order in which they did, and whether they were stored. -/
  ended : List (StoreCall × Bool) := []

namespace SharedArchive

/-- The states of a shared archive that is empty at first. -/
inductive Reached [ArchiveFormat] : SharedArchive → Prop where
  | start : Reached {}
  | refuse {s : SharedArchive} {call : StoreCall} (run : Reached s)
      (refused : ¬ s.archive.Accepts call) :
      Reached { s with ended := s.ended ++ [(call, false)] }
  | begin {s : SharedArchive} {call : StoreCall} (run : Reached s)
      (accepted : s.archive.Accepts call) : Reached { s with packing := call :: s.packing }
  | finish {s : SharedArchive} {before after : List StoreCall} {call : StoreCall}
      (run : Reached s) (packed : s.packing = before ++ call :: after) :
      Reached
        { archive := (s.archive.submit call).2
          packing := before ++ after
          ended := s.ended ++ [(call, (s.archive.submit call).1)] }

/-- Calls at the same time do what they do in turn, in the order in which they end. -/
theorem Reached.in_turn [ArchiveFormat] {s : SharedArchive} (run : Reached s) :
    s.ended = Archive.answers (s.ended.map (·.1)) ∧
      s.archive = Archive.filled (s.ended.map (·.1)) := by
  induction run with
  | start => exact ⟨rfl, rfl⟩
  | refuse _ refused ih =>
    rw [List.map_append, List.map_singleton, Archive.answers_concat, Archive.filled_concat, ← ih.1,
      ← ih.2, Archive.submit_of_not_accepts refused]
    exact ⟨rfl, rfl⟩
  | begin _ _ ih => exact ih
  | finish _ _ ih =>
    rw [List.map_append, List.map_singleton, Archive.answers_concat, Archive.filled_concat, ← ih.1,
      ← ih.2]
    exact ⟨rfl, rfl⟩

/-- Calls in turn are a way to make calls at the same time. -/
theorem reached_in_turn [ArchiveFormat] (calls : List StoreCall) :
    Reached { archive := Archive.filled calls, ended := Archive.answers calls } := by
  induction calls using List.reverseRecOn with
  | nil => exact .start
  | append_singleton calls call ih =>
    rw [Archive.answers_concat, Archive.filled_concat]
    by_cases accepts : (Archive.filled calls).Accepts call
    · exact (ih.begin accepts).finish (show [call] = [] ++ call :: [] from rfl)
    · rw [Archive.submit_of_not_accepts accepts]
      exact ih.refuse accepts

end SharedArchive

/-! ### The register -/

namespace Archive

open StoreCall

variable [ArchiveFormat] {calls : List StoreCall} {c : Coord} {version : UInt32}

theorem version?_filled_iff :
    (filled calls).version? c = some version ↔ IsNewest calls c version := by
  rw [version?]
  have kept := kept_filled calls c
  generalize (filled calls).record? c = r at kept ⊢
  cases kept with
  | nothing unknown =>
    refine iff_of_false (fun found => by cases found) fun newest => ?_
    obtain ⟨e, among, place, -⟩ := newest.submitted
    exact unknown e among place
  | last held =>
    constructor
    · rintro ⟨⟩
      exact held
    · intro newest
      rw [held.unique newest |>.symm]
      rfl

theorem version?_filled_eq_none_iff :
    (filled calls).version? c = none ↔ ∀ call ∈ calls, call.coord ≠ c := by
  rw [version?]
  have kept := kept_filled calls c
  generalize (filled calls).record? c = r at kept ⊢
  cases kept with
  | nothing unknown => exact iff_of_true rfl unknown
  | last newest =>
    obtain ⟨e, among, place, -⟩ := newest.submitted
    exact iff_of_false (Option.some_ne_none _) fun unknown => unknown e among place

theorem restore_filled_of_newest
    (compression : ArchiveFormat.compression.Lossless)
    (payloads : ∀ call ∈ calls, call.encoding.Keeps call.payload)
    (newest : IsNewest calls c version) :
    ∃ call, (carrying c version calls).getLast? = some call ∧
      ∀ least, (filled calls).restore call.encoding c least =
        .ok (if least ≤ version then some (version, call.payload) else none) := by
  have kept := kept_filled calls c
  have known := version?_filled_iff.mpr newest
  cases stored : (filled calls).record? c with
  | none =>
    rw [version?, stored] at known
    cases known
  | some r =>
    rw [stored] at kept
    cases kept with
    | @last call held latest =>
      obtain rfl := held.unique newest
      refine ⟨call, latest, fun least => ?_⟩
      rw [restore_of_record? call.encoding stored]
      simp only [record, recordOf, if_true]
      by_cases recent : least ≤ call.version
      · have among := (mem_carrying.mp (List.mem_of_getLast? latest)).1
        rw [if_neg (UInt32.not_lt.mpr recent), if_pos recent,
          unpack_pack compression (payloads call among)]
        rfl
      · rw [if_pos (UInt32.not_le.mp recent), if_neg recent]

theorem restore_filled_of_not {α : Type} (encoding : Encoding α Bytes) {least : UInt32}
    (older : ∀ version, IsNewest calls c version → version < least) :
    (filled calls).restore encoding c least = .ok none := by
  cases stored : (filled calls).record? c with
  | none => rw [restore, stored]
  | some r =>
    have newest : IsNewest calls c r.version :=
      version?_filled_iff.mp (by rw [version?, stored, Option.map_some])
    rw [restore_of_record? encoding stored, if_pos (older _ newest)]

end Archive

open Archive StoreCall in
/-- An archive is a register of the last among the newest payloads. A call is answered that it was
stored just if no earlier version of its cell is higher, of those submitted or of those stored. The
version of a cell is the highest submitted; given out is the payload of the last call with that
version, to those who ask for no higher one. Calls in another order that is the same among those
with equal cell and version, and such calls made at the same time, lead to the same archive. -/
theorem Archive.newest_last_writer [ArchiveFormat] (calls : List StoreCall)
    (compression : ArchiveFormat.compression.Lossless)
    (payloads : ∀ call ∈ calls, call.encoding.Keeps call.payload) :
    (∀ before call after, calls = before ++ call :: after → ∃ stored later,
      answers calls = answers before ++ (call, stored) :: later ∧
      (stored = true ↔
        ∀ e ∈ before, e.coord = call.coord → e.version ≤ call.version) ∧
      (stored = true ↔
        ∀ e, (e, true) ∈ answers before → e.coord = call.coord → e.version ≤ call.version)) ∧
    (∀ c version, (filled calls).version? c = some version ↔ IsNewest calls c version) ∧
    (∀ c, (filled calls).version? c = none ↔ ∀ call ∈ calls, call.coord ≠ c) ∧
    (∀ c version, IsNewest calls c version → ∃ call,
      (carrying c version calls).getLast? = some call ∧
      ∀ least, (filled calls).restore call.encoding c least =
        .ok (if least ≤ version then some (version, call.payload) else none)) ∧
    (∀ (α : Type) (encoding : Encoding α Bytes) c least,
      (∀ version, IsNewest calls c version → version < least) →
        (filled calls).restore encoding c least = .ok none) ∧
    (∀ others, SameOrder calls others → filled others = filled calls) ∧
    SharedArchive.Reached { archive := filled calls, ended := answers calls } ∧
    (∀ s, SharedArchive.Reached s →
      s.ended = answers (s.ended.map (·.1)) ∧
      s.archive = filled (s.ended.map (·.1)) ∧
      (SameOrder calls (s.ended.map (·.1)) → s.archive = filled calls)) := by
  refine ⟨fun before call after split => ?_, fun c version => version?_filled_iff,
    fun c => version?_filled_eq_none_iff,
    fun c version => restore_filled_of_newest compression payloads,
    fun α encoding c least => restore_filled_of_not encoding, fun others => filled_congr,
    SharedArchive.reached_in_turn calls, fun s run => ?_⟩
  · subst split
    obtain ⟨later, answered⟩ := answers_append_cons before call after
    have submitted := submit_fst_iff.trans (accepts_iff (kept_filled before call.coord))
    refine ⟨_, later, answered, submitted, submitted.trans ⟨fun highest e stored => ?_,
      fun highest e among place => ?_⟩⟩
    · exact highest e (mem_of_mem_answers stored)
    · obtain ⟨w, stored, there, bound⟩ := stored_of_submitted among
      exact UInt32.le_trans bound (highest w stored (there.trans place))
  · obtain ⟨ended, same⟩ := run.in_turn
    exact ⟨ended, same, fun order => same.trans (filled_congr order)⟩

namespace StoreCall

def mark (version : UInt32) (payload : Bool) : StoreCall :=
  { coord := ⟨⟨0, 0, 0⟩, 0⟩, version, savedAt := ⟨0⟩,
    Payload := Bool, encoding := Codec.bool, payload }

/-- A mark, an older one, and another of the first one's version. -/
def tied : List StoreCall := [mark 5 true, mark 3 true, mark 5 false]

end StoreCall

open Archive StoreCall in
/-- The older mark is refused, and of the two newest the last is given out. -/
theorem Archive.tied_mark_is_replaced :
    (∃ later, answers tied = answers [mark 5 true] ++ (mark 3 true, false) :: later) ∧
      ∀ least, (filled tied).restore Codec.bool ⟨⟨0, 0, 0⟩, 0⟩ least =
        .ok (if least ≤ 5 then some (5, false) else none) := by
  have payloads : ∀ call ∈ tied, call.encoding.Keeps call.payload := by
    simp only [tied, List.forall_mem_cons]
    exact ⟨rfl, rfl, rfl, nofun⟩
  obtain ⟨answered, -, -, given, -⟩ :=
    newest_last_writer tied Zstandard.encoding_lossless payloads
  constructor
  · obtain ⟨stored, later, log, submitted, -⟩ :=
      answered [mark 5 true] (mark 3 true) [mark 5 false] rfl
    have refused : stored = false := by
      refine Bool.eq_false_iff.mpr fun accepted => ?_
      exact absurd (submitted.mp accepted _ List.mem_cons_self rfl) (by decide)
    exact ⟨later, refused ▸ log⟩
  · have newest : IsNewest tied ⟨⟨0, 0, 0⟩, 0⟩ 5 := by
      refine ⟨⟨mark 5 true, List.mem_cons_self, rfl, rfl⟩, ?_⟩
      simp only [tied, List.forall_mem_cons]
      exact ⟨fun _ => by decide, fun _ => by decide, fun _ => by decide, nofun⟩
    obtain ⟨call, latest, recent⟩ := given _ 5 newest
    obtain rfl : mark 5 false = call := Option.some.inj latest
    exact recent

end OctreeWorld
