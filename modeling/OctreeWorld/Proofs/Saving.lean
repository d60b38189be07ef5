import OctreeWorld.Proofs.Archiving
import OctreeWorld.Proofs.Folders
import OctreeWorld.Proofs.Frames
import OctreeWorld.Proofs.Manifest
import Std.Data.HashMap

/-!
# Saved archives open to what they were

An archive is saved as the list of its records, in the order of their cells, and opened by filing
them again. It is held against a table of records in no particular order, each of which names its
own cell beside the key it is filed under: whatever is stored into the table and removed from it,
keys and names agree, and the table is saved as the archive is.
-/

namespace OctreeWorld

namespace Archive

variable {a b : Archive} {folder : ArchiveFolder}

/-! ### Entries -/

theorem mem_entries {c : Coord} {r : ArchiveRecord} :
    (c, r) ∈ a.entries ↔ a.record? c = some r :=
  Std.ExtTreeMap.mem_toList_iff_getElem?_eq_some

theorem entries_pairwise (a : Archive) :
    a.entries.Pairwise fun e f => compare e.1 f.1 = .lt :=
  Std.ExtTreeMap.ordered_keys_toList

theorem ext_record? (same : ∀ c, b.record? c = a.record? c) : b = a :=
  congrArg mk (Std.ExtTreeMap.ext_getElem? same)

/-- Filing the records of an archive again makes the archive again. -/
theorem ofEntries_entries (a : Archive) : ofEntries a.entries = a := by
  refine ext_record? fun c => ?_
  have distinct : a.entries.Pairwise fun e f => ¬ compare e.1 f.1 = .eq :=
    Std.ExtTreeMap.distinct_keys_toList
  cases found : a.record? c with
  | some r =>
    exact Std.ExtTreeMap.getElem?_insertMany_list_of_mem Std.ReflCmp.compare_self distinct
      (mem_entries.mpr found)
  | none =>
    have absent : (a.entries.map (·.1)).contains c = false := by
      refine Bool.eq_false_iff.mpr fun among => ?_
      obtain ⟨e, listed, rfl⟩ := List.mem_map.mp (List.contains_iff_mem.mp among)
      rw [mem_entries.mp listed] at found
      cases found
    exact Std.ExtTreeMap.getElem?_insertMany_list_of_contains_eq_false absent

/-! ### Opening -/

variable [ArchiveFormat]

/-- The records in the files of an archive, if these are as the manifest says. -/
def entriesOf (folder : ArchiveFolder) : Except ArchiveError (List (Coord × ArchiveRecord)) :=
  match folder.manifest with
  | none => .error .unreadable
  | some text =>
    match ArchiveFormat.manifest.read? text with
    | none => .error .badManifest
    | some manifest =>
      if manifest.schemaVersion ≠ ArchiveError.schemaVersion then
        .error (.schemaMismatch manifest.schemaVersion)
      else
        match folder.nodes with
        | none => .error .unreadable
        | some nodes => do
          verify ArchiveFolder.nodesName manifest.digest nodes
          unpack ArchiveFormat.records nodes

/-- An archive is opened by filing the records in its files. -/
theorem load_eq (folder : ArchiveFolder) : load folder = (entriesOf folder).map ofEntries := by
  rw [load, entriesOf]
  cases folder.manifest with
  | none => rfl
  | some text =>
    dsimp only
    cases ArchiveFormat.manifest.read? text with
    | none => rfl
    | some m =>
      dsimp only
      split
      · rfl
      · cases folder.nodes with
        | none => rfl
        | some nodes =>
          dsimp only
          cases verify ArchiveFolder.nodesName m.digest nodes with
          | error => rfl
          | ok =>
            cases unpack ArchiveFormat.records nodes <;> rfl

theorem verify_eq_ok_iff {what expected : String} {bs : Bytes} :
    verify what expected bs = .ok () ↔ ArchiveFormat.digest bs = expected := by
  rw [verify]
  split
  · rename_i same
    exact iff_of_true rfl same
  · rename_i other
    exact iff_of_false (fun wrong => by cases wrong) other

/-- The files of an archive hold some records just if they hold a manifest of the current layout
with the digest of the file of records, and that file holds these. -/
theorem entriesOf_eq_ok_iff {entries : List (Coord × ArchiveRecord)} :
    entriesOf folder = .ok entries ↔ ∃ text m nodes,
      folder.manifest = some text ∧ ArchiveFormat.manifest.read? text = some m ∧
      m.schemaVersion = ArchiveError.schemaVersion ∧ folder.nodes = some nodes ∧
      ArchiveFormat.digest nodes = m.digest ∧
      unpack ArchiveFormat.records nodes = .ok entries := by
  constructor
  · intro read
    rw [entriesOf] at read
    cases written : folder.manifest with
    | none => simp [written] at read
    | some text =>
      simp only [written] at read
      cases legible : ArchiveFormat.manifest.read? text with
      | none => simp [legible] at read
      | some m =>
        simp only [legible] at read
        split at read
        · cases read
        · rename_i current
          cases kept : folder.nodes with
          | none => simp [kept] at read
          | some nodes =>
            simp only [kept] at read
            cases intact : verify ArchiveFolder.nodesName m.digest nodes with
            | error => simp [intact, bind, Except.bind] at read
            | ok =>
              rw [intact] at read
              exact ⟨text, m, nodes, rfl, legible, not_not.mp current, rfl,
                verify_eq_ok_iff.mp intact, read⟩
  · rintro ⟨text, m, nodes, written, legible, current, kept, intact, read⟩
    have verified : verify ArchiveFolder.nodesName m.digest nodes = .ok () :=
      verify_eq_ok_iff.mpr intact
    simp only [entriesOf, written, legible, if_neg (not_not.mpr current), kept, verified]
    exact read

theorem load_eq_ok_iff :
    load folder = .ok b ↔ ∃ entries, entriesOf folder = .ok entries ∧ ofEntries entries = b := by
  rw [load_eq]
  cases entriesOf folder <;> simp [Except.map]

/-- The files of an archive with some records can be read: neither the compression nor manifests
lose anything, and the list of these records is read as it was written. -/
structure Legible (entries : List (Coord × ArchiveRecord)) : Prop where
  compression : ArchiveFormat.compression.Lossless
  manifest : ArchiveFormat.manifest.Lossless
  records : ArchiveFormat.records.Keeps entries

theorem entriesOf_save (legible : Legible a.entries) : entriesOf a.save.2 = .ok a.entries :=
  entriesOf_eq_ok_iff.mpr ⟨_, _, _, rfl, legible.manifest _, rfl, rfl, rfl,
    unpack_pack legible.compression legible.records⟩

end Archive

/-! ### Tables -/

/-- A record that names its cell. -/
structure LabelledRecord where
  coord : Coord
  record : ArchiveRecord

def LabelledRecord.entry (r : LabelledRecord) : Coord × ArchiveRecord := (r.coord, r.record)

/-- Records by cell, in an order of no meaning. -/
abbrev RecordTable [Hashable Coord] := Std.HashMap Coord LabelledRecord

namespace RecordTable

variable {α : Type} [Hashable Coord] {t : RecordTable} {a : Archive}

/-- Store a payload, unless the table has a higher version. Answers whether it was stored. -/
def store [ArchiveFormat] (t : RecordTable) (encoding : Encoding α Bytes) (c : Coord)
    (version : UInt32) (savedAt : SimTime) (payload : α) : Bool × RecordTable :=
  if (t[c]?.map (·.record.version)).any fun held => version < held then (false, t)
  else (true, t.insert c ⟨c, Archive.recordOf encoding version savedAt payload⟩)

/-- A table and an archive have the same records, and each record names the cell it is filed
under. -/
def Holds (t : RecordTable) (a : Archive) : Prop :=
  ∀ c, t[c]? = (a.record? c).map (LabelledRecord.mk c)

theorem holds_empty : Holds ∅ Archive.empty := by
  intro c
  rw [Std.HashMap.getElem?_empty]
  rfl

theorem Holds.store [ArchiveFormat] (holds : t.Holds a) (encoding : Encoding α Bytes) (c : Coord)
    (version : UInt32) (savedAt : SimTime) (payload : α) :
    (t.store encoding c version savedAt payload).1 =
        (a.store encoding c version savedAt payload).1 ∧
      (t.store encoding c version savedAt payload).2.Holds
        (a.store encoding c version savedAt payload).2 := by
  have held : t[c]?.map (·.record.version) = a.version? c := by
    rw [holds, Archive.version?, Option.map_map]
    rfl
  rw [RecordTable.store, Archive.store, held]
  split
  · exact ⟨rfl, holds⟩
  · refine ⟨rfl, fun d => ?_⟩
    simp only [Archive.record?, Std.HashMap.getElem?_insert, Std.ExtTreeMap.getElem?_insert]
    by_cases here : c = d
    · subst here
      simp [Archive.recordOf]
    · have apart : compare c d ≠ .eq := fun same => here (Std.LawfulEqCmp.eq_of_compare same)
      have other : ¬ (c == d) = true := by rwa [beq_iff_eq]
      rw [if_neg other, if_neg apart]
      exact holds d

theorem Holds.erase (holds : t.Holds a) (c : Coord) : Holds (t.erase c) (a.remove c) := by
  intro d
  simp only [Archive.remove, Archive.record?, Std.HashMap.getElem?_erase,
    Std.ExtTreeMap.getElem?_erase]
  by_cases here : c = d
  · subst here
    simp
  · have apart : compare c d ≠ .eq := fun same => here (Std.LawfulEqCmp.eq_of_compare same)
    have other : ¬ (c == d) = true := by rwa [beq_iff_eq]
    rw [if_neg other, if_neg apart]
    exact holds d

/-- The records of a table are those of the archive, in some order. -/
theorem Holds.perm (holds : t.Holds a) :
    (t.toList.map fun e => e.2.entry).Perm a.entries := by
  have labelled {e : Coord × LabelledRecord} (listed : e ∈ t.toList) :
      a.record? e.1 = some e.2.record ∧ e.2.coord = e.1 := by
    have found : t[e.1]? = some e.2 := Std.HashMap.mem_toList_iff_getElem?_eq_some.mp listed
    rw [holds] at found
    obtain ⟨r, kept, same⟩ := Option.map_eq_some_iff.mp found
    rw [← same]
    exact ⟨kept, rfl⟩
  refine (List.perm_ext_iff_of_nodup ?_ ?_).mpr fun e => ?_
  · refine List.pairwise_map.mpr (Std.HashMap.distinct_keys_toList.imp_of_mem ?_)
    intro e f here there apart same
    have cells : e.2.coord = f.2.coord := congrArg Prod.fst same
    rw [(labelled here).2, (labelled there).2] at cells
    rw [cells, beq_self_eq_true] at apart
    cases apart
  · refine a.entries_pairwise.imp fun {e f} before same => ?_
    rw [same] at before
    cases Std.ReflCmp.compare_self.symm.trans before
  · rw [List.mem_map]
    constructor
    · rintro ⟨e, listed, rfl⟩
      obtain ⟨kept, same⟩ := labelled listed
      exact Archive.mem_entries.mpr (same ▸ kept)
    · intro listed
      have kept := Archive.mem_entries.mp listed
      refine ⟨(e.1, ⟨e.1, e.2⟩), Std.HashMap.mem_toList_iff_getElem?_eq_some.mpr ?_, rfl⟩
      rw [holds, kept]
      rfl

/-- Whatever order the records of a table are listed in, sorting them by cell gives the records of
the archive in order. -/
theorem Holds.sorted (holds : t.Holds a) {listing : List LabelledRecord}
    (all : listing.Perm (t.toList.map (·.2)))
    (ordered : listing.Pairwise fun r s => (compare r.coord s.coord).isLE) :
    listing.map LabelledRecord.entry = a.entries := by
  have records : (listing.map LabelledRecord.entry).Perm a.entries := by
    refine (all.map LabelledRecord.entry).trans ?_
    rw [List.map_map]
    exact holds.perm
  refine records.eq_of_pairwise (fun e f here there before after => ?_)
    (List.pairwise_map.mpr ordered)
    (a.entries_pairwise.imp fun {e f} before => Ordering.isLE_of_eq_lt before)
  have cells : e.1 = f.1 :=
    Std.LawfulEqCmp.eq_of_compare (Std.OrientedCmp.isLE_antisymm before after)
  have kept := Archive.mem_entries.mp (records.mem_iff.mp here)
  rw [cells, Archive.mem_entries.mp there, Option.some.injEq] at kept
  exact Prod.ext cells kept.symm

/-- The table that some records are filed in. -/
def ofEntries (entries : List (Coord × ArchiveRecord)) : RecordTable :=
  Std.HashMap.ofList (entries.map fun e => (e.1, ⟨e.1, e.2⟩))

theorem holds_ofEntries (a : Archive) : Holds (ofEntries a.entries) a := by
  intro c
  cases found : a.record? c with
  | some r =>
    have distinct : (a.entries.map fun e => (e.1, LabelledRecord.mk e.1 e.2)).Pairwise
        fun e f => (e.1 == f.1) = false := by
      refine List.pairwise_map.mpr (a.entries_pairwise.imp fun {e f} before => ?_)
      refine beq_false_of_ne fun same => ?_
      rw [same] at before
      cases Std.ReflCmp.compare_self.symm.trans before
    exact Std.HashMap.getElem?_ofList_of_mem (beq_self_eq_true c) distinct
      (List.mem_map.mpr ⟨(c, r), Archive.mem_entries.mpr found, rfl⟩)
  | none =>
    refine Std.HashMap.getElem?_ofList_of_contains_eq_false (Bool.eq_false_iff.mpr fun among => ?_)
    rw [List.map_map] at among
    obtain ⟨e, listed, rfl⟩ := List.mem_map.mp (List.contains_iff_mem.mp among)
    cases found.symm.trans (Archive.mem_entries.mp listed)

variable [ArchiveFormat]

/-- A table is saved as the list of its records, sorted by their cells. -/
def Saves (t : RecordTable) (files : ArchiveManifest × ArchiveFolder) : Prop :=
  ∃ listing : List LabelledRecord, listing.Perm (t.toList.map (·.2)) ∧
    listing.Pairwise (fun r s => (compare r.coord s.coord).isLE) ∧
    Archive.folderOf (listing.map LabelledRecord.entry) = files

/-- A table is saved as the archive is, and in no other way. -/
theorem Holds.saves_iff (holds : t.Holds a) {files : ArchiveManifest × ArchiveFolder} :
    t.Saves files ↔ files = a.save := by
  constructor
  · rintro ⟨listing, all, ordered, rfl⟩
    rw [Archive.save, holds.sorted all ordered]
  · rintro rfl
    have labels (l : List LabelledRecord) :
        (l.map LabelledRecord.entry).map (fun e => LabelledRecord.mk e.1 e.2) = l := by
      rw [List.map_map]
      exact List.map_id l
    refine ⟨a.entries.map fun e => ⟨e.1, e.2⟩, ?_, List.pairwise_map.mpr ?_, ?_⟩
    · have entries : (t.toList.map (·.2)).map LabelledRecord.entry =
          t.toList.map fun e => e.2.entry := List.map_map
      have listed := holds.perm.symm.map fun e => LabelledRecord.mk e.1 e.2
      rwa [← entries, labels] at listed
    · exact a.entries_pairwise.imp fun {e f} before => Ordering.isLE_of_eq_lt before
    · rw [List.map_map]
      exact congrArg Archive.folderOf (List.map_id a.entries)

/-- Open a table from the files of an archive. -/
def load (folder : ArchiveFolder) : Except ArchiveError RecordTable :=
  (Archive.entriesOf folder).map ofEntries

/-- A table and an archive after the same stores and removals. -/
inductive Filing : RecordTable → Archive → Prop where
  | empty : Filing ∅ Archive.empty
  | store {t : RecordTable} {a : Archive} (filing : Filing t a) {α : Type}
      (encoding : Encoding α Bytes) (c : Coord) (version : UInt32) (savedAt : SimTime)
      (payload : α) :
      Filing (t.store encoding c version savedAt payload).2
        (a.store encoding c version savedAt payload).2
  | remove {t : RecordTable} {a : Archive} (filing : Filing t a) (c : Coord) :
      Filing (t.erase c) (a.remove c)

theorem Filing.holds (filing : Filing t a) : t.Holds a := by
  induction filing with
  | empty => exact holds_empty
  | store _ encoding c version savedAt payload ih =>
    exact (ih.store encoding c version savedAt payload).2
  | remove _ c ih => exact ih.erase c

theorem load_save (legible : Archive.Legible a.entries) (holds : t.Holds a) :
    ∃ u, load a.save.2 = .ok u ∧ ∀ c : Coord, u[c]? = t[c]? := by
  refine ⟨ofEntries a.entries, ?_, fun c => ?_⟩
  · rw [load, Archive.entriesOf_save legible]
    rfl
  · rw [holds_ofEntries a c, holds c]

end RecordTable

open RecordTable in
/-- A table of records and an archive that have seen the same stores and removals have the same
records, each under the cell it names, and they are saved alike: whatever order a table lists its
records in, there is one way to save it. What is saved opens to the same table and archive, as far
as compressed items can be read. Tables with equal records are saved alike, however they came by
them. And files open only if their manifest is of the current layout and has the digest of the
file of records; another layout is what is reported, whatever that file is. -/
theorem Archive.saved_canonically [ArchiveFormat] [Hashable Coord] :
    (∀ (t : RecordTable) (a : Archive), Filing t a →
      t.Holds a ∧ (∀ files, t.Saves files ↔ files = a.save) ∧
      (Legible a.entries →
        Archive.load a.save.2 = .ok a ∧
        (∃ u, RecordTable.load a.save.2 = .ok u ∧ ∀ c : Coord, u[c]? = t[c]?) ∧
        ∀ tree folder after, a.save.2.write? tree folder = some after →
          Archive.load (.ofTree after folder) = .ok a ∧
          ∃ u, RecordTable.load (.ofTree after folder) = .ok u ∧ ∀ c : Coord, u[c]? = t[c]?)) ∧
    (∀ (t u : RecordTable) (a b : Archive), Filing t a → Filing u b → (∀ c : Coord, u[c]? = t[c]?) →
      b.save = a.save ∧ ∀ files, u.Saves files ↔ t.Saves files) ∧
    (∀ folder b, Archive.load folder = .ok b → ∃ text m nodes,
      folder.manifest = some text ∧ ArchiveFormat.manifest.read? text = some m ∧
      m.schemaVersion = ArchiveError.schemaVersion ∧ folder.nodes = some nodes ∧
      ArchiveFormat.digest nodes = m.digest) ∧
    (∀ folder text m, folder.manifest = some text → ArchiveFormat.manifest.read? text = some m →
      m.schemaVersion ≠ ArchiveError.schemaVersion →
        Archive.load folder = .error (.schemaMismatch m.schemaVersion)) ∧
    (∀ folder text m nodes, folder.manifest = some text →
      ArchiveFormat.manifest.read? text = some m → m.schemaVersion = ArchiveError.schemaVersion →
      folder.nodes = some nodes → ArchiveFormat.digest nodes ≠ m.digest →
        Archive.load folder = .error
          (.integrityMismatch ArchiveFolder.nodesName m.digest (ArchiveFormat.digest nodes))) := by
  refine ⟨fun t a filing => ?_, fun t u a b filing other same => ?_, fun folder b opened => ?_,
    fun folder text m written legible other => ?_,
    fun folder text m nodes written legible current kept other => ?_⟩
  · have holds := filing.holds
    refine ⟨holds, fun files => holds.saves_iff, fun legible => ?_⟩
    have opened : Archive.load a.save.2 = .ok a :=
      load_eq_ok_iff.mpr ⟨a.entries, entriesOf_save legible, ofEntries_entries a⟩
    have table := load_save legible holds
    refine ⟨opened, table, fun tree folder after written => ?_⟩
    rw [show ArchiveFolder.ofTree after folder = a.save.2 from
      ArchiveFolder.ofTree_of_write? written]
    exact ⟨opened, table⟩
  · have records : b = a := by
      refine ext_record? fun c => ?_
      have cells := same c
      rw [filing.holds c, other.holds c] at cells
      exact Option.map_injective (fun r s same => (LabelledRecord.mk.inj same).2) cells
    subst records
    exact ⟨rfl, fun files => other.holds.saves_iff.trans filing.holds.saves_iff.symm⟩
  · obtain ⟨entries, read, -⟩ := load_eq_ok_iff.mp opened
    obtain ⟨text, m, nodes, written, legible, current, kept, intact, -⟩ :=
      entriesOf_eq_ok_iff.mp read
    exact ⟨text, m, nodes, written, legible, current, kept, intact⟩
  · simp only [load, written, legible, if_pos other]
  · simp only [load, written, legible, if_neg (not_not.mpr current), kept, verify, if_neg other]
    rfl

namespace Archive

/-- Two marks, after a third one has come and gone. -/
def marks : Archive :=
  let a := (empty.store Codec.bool ⟨⟨0, 0, 0⟩, 1⟩ 1 ⟨0⟩ false).2
  let a := (a.store Codec.bool ⟨⟨1, -2, 3⟩, 0⟩ 2 ⟨9⟩ true).2
  let a := (a.store Codec.bool ⟨⟨0, 0, 0⟩, 0⟩ 4 ⟨9⟩ true).2
  a.remove ⟨⟨0, 0, 0⟩, 0⟩

/-- The marks are in a folder after they have been saved to it, and a later layout of them is
reported as such although there is no file of records. -/
theorem marks_reopen :
    (∃ after, marks.save.2.write? {} ["saves"] = some after ∧
      Archive.load (.ofTree after ["saves"]) = .ok marks) ∧
    Archive.load { manifest := some { marks.save.1 with schemaVersion := 999 }.text } =
      .error (.schemaMismatch 999) := by
  -- In the table, all cells share one bucket.
  let : Hashable Coord := ⟨fun _ => 0⟩
  have filing := RecordTable.Filing.empty
    |>.store Codec.bool ⟨⟨0, 0, 0⟩, 1⟩ 1 ⟨0⟩ false
    |>.store Codec.bool ⟨⟨1, -2, 3⟩, 0⟩ 2 ⟨9⟩ true
    |>.store Codec.bool ⟨⟨0, 0, 0⟩, 0⟩ 4 ⟨9⟩ true
    |>.remove ⟨⟨0, 0, 0⟩, 0⟩
  have legible : Legible marks.entries :=
    ⟨Zstandard.encoding_lossless, ArchiveManifest.encoding_lossless, by
      rw [Encoding.Keeps]
      decide +kernel⟩
  obtain ⟨built, -, -, layout, -⟩ := saved_canonically
  obtain ⟨-, -, saved⟩ := built _ marks filing
  obtain ⟨-, -, reopened⟩ := saved legible
  constructor
  · have room : (marks.save.2.write? {} ["saves"]).isSome = true := by decide +kernel
    obtain ⟨after, written⟩ := Option.isSome_iff_exists.mp room
    exact ⟨after, written, (reopened _ _ _ written).1⟩
  · exact layout { manifest := some _ } _ { marks.save.1 with schemaVersion := 999 } rfl
      (ArchiveManifest.encoding_lossless _) (by decide)

end Archive

end OctreeWorld
