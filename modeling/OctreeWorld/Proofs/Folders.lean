import OctreeWorld.Archive.Folder

/-!
# Folders of saved archives in a file tree

What is written at a path is read there, and nothing changes at the other paths that are files. So
the two files of a saved archive are read as they were written, characters included.
-/

namespace OctreeWorld

/-! ### Characters -/

theorem Bytes.toList_loop (bs : ByteArray) (i : Nat) (acc : List UInt8) :
    ByteArray.toList.loop bs i acc = acc.reverse ++ bs.data.toList.drop i := by
  fun_induction ByteArray.toList.loop bs i acc with
  | case1 i acc more ih =>
    have found : bs.get! i = bs.data.toList[i] := by
      rw [ByteArray.get!, getElem!_pos bs.data i more, Array.getElem_toList]
    rw [ih, List.drop_eq_getElem_cons more, List.reverse_cons, found, List.append_assoc]
    rfl
  | case2 i acc done =>
    rw [List.drop_eq_nil_of_le, List.append_nil]
    exact Nat.le_of_not_lt done

/-- Characters are read back from the bytes that write them. -/
theorem Bytes.characters?_toUTF8 (s : String) : Bytes.characters? s.toUTF8.toList = some s := by
  have same : ByteArray.mk s.toUTF8.toList.toArray = s.toUTF8 := by
    rw [ByteArray.toList, toList_loop]
    rfl
  rw [characters?, same, String.toUTF8_eq_toByteArray, String.fromUTF8?, dif_pos s.isValidUTF8]
  rfl

/-! ### Files -/

namespace FileTree

variable {t u : FileTree} {p q : FilePath} {content : Bytes}

theorem read?_erase_of_ne (other : q ≠ p) : (t.erase p).read? q = t.read? q := by
  rw [read?, read?, erase]
  induction t.files with
  | nil => rfl
  | cons f files ih =>
    by_cases here : f.1 = p
    · have passed : (q == f.1) = false := beq_false_of_ne (here ▸ other)
      rw [List.filter_cons_of_neg (by simp [here]), ih, List.lookup_cons, passed]
    · rw [List.filter_cons_of_pos (by simp [here]), List.lookup_cons, List.lookup_cons, ih]

/-- What is written at a path is read there, and nothing else is there at the other paths. -/
theorem read?_of_write? (written : t.write? p content = some u) (q : FilePath) :
    u.read? q = if q = p then some content else t.read? q := by
  rw [write?] at written
  split at written
  · cases written
  · cases written
    by_cases here : q = p
    · subst here
      rw [if_pos rfl, read?, List.lookup_cons_self]
    · rw [if_neg here, read?, List.lookup_cons, beq_false_of_ne here]
      exact read?_erase_of_ne here

end FileTree

namespace ArchiveFolder

/-- The files of an archive are read from a tree as they were written into it. -/
theorem ofTree_of_write? {manifest : String} {nodes : Bytes} {t u : FileTree} {folder : FilePath}
    (written : write? { manifest := some manifest, nodes := some nodes } t folder = some u) :
    ofTree u folder = { manifest := some manifest, nodes := some nodes } := by
  simp only [write?, Option.bind_eq_bind, Option.bind_eq_some_iff] at written
  obtain ⟨made, -, half, first, second⟩ := written
  have apart : nodesPath folder ≠ manifestPath folder := by
    intro same
    have names := List.append_cancel_left same
    exact absurd names (by decide)
  rw [ofTree, FileTree.read?_of_write? second, if_pos rfl, Option.map_some,
    Bytes.characters?_toUTF8, Option.getD_some, FileTree.read?_of_write? second, if_neg apart,
    FileTree.read?_of_write? first, if_pos rfl]

end ArchiveFolder

end OctreeWorld
