import OctreeWorld.Hex

/-!
# Identifiers of worlds, regions and loaders

An identifier is a 128-bit number, written as 32 hexadecimal digits with or without hyphens.
Whoever creates a world, a region or a loader chooses its identifier; the library never invents
one, so a run is a function of its inputs.
-/

namespace OctreeWorld

/-- A 128-bit identifier. -/
structure Identifier where
  bits : BitVec 128
deriving DecidableEq, Inhabited

namespace Identifier

/-- Ordered by value. -/
instance : Ord Identifier where
  compare a b := compare a.bits.toNat b.bits.toNat

theorem compare_def (a b : Identifier) : compare a b = compare a.bits.toNat b.bits.toNat := rfl

instance : Std.TransOrd Identifier :=
  inferInstanceAs (Std.TransCmp (compareOn fun a : Identifier => a.bits.toNat))

instance : Std.LawfulEqOrd Identifier where
  eq_of_compare {a b} h := by
    rw [compare_def, Std.compare_eq_iff_eq] at h
    cases a; cases b
    exact congrArg Identifier.mk (BitVec.eq_of_toNat_eq h)

def ofNat (n : Nat) : Identifier := ⟨BitVec.ofNat 128 n⟩

/-- The 32 digits without hyphens. -/
def plainChars (i : Identifier) : List Char := Hex.digits 32 i.bits.toNat

/-- The first eight digits, enough to tell identifiers apart in a listing. -/
def short (i : Identifier) : String := String.ofList (i.plainChars.take 8)

/-- Groups of eight, four, four, four and twelve digits, joined by hyphens. -/
def text (i : Identifier) : String :=
  let cs := i.plainChars
  String.ofList (cs.take 8 ++ '-' :: (cs.drop 8).take 4 ++ '-' :: (cs.drop 12).take 4 ++
    '-' :: (cs.drop 16).take 4 ++ '-' :: cs.drop 20)

/-- Read 32 digits without hyphens. -/
def readPlain? (cs : List Char) : Option Identifier :=
  if cs.length = 32 then (Hex.number? cs).map ofNat else none

/-- Read the hyphenated groups. -/
def readHyphenated? (cs : List Char) : Option Identifier :=
  let hyphenAt (n : Nat) := cs[n]? == some '-'
  if cs.length = 36 && hyphenAt 8 && hyphenAt 13 && hyphenAt 18 && hyphenAt 23 then
    readPlain? (cs.take 8 ++ (cs.drop 9).take 4 ++ (cs.drop 14).take 4 ++
      (cs.drop 19).take 4 ++ cs.drop 24)
  else none

/-- Read an identifier written with or without hyphens. -/
def read? (s : String) : Option Identifier :=
  let cs := s.toList
  (readPlain? cs).or (readHyphenated? cs)

/-- Read an identifier that may also stand in braces around its hyphenated form, or behind the
mark of a uniform resource name. -/
def readDecorated? (s : String) : Option Identifier :=
  let cs := s.toList
  let mark := "urn:uuid:".toList
  if cs.length = 38 && cs.head? == some '\x7b' && cs.getLast? == some '\x7d' then
    readHyphenated? ((cs.drop 1).take 36)
  else if cs.take mark.length == mark then readHyphenated? (cs.drop mark.length)
  else read? s

end Identifier

/-- Names a world. -/
abbrev WorldId := Identifier

/-- Names a region. It survives a merge on the destination's side. -/
abbrev RegionId := Identifier

/-- Names a loader. -/
abbrev LoaderId := Identifier

end OctreeWorld
