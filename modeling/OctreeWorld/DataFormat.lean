import OctreeWorld.Json.Number

/-!
# Data formats

What a record of settings needs from a format it is read from: named fields, bounded integers,
doubles and a value that stands for nothing. Formats differ in what they accept for each; the
records do not care.
-/

namespace OctreeWorld

/-- The readings that a format with values `V` offers. -/
structure DataFormat (V : Type) where
  /-- The fields of a record among the given names, each at most once. Absent when the value is no
  record or a name repeats; fields of other names are passed over. -/
  fields? : List String → V → Option (List (String × V))
  /-- An integer from zero up to a bound. -/
  natural? : Nat → V → Option Nat
  float? : V → Option Float
  /-- Whether the value stands for nothing. Absent when the value says so and is not. -/
  isNothing? : V → Option Bool

namespace DataFormat

variable {V α : Type} (fmt : DataFormat V)

/-- The field of a name, or a default when there is none. -/
def fieldOr (fields : List (String × V)) (name : String) (default : α) (read : V → Option α) :
    Option α :=
  match fields.lookup name with
  | none => some default
  | some v => read v

def uint8? (v : V) : Option UInt8 := (fmt.natural? 255 v).map UInt8.ofNat

def uint32? (v : V) : Option UInt32 := (fmt.natural? 4294967295 v).map UInt32.ofNat

def uint64? (v : V) : Option UInt64 := (fmt.natural? 18446744073709551615 v).map UInt64.ofNat

/-- A value that may stand for nothing. -/
def optional? (read : V → Option α) (v : V) : Option (Option α) := do
  if ← fmt.isNothing? v then return none else (read v).map some

end DataFormat

namespace Json

/-- The members of a list among the given names, in order. Absent when one of these names repeats,
or when a name stands for no text. -/
def knownMembers? (names : List String) :
    List (Option String × Json) → Option (List (String × Json))
  | [] => some []
  | (none, _) :: _ => none
  | (some name, v) :: rest => do
    let known ← knownMembers? names rest
    if !names.contains name then return known
    else if (known.lookup name).isSome then none
    else return (name, v) :: known

/-- The fields of a record: the members of an object, or the items of an array in the order of the
names, with none left over. -/
def fields? (names : List String) : Json → Option (List (String × Json))
  | object members => knownMembers? names members
  | array items => if items.length ≤ names.length then some (names.zip items) else none
  | _ => none

/-- JSON as a format for records. -/
def format : DataFormat Json where
  fields? := fields?
  natural? := natural?
  float? := float?
  isNothing?
    | null => some true
    | _ => some false

end Json

end OctreeWorld
