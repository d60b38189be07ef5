import OctreeWorld.Cbor
import OctreeWorld.Json.Number

/-!
# Codecs

How values of a type are written as CBOR items and read back. A reading accepts more than the
writing produces: tags are passed over, except that two make an integer of a string of bytes, and
where a list is wanted a string of bytes stands for the list of its bytes.
-/

namespace OctreeWorld

namespace Cbor

/-- The item behind its tags. -/
def bare : Cbor → Cbor
  | tag _ item => item.bare
  | item => item

/-- The magnitude that a string of bytes writes, at most sixteen of them counting. -/
def magnitude? (bs : Bytes) : Option Nat :=
  let significant := bs.dropWhile (· == 0)
  if significant.length ≤ 16 then some (Bytes.bigEndian significant) else none

/-- The integer of an item. Tag 2 makes a natural number of a string of bytes, tag 3 a negative
one. -/
def integer? : Cbor → Option Int
  | natural n => some n.toNat
  | negative n => some (-1 - (n.toNat : Int))
  | tag 2 (bytes bs) => (magnitude? bs).map fun n => (n : Int)
  | tag 3 (bytes bs) => (magnitude? bs).map fun n => -1 - (n : Int)
  | tag 2 _ => none
  | tag 3 _ => none
  | tag _ item => item.integer?
  | _ => none

/-- An integer between two bounds. -/
def bounded? (lower upper : Int) (item : Cbor) : Option Int :=
  item.integer?.filter fun n => decide (lower ≤ n) && decide (n ≤ upper)

/-- A natural number up to a bound. -/
def natural? (upper : Nat) (item : Cbor) : Option Nat :=
  (item.bounded? 0 upper).map Int.toNat

def text? (item : Cbor) : Option String :=
  match item.bare with
  | text s => some s
  | _ => none

def bool? (item : Cbor) : Option Bool :=
  match item.bare with
  | simple n => if n = 20 then some false else if n = 21 then some true else none
  | _ => none

/-- The items of a list. -/
def items? (item : Cbor) : Option (List Cbor) :=
  match item.bare with
  | array items => some items
  | bytes bs => some (bs.map fun b => natural b.toUInt64)
  | _ => none

/-- The word of a double. -/
def word? (item : Cbor) : Option UInt64 :=
  match item.bare with
  | float word => some word
  | _ => none

/-- Whether an item stands for nothing. -/
def isNothing : Cbor → Bool
  | simple n => n == 22 || n == 23
  | _ => false

/-- The text of a key: characters, or bytes that write characters. -/
def key? (item : Cbor) : Option String :=
  match item.bare with
  | text s => some s
  | bytes bs => some ((Bytes.characters? bs).getD "")
  | _ => none

/-- The entries among the given names, in order. Absent when one of these names repeats, or when a
key is no text. -/
def knownEntries? (names : List String) : List (Cbor × Cbor) → Option (List (String × Cbor))
  | [] => some []
  | (key, item) :: rest => do
    let name ← key.key?
    let known ← knownEntries? names rest
    if !names.contains name then return known
    else if (known.lookup name).isSome then none
    else return (name, item) :: known

/-- The fields of a record, which is written as a map. -/
def fields? (names : List String) (item : Cbor) : Option (List (String × Cbor)) :=
  match item.bare with
  | map entries => knownEntries? names entries
  | _ => none

/-! ### JSON values -/

/-- An integer that JSON holds: no greater than an unsigned 64-bit word and no less than a signed
one. -/
def jsonInteger? (n : Int) : Option Json :=
  if -9223372036854775808 ≤ n ∧ n < 18446744073709551616 then some (Json.ofInt n) else none

/-- Put a member in front, unless one of its name follows: of several, the last counts. -/
def addMember (name : String) (v : Json) (members : List (Option String × Json)) :
    List (Option String × Json) :=
  if members.any fun (n, _) => n == some name then members else (some name, v) :: members

mutual

/-- The JSON value of an item. Strings of bytes and other tags than those of integers have
none. -/
def json? : Cbor → Option Json
  | natural n => jsonInteger? n.toNat
  | negative n => jsonInteger? (-1 - (n.toNat : Int))
  | bytes _ => none
  | text s => some (.string s)
  | array items => (jsonItems? items).map .array
  | map entries => (jsonMembers? entries).map .object
  | tag n item => if n = 2 ∨ n = 3 then (tag n item).integer?.bind jsonInteger? else none
  | simple n =>
    if n = 20 then some (.bool false)
    else if n = 21 then some (.bool true)
    else if n = 22 ∨ n = 23 then some .null
    else none
  | float word => some (Json.ofFloat (Float.ofBits word))

def jsonItems? : List Cbor → Option (List Json)
  | [] => some []
  | item :: items => do
    let v ← json? item
    let vs ← jsonItems? items
    return v :: vs

def jsonMembers? : List (Cbor × Cbor) → Option (List (Option String × Json))
  | [] => some []
  | (key, item) :: entries => do
    let name ← key.text?
    let v ← json? item
    let members ← jsonMembers? entries
    return addMember name v members

end

mutual

/-- The item of a JSON value. A number that has no worth is written as nothing. -/
def ofJson : Json → Cbor
  | .null => null
  | .bool b => ofBool b
  | .number literal =>
    match Json.Numeric.ofLiteral? literal with
    | some (.natural n) => natural n
    | some (.negative m) => ofInt (-(m : Int))
    | some (.float x) => float x.toBits
    | none => null
  | .string s => text s
  | .illFormed => text ""
  | .array items => array (ofJsonItems items)
  | .object members => map (ofJsonMembers members)

def ofJsonItems : List Json → List Cbor
  | [] => []
  | v :: vs => ofJson v :: ofJsonItems vs

def ofJsonMembers : List (Option String × Json) → List (Cbor × Cbor)
  | [] => []
  | (name, v) :: members => (text (name.getD ""), ofJson v) :: ofJsonMembers members

end

end Cbor

/-- A way of writing values as items and of reading them back. -/
structure Codec (α : Type) where
  encode : α → Cbor
  decode? : Cbor → Option α

namespace Codec

/-- Nothing. -/
def unit : Codec Unit where
  encode _ := .null
  decode? item := match item.bare with
    | .simple n => if n = 22 then some () else none
    | _ => none

def bool : Codec Bool := ⟨.ofBool, Cbor.bool?⟩

def text : Codec String := ⟨.text, Cbor.text?⟩

def uint8 : Codec UInt8 where
  encode n := .ofNat n.toNat
  decode? item := (item.natural? 255).map UInt8.ofNat

def uint32 : Codec UInt32 where
  encode n := .ofNat n.toNat
  decode? item := (item.natural? 4294967295).map UInt32.ofNat

def uint64 : Codec UInt64 where
  encode n := .natural n
  decode? item := (item.natural? 18446744073709551615).map UInt64.ofNat

def int32 : Codec Int32 where
  encode n := .ofInt n.toInt
  decode? item := (item.bounded? (-2147483648) 2147483647).map Int32.ofInt

def int64 : Codec Int64 where
  encode n := .ofInt n.toInt
  decode? item :=
    (item.bounded? (-9223372036854775808) 9223372036854775807).map Int64.ofInt

/-- Doubles, by their words. -/
def word : Codec UInt64 := ⟨.float, Cbor.word?⟩

def json : Codec Json := ⟨.ofJson, Cbor.json?⟩

def list {α : Type} (c : Codec α) : Codec (List α) where
  encode xs := .array (xs.map c.encode)
  decode? item := item.items?.bind fun items => items.mapM c.decode?

def option {α : Type} (c : Codec α) : Codec (Option α) where
  encode
    | none => .null
    | some x => c.encode x
  decode? item := if item.isNothing then some none else (c.decode? item).map some

/-- The bytes of a value. -/
def bytes {α : Type} (c : Codec α) (x : α) : Bytes := (c.encode x).write

/-- The value of the first item of some bytes. -/
def ofBytes? {α : Type} (c : Codec α) (bs : Bytes) : Option α :=
  (Cbor.read? bs).bind fun (item, _) => c.decode? item

end Codec

end OctreeWorld
