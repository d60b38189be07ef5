import OctreeWorld.Bytes

/-!
# CBOR items

The binary data format in which node payloads and archives are kept. An item is a number, a string
of bytes or characters, an array, a map, or one of these behind a tag. Doubles are kept as the words
that represent them, so an item is written and read back without any arithmetic on them.
-/

namespace OctreeWorld

/-- A CBOR item. -/
inductive Cbor where
  | natural (n : UInt64)
  /-- The integer `-1 - n`. -/
  | negative (n : UInt64)
  | bytes (bs : Bytes)
  | text (s : String)
  | array (items : List Cbor)
  | map (entries : List (Cbor × Cbor))
  | tag (n : UInt64) (item : Cbor)
  | simple (n : UInt8)
  /-- A double, by its 64-bit word. -/
  | float (word : UInt64)
deriving Inhabited

namespace Cbor

def null : Cbor := simple 22

def ofBool (b : Bool) : Cbor := simple (if b then 21 else 20)

/-- A natural number, or the greatest one that an item holds. -/
def ofNat (n : Nat) : Cbor := natural (UInt64.ofNat (min n (UInt64.size - 1)))

/-- An integer. Negative integers start at minus one. -/
def ofInt (n : Int) : Cbor :=
  if 0 ≤ n then ofNat n.toNat else negative (UInt64.ofNat ((-n).toNat - 1))

/-- A map with names for keys. -/
def ofMembers (members : List (String × Cbor)) : Cbor :=
  map (members.map fun (name, item) => (text name, item))

/-! ### Writing -/

/-- The head of an item: its kind and a number, in the fewest bytes. -/
def head (kind n : Nat) : Bytes :=
  let first (info : Nat) := UInt8.ofNat (32 * kind + info)
  if n < 24 then [first n]
  else if n < UInt8.size then first 24 :: Bytes.ofBigEndian 1 n
  else if n < UInt16.size then first 25 :: Bytes.ofBigEndian 2 n
  else if n < UInt32.size then first 26 :: Bytes.ofBigEndian 4 n
  else first 27 :: Bytes.ofBigEndian 8 n

mutual

/-- The bytes of an item. -/
def write : Cbor → Bytes
  | natural n => head 0 n.toNat
  | negative n => head 1 n.toNat
  | bytes bs => head 2 bs.length ++ bs
  | text s => head 3 s.toUTF8.toList.length ++ s.toUTF8.toList
  | array items => head 4 items.length ++ writeItems items
  | map entries => head 5 entries.length ++ writeEntries entries
  | tag n item => head 6 n.toNat ++ write item
  | simple n => head 7 n.toNat
  | float word => 0xfb :: Bytes.ofBigEndian 8 word.toNat

def writeItems : List Cbor → Bytes
  | [] => []
  | item :: items => write item ++ writeItems items

def writeEntries : List (Cbor × Cbor) → Bytes
  | [] => []
  | (key, item) :: entries => write key ++ (write item ++ writeEntries entries)

end

/-! ### Reading -/

/-- The double that a shorter floating-point word stands for. The leading fraction bit of
not-a-number is set. -/
def widen (exponentBits fractionBits word : Nat) : UInt64 :=
  let two (n : Nat) := Nat.pow 2 n
  let bias := two (exponentBits - 1) - 1
  let fraction := word % two fractionBits
  let exponent := word / two fractionBits % two exponentBits
  let sign := word / two (fractionBits + exponentBits) % 2
  let scale := two (52 - fractionBits)
  let magnitude :=
    if exponent = two exponentBits - 1 then
      2047 * two 52 + (if fraction = 0 then 0 else two 51 + fraction * scale % two 51)
    else if exponent ≠ 0 then (exponent + 1023 - bias) * two 52 + fraction * scale
    else if fraction = 0 then 0
    else
      let lead := Nat.log2 fraction
      (lead + 1024 - bias - fractionBits) * two 52 + (fraction - two lead) * two (52 - lead)
  UInt64.ofNat (sign * two 63 + magnitude)

/-- The head of an item: its kind, the five bits beside it and the number. The number of an open
head is absent: the item goes on up to a stop. -/
def readHead? (bs : Bytes) : Option ((Nat × Nat × Option Nat) × Bytes) := do
  let (first, rest) ← bs.bigEndian? 1
  let kind := first / 32
  let info := first % 32
  let numbered (count : Nat) :=
    (rest.bigEndian? count).map fun (n, rest) => ((kind, info, some n), rest)
  if info < 24 then return ((kind, info, some info), rest)
  if info = 24 then numbered 1
  else if info = 25 then numbered 2
  else if info = 26 then numbered 4
  else if info = 27 then numbered 8
  else if info = 31 then return ((kind, info, none), rest)
  else failure

/-- The byte that stops an open item. -/
def stop : UInt8 := 0xff

/-- The segments of an open string up to its stop, each one a string of the same kind and passing
a test. Open strings among them are taken apart; `inner` of these are not stopped yet. -/
def readSegments? (kind : Nat) (test : Bytes → Bool) : Nat → Nat → Bytes → Option (Bytes × Bytes)
  | 0, _, _ => none
  | fuel + 1, inner, bs =>
    if bs.head? = some stop then
      match inner with
      | 0 => some ([], bs.drop 1)
      | inner + 1 => readSegments? kind test fuel inner (bs.drop 1)
    else do
      let ((k, _, size), rest) ← readHead? bs
      if k ≠ kind then failure
      match size with
      | none => readSegments? kind test fuel (inner + 1) rest
      | some n =>
        let (segment, rest) ← rest.take? n
        if !test segment then failure
        let (more, rest) ← readSegments? kind test fuel inner rest
        return (segment ++ more, rest)

/-- The bytes of a string behind its head. -/
def readBytes? (kind : Nat) (test : Bytes → Bool) (size : Option Nat) (bs : Bytes) :
    Option (Bytes × Bytes) :=
  match size with
  | some n => bs.take? n
  | none => readSegments? kind test (bs.length + 1) 0 bs

/-- The greatest length of a key. -/
def keyLimit : Nat := 4096

/-- Whether a string that starts here, behind tags, may be a key: it says its length, which is
bounded. -/
def startsKey : Nat → Bytes → Bool
  | 0, _ => false
  | fuel + 1, bs =>
    match readHead? bs with
    | some ((6, _, some _), rest) => startsKey fuel rest
    | some ((kind, _, size), _) => (kind != 2 && kind != 3) || size.any (· ≤ keyLimit)
    | none => false

/-- A floating-point word or a value without content, behind its head. -/
def ofSpecial? (info n : Nat) : Option Cbor :=
  if info ≤ 24 then some (simple (UInt8.ofNat n))
  else if info = 25 then some (float (widen 5 10 n))
  else if info = 26 then some (float (widen 8 23 n))
  else some (float (UInt64.ofNat n))

/-- How many arrays and maps may lie within one another. -/
def depthLimit : Nat := 256

mutual

/-- One item, with arrays and maps up to a depth. -/
def readItem? : Nat → Nat → Bytes → Option (Cbor × Bytes)
  | 0, _, _ => none
  | fuel + 1, depth, bs => do
    let ((kind, info, size), rest) ← readHead? bs
    match kind, size with
    | 0, some n => return (natural (UInt64.ofNat n), rest)
    | 1, some n => return (negative (UInt64.ofNat n), rest)
    | 2, _ =>
      let (content, rest) ← readBytes? 2 (fun _ => true) size rest
      return (bytes content, rest)
    | 3, _ =>
      let (content, rest) ← readBytes? 3 (fun s => (Bytes.characters? s).isSome) size rest
      return (text (← Bytes.characters? content), rest)
    | 4, _ =>
      if depth = 0 then failure
      let (items, rest) ← readItems? fuel (depth - 1) size rest
      return (array items, rest)
    | 5, _ =>
      if depth = 0 then failure
      let (entries, rest) ← readEntries? fuel (depth - 1) size rest
      return (map entries, rest)
    | 6, some n =>
      let (item, rest) ← readItem? fuel depth rest
      return (tag (UInt64.ofNat n) item, rest)
    | 7, some n => return (← ofSpecial? info n, rest)
    | _, _ => failure

/-- As many items as counted, or all up to a stop. -/
def readItems? : Nat → Nat → Option Nat → Bytes → Option (List Cbor × Bytes)
  | _, _, some 0, bs => some ([], bs)
  | 0, _, _, _ => none
  | fuel + 1, depth, size, bs =>
    if size.isNone && bs.head? == some stop then some ([], bs.drop 1)
    else do
      let (item, rest) ← readItem? fuel depth bs
      let (items, rest) ← readItems? fuel depth (size.map (· - 1)) rest
      return (item :: items, rest)

/-- As many entries as counted, or all up to a stop. -/
def readEntries? : Nat → Nat → Option Nat → Bytes → Option (List (Cbor × Cbor) × Bytes)
  | _, _, some 0, bs => some ([], bs)
  | 0, _, _, _ => none
  | fuel + 1, depth, size, bs =>
    if size.isNone && bs.head? == some stop then some ([], bs.drop 1)
    else if !startsKey fuel bs then none
    else do
      let (key, rest) ← readItem? fuel depth bs
      let (item, rest) ← readItem? fuel depth rest
      let (entries, rest) ← readEntries? fuel depth (size.map (· - 1)) rest
      return ((key, item) :: entries, rest)

end

/-- The first item of some bytes, with the bytes behind it. Each byte of heads nests two calls at
most: one for a collection, one for its first item. -/
def read? (bs : Bytes) : Option (Cbor × Bytes) := readItem? (2 * bs.length + 1) depthLimit bs

end Cbor

end OctreeWorld
