import OctreeWorld.Archive.Folder
import OctreeWorld.Archive.Standard
import OctreeWorld.Decimal.Integer
import OctreeWorld.Document
import OctreeWorld.Scripted
import OctreeWorld.Summary

/-!
# Reading exchanged values

The forms in which the library's values are exchanged with other programs are JSON that no reader
rounds: coordinates and boxes are lists, a 64-bit quantity is a string of decimal digits, and a
double is the sixteen hexadecimal digits of its word. Where one of these is read, a plain number is
welcome too. A field that holds `null` counts as absent.
-/

namespace OctreeWorld

namespace Json

/-- The field of a name, unless it holds `null`. -/
def field? (v : Json) (name : String) : Option Json :=
  match v.member? name with
  | some null => none
  | found => found

/-- Read a field that has to be there. -/
def need? {α : Type} (v : Json) (name : String) (read : Json → Option α) : Option α :=
  (v.field? name).bind read

/-- Read a field that may be absent. -/
def optional? {α : Type} (v : Json) (name : String) (read : Json → Option α) :
    Option (Option α) :=
  match v.field? name with
  | none => some none
  | some f => (read f).map some

/-- Read a field that has a default. -/
def fieldOr? {α : Type} (v : Json) (name : String) (default : α) (read : Json → Option α) :
    Option α :=
  match v.field? name with
  | none => some default
  | some f => read f

end Json

namespace Exchange

/-! ### Numbers and times -/

/-- An integer between two bounds, as a number or as decimal digits. -/
def integer? (lower upper : Int) (v : Json) : Option Int :=
  match v with
  | .string s => Decimal.integer? lower upper s
  | v => v.integer? lower upper

def uint8? (v : Json) : Option UInt8 := (integer? 0 255 v).map fun n => UInt8.ofNat n.toNat

def uint32? (v : Json) : Option UInt32 :=
  (integer? 0 4294967295 v).map fun n => UInt32.ofNat n.toNat

def uint64? (v : Json) : Option UInt64 :=
  (integer? 0 18446744073709551615 v).map fun n => UInt64.ofNat n.toNat

/-- A count of things, which fits 64 bits. -/
def count? (v : Json) : Option Nat := (uint64? v).map UInt64.toNat

def int32? (v : Json) : Option Int32 := (integer? (-2147483648) 2147483647 v).map Int32.ofInt

def int64? (v : Json) : Option Int64 :=
  (integer? (-9223372036854775808) 9223372036854775807 v).map Int64.ofInt

/-- The word of a double: its digits behind the mark `0x`, or those of a number. -/
def word? (v : Json) : Option UInt64 :=
  match v with
  | .string s =>
    match s.toList with
    | '0' :: 'x' :: digits =>
      if digits.length = 16 then (Hex.number? digits).map UInt64.ofNat else none
    | _ => none
  | v => v.float?.map Float.toBits

def float? (v : Json) : Option Float := (word? v).map Float.ofBits

def simTime? (v : Json) : Option SimTime := (uint64? v).map SimTime.mk

/-- A list of seconds and nanoseconds. -/
def duration? : Json → Option Duration
  | .array [secs, nanos] => do
    let secs ← uint64? secs
    let nanos ← uint32? nanos
    let total := secs.toNat * Duration.nanosPerSecond + nanos.toNat
    if Duration.fits total then some ⟨total⟩ else none
  | _ => none

/-! ### Texts and lists -/

def text? : Json → Option String
  | .string s => some s
  | _ => none

def list? {α : Type} (read : Json → Option α) : Json → Option (List α)
  | .array items => items.mapM read
  | _ => none

/-- Bytes as pairs of hexadecimal digits. -/
def bytes? (v : Json) : Option Bytes := do Hex.bytes? (← text? v).toList

def identifier? (v : Json) : Option Identifier := (text? v).bind Identifier.read?

/-- One of several values, by its text. -/
def named? {α : Type} (all : List α) (name : α → String) (v : Json) : Option α := do
  let wanted ← text? v
  all.find? fun a => name a == wanted

def state? (v : Json) : Option NodeState := named? NodeState.all NodeState.identifier v

def phase? (v : Json) : Option Phase := named? Phase.all Phase.text v

def queue? (v : Json) : Option Queue := named? Queue.all Queue.text v

def commandKind? (v : Json) : Option CommandKind :=
  named? [.load, .unload, .tick, .level, .region] CommandKind.text v

/-! ### Space -/

def position? : Json → Option Position
  | .array [x, y, z] => return ⟨← int32? x, ← int32? y, ← int32? z⟩
  | _ => none

/-- A list of the three axes and the level. -/
def coord? : Json → Option Coord
  | .array [x, y, z, level] => return ⟨⟨← int32? x, ← int32? y, ← int32? z⟩, ← uint8? level⟩
  | _ => none

/-- A list of both corners, taken as they are. -/
def box? : Json → Option Box
  | .array [lo, hi] => return ⟨← position? lo, ← position? hi⟩
  | _ => none

def loader? (v : Json) : Option Loader :=
  match v with
  | .object _ => do
    let standard : Loader := {}
    let position ← v.fieldOr? "pos" standard.position position?
    let radius ← v.fieldOr? "radius" standard.radius uint32?
    let minLevel ← v.fieldOr? "min" standard.minLevel uint8?
    let maxLevel ← v.fieldOr? "max" standard.maxLevel uint8?
    let cadence ← v.fieldOr? "cadence" standard.cadence uint32?
    return { position, radius, minLevel, maxLevel, cadence }
  | _ => none

/-! ### Settings -/

def streamConfig? (v : Json) : Option StreamConfig := do
  let standard : StreamConfig := {}
  let levelTickInterval ← v.fieldOr? "interval" standard.levelTickInterval uint32?
  let createBudget ← v.optional? "create_budget" uint64?
  let unloadBudget ← v.optional? "unload_budget" uint64?
  return { levelTickInterval, createBudget, unloadBudget }

def worldConfig? (v : Json) : Option WorldConfig := do
  let standard : WorldConfig := {}
  let levelCount ← v.fieldOr? "levels" standard.levelCount uint8?
  let evictionTimeoutSecs ← v.fieldOr? "timeout" standard.evictionTimeoutSecs float?
  return { levelCount, evictionTimeoutSecs }

def engineConfig? (v : Json) : Option EngineConfig := do
  let standard : EngineConfig := {}
  let world ← worldConfig? v
  let stream ← streamConfig? v
  let threads ← v.optional? "threads" uint64?
  let tickIntervalMs ← v.fieldOr? "tick_ms" standard.tickIntervalMs uint64?
  return { world, stream, threads, tickIntervalMs }

/-! ### Summaries -/

/-- A list of counts: touched, requested and evicted. -/
def streamStats? : Json → Option StreamStats
  | .array [touched, requested, evicted] =>
    return ⟨← count? touched, ← count? requested, ← count? evicted⟩
  | _ => none

/-- A list of the level and its counts. -/
def levelSummary? : Json → Option LevelSummary
  | .array (level :: counts) => do
    let level ← uint8? level
    let [nodes, loading, loaded, unloading, deleting, observed, pending] ← counts.mapM count?
      | none
    return { level, nodes, loading, loaded, unloading, deleting, observed, pending }
  | _ => none

def worldSummary? (v : Json) : Option WorldSummary := do
  let id ← v.need? "uuid" identifier?
  let tick ← v.need? "tick" uint64?
  let now ← v.need? "now" simTime?
  let nodes ← v.need? "nodes" count?
  let regions ← v.need? "regions" count?
  let totalNodes ← v.need? "total" count?
  let levels ← v.need? "levels" (list? levelSummary?)
  return { id, tick, now, nodes, regions, totalNodes, levels }

def nodeSummary? (v : Json) : Option NodeSummary := do
  let coord ← v.need? "c" coord?
  let state ← v.need? "state" state?
  let children ← v.need? "children" count?
  let neighbours ← v.need? "neighbours" count?
  let observers ← v.need? "observers" uint32?
  let version ← v.need? "version" uint32?
  let lastUpdate ← v.need? "updated" simTime?
  let origin ← v.need? "origin" position?
  return { coord, state, children, neighbours, observers, version, lastUpdate, origin }

def engineSummary? (v : Json) : Option EngineSummary := do
  let tick ← v.need? "tick" uint64?
  let now ← v.need? "now" simTime?
  let worlds ← v.need? "worlds" count?
  let loaders ← v.need? "loaders" count?
  let nodes ← v.need? "nodes" count?
  let regions ← v.need? "regions" count?
  let averageTick ← v.need? "average" duration?
  let slowestTick ← v.need? "slowest" duration?
  return { tick, now, worlds, loaders, nodes, regions, averageTick, slowestTick }

/-! ### Scripts -/

/-- A list of the action's name and what it acts with. -/
def nodeAction? : Json → Option Scripted.NodeAction
  | .array [.string "add", n] => (int64? n).map .add
  | .array [.string "mul", n] => (int64? n).map .multiply
  | .array (.string "bump" :: _) => some .bumpVersion
  | .array [.string "raise", v] => (uint32? v).map .raiseVersion
  | .array [.string "state", s] => (state? s).map .setState
  | _ => none

def levelAction? : Json → Option Scripted.LevelAction
  | .array [.string "add", n] => (int64? n).map .add
  | .array [.string "push_all", q] => (queue? q).map .pushAll
  | _ => none

def regionAction? : Json → Option Scripted.RegionAction
  | .array (.string "mark_all" :: _) => some .markAll
  | .array [.string "load", c] => (coord? c).map .load
  | _ => none

/-! ### Archives -/

/-- A record of an archive. Its payload is given as it is, or as the bytes of an item, or as an
integer, and its digest is the right one unless another is given. -/
def archiveEntry? (v : Json) : Option (Coord × ArchiveRecord) := do
  let version ← v.need? "v" uint32?
  let savedAt ← v.need? "at" simTime?
  let packed ← v.optional? "payload_hex" bytes?
  let item ← v.optional? "cbor_hex" bytes?
  let data ← v.optional? "data" int64?
  let payload ← packed.or <| (item.map Zstandard.compress).or (data.map (Archive.pack Codec.int64))
  let digest ← v.fieldOr? "sha256" (Sha256.text payload) text?
  return (← v.fieldOr? "c" ⟨.zero, 0⟩ coord?, { version, savedAt, digest, payload })

end Exchange

end OctreeWorld
