import OctreeWorld.Box
import OctreeWorld.DataFormat
import OctreeWorld.EngineConfig
import OctreeWorld.Loader
import OctreeWorld.Phase

/-!
# Documents

The written forms of the library's values: settings in any data format, and coordinates, boxes,
times, loaders, states, phases and identifiers in JSON. A record lists its fields in a fixed order.
Settings may leave fields out, which then keep their defaults; the other records may not.
-/

namespace OctreeWorld

/-! ### Settings -/

namespace WorldConfig

def fieldNames : List String := ["level_count", "eviction_timeout_secs"]

def read? {V : Type} (fmt : DataFormat V) (v : V) : Option WorldConfig := do
  let fs ← fmt.fields? fieldNames v
  let levelCount ← DataFormat.fieldOr fs "level_count" (8 : UInt8) fmt.uint8?
  let evictionTimeoutSecs ← DataFormat.fieldOr fs "eviction_timeout_secs" (20.0 : Float) fmt.float?
  return { levelCount, evictionTimeoutSecs }

end WorldConfig

namespace StreamConfig

def fieldNames : List String := ["level_tick_interval", "create_budget", "unload_budget"]

def read? {V : Type} (fmt : DataFormat V) (v : V) : Option StreamConfig := do
  let fs ← fmt.fields? fieldNames v
  let levelTickInterval ← DataFormat.fieldOr fs "level_tick_interval" (1 : UInt32) fmt.uint32?
  let createBudget ← DataFormat.fieldOr fs "create_budget" none (fmt.optional? fmt.uint64?)
  let unloadBudget ← DataFormat.fieldOr fs "unload_budget" none (fmt.optional? fmt.uint64?)
  return { levelTickInterval, createBudget, unloadBudget }

end StreamConfig

namespace EngineConfig

def fieldNames : List String := ["world", "stream", "threads", "tick_interval_ms"]

def read? {V : Type} (fmt : DataFormat V) (v : V) : Option EngineConfig := do
  let fs ← fmt.fields? fieldNames v
  let world ← DataFormat.fieldOr fs "world" {} (WorldConfig.read? fmt)
  let stream ← DataFormat.fieldOr fs "stream" {} (StreamConfig.read? fmt)
  let threads ← DataFormat.fieldOr fs "threads" none (fmt.optional? fmt.uint64?)
  let tickIntervalMs ← DataFormat.fieldOr fs "tick_interval_ms" (50 : UInt64) fmt.uint64?
  return { world, stream, threads, tickIntervalMs }

/-- Whether two configurations have equal settings. -/
def agrees (a b : EngineConfig) : Bool :=
  a.world.levelCount == b.world.levelCount &&
    a.world.evictionTimeoutSecs == b.world.evictionTimeoutSecs &&
    a.stream == b.stream && a.threads == b.threads && a.tickIntervalMs == b.tickIntervalMs

end EngineConfig

/-! ### JSON forms -/

namespace Json

/-- The value that is there, or `null`. -/
def ofOption {α : Type} (write : α → Json) : Option α → Json
  | some a => write a
  | none => null

def ofPosition (p : Position) : Json :=
  array [ofInt p.x.toInt, ofInt p.y.toInt, ofInt p.z.toInt]

def int32? (v : Json) : Option Int32 :=
  (v.integer? (-2147483648) 2147483647).map Int32.ofInt

def position? : Json → Option Position
  | array [x, y, z] => do
    let x ← int32? x
    let y ← int32? y
    let z ← int32? z
    return ⟨x, y, z⟩
  | _ => none

def ofCoord (c : Coord) : Json :=
  ofMembers [("pos", ofPosition c.pos), ("level", ofNat c.level.toNat)]

def coord? (v : Json) : Option Coord := do
  let fs ← v.fields? ["pos", "level"]
  let pos ← position? (← fs.lookup "pos")
  let level ← format.uint8? (← fs.lookup "level")
  return ⟨pos, level⟩

def ofBox (b : Box) : Json := ofMembers [("min", ofPosition b.lo), ("max", ofPosition b.hi)]

def box? (v : Json) : Option Box := do
  let fs ← v.fields? ["min", "max"]
  let lo ← position? (← fs.lookup "min")
  let hi ← position? (← fs.lookup "max")
  return ⟨lo, hi⟩

def ofSimTime (t : SimTime) : Json := ofNat t.micros.toNat

def simTime? (v : Json) : Option SimTime := (format.uint64? v).map SimTime.mk

def loaderFields : List String :=
  ["position", "radius_per_level", "min_level", "max_level", "update_cadence"]

def ofLoader (l : Loader) : Json :=
  ofMembers
    [("position", ofPosition l.position), ("radius_per_level", ofNat l.radius.toNat),
      ("min_level", ofNat l.minLevel.toNat), ("max_level", ofNat l.maxLevel.toNat),
      ("update_cadence", ofNat l.cadence.toNat)]

def loader? (v : Json) : Option Loader := do
  let fs ← v.fields? loaderFields
  let standard : Loader := {}
  let position ← DataFormat.fieldOr fs "position" standard.position position?
  let radius ← DataFormat.fieldOr fs "radius_per_level" standard.radius format.uint32?
  let minLevel ← DataFormat.fieldOr fs "min_level" standard.minLevel format.uint8?
  let maxLevel ← DataFormat.fieldOr fs "max_level" standard.maxLevel format.uint8?
  let cadence ← DataFormat.fieldOr fs "update_cadence" standard.cadence format.uint32?
  return { position, radius, minLevel, maxLevel, cadence }

/-- One of several names: a string, or an object that holds `null` under the name. -/
def choice? (v : Json) : Option String :=
  match v with
  | string s => some s
  | object [(some s, null)] => some s
  | _ => none

def ofState (s : NodeState) : Json := string s.identifier

/-- The state of a name. -/
def stateNamed? (name : String) : Option NodeState :=
  NodeState.all.find? fun s => s.identifier == name

def state? (v : Json) : Option NodeState := (choice? v).bind stateNamed?

def ofPhase (p : Phase) : Json := string p.identifier

def phase? (v : Json) : Option Phase :=
  (choice? v).bind fun name => Phase.all.find? fun p => p.identifier == name

def ofIdentifier (i : Identifier) : Json := string i.text

def identifier? : Json → Option Identifier
  | string s => Identifier.readDecorated? s
  | _ => none

def ofStreamConfig (c : StreamConfig) : Json :=
  ofMembers
    [("level_tick_interval", ofNat c.levelTickInterval.toNat),
      ("create_budget", ofOption (fun n => ofNat n.toNat) c.createBudget),
      ("unload_budget", ofOption (fun n => ofNat n.toNat) c.unloadBudget)]

def ofWorldConfig (c : WorldConfig) : Json :=
  ofMembers
    [("level_count", ofNat c.levelCount.toNat),
      ("eviction_timeout_secs", ofFloat c.evictionTimeoutSecs)]

end Json

end OctreeWorld
