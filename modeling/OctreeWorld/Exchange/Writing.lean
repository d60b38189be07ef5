import OctreeWorld.Document
import OctreeWorld.Journal
import OctreeWorld.Region.Merge
import OctreeWorld.Summary

/-!
# Writing exchanged values

The counterpart of the readings: coordinates and boxes are lists, a 64-bit quantity is a string of
decimal digits, and a double is the sixteen hexadecimal digits of its word.
-/

namespace OctreeWorld.Exchange

/-! ### Numbers and times -/

/-- A natural quantity of 64 bits. -/
def ofWide (n : Nat) : Json := .string (toString n)

/-- A signed quantity of 64 bits. -/
def ofInt64 (n : Int64) : Json := .string (toString n.toInt)

/-- A double, by its word. -/
def ofWord (w : UInt64) : Json := .string ("0x" ++ String.ofList (Hex.digits 16 w.toNat))

def ofFloat (x : Float) : Json := ofWord x.toBits

def ofSimTime (t : SimTime) : Json := ofWide t.micros.toNat

def ofDuration (d : Duration) : Json := .array [ofWide d.seconds, .ofNat d.subsecondNanos]

def ofBools (bs : List Bool) : Json := .array (bs.map Json.bool)

/-! ### Space -/

def ofCoord (c : Coord) : Json :=
  .array [.ofInt c.pos.x.toInt, .ofInt c.pos.y.toInt, .ofInt c.pos.z.toInt, .ofNat c.level.toNat]

def ofCoords (cs : List Coord) : Json := .array (cs.map ofCoord)

/-- The sum of the products of place and value, places counting from one. -/
def placedSum (xs : List Int32) : Int64 :=
  (xs.foldl (fun (i, sum) x => (i + 1, sum + i * x.toInt64)) ((1, 0) : Int64 × Int64)).2

/-- The longest list of cells that is written out. -/
def longestListing : Nat := 130

/-- A list of cells. One that is too long to be written out is known by its length, its ends and
the sums of each axis, weighted by place. -/
def ofManyCoords (cs : List Coord) : Json :=
  if cs.length ≤ longestListing then ofCoords cs
  else
    let sum (axis : Position → Int32) := ofInt64 (placedSum (cs.map fun c => axis c.pos))
    Json.ofMembers
      [("count", .ofNat cs.length), ("first", Json.ofOption ofCoord cs.head?),
        ("last", Json.ofOption ofCoord cs.getLast?),
        ("sums", .array [sum (·.x), sum (·.y), sum (·.z)])]

def ofBox (b : Box) : Json := .array [Json.ofPosition b.lo, Json.ofPosition b.hi]

/-- The members of a loader in the order of their names. -/
def ofLoader (l : Loader) : Json :=
  Json.ofMembers
    [("cadence", .ofNat l.cadence.toNat), ("max", .ofNat l.maxLevel.toNat),
      ("min", .ofNat l.minLevel.toNat), ("pos", Json.ofPosition l.position),
      ("radius", .ofNat l.radius.toNat)]

/-- Loaders in the order of their texts, which does not depend on their identifiers. -/
def ofLoaders (ls : List Loader) : Json :=
  .array ((ls.map ofLoader).mergeSort fun a b => (compare a.text b.text).isLE)

/-! ### Nodes and levels -/

def ofIndex? (i : Option UInt8) : Json := Json.ofOption (fun i : UInt8 => .ofNat i.toNat) i

def ofNode {N : Type} (payload : N → Json) (n : Node N) : Json :=
  Json.ofMembers
    [("c", ofCoord n.coord), ("state", .string n.state.text),
      ("parent_index", ofIndex? n.parentIndex), ("parent", Json.ofOption ofCoord n.parentCoord?),
      ("cm", .ofNat n.childMask.toNat), ("nm", .ofNat n.neighbourMask.toNat),
      ("leaf", .bool n.isLeaf), ("obs", .ofNat n.observers.toNat), ("ver", .ofNat n.version.toNat),
      ("t", ofSimTime n.lastUpdate), ("data", payload n.data)]

/-- The links that lead away from a node, other than the one to its parent. -/
def ofLinks {N : Type} (n : Node N) : Json :=
  let neighbour (d : Direction) (c : Coord) : Json := .array [.ofNat d.index, ofCoord c]
  Json.ofMembers
    [("children", ofCoords n.childCoords),
      ("neighbours", .array (n.neighbourCoords.map fun (d, c) => neighbour d c)),
      ("has_child", ofBools (Octant.all.map n.hasChild))]

/-- A level with its nodes, each found again under its own coordinate and in the order of these,
and with every pending command. A coordinate under which the level has no node is passed over. -/
def ofLevel {N L : Type} (payload : N → Json) (levelPayload : L → Json) (l : Level N L) : Json :=
  let node (c : Coord) : Option Json := (l.get? c).map fun n =>
    .array
      [.ofInt c.pos.x.toInt, .ofInt c.pos.y.toInt, .ofInt c.pos.z.toInt, .string n.state.text,
        ofIndex? n.parentIndex, .ofNat n.childMask.toNat, .ofNat n.neighbourMask.toNat,
        .ofNat n.observers.toNat, .ofNat n.version.toNat, ofSimTime n.lastUpdate, payload n.data]
  let coords := (l.nodes.values.map (·.coord)).mergeSort fun c d => (compare c.pos d.pos).isLE
  let queue (q : Queue) : Option (String × Json) :=
    if (l.pending q).isEmpty then none else some (q.text, ofCoords (l.pending q))
  Json.ofMembers
    [("level", .ofNat l.index.toNat), ("data", levelPayload l.data),
      ("nodes", .array (coords.filterMap node)),
      ("queues", Json.ofMembers (Queue.all.filterMap queue))]

def ofNodeSummary (s : NodeSummary) : Json :=
  Json.ofMembers
    [("c", ofCoord s.coord), ("state", .string s.state.text),
      ("parent", Json.ofOption ofCoord s.parent), ("children", .ofNat s.children),
      ("neighbours", .ofNat s.neighbours), ("obs", .ofNat s.observers.toNat),
      ("ver", .ofNat s.version.toNat), ("t", ofSimTime s.lastUpdate),
      ("origin", Json.ofPosition s.origin), ("display", .string s.text)]

/-! ### Counts of work -/

def ofStreamStats (s : StreamStats) : Json :=
  Json.ofMembers
    [("touched", .ofNat s.touched), ("requested", .ofNat s.requested),
      ("evicted", .ofNat s.evicted)]

def ofRegionStats (s : RegionTickStats) : Json :=
  Json.ofMembers
    [("flushed", .ofNat s.flushed), ("evicted", .ofNat s.evicted), ("created", .ofNat s.created),
      ("loaded", .ofNat s.loaded), ("unloaded", .ofNat s.unloaded),
      ("destroyed", .ofNat s.destroyed), ("ticked", .ofNat s.ticked)]

def ofTickStats (s : TickStats) : Json :=
  Json.ofMembers
    [("tick", ofWide s.tick.toNat), ("stream", ofStreamStats s.stream),
      ("regions", ofRegionStats s.regions), ("ticked", .ofNat s.ticked),
      ("created", .ofNat s.created), ("loaded", .ofNat s.loaded),
      ("unloaded", .ofNat s.unloaded), ("destroyed", .ofNat s.destroyed)]

def ofMergeStats (s : MergeStats) : Json :=
  Json.ofMembers
    [("moved", .ofNat s.moved), ("collisions", .ofNat s.collisions),
      ("commands", .ofNat s.commands)]

/-- What one batch did, oldest event first. -/
def ofJournalEntry (e : JournalEntry) : Json :=
  Json.ofMembers
    [("kind", .string e.kind.text),
      ("level", Json.ofOption (fun index : UInt8 => .ofNat index.toNat) e.level),
      ("tick", ofWide e.tick.toNat), ("now", ofSimTime e.now),
      ("ev", .array (e.events.reverse.map Json.string))]

/-! ### Settings -/

/-- The settings of an engine, and what follows from them. -/
def configMembers (c : EngineConfig) : List (String × Json) :=
  let word (n : Option UInt64) := Json.ofOption (fun n : UInt64 => ofWide n.toNat) n
  [("levels", .ofNat c.world.levelCount.toNat), ("timeout", ofFloat c.world.evictionTimeoutSecs),
    ("eviction", ofDuration c.world.evictionTimeout), ("coarsest", .ofNat c.world.coarsest.toNat),
    ("interval", .ofNat c.stream.levelTickInterval.toNat),
    ("create_budget", word c.stream.createBudget), ("unload_budget", word c.stream.unloadBudget),
    ("threads", word c.threads), ("tick_ms", ofWide c.tickIntervalMs.toNat),
    ("tick", ofDuration c.tickInterval)]

end OctreeWorld.Exchange
