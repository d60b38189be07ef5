import OctreeWorld.Region.Edit
import OctreeWorld.WorldConfig

/-!
# Worlds

A world owns a hierarchy, the processors attached to the life of its nodes, and the regions that
partition it. Lifecycle work goes through the command queues, which the phases drain; once per tick
they run in a fixed order: level workers, region workers, the world worker, then create, load,
unload and destroy.

A phase that works level by level or region by region visits them in order. Each of them touches
nothing outside its own level or region, so any other order gives the same world.
-/

namespace OctreeWorld

/-- All processors registered on a world. -/
structure ProcessorRegistry (σ N L : Type) extends NodeProcessors σ N L where
  level : List (LevelProcessor σ N L) := []
  region : List (RegionProcessor σ N L) := []

namespace ProcessorRegistry

variable {σ N L : Type}

/-- The processors of nodes for a kind of command, none for levels and regions. -/
def ofKind (ps : ProcessorRegistry σ N L) : CommandKind → List (NodeProcessor σ N L)
  | .load => ps.load
  | .unload => ps.unload
  | .tick => ps.tick
  | .level => []
  | .region => []

def size (ps : ProcessorRegistry σ N L) : Nat :=
  ps.load.length + ps.unload.length + ps.tick.length + ps.level.length + ps.region.length

def isEmpty (ps : ProcessorRegistry σ N L) : Bool := ps.size == 0

/-- Names in quotes, separated by commas, in square brackets. -/
def namesText (ps : List (NodeProcessor σ N L)) : String :=
  "[" ++ String.intercalate ", " (ps.map fun p => "\"" ++ p.name ++ "\"") ++ "]"

/-- The registry as the diagnostic listings write it. -/
def diagnostic (ps : ProcessorRegistry σ N L) : String :=
  "ProcessorRegistry \x7b load: " ++ namesText ps.load ++ ", unload: " ++ namesText ps.unload ++
    ", tick: " ++ namesText ps.tick ++ ", level: " ++ toString ps.level.length ++
    ", region: " ++ toString ps.region.length ++ " \x7d"

end ProcessorRegistry

/-- A multi-resolution world. -/
structure World (σ N L : Type) where
  id : WorldId
  config : WorldConfig
  bounds : Box := Box.everything
  factory : PayloadFactory N L
  hierarchy : Hierarchy N L
  processors : ProcessorRegistry σ N L := {}
  regions : List (Region N L) := []
  tick : UInt64 := 0
  now : SimTime := SimTime.zero

namespace World

variable {σ N L : Type}

/-- A world without nodes. -/
def empty (id : WorldId) (config : WorldConfig) (factory : PayloadFactory N L) : World σ N L :=
  { id, config, factory, hierarchy := Hierarchy.empty factory config.levelCount }

def nodeCount (w : World σ N L) : Nat := w.hierarchy.nodeCount

/-- Nodes of the world's own hierarchy and of its regions. -/
def totalNodeCount (w : World σ N L) : Nat :=
  w.nodeCount + tally (w.regions.map Region.nodeCount)

/-- Set the clock for the tick about to run. Time never moves back. -/
def setTime (w : World σ N L) (tick : UInt64) (now : SimTime) : World σ N L :=
  { w with tick, now := w.now.latest now }

/-- The context of the world's batches of a kind. -/
def batchContext (w : World σ N L) (kind : CommandKind) : BatchContext :=
  { world := w.id, kind, now := w.now, tick := w.tick }

/-- Change the level at an index. -/
def modifyLevel (w : World σ N L) (index : UInt8) (f : Level N L → Level N L) : World σ N L :=
  { w with hierarchy := w.hierarchy.modifyLevel index f }

/-- Change the node at a coordinate. -/
def modifyNode (w : World σ N L) (c : Coord) (f : Node N → Node N) : World σ N L :=
  { w with hierarchy := w.hierarchy.modify c f }

/-! ### Single nodes -/

/-- Create and link one node at once. Its parent has to be resident, unless the node lies on the
coarsest level. It starts as loading and is queued for the next load phase. -/
def createNode (w : World σ N L) (c : Coord) : Except OctreeError (World σ N L) := do
  let h ← w.hierarchy.insert (Node.fresh c (w.factory.node c))
  let h := h.modifyLevel c.level (·.push .load c)
  return { w with hierarchy := h.modify c fun n => (n.withState .loading).touch w.now }

/-- Unload the subtree of a cell at once. Answers the number of nodes removed. -/
def unloadNode (w : World σ N L) (c : Coord) (s : σ) :
    Except OctreeError Nat × World σ N L × σ :=
  let (r, h, s) := w.hierarchy.unloadSubtree w.processors.unload (w.batchContext .unload) c s
  (r.map (·.length), { w with hierarchy := h }, s)

/-- Add an observer to a node. Answers the new count. -/
def observe (w : World σ N L) (c : Coord) : Except OctreeError (UInt32 × World σ N L) :=
  match w.hierarchy.get? c with
  | none => .error (.nodeMissing c)
  | some n => .ok (n.addObserver.observers, w.modifyNode c (·.addObserver))

/-- Take an observer from a node. Answers the new count. -/
def release (w : World σ N L) (c : Coord) : Except OctreeError (UInt32 × World σ N L) :=
  match w.hierarchy.get? c with
  | none => .error (.nodeMissing c)
  | some n =>
    match n.removeObserver? with
    | none => .error (.noObservers c)
    | some released => .ok (released.observers, w.modifyNode c fun _ => released)

/-- Whether the world has a level that takes commands for the coordinate. -/
def accepts (w : World σ N L) (c : Coord) : Bool :=
  (w.hierarchy.level? c.level).any (·.accepts c)

/-- Request a cell for the next create phase. A level out of range changes nothing. -/
def queueCreate (w : World σ N L) (c : Coord) : World σ N L :=
  w.modifyLevel c.level (·.push .create c)

/-- Request the unload of a cell for the next unload phase. A resident node that is not deleting
moves to unloading at once. -/
def queueUnload (w : World σ N L) (c : Coord) : World σ N L :=
  w.modifyLevel c.level fun l =>
    (l.modify c fun n => if n.state = .deleting then n else n.withState .unloading).push .unload c

/-- Request a tick of a cell for the next world worker. -/
def queueTick (w : World σ N L) (c : Coord) : World σ N L :=
  w.modifyLevel c.level (·.push .tick c)

/-- Check every link of the world and of its regions, reporting the first that is broken. -/
def check (w : World σ N L) : Except OctreeError Unit := do
  w.hierarchy.check
  w.regions.forM fun r => r.hierarchy.check

/-! ### Phases, in the order of a tick -/

/-- Per-level work: the level processors, then `f`. Answers what `f` did to each level, finest
first. -/
def levelWorkerPhase {α : Type} (w : World σ N L) (f : Level N L → α × Level N L) (s : σ) :
    List α × World σ N L × σ :=
  let ctx := w.batchContext .level
  let step (l : Level N L) (s : σ) : α × Level N L × σ :=
    let (l, s) := runLevelBatch w.processors.level (ctx.atLevel l.index) l s
    let (a, l) := f l
    (a, l, s)
  let (as, levels, s) := sweep step w.hierarchy.levels s
  (as, { w with hierarchy := ⟨levels⟩ }, s)

/-- Per-region work: the region processors, then `f`, then the region's own tick. Answers what `f`
and the ticks did. -/
def regionWorkerPhase {α : Type} (w : World σ N L) (f : Region N L → α × Region N L) (s : σ) :
    List α × RegionTickStats × World σ N L × σ :=
  let ctx := w.batchContext .region
  let timeout := w.config.evictionTimeout
  let step (r : Region N L) (s : σ) : (α × RegionTickStats) × Region N L × σ :=
    let (r, s) := runRegionBatch w.processors.region ctx r s
    let (a, r) := f r
    let (stats, r, s) := r.tick w.processors.toNodeProcessors w.tick w.now timeout s
    ((a, stats), r, s)
  let (results, regions, s) := sweep step w.regions s
  (results.map (·.1), RegionTickStats.total (results.map (·.2)), { w with regions }, s)

/-- Run a step on every level and add up what it answers. -/
def drainLevels (w : World σ N L) (kind : CommandKind)
    (step : BatchContext → Level N L → σ → Nat × Level N L × σ) (s : σ) :
    Nat × World σ N L × σ :=
  let ctx := w.batchContext kind
  let (count, h, s) := w.hierarchy.sweepLevels (fun l => step (ctx.atLevel l.index) l) s
  (count, { w with hierarchy := h }, s)

/-- Whole-world work: drain every tick queue. Answers the number of nodes ticked. -/
def worldWorkerPhase (w : World σ N L) (s : σ) : Nat × World σ N L × σ :=
  w.drainLevels .tick (Level.tick w.processors.tick) s

/-- Drain the create queues, coarsest level first. Answers the number of nodes created, ancestors
included. -/
def createPhase (w : World σ N L) : Nat × World σ N L :=
  let (created, h) := w.hierarchy.createPending w.factory w.now
  (created.length, { w with hierarchy := h })

/-- Drain the load queues. Answers the number of nodes loaded. -/
def loadPhase (w : World σ N L) (s : σ) : Nat × World σ N L × σ :=
  w.drainLevels .load (Level.load w.processors.load) s

/-- Drain the unload queues. Answers the number of nodes unloaded. -/
def unloadPhase (w : World σ N L) (s : σ) : Nat × World σ N L × σ :=
  w.drainLevels .unload (Level.unload w.processors.unload) s

/-- Remove the nodes whose unload has run, finest level first. Answers the number removed. -/
def destroyPhase (w : World σ N L) (s : σ) : Nat × World σ N L × σ :=
  let (removed, h, s) :=
    w.hierarchy.destroyPending w.processors.unload (w.batchContext .unload) s
  (removed.length, { w with hierarchy := h }, s)

/-! ### Regions -/

def region? (w : World σ N L) (id : RegionId) : Option (Region N L) :=
  w.regions.find? (·.id == id)

/-- Add an empty region. -/
def addRegion (w : World σ N L) (id : RegionId) (box : Box) : World σ N L :=
  { w with regions := w.regions ++ [Region.empty id w.id box w.factory w.hierarchy.levelCount] }

/-- Change the region of an identifier. -/
def modifyRegion (w : World σ N L) (id : RegionId) (f : Region N L → Region N L) : World σ N L :=
  { w with regions := w.regions.map fun r => if r.id = id then f r else r }

def removeRegion (w : World σ N L) (id : RegionId) : World σ N L :=
  { w with regions := w.regions.filter (·.id != id) }

/-- The first region whose box holds the origin of the cell's footprint. -/
def regionAt? (w : World σ N L) (c : Coord) : Option RegionId :=
  (w.regions.find? (·.box.contains c.origin)).map (·.id)

/-- Fold one region into another and drop it. -/
def mergeRegions (w : World σ N L) (source destination : RegionId) :
    Except OctreeError MergeStats × World σ N L :=
  if source = destination then (.error (.selfMerge source), w)
  else
    match w.region? destination, w.region? source with
    | none, _ => (.error (.regionNotFound destination), w)
    | some _, none => (.error (.regionNotFound source), w)
    | some dst, some src =>
      let (r, src, dst) := Region.merge src dst
      let merged := w.modifyRegion destination fun _ => dst
      match r with
      | .ok _ => (r, merged.removeRegion source)
      | .error _ => (r, merged.modifyRegion source fun _ => src)

/-- The world as the diagnostic listings write it. -/
def diagnostic (w : World σ N L) : String :=
  "World \x7b id: WorldId(" ++ w.id.text ++ "), config: " ++ w.config.diagnostic ++
    ", bounds: " ++ w.bounds.diagnostic ++ ", nodes: " ++ toString w.nodeCount ++
    ", regions: " ++ toString w.regions.length ++ ", processors: " ++ w.processors.diagnostic ++
    ", tick: " ++ toString w.tick.toNat ++ ", now: SimTime(" ++ toString w.now.micros.toNat ++
    ") \x7d"

end World

end OctreeWorld
