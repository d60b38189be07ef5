import OctreeWorld.Box
import OctreeWorld.Lifecycle
import OctreeWorld.Loader

/-!
# Regions

A region is a slice of a world with a hierarchy and loaders of its own, which ticks independently of
the rest. It tracks two sets of coordinates: `changed`, the nodes to flush on the next tick, and
`unobserved`, the resident nodes without an observer, among which eviction looks for candidates.
-/

namespace OctreeWorld

/-- The processors of nodes, by command. -/
structure NodeProcessors (σ N L : Type) where
  load : List (NodeProcessor σ N L) := []
  unload : List (NodeProcessor σ N L) := []
  tick : List (NodeProcessor σ N L) := []

/-- Loaders by identifier, listed in the order of identifiers. -/
abbrev LoaderMap := Std.ExtTreeMap LoaderId Loader

/-- An independently ticking slice of a world. -/
structure Region (N L : Type) where
  id : RegionId
  world : WorldId
  box : Box
  factory : PayloadFactory N L
  hierarchy : Hierarchy N L
  loaders : LoaderMap := ∅
  /-- Nodes whose payload is to be flushed. -/
  changed : CoordSet := ∅
  /-- Resident nodes without an observer. -/
  unobserved : CoordSet := ∅

/-- What one tick of a region did. -/
structure RegionTickStats where
  flushed : Nat := 0
  evicted : Nat := 0
  created : Nat := 0
  loaded : Nat := 0
  unloaded : Nat := 0
  destroyed : Nat := 0
  ticked : Nat := 0
deriving DecidableEq, Inhabited

namespace RegionTickStats

instance : Add RegionTickStats where
  add a b :=
    { flushed := a.flushed + b.flushed, evicted := a.evicted + b.evicted,
      created := a.created + b.created, loaded := a.loaded + b.loaded,
      unloaded := a.unloaded + b.unloaded, destroyed := a.destroyed + b.destroyed,
      ticked := a.ticked + b.ticked }

/-- The counts of several ticks together. -/
def total (stats : List RegionTickStats) : RegionTickStats := stats.foldl (· + ·) {}

/-- Nodes that a tick carried from one stage of their life to the next. -/
def work (s : RegionTickStats) : Nat := s.created + s.loaded + s.unloaded + s.destroyed

end RegionTickStats

namespace Region

variable {N L σ : Type}

/-- A region without nodes. -/
def empty (id : RegionId) (world : WorldId) (box : Box) (factory : PayloadFactory N L)
    (levelCount : UInt8) : Region N L :=
  { id, world, box, factory, hierarchy := Hierarchy.empty factory levelCount }

def nodeCount (r : Region N L) : Nat := r.hierarchy.nodeCount

def isEmpty (r : Region N L) : Bool := r.nodeCount == 0

/-- Whether some part of the cell's footprint lies in the region. -/
def covers (r : Region N L) (c : Coord) : Bool := r.box.intersectsCoord c

/-- The loaders in the order of their identifiers. -/
def loaderList (r : Region N L) : List Loader := r.loaders.values

/-- Track newly created nodes. Nobody observes them yet. -/
def track (r : Region N L) (created : List Coord) (h : Hierarchy N L) : Region N L :=
  { r with hierarchy := h, unobserved := r.unobserved.addAll created }

/-- Stop tracking removed nodes. -/
def forget (r : Region N L) (removed : List Coord) (h : Hierarchy N L) : Region N L :=
  { r with
    hierarchy := h
    changed := r.changed.removeAll removed
    unobserved := r.unobserved.removeAll removed }

/-- Create a cell and its missing ancestors at once and queue their loads. Answers whether the cell
was missing. -/
def loadNode (r : Region N L) (c : Coord) (now : SimTime) :
    Except OctreeError Bool × Region N L :=
  let (result, created, h) := r.hierarchy.ensure r.factory now c
  match result with
  | .ok missing => (.ok missing, r.track created h)
  | .error e => (.error e, { r with hierarchy := h })

/-- Unload the subtree of a cell at once. Answers the number of nodes removed. -/
def unloadNode (r : Region N L) (ps : NodeProcessors σ N L) (c : Coord) (tick : UInt64)
    (now : SimTime) (s : σ) : Except OctreeError Nat × Region N L × σ :=
  let ctx : BatchContext := { world := r.world, kind := .unload, level := some c.level, now, tick }
  let (result, h, s) := r.hierarchy.unloadSubtree ps.unload ctx c s
  match result with
  | .ok removed => (.ok removed.length, r.forget removed h, s)
  | .error e => (.error e, { r with hierarchy := h }, s)

/-- Add an observer to a node. Answers the new count. -/
def observe (r : Region N L) (c : Coord) : Except OctreeError (UInt32 × Region N L) :=
  match r.hierarchy.get? c with
  | none => .error (.nodeMissing c)
  | some n =>
    .ok (n.addObserver.observers,
      { r with
        hierarchy := r.hierarchy.modify c (·.addObserver)
        unobserved := r.unobserved.erase c })

/-- Take an observer from a node. Answers the new count. -/
def release (r : Region N L) (c : Coord) : Except OctreeError (UInt32 × Region N L) :=
  match r.hierarchy.get? c with
  | none => .error (.nodeMissing c)
  | some n =>
    match n.removeObserver? with
    | none => .error (.noObservers c)
    | some released =>
      .ok (released.observers,
        { r with
          hierarchy := r.hierarchy.modify c fun _ => released
          unobserved :=
            if released.observers = 0 then r.unobserved.insert c else r.unobserved })

/-- Mark a node's payload as changed, to be flushed by the next tick. -/
def markChanged (r : Region N L) (c : Coord) : Except OctreeError (Region N L) :=
  if r.hierarchy.contains c then .ok { r with changed := r.changed.insert c }
  else .error (.nodeMissing c)

def addLoader (r : Region N L) (id : LoaderId) (l : Loader) : Region N L :=
  { r with loaders := r.loaders.insert id l }

def modifyLoader (r : Region N L) (id : LoaderId) (f : Loader → Loader) : Region N L :=
  { r with loaders := r.loaders.modify id f }

def removeLoader (r : Region N L) (id : LoaderId) : Region N L :=
  { r with loaders := r.loaders.erase id }

/-- Change the level at an index. -/
def modifyLevel (r : Region N L) (index : UInt8) (f : Level N L → Level N L) : Region N L :=
  { r with hierarchy := r.hierarchy.modifyLevel index f }

/-- Exchange the levels at two indices, absent when the region lacks one of them. -/
def swapLevels? (r : Region N L) (a b : UInt8) : Option (Region N L) := do
  let la ← r.hierarchy.level? a
  let lb ← r.hierarchy.level? b
  return { r with hierarchy := (r.hierarchy.modifyLevel a fun _ => lb).modifyLevel b fun _ => la }

/-! ### Ticking -/

/-- One level's part of a flush: raise the version of each changed node and stamp it, then run the
tick processors over them. -/
def flushLevel (ps : List (NodeProcessor σ N L)) (ctx : BatchContext) (changed : List Coord)
    (l : Level N L) (s : σ) : Nat × Level N L × σ :=
  let cs := changed.filter fun c => c.level == l.index
  let l := l.modifyAll cs fun n => n.bumpVersion.touch ctx.now
  let (l, s) := runNodeBatch ps (ctx.atLevel l.index) l cs s
  (cs.length, l, s)

/-- Flush the changed nodes. Answers how many there were. -/
def flushChanged (r : Region N L) (ps : NodeProcessors σ N L) (tick : UInt64) (now : SimTime)
    (s : σ) : Nat × Region N L × σ :=
  let ctx : BatchContext := { world := r.world, kind := .tick, now, tick }
  let (count, h, s) :=
    r.hierarchy.sweepLevels (flushLevel ps.tick ctx r.changed.toList) s
  (count, { r with hierarchy := h, changed := ∅ }, s)

/-- Look at one candidate of an eviction: an unused node moves to unloading and is queued, a
coordinate without a node is no longer tracked. Counts the nodes queued. -/
def evictOne (now : SimTime) (timeout : Duration) (acc : Nat × Region N L) (c : Coord) :
    Nat × Region N L :=
  let (count, r) := acc
  match r.hierarchy.level? c.level with
  | none => (count, r)
  | some l =>
    match l.get? c with
    | none => (count, { r with unobserved := r.unobserved.erase c })
    | some n =>
      if n.isUnused now timeout then
        (count + 1,
          r.modifyLevel c.level fun l => (l.modify c (·.withState .unloading)).push .unload c)
      else (count, r)

/-- Queue the unused nodes among the unobserved ones for unload. Answers how many there were. -/
def evictExpired (r : Region N L) (now : SimTime) (timeout : Duration) : Nat × Region N L :=
  r.unobserved.toList.foldl (evictOne now timeout) (0, r)

/-- One level's part of a tick: what was loaded, ticked and unloaded. -/
def tickLevel (ps : NodeProcessors σ N L) (ctx : BatchContext) (l : Level N L) (s : σ) :
    (Nat × Nat × Nat) × Level N L × σ :=
  let ctx := ctx.atLevel l.index
  let (loaded, l, s) := l.load ps.load (ctx.withKind .load) s
  let (ticked, l, s) := l.tick ps.tick (ctx.withKind .tick) s
  let (unloaded, l, s) := l.unload ps.unload (ctx.withKind .unload) s
  ((loaded, ticked, unloaded), l, s)

/-- One tick: flush changed nodes, evict unused ones, then drain the create queues, each level's
load, tick and unload queues, and the destroy queues. -/
def tick (r : Region N L) (ps : NodeProcessors σ N L) (tick : UInt64) (now : SimTime)
    (timeout : Duration) (s : σ) : RegionTickStats × Region N L × σ :=
  let (flushed, r, s) := r.flushChanged ps tick now s
  let (evicted, r) := r.evictExpired now timeout
  let (created, h) := r.hierarchy.createPending r.factory now
  let r := r.track created h
  let ctx : BatchContext := { world := r.world, kind := .load, now, tick }
  let (counts, levels, s) := sweep (tickLevel ps ctx) r.hierarchy.levels s
  let (removed, h, s) := Hierarchy.destroyPending ⟨levels⟩ ps.unload (ctx.withKind .unload) s
  let r := r.forget removed h
  ({ flushed, evicted
     created := created.length
     loaded := tally (counts.map fun (n, _, _) => n)
     unloaded := tally (counts.map fun (_, _, n) => n)
     destroyed := removed.length
     ticked := tally (counts.map fun (_, n, _) => n) },
    r, s)

/-- The region as the diagnostic listings write it. -/
def diagnostic (r : Region N L) : String :=
  "Region \x7b id: RegionId(" ++ r.id.text ++ "), world: WorldId(" ++ r.world.text ++
    "), aabb: " ++ r.box.diagnostic ++ ", nodes: " ++ toString r.nodeCount ++
    ", loaders: " ++ toString r.loaders.size ++ ", changed: " ++ toString r.changed.size ++
    ", no_observers: " ++ toString r.unobserved.size ++ " \x7d"

end Region

end OctreeWorld
