import OctreeWorld.Region

/-!
# Streaming

Streaming keeps what the loaders cover resident and lets the rest go. On every tick each loader
stamps the resident nodes it covers. On the ticks on which a level is due, the level queues creation
of the cells that active loaders cover and that are not resident, and queues unload of the nodes
that nobody has needed for the timeout. Budgets bound both kinds of commands per level and tick.
-/

namespace OctreeWorld

/-- When levels stream, and how much. -/
structure StreamConfig where
  /-- Level `L` is due on the ticks for which tick plus `L` is divisible by the interval. Zero and
  one make every tick due. -/
  levelTickInterval : UInt32 := 1
  /-- Most create commands a level queues per tick, unbounded when absent. -/
  createBudget : Option UInt64 := none
  /-- Most unload commands a level queues per tick, unbounded when absent. -/
  unloadBudget : Option UInt64 := none
deriving DecidableEq, Inhabited

namespace StreamConfig

/-- Whether a level streams on a tick. -/
def levelDue (c : StreamConfig) (tick : UInt64) (level : UInt8) : Bool :=
  decide (c.levelTickInterval ≤ 1) ||
    (tick + level.toUInt64) % c.levelTickInterval.toUInt64 == 0

end StreamConfig

/-- What a streaming step did. -/
structure StreamStats where
  /-- Resident nodes stamped by keep-alive. -/
  touched : Nat := 0
  /-- Create commands queued. -/
  requested : Nat := 0
  /-- Nodes queued for unload. -/
  evicted : Nat := 0
deriving DecidableEq, Inhabited

namespace StreamStats

instance : Add StreamStats where
  add a b := ⟨a.touched + b.touched, a.requested + b.requested, a.evicted + b.evicted⟩

/-- The counts of several steps together. -/
def total (stats : List StreamStats) : StreamStats := stats.foldl (· + ·) {}

end StreamStats

/-- The first elements of a list up to a budget. -/
def takeBudget {α : Type} (budget : Option UInt64) (xs : List α) : List α :=
  match budget with
  | none => xs
  | some n => xs.take n.toNat

namespace Level

variable {N L : Type}

/-- Stamp the resident nodes that a loader covers. Answers how many there were. -/
def keepAlive (loader : Loader) (now : SimTime) (l : Level N L) : Nat × Level N L :=
  let covered := (loader.cells l.index).filter l.contains
  (covered.length, l.modifyAll covered (·.touch now))

/-- Collect distinct missing cells in the order of their visits while the budget allows. -/
def collectMissing (l : Level N L) (budget : Option UInt64) :
    List Coord → CoordSet → CoordSet
  | [], found => found
  | c :: cs, found =>
    if budget.any fun n => n.toNat ≤ found.size then found
    else collectMissing l budget cs (if l.contains c then found else found.insert c)

/-- The cells that the active loaders cover on this level, in the order of their visits. -/
def wanted (l : Level N L) (loaders : List Loader) (tick : UInt64) : List Coord :=
  (loaders.filter (·.isActive tick)).flatMap (·.cells l.index)

/-- Queue creation of the missing cells that active loaders cover, ordered by position. Answers how
many there were. -/
def requestLoads (loaders : List Loader) (tick : UInt64) (budget : Option UInt64)
    (l : Level N L) : Nat × Level N L :=
  let requests := (l.collectMissing budget (l.wanted loaders tick) ∅).toList
  (requests.length, l.pushAll .create requests)

/-- Order coordinates by position. -/
def byPosition (cs : List Coord) : List Coord := cs.mergeSort fun a b => (compare a.pos b.pos).isLE

/-- Queue unload of the unused nodes, ordered by position, and move them to unloading. Answers how
many there were. -/
def collectUnused (now : SimTime) (timeout : Duration) (budget : Option UInt64)
    (l : Level N L) : Nat × Level N L :=
  let unused := (l.nodeList.filter (·.isUnused now timeout)).map (·.coord)
  let chosen := takeBudget budget (byPosition unused)
  (chosen.length, (l.modifyAll chosen (·.withState .unloading)).pushAll .unload chosen)

/-- Load requests and eviction on a level that is due. -/
def stream (config : StreamConfig) (loaders : List Loader) (tick : UInt64) (now : SimTime)
    (timeout : Duration) (l : Level N L) : StreamStats × Level N L :=
  if config.levelDue tick l.index then
    let (requested, l) := l.requestLoads loaders tick config.createBudget
    let (evicted, l) := l.collectUnused now timeout config.unloadBudget
    ({ requested, evicted }, l)
  else ({}, l)

end Level

namespace Hierarchy

variable {N L : Type}

/-- Stamp the resident nodes that a loader covers, on every level. Answers how many there were. -/
def keepAlive (h : Hierarchy N L) (loader : Loader) (now : SimTime) : Nat × Hierarchy N L :=
  let steps := h.levels.map (Level.keepAlive loader now)
  (tally (steps.map (·.1)), ⟨steps.map (·.2)⟩)

/-- Stamp the resident nodes that each loader covers. Counts every stamp. -/
def keepAliveAll (now : SimTime) : List Loader → Hierarchy N L → Nat × Hierarchy N L
  | [], h => (0, h)
  | l :: ls, h =>
    let (touched, h) := h.keepAlive l now
    let (more, h) := keepAliveAll now ls h
    (touched + more, h)

end Hierarchy

namespace Region

variable {N L : Type}

/-- Load requests of a region's loaders on one level, if it is due. -/
def requestLevel (config : StreamConfig) (loaders : List Loader) (tick : UInt64)
    (l : Level N L) : Nat × Level N L :=
  if config.levelDue tick l.index then l.requestLoads loaders tick config.createBudget
  else (0, l)

/-- Keep-alive and load requests of a region's own loaders. Eviction is part of the region's
tick. -/
def stream (config : StreamConfig) (tick : UInt64) (now : SimTime) (r : Region N L) :
    StreamStats × Region N L :=
  let (touched, h) := Hierarchy.keepAliveAll now r.loaderList r.hierarchy
  let steps := h.levels.map (requestLevel config r.loaderList tick)
  ({ touched, requested := tally (steps.map (·.1)) },
    { r with hierarchy := ⟨steps.map (·.2)⟩ })

end Region

end OctreeWorld
