import OctreeWorld.Engine

/-!
# Summaries

What an inspector of a world or an engine is shown: node counts by level and state, the links of a
single node, and the counters of an engine. Summaries read and never change what they describe.
-/

namespace OctreeWorld

/-- Node counts of one level. -/
structure LevelSummary where
  level : UInt8 := 0
  nodes : Nat := 0
  loading : Nat := 0
  loaded : Nat := 0
  unloading : Nat := 0
  deleting : Nat := 0
  /-- Nodes with an observer. -/
  observed : Nat := 0
  /-- Commands waiting in any queue. -/
  pending : Nat := 0
deriving DecidableEq, Inhabited

namespace LevelSummary

def text (s : LevelSummary) : String :=
  s!"L{s.level.toNat}: nodes={s.nodes} loading={s.loading} loaded={s.loaded} " ++
    s!"unloading={s.unloading} deleting={s.deleting} observed={s.observed} pending={s.pending}"

end LevelSummary

/-- Count the nodes of a level by state. -/
def Level.summary {N L : Type} (l : Level N L) : LevelSummary :=
  let inState (s : NodeState) := (l.nodeList.filter (·.state == s)).length
  { level := l.index
    nodes := l.size
    loading := inState .loading
    loaded := inState .loaded
    unloading := inState .unloading
    deleting := inState .deleting
    observed := (l.nodeList.filter fun n => decide (0 < n.observers)).length
    pending := l.pendingTotal }

/-- Node counts of one world, levels finest first. -/
structure WorldSummary where
  id : WorldId
  tick : UInt64
  now : SimTime
  /-- Nodes of the world's own hierarchy. -/
  nodes : Nat
  regions : Nat
  /-- Nodes of the world's own hierarchy and of its regions. -/
  totalNodes : Nat
  levels : List LevelSummary
deriving DecidableEq

namespace WorldSummary

/-- One line for the world and one, indented, for every level. -/
def lines (s : WorldSummary) : List String :=
  ("World [" ++ s.id.short ++ s!"]: tick={s.tick.toNat} time=" ++ s.now.text ++
    s!" nodes={s.nodes} regions={s.regions} total_nodes={s.totalNodes}") ::
    s.levels.map fun l => "  " ++ l.text

/-- The lines, each ended by a line feed. -/
def text (s : WorldSummary) : String := String.join (s.lines.map (· ++ "\n"))

end WorldSummary

def World.summary {σ N L : Type} (w : World σ N L) : WorldSummary :=
  { id := w.id
    tick := w.tick
    now := w.now
    nodes := w.nodeCount
    regions := w.regions.length
    totalNodes := w.totalNodeCount
    levels := w.hierarchy.levels.map Level.summary }

/-- Links and life of one node. -/
structure NodeSummary where
  coord : Coord
  state : NodeState
  parent : Option Coord := none
  children : Nat
  neighbours : Nat
  observers : UInt32
  version : UInt32
  lastUpdate : SimTime
  /-- The least level-0 cell of the footprint. -/
  origin : Position
deriving DecidableEq

namespace NodeSummary

def text (s : NodeSummary) : String :=
  "Node " ++ s.coord.text ++ " [" ++ s.state.text ++
    s!"] children={s.children} neighbours={s.neighbours} observers={s.observers.toNat} " ++
    s!"v{s.version.toNat} updated=" ++ s.lastUpdate.text ++
    s!" origin=({s.origin.x.toInt}, {s.origin.y.toInt}, {s.origin.z.toInt})"

end NodeSummary

/-- The node at a coordinate of the world's own hierarchy. -/
def World.inspect? {σ N L : Type} (w : World σ N L) (c : Coord) : Option NodeSummary :=
  (w.hierarchy.get? c).map fun n =>
    { coord := c
      state := n.state
      parent := n.parentCoord?
      children := n.childCoords.length
      neighbours := n.neighbourCoords.length
      observers := n.observers
      version := n.version
      lastUpdate := n.lastUpdate
      origin := c.origin }

/-- Counters and tick timing of an engine. -/
structure EngineSummary where
  tick : UInt64
  now : SimTime
  worlds : Nat
  loaders : Nat
  nodes : Nat
  regions : Nat
  averageTick : Duration
  slowestTick : Duration
deriving DecidableEq

namespace EngineSummary

/-- The counters, without the timing. -/
def countersText (s : EngineSummary) : String :=
  s!"Engine: tick={s.tick.toNat} time=" ++ s.now.text ++
    s!" worlds={s.worlds} loaders={s.loaders} nodes={s.nodes} regions={s.regions}"

def text (s : EngineSummary) : String :=
  s.countersText ++ " avg_tick=" ++ s.averageTick.text ++ " max_tick=" ++ s.slowestTick.text

end EngineSummary

/-- The counters of an engine, the average tick being the greatest span when no span holds the
sum of the window. -/
def Engine.summary {σ N L : Type} (e : Engine σ N L) : EngineSummary :=
  { tick := e.tick
    now := e.now
    worlds := e.worlds.length
    loaders := e.loaders.size
    nodes := e.nodeCount
    regions := e.regionCount
    averageTick := e.timer.average?.getD Duration.greatest
    slowestTick := e.timer.longest }

end OctreeWorld
