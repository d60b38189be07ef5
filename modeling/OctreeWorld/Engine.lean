import OctreeWorld.EngineConfig
import OctreeWorld.Phase
import OctreeWorld.TickTimer
import OctreeWorld.World

/-!
# The engine

An engine drives any number of worlds through the phases of a tick. Loaders registered on the engine
stream every world; loaders registered on a region stream that region only. Phases may also be run
one by one, always in order: a phase that is not the next one is refused and changes nothing.

The wall-clock time that a tick took is measured by whoever runs it and handed to the last phase; it
feeds the timer and nothing else.
-/

namespace OctreeWorld

/-- What one tick did. -/
structure TickStats where
  tick : UInt64 := 0
  stream : StreamStats := {}
  regions : RegionTickStats := {}
  /-- Nodes ticked by the world worker. -/
  ticked : Nat := 0
  created : Nat := 0
  loaded : Nat := 0
  unloaded : Nat := 0
  destroyed : Nat := 0
  duration : Duration := Duration.zero
deriving DecidableEq, Inhabited

/-- Worlds and loaders, with the clock and the cursor that drive them. -/
structure Engine (σ N L : Type) where
  config : EngineConfig
  /-- Worker threads in use. -/
  threads : Nat
  worlds : List (World σ N L) := []
  loaders : LoaderMap := ∅
  cursor : PhaseCursor := {}
  tick : UInt64 := 0
  now : SimTime := SimTime.zero
  /-- The counts of the tick in progress. -/
  current : TickStats := {}
  /-- The counts of the tick completed last. -/
  last : TickStats := {}
  timer : TickTimer := TickTimer.standard

namespace Engine

variable {σ N L : Type}

/-- An engine without worlds. `processors` is the number of threads when none is configured. -/
def create (config : EngineConfig) (processors : Nat) : Except ConfigFault (Engine σ N L) := do
  let config ← config.validated
  return { config, threads := (config.threads.map (·.toNat)).getD processors }

/-! ### Worlds and loaders -/

/-- Add a world, setting its clock to the engine's. -/
def insertWorld (e : Engine σ N L) (w : World σ N L) : Engine σ N L :=
  { e with worlds := e.worlds ++ [w.setTime e.tick e.now] }

/-- Add a world of the configured shape. -/
def addWorld (e : Engine σ N L) (id : WorldId) (factory : PayloadFactory N L) : Engine σ N L :=
  e.insertWorld (World.empty id e.config.world factory)

def world? (e : Engine σ N L) (id : WorldId) : Option (World σ N L) :=
  e.worlds.find? (·.id == id)

/-- Change the world of an identifier. -/
def modifyWorld (e : Engine σ N L) (id : WorldId) (f : World σ N L → World σ N L) :
    Engine σ N L :=
  { e with worlds := e.worlds.map fun w => if w.id = id then f w else w }

def removeWorld (e : Engine σ N L) (id : WorldId) : Engine σ N L :=
  { e with worlds := e.worlds.filter (·.id != id) }

def addLoader (e : Engine σ N L) (id : LoaderId) (l : Loader) : Engine σ N L :=
  { e with loaders := e.loaders.insert id l }

def modifyLoader (e : Engine σ N L) (id : LoaderId) (f : Loader → Loader) : Engine σ N L :=
  { e with loaders := e.loaders.modify id f }

def removeLoader (e : Engine σ N L) (id : LoaderId) : Engine σ N L :=
  { e with loaders := e.loaders.erase id }

/-- The loaders in the order of their identifiers. -/
def loaderList (e : Engine σ N L) : List Loader := e.loaders.values

/-- Resident nodes of every world, regions included. -/
def nodeCount (e : Engine σ N L) : Nat := tally (e.worlds.map World.totalNodeCount)

def regionCount (e : Engine σ N L) : Nat := tally (e.worlds.map fun w => w.regions.length)

/-- Move simulation time forward without running a tick. -/
def advanceTime (e : Engine σ N L) (d : Duration) : Engine σ N L :=
  { e with now := e.now.advance d }

/-! ### Phases -/

/-- Begin a tick: set every world's clock and stamp the nodes that the loaders cover. -/
def loaderPhase (e : Engine σ N L) : Nat × Engine σ N L :=
  let worlds := e.worlds.map fun w => w.setTime e.tick e.now
  let steps := worlds.map fun w => (w, w.hierarchy.keepAliveAll e.now e.loaderList)
  let touched := tally (steps.map fun (_, n, _) => n)
  (touched,
    { e with
      worlds := steps.map fun (w, _, h) => { w with hierarchy := h }
      current := { tick := e.tick, stream := { touched } } })

/-- One world's part of the level workers. -/
def streamWorld (e : Engine σ N L) (w : World σ N L) (s : σ) : StreamStats × World σ N L × σ :=
  let timeout := w.config.evictionTimeout
  let (stats, w, s) := w.levelWorkerPhase
    (Level.stream e.config.stream e.loaderList e.tick e.now timeout) s
  (StreamStats.total stats, w, s)

/-- One world's part of the region workers. -/
def tickRegions (e : Engine σ N L) (w : World σ N L) (s : σ) :
    (StreamStats × RegionTickStats) × World σ N L × σ :=
  let (streamed, regions, w, s) :=
    w.regionWorkerPhase (Region.stream e.config.stream e.tick e.now) s
  ((StreamStats.total streamed, regions), w, s)

/-- Level workers of every world: level processors, load requests and evictions. -/
def levelWorkerPhase (e : Engine σ N L) (s : σ) : Nat × Engine σ N L × σ :=
  let (stats, worlds, s) := sweep e.streamWorld e.worlds s
  let stats := StreamStats.total stats
  (stats.requested + stats.evicted,
    { e with worlds, current := { e.current with stream := e.current.stream + stats } }, s)

/-- Region workers of every world: region processors, the regions' streaming and their ticks. -/
def regionWorkerPhase (e : Engine σ N L) (s : σ) : Nat × Engine σ N L × σ :=
  let (stats, worlds, s) := sweep e.tickRegions e.worlds s
  let streamed := StreamStats.total (stats.map (·.1))
  let regions := RegionTickStats.total (stats.map (·.2))
  (regions.work,
    { e with
      worlds
      current := { e.current with
        stream := e.current.stream + streamed
        regions := e.current.regions + regions } }, s)

/-- Run one phase of every world, and record the sum of what it answers. -/
def worldPhase (e : Engine σ N L) (step : World σ N L → σ → Nat × World σ N L × σ)
    (record : TickStats → Nat → TickStats) (s : σ) : Nat × Engine σ N L × σ :=
  let (counts, worlds, s) := sweep step e.worlds s
  let count := tally counts
  (count, { e with worlds, current := record e.current count }, s)

/-- End a tick: keep its counts, time it, and move tick and clock on. -/
def finishPhase (e : Engine σ N L) (elapsed : Duration) : Engine σ N L :=
  let current := { e.current with duration := elapsed }
  { e with
    current
    last := current
    timer := e.timer.record elapsed
    tick := e.tick + 1
    now := e.now.advance e.config.tickInterval }

/-- The work of a phase, whether or not it is its turn. -/
def perform (e : Engine σ N L) (p : Phase) (elapsed : Duration) (s : σ) :
    Nat × Engine σ N L × σ :=
  match p with
  | .loader =>
    let (n, e) := e.loaderPhase
    (n, e, s)
  | .levelWorker => e.levelWorkerPhase s
  | .regionWorker => e.regionWorkerPhase s
  | .worldWorker =>
    e.worldPhase World.worldWorkerPhase (fun t n => { t with ticked := t.ticked + n }) s
  | .create =>
    let step (w : World σ N L) (s : σ) : Nat × World σ N L × σ :=
      let (n, w) := w.createPhase
      (n, w, s)
    e.worldPhase step (fun t n => { t with created := t.created + n }) s
  | .load => e.worldPhase World.loadPhase (fun t n => { t with loaded := t.loaded + n }) s
  | .unload => e.worldPhase World.unloadPhase (fun t n => { t with unloaded := t.unloaded + n }) s
  | .destroy =>
    e.worldPhase World.destroyPhase (fun t n => { t with destroyed := t.destroyed + n }) s
  | .finish => (0, e.finishPhase elapsed, s)

/-- Run a phase if it is the next one. Answers the amount of work it did. `elapsed` is the duration
of the tick, which only the last phase looks at. -/
def runPhase (e : Engine σ N L) (p : Phase) (elapsed : Duration) (s : σ) :
    Except OutOfOrder (Nat × Engine σ N L × σ) := do
  let cursor ← e.cursor.advance p
  return { e with cursor }.perform p elapsed s

/-- Run phases in turn. -/
def runPhases (elapsed : Duration) :
    List Phase → Engine σ N L → σ → Except OutOfOrder (Engine σ N L × σ)
  | [], e, s => .ok (e, s)
  | p :: ps, e, s =>
    match e.runPhase p elapsed s with
    | .error err => .error err
    | .ok (_, e, s) => runPhases elapsed ps e s

/-- Run every phase once, in order. A tick that has already begun is not begun again. -/
def runTick (e : Engine σ N L) (elapsed : Duration) (s : σ) :
    Except OutOfOrder (Engine σ N L × σ) :=
  runPhases elapsed Phase.all e s

/-- Run a number of ticks. -/
def runTicks (elapsed : Duration) :
    Nat → Engine σ N L → σ → Except OutOfOrder (Engine σ N L × σ)
  | 0, e, s => .ok (e, s)
  | n + 1, e, s =>
    match e.runTick elapsed s with
    | .error err => .error err
    | .ok (e, s) => runTicks elapsed n e s

/-- The engine as the diagnostic listings write it. -/
def diagnostic (e : Engine σ N L) : String :=
  "Engine \x7b worlds: " ++ toString e.worlds.length ++ ", loaders: " ++
    toString e.loaders.size ++ ", threads: " ++ toString e.threads ++ ", tick: " ++
    toString e.tick.toNat ++ ", now: SimTime(" ++ toString e.now.micros.toNat ++
    "), next_phase: " ++ e.cursor.expected.identifier ++ " \x7d"

end Engine

end OctreeWorld
