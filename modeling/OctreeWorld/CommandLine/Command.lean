import OctreeWorld.CommandLine.Arguments
import OctreeWorld.Coord
import OctreeWorld.Decimal.Integer

/-!
# Commands

The commands of the program: printing its defaults, simulating a world around a moving loader,
checking a configuration file, and looking at one node.
-/

namespace OctreeWorld.CommandLine

/-- How to simulate a world. -/
structure Simulation where
  config : Option String := none
  ticks : UInt64 := 100
  radius : UInt32 := 2
  /-- Levels that the loader covers, from the finest. -/
  levels : UInt8 := 3
  /-- Level-0 cells that the loader moves along `x` after every tick. -/
  speed : Int32 := 1
  /-- Replaces the interval at which levels stream. -/
  stagger : Option UInt32 := none
  /-- Replaces the number of worker threads. -/
  threads : Option UInt64 := none
  /-- Folder of the archive that is restored from and saved to. -/
  archive : Option String := none
  /-- A summary follows every so many ticks, none for zero. -/
  reportEvery : UInt64 := 25
deriving DecidableEq

/-- What the program is asked to do. -/
inductive Command where
  | info
  | simulate (s : Simulation)
  | config (path : Option String)
  /-- Look at a node after a number of ticks. -/
  | inspect (c : Coord) (ticks : UInt64)
deriving DecidableEq

namespace Command

def uint8? (word : String) : Option UInt8 :=
  (Decimal.integer? 0 255 word).map fun n => UInt8.ofNat n.toNat

def uint32? (word : String) : Option UInt32 :=
  (Decimal.integer? 0 4294967295 word).map fun n => UInt32.ofNat n.toNat

def int32? (word : String) : Option Int32 :=
  (Decimal.integer? (-2147483648) 2147483647 word).map Int32.ofInt

def uint64? (word : String) : Option UInt64 :=
  (Decimal.natural? 18446744073709551615 word).map UInt64.ofNat

def simulateGrammar : Grammar where
  switches :=
    [{ long := "config", short := some 'c' }, { long := "ticks", short := some 't' },
      { long := "radius", short := some 'r' }, { long := "levels", short := some 'l' },
      { long := "speed" }, { long := "stagger" }, { long := "threads" }, { long := "archive" },
      { long := "report-every" }]

def readSimulation (words : List String) : Except Refusal Simulation := do
  let (a, _) ← simulateGrammar.read none {} words
  let standard : Simulation := {}
  let config ← a.option "config" none fun w => (path? w).map some
  let ticks ← a.option "ticks" standard.ticks uint64?
  let radius ← a.option "radius" standard.radius uint32?
  let levels ← a.option "levels" standard.levels uint8?
  let speed ← a.option "speed" standard.speed int32?
  let stagger ← a.option "stagger" none fun w => (uint32? w).map some
  let threads ← a.option "threads" none fun w => (uint64? w).map some
  let archive ← a.option "archive" none fun w => (path? w).map some
  let reportEvery ← a.option "report-every" standard.reportEvery uint64?
  return { config, ticks, radius, levels, speed, stagger, threads, archive, reportEvery }

def configGrammar : Grammar := { switches := [], positionals := [false] }

def readConfig (words : List String) : Except Refusal (Option String) := do
  let (a, _) ← configGrammar.read none {} words
  a.word 0 (some none) fun w => (path? w).map some

def inspectGrammar : Grammar where
  switches := [{ long := "ticks", short := some 't' }]
  positionals := [true, true, true, false]

def readInspect (words : List String) : Except Refusal (Coord × UInt64) := do
  let (a, _) ← inspectGrammar.read none {} words
  let x ← a.word 0 none int32?
  let y ← a.word 1 none int32?
  let z ← a.word 2 none int32?
  let level ← a.word 3 (some 0) uint8?
  let ticks ← a.option "ticks" 1 uint64?
  return (⟨⟨x, y, z⟩, level⟩, ticks)

/-- The switches before the name of a command. -/
def commonGrammar : Grammar where
  switches := [{ long := "verbose", short := some 'v', valued := false }]
  stopsAtWord := true

/-- The names of the commands, with the one that asks for help. -/
def names : List String := ["info", "simulate", "config", "inspect", "help"]

/-- What words behind `help` ask for: help on the program or on one command. -/
def readHelp : List String → Refusal
  | [] => .help
  | [name] => if names.contains name then .help else .usage
  | _ => .usage

/-- The command that words write. -/
def read (words : List String) : Except Refusal Command := do
  let (_, words) ← commonGrammar.read none {} words
  match words with
  | "info" :: words => do
    let _ ← Grammar.read { switches := [] } none {} words
    return info
  | "simulate" :: words => return simulate (← readSimulation words)
  | "config" :: words => return config (← readConfig words)
  | "inspect" :: words => do
    let (c, ticks) ← readInspect words
    return inspect c ticks
  | "help" :: words => .error (readHelp words)
  | _ => .error .usage

end Command

end OctreeWorld.CommandLine
