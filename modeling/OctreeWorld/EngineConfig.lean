import OctreeWorld.Streaming
import OctreeWorld.WorldConfig

/-!
# Engine configuration

The settings of an engine, and which of them are refused. When several settings are wrong, the
first of the rules in `EngineConfig.fault?` names the error.
-/

namespace OctreeWorld

/-- The settings of an engine. -/
structure EngineConfig where
  world : WorldConfig := {}
  stream : StreamConfig := {}
  /-- Worker threads, one per processor of the machine when absent. -/
  threads : Option UInt64 := none
  /-- Simulation time that passes with every tick, in milliseconds. -/
  tickIntervalMs : UInt64 := 50

/-- A setting that is refused. -/
inductive ConfigFault where
  | levelCount (n : UInt8)
  | tickInterval
  | evictionTimeout
  | threads
deriving DecidableEq

namespace ConfigFault

def reason : ConfigFault → String
  | levelCount n => s!"world.level_count must be in 1..=16, got {n.toNat}"
  | tickInterval => "tick_interval_ms must be positive"
  | evictionTimeout => "world.eviction_timeout_secs must be a non-negative number"
  | threads => "threads must be positive when set"

def message (f : ConfigFault) : String := "invalid config: " ++ f.reason

end ConfigFault

namespace EngineConfig

/-- The first setting that is refused. -/
def fault? (c : EngineConfig) : Option ConfigFault :=
  let levels := c.world.levelCount
  let timeout := c.world.evictionTimeoutSecs
  if levels = 0 ∨ WorldConfig.maxLevelCount < levels then some (.levelCount levels)
  else if c.tickIntervalMs = 0 then some .tickInterval
  else if !(timeout.isFinite && decide (0 ≤ timeout)) then some .evictionTimeout
  else if c.threads = some 0 then some .threads
  else none

/-- The configuration, when nothing in it is refused. -/
def validated (c : EngineConfig) : Except ConfigFault EngineConfig :=
  match c.fault? with
  | some f => .error f
  | none => .ok c

/-- Simulation time that passes with every tick. -/
def tickInterval (c : EngineConfig) : Duration := Duration.ofMillis c.tickIntervalMs

end EngineConfig

end OctreeWorld
