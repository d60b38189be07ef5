import OctreeWorld.Decimal.Shortest
import OctreeWorld.Time

/-!
# The shape of a world

How many levels a world has, and for how long one of its leaves may go untouched.
-/

namespace OctreeWorld

/-- How diagnostic listings write a double. -/
def diagnosticFloats : Decimal.Notation :=
  { least := -4, greatest := 15, plus := false, infinity := "inf", notANumber := "NaN" }

/-- The shape of a world's hierarchy. -/
structure WorldConfig where
  /-- Number of levels. -/
  levelCount : UInt8 := 8
  /-- Seconds of simulation a leaf may go untouched before it is evicted. -/
  evictionTimeoutSecs : Float := 20.0

namespace WorldConfig

/-- The most levels a configuration may ask for. -/
def maxLevelCount : UInt8 := 16

/-- The eviction timeout as a span: zero for negative numbers, the greatest span for numbers that
no span holds. -/
def evictionTimeout (c : WorldConfig) : Duration := Duration.ofFloatClamped c.evictionTimeoutSecs

/-- The index of the coarsest level, zero when there is no level. -/
def coarsest (c : WorldConfig) : UInt8 := if c.levelCount = 0 then 0 else c.levelCount - 1

/-- The configuration as the diagnostic listings write it. -/
def diagnostic (c : WorldConfig) : String :=
  "WorldConfig \x7b level_count: " ++ toString c.levelCount.toNat ++
    ", eviction_timeout_secs: " ++
    Decimal.floatText diagnosticFloats c.evictionTimeoutSecs ++ " \x7d"

end WorldConfig

end OctreeWorld
