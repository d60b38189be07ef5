import OctreeWorld.Time

/-!
# Tick timer

A sliding window over the durations of the latest ticks. The window holds at least one sample; once
it is full, every new sample pushes out the oldest.
-/

namespace OctreeWorld

/-- Why a window has no mean. -/
inductive AverageFault where
  /-- No span holds the sum of the window. -/
  | sumOverflow
  | divisionByZero
deriving DecidableEq, Inhabited

/-- The latest durations, oldest first. -/
structure TickTimer where
  capacity : Nat
  window : List Duration := []
deriving DecidableEq, Inhabited

namespace TickTimer

/-- An empty window of at least one place. -/
def empty (capacity : Nat) : TickTimer := { capacity := max capacity 1 }

/-- The window an engine starts with. -/
def standard : TickTimer := empty 120

def record (t : TickTimer) (d : Duration) : TickTimer :=
  let kept := if t.window.length = t.capacity then t.window.drop 1 else t.window
  { t with window := kept ++ [d] }

def count (t : TickTimer) : Nat := t.window.length

/-- The number of samples as the mean counts them, in a 32-bit word that wraps. -/
def divisor (t : TickTimer) : UInt32 := UInt32.ofNat t.count

/-- The mean of the window, rounded down to the nanosecond; zero for an empty window. -/
def average (t : TickTimer) : Except AverageFault Duration :=
  if t.window.isEmpty then .ok Duration.zero
  else
    match Duration.sum? t.window with
    | none => .error .sumOverflow
    | some total =>
      match total.dividedBy? t.divisor with
      | none => .error .divisionByZero
      | some mean => .ok mean

/-- The mean of the window, if there is one. -/
def average? (t : TickTimer) : Option Duration := t.average.toOption

/-- The greatest sample, zero for an empty window. -/
def longest (t : TickTimer) : Duration :=
  t.window.foldl (fun a d => if a.nanos < d.nanos then d else a) Duration.zero

/-- The least sample, zero for an empty window. -/
def shortest (t : TickTimer) : Duration :=
  match t.window with
  | [] => Duration.zero
  | d :: ds => ds.foldl (fun a d => if d.nanos < a.nanos then d else a) d

def last? (t : TickTimer) : Option Duration := t.window.getLast?

end TickTimer

end OctreeWorld
