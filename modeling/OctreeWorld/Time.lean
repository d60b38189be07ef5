import OctreeWorld.Decimal.Dyadic
import OctreeWorld.Tally

/-!
# Durations and simulation time

A duration is a whole number of nanoseconds. Simulation time counts microseconds since the start
of the simulation in a 64-bit word; it never reads a wall clock, and it stops at the greatest word
instead of wrapping.
-/

namespace OctreeWorld

/-- A span of time in nanoseconds. -/
structure Duration where
  nanos : Nat
deriving DecidableEq, Inhabited

namespace Duration

def nanosPerSecond : Nat := 1000000000

/-- The greatest span: the greatest 64-bit count of seconds and all but one nanosecond more. -/
def greatest : Duration := ⟨(UInt64.size - 1) * nanosPerSecond + (nanosPerSecond - 1)⟩

def zero : Duration := ⟨0⟩

/-- Whether a span of this many nanoseconds exists. -/
def fits (nanos : Nat) : Bool := decide (nanos ≤ greatest.nanos)

def ofSeconds (s : Nat) : Duration := ⟨s * nanosPerSecond⟩

def ofMillis (ms : UInt64) : Duration := ⟨ms.toNat * 1000000⟩

/-- Whole seconds of a span. -/
def seconds (d : Duration) : Nat := d.nanos / nanosPerSecond

/-- Nanoseconds beyond the whole seconds. -/
def subsecondNanos (d : Duration) : Nat := d.nanos % nanosPerSecond

/-- Whole microseconds of a span. -/
def micros (d : Duration) : Nat := d.nanos / 1000

/-- A non-negative number of seconds to the nearest nanosecond, ties to even. Absent when the
number is negative, not finite, or rounds past the greatest span. -/
def ofFloat? (secs : Float) : Option Duration :=
  match Decimal.Dyadic.ofFloat? secs with
  | none => none
  | some d =>
    let nanos := d.scaled nanosPerSecond
    if d.negative && d.significand != 0 then none
    else if fits nanos then some ⟨nanos⟩ else none

/-- A number of seconds, clamped: zero for negative numbers and for not-a-number, the greatest
span for numbers that no span holds. -/
def ofFloatClamped (secs : Float) : Duration :=
  if 0 < secs then (ofFloat? secs).getD greatest else zero

/-- The sum of the spans, absent when no span holds it. -/
def sum? (ds : List Duration) : Option Duration :=
  let total := tally (ds.map nanos)
  if fits total then some ⟨total⟩ else none

/-- A span divided by a 32-bit count: seconds and nanoseconds are divided by themselves, and what
is left of both once more. Absent for a count of zero. -/
def dividedBy? (d : Duration) (n : UInt32) : Option Duration :=
  if n = 0 then none
  else
    let left := d.seconds % n.toNat * nanosPerSecond + d.subsecondNanos % n.toNat
    let nanos := d.subsecondNanos / n.toNat + left / n.toNat
    some ⟨d.seconds / n.toNat * nanosPerSecond + nanos⟩

/-- Digits after the point, without trailing zeros, of `rest / unit`. -/
def fractionText (rest unit : Nat) : String :=
  let digits := Decimal.padLeft (toString unit).length.pred (toString rest)
  let kept := (digits.toList.reverse.dropWhile (· == '0')).reverse
  if kept.isEmpty then "" else "." ++ String.ofList kept

/-- The span in its greatest unit of at least one: `1.5µs`, `50ms`, `100.00000001s`. -/
def text (d : Duration) : String :=
  let inUnit (unit : Nat) (name : String) :=
    toString (d.nanos / unit) ++ fractionText (d.nanos % unit) unit ++ name
  if nanosPerSecond ≤ d.nanos then inUnit nanosPerSecond "s"
  else if 1000000 ≤ d.nanos then inUnit 1000000 "ms"
  else if 1000 ≤ d.nanos then inUnit 1000 "µs"
  else inUnit 1 "ns"

end Duration

/-- Microseconds since the simulation started. -/
structure SimTime where
  micros : UInt64
deriving DecidableEq, Inhabited

namespace SimTime

def zero : SimTime := ⟨0⟩

/-- The greatest word below or at a count of microseconds. -/
def ofMicrosNat (n : Nat) : SimTime := ⟨UInt64.ofNat (min n (UInt64.size - 1))⟩

/-- The point in time a span after the start, in whole microseconds. -/
def ofDuration (d : Duration) : SimTime := ofMicrosNat d.micros

/-- A number of seconds after the start, clamped at both ends. -/
def ofFloat (secs : Float) : SimTime := ofDuration (Duration.ofFloatClamped secs)

/-- Seconds since the start, rounded once to a double and once more by the division. -/
def toFloat (t : SimTime) : Float := t.micros.toFloat / 1000000

/-- The span since an earlier time, zero when that time lies ahead. -/
def since (t earlier : SimTime) : Duration := ⟨(t.micros.toNat - earlier.micros.toNat) * 1000⟩

/-- Move forward by a span, in whole microseconds. -/
def advance (t : SimTime) (d : Duration) : SimTime :=
  ofMicrosNat (t.micros.toNat + (ofDuration d).micros.toNat)

/-- The later of two times. -/
def latest (a b : SimTime) : SimTime := if a.micros ≤ b.micros then b else a

/-- Seconds with three decimal places: `1.500s`. -/
def text (t : SimTime) : String :=
  match Decimal.Dyadic.ofFloat? t.toFloat with
  | some d => d.fixed 3 ++ "s"
  | none => "s"

theorem micros_latest (a b : SimTime) : (latest a b).micros = max a.micros b.micros :=
  apply_ite micros ..

theorem le_latest_left (a b : SimTime) : a.micros ≤ (latest a b).micros := by
  unfold latest
  split
  · assumption
  · exact UInt64.le_refl _

theorem le_latest_right (a b : SimTime) : b.micros ≤ (latest a b).micros := by
  unfold latest
  split
  · exact UInt64.le_refl _
  · rename_i h
    exact (UInt64.le_total a.micros b.micros).resolve_left h

end SimTime

end OctreeWorld
