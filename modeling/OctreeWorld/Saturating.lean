/-!
# Saturating 64-bit arithmetic

Footprints and spheres are measured in signed 64-bit words that stop at the ends of their range.
A saturating result is the exact integer result clamped to the word, so every operation here is
one clamp over exact arithmetic.
-/

namespace OctreeWorld.Saturating

/-- Greatest value of a signed 64-bit word. -/
def maxWord : Int := 9223372036854775807

/-- Least value of a signed 64-bit word. -/
def minWord : Int := -9223372036854775808

/-- The nearest value that fits a signed 64-bit word. -/
def clamp (n : Int) : Int := max minWord (min n maxWord)

def add (a b : Int) : Int := clamp (a + b)

def sub (a b : Int) : Int := clamp (a - b)

def mul (a b : Int) : Int := clamp (a * b)

/-- Two to the power `n`, or the greatest word once that no longer fits. -/
def twoPow (n : Nat) : Int := if n < 63 then (Nat.pow 2 n : Nat) else maxWord

theorem clamp_of_mem {n : Int} (lower : minWord ≤ n) (upper : n ≤ maxWord) : clamp n = n := by
  simp only [clamp]; omega

/-- The nearest value that fits a signed 32-bit word. -/
def toWord32 (n : Int) : Int32 := Int32.ofInt (max (-2147483648) (min n 2147483647))

end OctreeWorld.Saturating
