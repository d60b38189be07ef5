/-!
# Sums of counts

Counts of things that are gathered level by level and world by world.
-/

namespace OctreeWorld

/-- The sum of some counts. -/
def tally : List Nat → Nat
  | [] => 0
  | n :: ns => n + tally ns

@[simp] theorem tally_nil : tally [] = 0 := rfl

@[simp] theorem tally_cons (n : Nat) (ns : List Nat) : tally (n :: ns) = n + tally ns := rfl

@[simp] theorem tally_append (ms ns : List Nat) : tally (ms ++ ns) = tally ms + tally ns := by
  induction ms with
  | nil => simp
  | cons m ms ih => simp [ih, Nat.add_assoc]

end OctreeWorld
