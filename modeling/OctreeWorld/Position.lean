/-!
# Cell positions

A position counts cells along three axes in 32-bit words. Sums wrap at the end of the word,
and positions are ordered lexicographically by `x`, `y`, `z`, which is the order in which every
drained queue and every listing is written.
-/

namespace OctreeWorld

/-- A cell of one grid, counted along three axes. -/
structure Position where
  x : Int32
  y : Int32
  z : Int32
deriving DecidableEq, Inhabited

namespace Position

/-- The position with the same count on every axis. -/
def splat (n : Int32) : Position := ⟨n, n, n⟩

def zero : Position := splat 0

/-- Apply one rule to each axis. -/
def map (f : Int32 → Int32) (p : Position) : Position := ⟨f p.x, f p.y, f p.z⟩

/-- Combine two positions axis by axis. -/
def zipWith (f : Int32 → Int32 → Int32) (p q : Position) : Position :=
  ⟨f p.x q.x, f p.y q.y, f p.z q.z⟩

/-- Whether a relation holds on every axis. -/
def allAxes (r : Int32 → Int32 → Bool) (p q : Position) : Bool :=
  r p.x q.x && r p.y q.y && r p.z q.z

/-- Whether a relation holds on some axis. -/
def anyAxis (r : Int32 → Int32 → Bool) (p q : Position) : Bool :=
  r p.x q.x || r p.y q.y || r p.z q.z

instance : Add Position := ⟨zipWith (· + ·)⟩

instance : Sub Position := ⟨zipWith (· - ·)⟩

/-- Lexicographic by `x`, then `y`, then `z`. -/
instance : Ord Position where
  compare p q := (compare p.x q.x).then ((compare p.y q.y).then (compare p.z q.z))

theorem compare_def (p q : Position) :
    compare p q = (compare p.x q.x).then ((compare p.y q.y).then (compare p.z q.z)) := rfl

instance : Std.TransOrd Position :=
  inferInstanceAs (Std.TransCmp (compareLex (compareOn x) (compareLex (compareOn y) (compareOn z))))

instance : Std.LawfulEqOrd Position where
  eq_of_compare {p q} h := by
    simp only [compare_def, Ordering.then_eq_eq, Std.compare_eq_iff_eq] at h
    cases p; cases q; simp_all

/-- The counts separated by commas, in square brackets. -/
def text (p : Position) : String :=
  s!"[{p.x.toInt}, {p.y.toInt}, {p.z.toInt}]"

/-- The three axis values joined as the diagnostic listings write them. -/
def diagnostic (p : Position) : String :=
  s!"IVec3({p.x.toInt}, {p.y.toInt}, {p.z.toInt})"

end Position

end OctreeWorld
