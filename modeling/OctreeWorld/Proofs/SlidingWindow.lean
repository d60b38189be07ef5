import Mathlib.Data.List.DropRight
import Mathlib.Tactic.Ring
import OctreeWorld.TickTimer

/-!
# What a tick timer tells

However many samples a timer is given, its window is the latest of them in their order, as many as
it has places for. Its figures are those of that window. The mean is taken of seconds and
nanoseconds apart, yet no nanosecond is lost on the way: it is the sum divided by the number of
samples, so it lies between the least sample and the greatest. There is no mean only where no span
holds the sum.
-/

namespace OctreeWorld

namespace Duration

/-- Whole seconds and the nanoseconds beyond them make up a span. -/
theorem nanos_eq (d : Duration) : d.nanos = d.seconds * nanosPerSecond + d.subsecondNanos :=
  (Nat.div_add_mod' d.nanos nanosPerSecond).symm

/-- What is left of the seconds is carried over to the nanoseconds, so dividing both by themselves
divides the span. -/
theorem dividedBy?_eq (d : Duration) {n : UInt32} (nonzero : n ≠ 0) :
    d.dividedBy? n = some ⟨d.nanos / n.toNat⟩ := by
  have positive : 0 < n.toNat := by
    rw [Nat.pos_iff_ne_zero]
    intro vanishes
    exact nonzero (UInt32.toNat_inj.mp vanishes)
  have whole : d.nanos =
      n.toNat * (d.seconds / n.toNat * nanosPerSecond + d.subsecondNanos / n.toNat) +
        (d.seconds % n.toNat * nanosPerSecond + d.subsecondNanos % n.toNat) := by
    calc d.nanos
        = (n.toNat * (d.seconds / n.toNat) + d.seconds % n.toNat) * nanosPerSecond +
            (n.toNat * (d.subsecondNanos / n.toNat) + d.subsecondNanos % n.toNat) := by
          rw [Nat.div_add_mod, Nat.div_add_mod, ← nanos_eq]
      _ = _ := by ring
  rw [dividedBy?, if_neg nonzero, whole, Nat.mul_add_div positive, Nat.add_assoc]

/-- A sum lies between as many of the least and as many of the greatest. -/
theorem tally_between {lower upper : Nat} {ds : List Duration}
    (bounded : ∀ d ∈ ds, lower ≤ d.nanos ∧ d.nanos ≤ upper) :
    ds.length * lower ≤ tally (ds.map nanos) ∧ tally (ds.map nanos) ≤ ds.length * upper := by
  induction ds with
  | nil => simp
  | cons d ds ih =>
    obtain ⟨⟨above, below⟩, others⟩ := List.forall_mem_cons.mp bounded
    obtain ⟨least, greatest⟩ := ih others
    simp only [List.length_cons, List.map_cons, tally_cons, Nat.succ_mul]
    omega

/-- Picking one of two by an order, again and again, ends with a member that tops all others. -/
theorem foldl_picks (tops : Duration → Duration → Prop) (pick : Duration → Duration → Duration)
    (refl : ∀ a, tops a a) (trans : ∀ {a b c}, tops a b → tops b c → tops a c)
    (picked : ∀ a b, (pick a b = a ∨ pick a b = b) ∧ tops (pick a b) a ∧ tops (pick a b) b)
    (a : Duration) (ds : List Duration) :
    ds.foldl pick a ∈ a :: ds ∧ ∀ d ∈ a :: ds, tops (ds.foldl pick a) d := by
  induction ds generalizing a with
  | nil => simp [refl]
  | cons d ds ih =>
    obtain ⟨one, topsLeft, topsRight⟩ := picked a d
    obtain ⟨member, topsAll⟩ := ih (pick a d)
    have topsPicked := topsAll _ List.mem_cons_self
    constructor
    · rcases List.mem_cons.mp member with first | later
      · rcases one with left | right
        · exact List.mem_cons.mpr (.inl (first.trans left))
        · exact List.mem_cons_of_mem _ (List.mem_cons.mpr (.inl (first.trans right)))
      · exact List.mem_cons_of_mem _ (List.mem_cons_of_mem _ later)
    · intro e listed
      rcases List.mem_cons.mp listed with rfl | listed
      · exact trans topsPicked topsLeft
      rcases List.mem_cons.mp listed with rfl | listed
      · exact trans topsPicked topsRight
      · exact topsAll e (List.mem_cons_of_mem _ listed)

end Duration

namespace TickTimer

/-- The timer has at least one place, and its places hold the latest of some samples. -/
structure Holds (t : TickTimer) (samples : List Duration) : Prop where
  positive : 0 < t.capacity
  window_eq : t.window = samples.rtake t.capacity

variable {t : TickTimer} {samples window : List Duration}

theorem Holds.empty (capacity : Nat) : Holds (.empty capacity) [] where
  positive := Nat.le_max_right capacity 1
  window_eq := (List.rtake_nil _).symm

/-- A new sample pushes the oldest out of a full window, so the window keeps the latest. -/
theorem Holds.record (held : t.Holds samples) (d : Duration) :
    (t.record d).Holds (samples ++ [d]) where
  positive := held.positive
  window_eq := by
    obtain ⟨places, shape⟩ := Nat.exists_eq_add_one.mpr held.positive
    have window : t.window = samples.rtake (places + 1) := shape ▸ held.window_eq
    change (if t.window.length = t.capacity then t.window.drop 1 else t.window) ++ [d] =
      (samples ++ [d]).rtake t.capacity
    rw [shape, List.rtake_concat_succ, window]
    simp only [List.rtake, List.length_drop]
    split
    · rw [List.drop_drop]
      congr 2
      omega
    · congr 2
      omega

/-- A run of samples keeps the latest of them. -/
theorem Holds.foldl (held : t.Holds samples) (more : List Duration) :
    (more.foldl TickTimer.record t).Holds (samples ++ more) := by
  induction more generalizing t samples with
  | nil => simpa using held
  | cons d more ih => simpa using ih (held.record d)

@[simp] theorem capacity_foldl (t : TickTimer) (samples : List Duration) :
    (samples.foldl record t).capacity = t.capacity := by
  induction samples generalizing t with
  | nil => rfl
  | cons d samples ih => exact ih (t.record d)

/-- The window after any samples is the end of the list of them. -/
theorem window_foldl (capacity : Nat) (samples : List Duration) :
    (samples.foldl record (empty capacity)).window =
      samples.rtake (min (max capacity 1) samples.length) := by
  have held := (Holds.empty capacity).foldl samples
  rw [held.window_eq, capacity_foldl]
  simp only [List.nil_append, List.rtake, empty]
  congr 1
  omega

/-- The greatest sample is one of the window and none is greater. -/
theorem longest_spec (t : TickTimer) (taken : t.window ≠ []) :
    t.longest ∈ t.window ∧ ∀ d ∈ t.window, d.nanos ≤ t.longest.nanos := by
  have picked : ∀ a d : Duration, let one := if a.nanos < d.nanos then d else a
      (one = a ∨ one = d) ∧ a.nanos ≤ one.nanos ∧ d.nanos ≤ one.nanos := by
    intro a d
    split <;> simp <;> omega
  obtain ⟨member, overAll⟩ := Duration.foldl_picks (fun a b => b.nanos ≤ a.nanos)
    (fun a d => if a.nanos < d.nanos then d else a) (fun a => Nat.le_refl _)
    (fun ab bc => Nat.le_trans bc ab) picked .zero t.window
  refine ⟨?_, fun d listed => overAll d (List.mem_cons_of_mem _ listed)⟩
  rcases List.mem_cons.mp member with zero | listed
  · -- Zero stands for the greatest only where every sample is zero.
    obtain ⟨d, listed⟩ := List.exists_mem_of_ne_nil _ taken
    have flat : d.nanos ≤ t.longest.nanos := overAll d (List.mem_cons_of_mem _ listed)
    have same : t.longest = d := by
      rw [show t.longest = .zero from zero] at flat ⊢
      exact congrArg Duration.mk (Nat.le_zero.mp flat).symm
    rwa [same]
  · exact listed

/-- The least sample is one of the window and none is less. -/
theorem shortest_spec (t : TickTimer) (taken : t.window ≠ []) :
    t.shortest ∈ t.window ∧ ∀ d ∈ t.window, t.shortest.nanos ≤ d.nanos := by
  obtain ⟨first, rest, shape⟩ := List.exists_cons_of_ne_nil taken
  have picked : ∀ a d : Duration, let one := if d.nanos < a.nanos then d else a
      (one = a ∨ one = d) ∧ one.nanos ≤ a.nanos ∧ one.nanos ≤ d.nanos := by
    intro a d
    split <;> simp <;> omega
  simp only [shortest, shape]
  exact Duration.foldl_picks (fun a b => a.nanos ≤ b.nanos)
    (fun a d => if d.nanos < a.nanos then d else a) (fun a => Nat.le_refl _)
    (fun ab bc => Nat.le_trans ab bc) picked first rest

theorem toNat_divisor (short : t.count < 2 ^ 32) : t.divisor.toNat = t.window.length :=
  UInt32.toNat_ofNat_of_lt' short

/-- As long as the count fits its word, it is zero for an empty window only. -/
theorem divisor_ne_zero (short : t.count < 2 ^ 32) (taken : t.window ≠ []) : t.divisor ≠ 0 := by
  intro vanishes
  have size := toNat_divisor short
  rw [vanishes] at size
  exact taken (List.length_eq_zero_iff.mp size.symm)

/-- A window that its 32-bit count can number has the exact mean, unless no span holds the sum. -/
theorem average_eq (short : t.count < 2 ^ 32) :
    t.average = if Duration.fits (tally (t.window.map Duration.nanos))
      then .ok ⟨tally (t.window.map Duration.nanos) / t.window.length⟩
      else .error .sumOverflow := by
  by_cases taken : t.window = []
  · simp [average, taken, Duration.zero, Duration.fits]
  · have counted := divisor_ne_zero short taken
    rw [average, if_neg (by simpa using taken), Duration.sum?]
    by_cases holds : Duration.fits (tally (t.window.map Duration.nanos)) = true
    · simp only [if_pos holds, Duration.dividedBy?_eq _ counted, toNat_divisor short]
    · simp only [if_neg holds]

/-- The mean of a window lies between its extremes. -/
theorem mean_between (t : TickTimer) :
    t.shortest.nanos ≤ tally (t.window.map Duration.nanos) / t.window.length ∧
      tally (t.window.map Duration.nanos) / t.window.length ≤ t.longest.nanos := by
  by_cases taken : t.window = []
  · simp [shortest, longest, taken, Duration.zero]
  · have positive : 0 < t.window.length := List.length_pos_iff.mpr taken
    obtain ⟨least, greatest⟩ := Duration.tally_between fun d listed =>
      ⟨(shortest_spec t taken).2 d listed, (longest_spec t taken).2 d listed⟩
    constructor
    · rwa [Nat.le_div_iff_mul_le positive, Nat.mul_comm]
    · exact Nat.div_le_of_le_mul greatest

/-- What a timer tells of a window: the samples in order, their number, the newest, the extremes and
the mean. Zero stands for all spans of a window without samples. -/
structure Tells (t : TickTimer) (window : List Duration) : Prop where
  window_eq : t.window = window
  count_eq : t.count = window.length
  last_eq : t.last? = window.getLast?
  idle : window = [] → t.longest = .zero ∧ t.shortest = .zero ∧ t.average = .ok .zero
  longest : window ≠ [] → t.longest ∈ window ∧ ∀ d ∈ window, d.nanos ≤ t.longest.nanos
  shortest : window ≠ [] → t.shortest ∈ window ∧ ∀ d ∈ window, t.shortest.nanos ≤ d.nanos
  mean : Duration.fits (tally (window.map Duration.nanos)) = true →
    ∃ mean, t.average = .ok mean ∧ mean.nanos = tally (window.map Duration.nanos) / window.length ∧
      t.shortest.nanos ≤ mean.nanos ∧ mean.nanos ≤ t.longest.nanos
  fault : ∀ fault, t.average = .error fault ↔
    fault = .sumOverflow ∧ Duration.fits (tally (window.map Duration.nanos)) = false
  divisor : window ≠ [] → t.divisor ≠ 0

theorem tells_window (short : t.count < 2 ^ 32) : t.Tells t.window where
  window_eq := rfl
  count_eq := rfl
  last_eq := rfl
  idle taken := by simp [TickTimer.longest, TickTimer.shortest, average, taken]
  longest := longest_spec t
  shortest := shortest_spec t
  mean holds := by
    refine ⟨⟨_⟩, ?_, rfl, mean_between t⟩
    rw [average_eq short, if_pos holds]
  fault fault := by
    rw [average_eq short]
    split
    · rename_i holds
      simp [holds]
    · rename_i overflows
      simp only [Except.error.injEq, Bool.not_eq_true] at overflows ⊢
      simp [overflows, eq_comm]
  divisor := divisor_ne_zero short

/-- A timer of any capacity that was given any samples holds exactly the latest of them, as many as
it has places or as there are, and tells the figures of those. It has no mean exactly where no span
holds their sum, and it never divides by zero. -/
theorem tells_latest (capacity : Nat) (samples : List Duration)
    (short : min (max capacity 1) samples.length < 2 ^ 32) :
    (samples.rtake (min (max capacity 1) samples.length)).length =
        min (max capacity 1) samples.length ∧
      (samples.foldl record (empty capacity)).Tells
        (samples.rtake (min (max capacity 1) samples.length)) := by
  have size : (samples.rtake (min (max capacity 1) samples.length)).length =
      min (max capacity 1) samples.length := by
    simp only [List.rtake, List.length_drop]
    omega
  refine ⟨size, ?_⟩
  have window := window_foldl capacity samples
  rw [← window]
  apply tells_window
  rw [count, window, size]
  exact short

/-- Three samples in a window of two places: the oldest is gone, and the mean is rounded down after
half a second was carried over. -/
theorem tells_latest_of_two :
    min (max 2 1) 3 < 2 ^ 32 ∧
      ([⟨50⟩, ⟨1000000000⟩, ⟨2000000003⟩].foldl record (empty 2)).Tells
        [⟨1000000000⟩, ⟨2000000003⟩] ∧
      ([⟨50⟩, ⟨1000000000⟩, ⟨2000000003⟩].foldl record (empty 2)).average = .ok ⟨1500000001⟩ := by
  refine ⟨by decide, ?_, by decide⟩
  exact (tells_latest 2 [⟨50⟩, ⟨1000000000⟩, ⟨2000000003⟩] (by decide)).2

end TickTimer

end OctreeWorld
