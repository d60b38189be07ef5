import Mathlib.Data.Nat.ModEq
import OctreeWorld.Proofs.Convergence
import OctreeWorld.Proofs.Selection

/-!
# Two gates for one request

A level asks for a loader's cells on ticks that pass two gates: the level is due, which happens once in
its period with a shift by the level's number, and the loader is active, which happens once in the
loader's period without a shift. Two such gates meet if and only if the greatest common divisor of the
periods divides the shift, and then they meet within the product of the periods. A level whose number
it does not divide is never asked for by that loader, however long the loader waits.
-/

namespace OctreeWorld

variable {N L : Type}

/-- Multiples of `a` and numbers that are a multiple of `b` once `shift` is added come together if and
only if the common divisors of `a` and `b` divide `shift`, and then among any `a * b` in a row. -/
theorem exists_meeting_iff {a b : Nat} (ha : 0 < a) (hb : 0 < b) (start shift : Nat) :
    (∃ i < a * b, a ∣ start + i ∧ b ∣ start + i + shift) ↔ Nat.gcd a b ∣ shift := by
  constructor
  · rintro ⟨i, -, one, other⟩
    exact (Nat.dvd_add_right ((Nat.gcd_dvd_left a b).trans one)).mp
      ((Nat.gcd_dvd_right a b).trans other)
  · intro common
    -- The distances from the start to the next time that either gate opens.
    let p := a - start % a
    let q := b - (start + shift) % b
    have up : a ∣ start + p := by
      have rest := Nat.mod_lt start ha
      have whole := Nat.div_add_mod start a
      exact ⟨start / a + 1, by rw [Nat.mul_add]; omega⟩
    have uq : b ∣ start + q + shift := by
      have rest := Nat.mod_lt (start + shift) hb
      have whole := Nat.div_add_mod (start + shift) b
      exact ⟨(start + shift) / b + 1, by rw [Nat.mul_add]; omega⟩
    have agree : p ≡ q [MOD Nat.gcd a b] := by
      have one := (Nat.gcd_dvd_left a b).trans up
      have other := (Nat.dvd_add_left common).mp ((Nat.gcd_dvd_right a b).trans uq)
      exact Nat.ModEq.add_left_cancel' start
        ((Nat.modEq_zero_iff_dvd.mpr one).trans (Nat.modEq_zero_iff_dvd.mpr other).symm)
    obtain ⟨ip, iq⟩ := (Nat.chineseRemainder' agree).property
    have near := Nat.chineseRemainder'_lt_lcm agree ha.ne' hb.ne'
    refine ⟨Nat.chineseRemainder' agree, ?_, ?_, ?_⟩
    · exact near.trans_le (Nat.le_of_dvd (Nat.mul_pos ha hb) (Nat.lcm_dvd_mul a b))
    · exact ((ip.add_left start).dvd_iff dvd_rfl).mpr up
    · exact (((iq.add_left start).add_right shift).dvd_iff dvd_rfl).mpr uq

/-- The number of ticks in a row among which a loader is active on one. -/
def Loader.period (ld : Loader) : Nat := max 1 ld.cadence.toNat

theorem Loader.isActive_iff {ld : Loader} {tick : UInt64} :
    ld.isActive tick = true ↔ ld.period ∣ tick.toNat := every_iff ld.cadence tick

/-- Among as many ticks in a row as the product of the periods there is one on which the level is due
and the loader active, if and only if the common divisors of the periods divide the level. -/
theorem exists_due_and_active_iff (config : StreamConfig) (ld : Loader) (level : UInt8)
    {start : UInt64}
    (room : start.toNat + ld.period * config.period + level.toNat ≤ 2 ^ 64) :
    (∃ i < ld.period * config.period,
      config.levelDue (start + UInt64.ofNat i) level = true ∧
        ld.isActive (start + UInt64.ofNat i) = true) ↔
      Nat.gcd ld.period config.period ∣ level.toNat := by
  have ha : 0 < ld.period := by unfold Loader.period; omega
  have hb : 0 < config.period := by unfold StreamConfig.period; omega
  rw [← exists_meeting_iff ha hb start.toNat level.toNat]
  refine exists_congr fun i => and_congr_right fun near => ?_
  have later : (start + UInt64.ofNat i).toNat = start.toNat + i := by
    simp only [UInt64.toNat_add, UInt64.toNat_ofNat']
    omega
  rw [StreamConfig.levelDue_iff (by omega), Loader.isActive_iff, later]
  exact and_comm

namespace Level

/-- On a tick on which it is due, a level without a budget asks for every missing cell of an active
loader. -/
theorem requested_of_due {config : StreamConfig} {loaders : List Loader} {tick : UInt64}
    {l : Level N L} (due : config.levelDue tick l.index = true)
    (unlimited : config.createBudget = none) {ld : Loader} (listed : ld ∈ loaders)
    (active : ld.isActive tick = true) {c : Coord} (covered : c ∈ ld.cells l.index)
    (absent : l.contains c = false) (now : SimTime) (timeout : Duration) :
    ∃ requested, (l.stream config loaders tick now timeout).2.pending .create =
      l.pending .create ++ requested ∧ c ∈ requested := by
  obtain ⟨requested, asks, -, selected⟩ := stream_selected due loaders now timeout
  exact ⟨requested, selected.pending_create, asks.complete unlimited
    (mem_level_missing.mpr ⟨⟨ld, listed, active, covered⟩, absent⟩)⟩

/-- A loader is heard on a level within the product of the two periods if and only if the common
divisors of the periods divide the level. So if they do, and without a budget, every cell that it
covers there and that stays missing for as long is asked for, whatever happens to the level between
its turns. -/
theorem requested_within_periods (config : StreamConfig) (ld : Loader) (level : UInt8)
    {start : UInt64}
    (room : start.toNat + ld.period * config.period + level.toNat ≤ 2 ^ 64) :
    ((∃ i < ld.period * config.period,
      config.levelDue (start + UInt64.ofNat i) level = true ∧
        ld.isActive (start + UInt64.ofNat i) = true) ↔
      Nat.gcd ld.period config.period ∣ level.toNat) ∧
    (Nat.gcd ld.period config.period ∣ level.toNat → config.createBudget = none →
      ∀ (run : Nat → Level N L) (loaders : Nat → List Loader) (now : Nat → SimTime)
        (timeout : Duration),
        (∀ i < ld.period * config.period, (run i).index = level ∧ ld ∈ loaders i) →
        ∀ c ∈ ld.cells level, (∀ i < ld.period * config.period, (run i).contains c = false) →
          ∃ i < ld.period * config.period, ∃ requested,
            ((run i).stream config (loaders i) (start + UInt64.ofNat i) (now i) timeout).2.pending
              .create = (run i).pending .create ++ requested ∧ c ∈ requested) := by
  have meets := exists_due_and_active_iff config ld level room
  refine ⟨meets, fun common unlimited run loaders now timeout stands c covered absent => ?_⟩
  obtain ⟨i, near, due, active⟩ := meets.mpr common
  obtain ⟨index, listed⟩ := stands i near
  rw [← index] at due covered
  exact ⟨i, near, requested_of_due due unlimited listed active covered (absent i near) _ _⟩

/-- The periods have a divisor in common, and the level is one of its multiples. -/
theorem requested_within_periods_with_common_divisor :
    let ld : Loader := { maxLevel := 3, cadence := 4 }
    let config : StreamConfig := { levelTickInterval := 6 }
    let l : Level Unit Unit := .empty 2 ()
    let c : Coord := ⟨⟨0, 0, 0⟩, 2⟩
    (7 : UInt64).toNat + ld.period * config.period + (2 : UInt8).toNat ≤ 2 ^ 64 ∧
      Nat.gcd ld.period config.period = 2 ∧ config.createBudget = none ∧ c ∈ ld.cells 2 ∧
      l.contains c = false ∧
      ∃ i < 24, ∃ requested, (l.stream config [ld] (7 + UInt64.ofNat i) SimTime.zero
        Duration.zero).2.pending .create = requested ∧ c ∈ requested := by
  intro ld config l c
  have room : (7 : UInt64).toNat + ld.period * config.period + (2 : UInt8).toNat ≤ 2 ^ 64 := by
    decide
  have covered : c ∈ ld.cells 2 := by decide +kernel
  obtain ⟨i, near, requested, queue, asked⟩ :=
    (requested_within_periods config ld 2 room).2 (by decide) rfl (fun _ => l) (fun _ => [ld])
      (fun _ => SimTime.zero) Duration.zero (fun _ _ => ⟨rfl, List.mem_singleton_self ld⟩)
      c covered fun _ _ => rfl
  exact ⟨room, by decide, rfl, covered, rfl, i, near, requested, queue, asked⟩

/-- A loader of cadence two and an interval of two never come together on an odd level. The loader
covers a cell of it that stays missing, and in a whole window nothing is asked for. -/
theorem odd_level_never_requested :
    let ld : Loader := { maxLevel := 2, cadence := 2 }
    let config : StreamConfig := { levelTickInterval := 2 }
    let l : Level Unit Unit := .empty 1 ()
    let c : Coord := ⟨⟨0, 0, 0⟩, 1⟩
    max 1 ld.cadence.toNat * max 1 config.levelTickInterval.toNat = 4 ∧ ld.covers 1 = true ∧
      config.createBudget = none ∧ c ∈ ld.cells 1 ∧ l.contains c = false ∧
      ∀ i < 4, ¬ (config.levelDue (UInt64.ofNat i) 1 = true ∧ ld.isActive (UInt64.ofNat i) = true) ∧
        (l.stream config [ld] (UInt64.ofNat i) SimTime.zero Duration.zero).2.pending .create = [] := by
  decide +kernel

end Level

end OctreeWorld
