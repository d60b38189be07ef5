import OctreeWorld.Engine
import OctreeWorld.Proofs.Hierarchy

/-!
# A tick, world by world

A phase of an engine does its work on every world by itself; only the state of the processors runs
from one world to the next. `Engine.Works` says what one phase does to one world and `Engine.Ran`
what several phases do, so that the phases of a tick can be followed for one world alone.
-/

namespace OctreeWorld

variable {N L σ : Type}

/-- The given number of phases from one on, in the order of a tick. -/
def Phase.sequence : Nat → Phase → List Phase
  | 0, _ => []
  | n + 1, p => p :: sequence n p.next

namespace Engine

/-- What the phases of a tick go by. -/
def setting (e : Engine σ N L) : EngineConfig × LoaderMap × UInt64 × SimTime :=
  (e.config, e.loaders, e.tick, e.now)

/-- A world with its clock set and its covered nodes stamped. -/
def stampWorld (e : Engine σ N L) (w : World σ N L) : World σ N L :=
  { w.setTime e.tick e.now with
    hierarchy := (Hierarchy.keepAliveAll e.now e.loaderList w.hierarchy).2 }

/-- What a phase does to one world. -/
def Works (e : Engine σ N L) : Phase → World σ N L → World σ N L → Prop
  | .loader, w, w' => w' = e.stampWorld w
  | .levelWorker, w, w' => ∃ s, w' = (e.streamWorld w s).2.1
  | .regionWorker, w, w' => ∃ s, w' = (e.tickRegions w s).2.1
  | .worldWorker, w, w' => ∃ s, w' = (w.worldWorkerPhase s).2.1
  | .create, w, w' => w' = w.createPhase.2
  | .load, w, w' => ∃ s, w' = (w.loadPhase s).2.1
  | .unload, w, w' => ∃ s, w' = (w.unloadPhase s).2.1
  | .destroy, w, w' => ∃ s, w' = (w.destroyPhase s).2.1
  | .finish, w, w' => w' = w

/-- What phases in turn do to one world. -/
def Ran (e : Engine σ N L) : List Phase → World σ N L → World σ N L → Prop
  | [], w, w' => w' = w
  | p :: ps, w, w' => ∃ v, e.Works p w v ∧ e.Ran ps v w'

theorem works_congr {e e' : Engine σ N L} (same : e'.setting = e.setting) : e'.Works = e.Works := by
  obtain ⟨config, rest⟩ := Prod.mk.inj same
  obtain ⟨loaders, rest⟩ := Prod.mk.inj rest
  obtain ⟨tick, now⟩ := Prod.mk.inj rest
  funext p w w'
  cases p <;>
    simp only [Works, stampWorld, streamWorld, tickRegions, loaderList, config, loaders, tick, now]

theorem ran_congr {e e' : Engine σ N L} (same : e'.setting = e.setting) : e'.Ran = e.Ran := by
  funext ps
  induction ps with
  | nil => rfl
  | cons p ps ih =>
    funext w w'
    rw [Ran, Ran, works_congr same, ih]

/-! ### One phase -/

theorem loaderPhase_worlds (e : Engine σ N L) :
    e.loaderPhase.2.worlds = e.worlds.map e.stampWorld := by
  simp only [loaderPhase, List.map_map]
  rfl

theorem streamWorld_world (e : Engine σ N L) (w : World σ N L) (s : σ) :
    (e.streamWorld w s).2.1 = (w.levelWorkerPhase (Level.stream e.config.stream e.loaderList e.tick
      e.now w.config.evictionTimeout) s).2.1 := by
  unfold streamWorld
  simp only

theorem tickRegions_world (e : Engine σ N L) (w : World σ N L) (s : σ) :
    (e.tickRegions w s).2.1 =
      (w.regionWorkerPhase (Region.stream e.config.stream e.tick e.now) s).2.2.1 := by
  unfold tickRegions
  simp only

theorem perform_works (e : Engine σ N L) (p : Phase) (elapsed : Duration) (s : σ) :
    List.Forall₂ (e.Works p) e.worlds (e.perform p elapsed s).2.1.worlds := by
  cases p with
  | loader =>
    change List.Forall₂ _ _ e.loaderPhase.2.worlds
    rw [loaderPhase_worlds]
    exact List.forall₂_map_right_iff.mpr (List.forall₂_same.mpr fun w _ => rfl)
  | levelWorker => exact forall₂_sweep (fun w _ s => ⟨s, rfl⟩) s
  | regionWorker => exact forall₂_sweep (fun w _ s => ⟨s, rfl⟩) s
  | worldWorker => exact forall₂_sweep (fun w _ s => ⟨s, rfl⟩) s
  | create =>
    refine forall₂_sweep ?_ s
    intro w _ _
    rfl
  | load => exact forall₂_sweep (fun w _ s => ⟨s, rfl⟩) s
  | unload => exact forall₂_sweep (fun w _ s => ⟨s, rfl⟩) s
  | destroy => exact forall₂_sweep (fun w _ s => ⟨s, rfl⟩) s
  | finish => exact List.forall₂_same.mpr fun w _ => rfl

theorem perform_setting (e : Engine σ N L) {p : Phase} (early : p ≠ .finish) (elapsed : Duration)
    (s : σ) : (e.perform p elapsed s).2.1.setting = e.setting := by
  cases p with
  | finish => exact absurd rfl early
  | _ => rfl

theorem perform_cursor (e : Engine σ N L) (p : Phase) (elapsed : Duration) (s : σ) :
    (e.perform p elapsed s).2.1.cursor = e.cursor := by
  cases p <;> rfl

/-- A phase runs exactly when it is the expected one. -/
theorem runPhase_eq (e : Engine σ N L) (p : Phase) (elapsed : Duration) (s : σ) :
    e.runPhase p elapsed s = if p = e.cursor.expected then
        .ok ({ e with cursor := ⟨p.next⟩ }.perform p elapsed s)
      else .error ⟨e.cursor.expected, p⟩ := by
  rw [runPhase, PhaseCursor.advance]
  split <;> rfl

/-- A phase that runs does its work on every world. -/
theorem runPhase_works {e e' : Engine σ N L} {p : Phase} {elapsed : Duration} {s s' : σ} {n : Nat}
    (done : e.runPhase p elapsed s = .ok (n, e', s')) :
    List.Forall₂ (e.Works p) e.worlds e'.worlds := by
  rw [runPhase_eq] at done
  split at done
  · have after : e' = ({ e with cursor := ⟨p.next⟩ }.perform p elapsed s).2.1 := by
      rw [Except.ok.inj done]
    have same : { e with cursor := ⟨p.next⟩ }.Works = e.Works := works_congr rfl
    rw [after, ← same]
    exact perform_works { e with cursor := ⟨p.next⟩ } p elapsed s
  · cases done

/-! ### Several phases -/

theorem runPhases_append (elapsed : Duration) (ps qs : List Phase) (e : Engine σ N L) (s : σ) :
    runPhases elapsed (ps ++ qs) e s = match runPhases elapsed ps e s with
      | .error err => .error err
      | .ok (e, s) => runPhases elapsed qs e s := by
  induction ps generalizing e s with
  | nil => rfl
  | cons p ps ih =>
    rw [List.cons_append, runPhases, runPhases]
    cases e.runPhase p elapsed s with
    | error err => rfl
    | ok result => exact ih result.2.1 result.2.2

/-- The phases of a tick from the expected one on all run, and do what they do to each world. -/
theorem runPhases_ran {e : Engine σ N L} {p : Phase} (expected : e.cursor.expected = p) {n : Nat}
    (room : p.index + n ≤ 9) (elapsed : Duration) (s : σ) :
    ∃ e' s', runPhases elapsed (p.sequence n) e s = .ok (e', s') ∧
      List.Forall₂ (e.Ran (p.sequence n)) e.worlds e'.worlds ∧
      (p.index + n < 9 → e'.setting = e.setting ∧ e'.cursor.expected.index = p.index + n) := by
  induction n generalizing e p s with
  | zero =>
    refine ⟨e, s, rfl, List.forall₂_same.mpr fun w _ => rfl, fun _ => ⟨rfl, ?_⟩⟩
    rw [expected]
    rfl
  | succ n ih =>
    obtain ⟨e₁, h₁⟩ : ∃ e₁, e₁ = ({ e with cursor := ⟨p.next⟩ }.perform p elapsed s).2.1 := ⟨_, rfl⟩
    have run : e.runPhase p elapsed s =
        .ok ({ e with cursor := ⟨p.next⟩ }.perform p elapsed s) := by
      rw [runPhase_eq, if_pos expected.symm]
    have first : List.Forall₂ (e.Works p) e.worlds e₁.worlds := by
      have same : { e with cursor := ⟨p.next⟩ }.Works = e.Works := works_congr rfl
      rw [h₁, ← same]
      exact perform_works { e with cursor := ⟨p.next⟩ } p elapsed s
    have cursor : e₁.cursor.expected = p.next := by
      rw [h₁, perform_cursor]
    cases n with
    | zero =>
      refine ⟨e₁, ({ e with cursor := ⟨p.next⟩ }.perform p elapsed s).2.2, ?_, ?_, fun below => ?_⟩
      · rw [Phase.sequence, runPhases, run]
        simp only [Phase.sequence, runPhases, h₁]
      · exact first.imp fun w w' works => ⟨w', works, rfl⟩
      · have early : p ≠ .finish := by
          rintro rfl
          exact absurd below (by decide)
        rw [cursor, Phase.index_next, h₁, perform_setting _ early]
        exact ⟨rfl, Nat.mod_eq_of_lt below⟩
    | succ n =>
      have early : p ≠ .finish := by
        rintro rfl
        have : Phase.finish.index = 8 := rfl
        omega
      have next : p.next.index = p.index + 1 := by
        rw [Phase.index_next]
        exact Nat.mod_eq_of_lt (by omega)
      have same : e₁.setting = e.setting := by
        rw [h₁, perform_setting _ early]
        rfl
      obtain ⟨e', s', rest, worlds, ends⟩ := ih cursor (by omega)
        ({ e with cursor := ⟨p.next⟩ }.perform p elapsed s).2.2
      refine ⟨e', s', ?_, ?_, fun below => ?_⟩
      · rw [Phase.sequence, runPhases, run]
        rw [h₁] at rest
        exact rest
      · rw [ran_congr same] at worlds
        exact forall₂_comp (fun w v w' works ran => ⟨v, works, ran⟩) first worlds
      · obtain ⟨setting, expects⟩ := ends (by omega)
        exact ⟨setting.trans same, by omega⟩

end Engine

end OctreeWorld
