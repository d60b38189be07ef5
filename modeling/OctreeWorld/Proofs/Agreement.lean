import OctreeWorld.Proofs.Hierarchy

/-!
# Runs that agree

Two runs of one kind are compared by what a caller sees of them: the answers, the state that the
effects thread along, and the targets up to a relation. Comparing steps carries over to sweeps.
Levels are compared by looking their nodes up.
-/

namespace OctreeWorld

variable {N L : Type}

/-- Two levels with the same nodes differ at most in index, commands and payload. -/
theorem Level.ext_get? {l m : Level N L} (bare : l.bare = m.bare)
    (nodes : ∀ c, l.get? c = m.get? c) : l = m := by
  obtain ⟨index, queues, data⟩ := bare_eq_iff.mp bare
  have same : l.nodes = m.nodes := Std.ExtTreeMap.ext_getElem? fun p => by
    rw [← get?_mk, nodes, index, get?_mk]
  cases l
  cases m
  simp_all

theorem map_eq_of_forall₂ {α β γ : Type} {R : α → β → Prop} {f : α → γ} {g : β → γ} {as : List α}
    {bs : List β} (related : List.Forall₂ R as bs) (each : ∀ a b, R a b → g b = f a) :
    bs.map g = as.map f := by
  induction related with
  | nil => rfl
  | cons head _ ih => rw [List.map_cons, List.map_cons, each _ _ head, ih]

/-- Two steps gave the same answer, left related targets and went on with the same state. -/
structure Agree {τ σ α : Type} (R : τ → τ → Prop) (x y : α × τ × σ) : Prop where
  answer : y.1 = x.1
  target : R x.2.1 y.2.1
  state : y.2.2 = x.2.2

/-- Steps that agree on related elements agree on related lists. -/
theorem agree_sweep {τ σ α : Type} {R : τ → τ → Prop} {step step' : τ → σ → α × τ × σ}
    {ts ts' : List τ} (related : List.Forall₂ R ts ts')
    (each : ∀ t ∈ ts, ∀ t' s, R t t' → Agree R (step t s) (step' t' s)) (s : σ) :
    Agree (List.Forall₂ R) (sweep step ts s) (sweep step' ts' s) := by
  induction related generalizing s with
  | nil => exact ⟨rfl, .nil, rfl⟩
  | @cons t t' ts ts' head _ ih =>
    have first := each t List.mem_cons_self t' s head
    rcases here : step t s with ⟨a, u, s₁⟩
    rcases there : step' t' s with ⟨b, v, s₂⟩
    rw [here, there] at first
    obtain ⟨rfl, target, rfl⟩ := first
    have rest := ih (fun u mem => each u (List.mem_cons_of_mem t mem)) s₂
    simp only [sweep, here, there]
    exact ⟨congrArg (b :: ·) rest.answer, .cons target rest.target, rest.state⟩

end OctreeWorld
