import OctreeWorld.Proofs.Linking

/-!
# Creation

Requests create missing cells together with their missing ancestors. `Hierarchy.Grown` says what
came of it: the cells created were absent and are loading now, each with its load queued, no other
node has been touched but for its links, and the hierarchy is linked again. On a linked hierarchy no
request for an existing level can be refused.
-/

namespace OctreeWorld

variable {N L : Type}

/-- A cell as creation leaves it. -/
def PayloadFactory.newborn (factory : PayloadFactory N L) (now : SimTime) (c : Coord) : Node N :=
  ((Node.fresh c (factory.node c)).withState .loading).touch now

namespace Hierarchy

/-- What creations did, `drained` being the levels whose create queue has been drained and `created`
the cells in the order of their creation. -/
structure Grown (factory : PayloadFactory N L) (now : SimTime) (drained : List UInt8)
    (created : List Coord) (h g : Hierarchy N L) : Prop where
  linked : g.Linked
  length : g.levels.length = h.levels.length
  create : ∀ i, g.pending i .create = if i ∈ drained then [] else h.pending i .create
  load : ∀ i, g.pending i .load = h.pending i .load ++ created.filter (·.level == i)
  other : ∀ i q, q ≠ .create → q ≠ .load → g.pending i q = h.pending i q
  body : ∀ c, g.body c = if c ∈ created then some (factory.newborn now c) else h.body c
  fresh : ∀ c ∈ created, h.contains c = false

namespace Grown

variable {factory : PayloadFactory N L} {now : SimTime} {drained more : List UInt8}
  {created later : List Coord} {h g k : Hierarchy N L}

theorem refl (linked : h.Linked) : Grown factory now [] [] h h := by
  refine ⟨linked, rfl, fun i => rfl, fun i => ?_, fun _ _ _ _ => rfl, fun c => rfl, ?_⟩
  · exact (List.append_nil _).symm
  · intro c listed
    cases listed

theorem trans (first : Grown factory now drained created h g)
    (second : Grown factory now more later g k) :
    Grown factory now (drained ++ more) (created ++ later) h k := by
  refine ⟨second.linked, second.length.trans first.length, fun i => ?_, fun i => ?_,
    fun i q hc hl => (second.other i q hc hl).trans (first.other i q hc hl), fun c => ?_, ?_⟩
  · rw [second.create, first.create]
    by_cases a : i ∈ drained <;> by_cases b : i ∈ more <;> simp [a, b]
  · rw [second.load, first.load, List.filter_append, List.append_assoc]
  · rw [second.body, first.body]
    by_cases a : c ∈ created <;> by_cases b : c ∈ later <;> simp [a, b]
  · intro c listed
    rcases List.mem_append.mp listed with early | late
    · exact first.fresh c early
    · have absent := second.fresh c late
      rw [← isSome_body, first.body] at absent
      split at absent
      · cases absent
      · rw [← isSome_body]
        exact absent

theorem contains_iff (grown : Grown factory now drained created h g) (c : Coord) :
    g.contains c = true ↔ c ∈ created ∨ h.contains c = true := by
  rw [← isSome_body, grown.body]
  by_cases listed : c ∈ created
  · simp [listed]
  · simp [listed, isSome_body]

theorem contains (grown : Grown factory now drained created h g) {c : Coord}
    (resident : h.contains c = true) : g.contains c = true :=
  (grown.contains_iff c).mpr (Or.inr resident)

/-- What was there stays, with links that may be new. -/
theorem old (grown : Grown factory now drained created h g) {c : Coord}
    (resident : h.contains c = true) : g.body c = h.body c := by
  rw [grown.body, if_neg]
  intro made
  rw [grown.fresh c made] at resident
  cases resident

/-- What was not there is as the factory makes it, but for its links. -/
theorem young (grown : Grown factory now drained created h g) {c : Coord} {n : Node N}
    (absent : h.contains c = false) (found : g.get? c = some n) :
    c ∈ created ∧ n.clearLinks = (factory.newborn now c).clearLinks := by
  have there : g.contains c = true := Hierarchy.contains_iff.mpr ⟨n, found⟩
  rw [grown.contains_iff, absent] at there
  have made := there.resolve_right Bool.false_ne_true
  have body := grown.body c
  rw [if_pos made, Hierarchy.body, found] at body
  exact ⟨made, Option.some.inj body⟩

theorem levelCount (grown : Grown factory now drained created h g) :
    g.levelCount = h.levelCount := levelCount_congr grown.length

theorem coarsest (grown : Grown factory now drained created h g) : g.coarsest = h.coarsest :=
  coarsest_congr grown.length

end Grown

/-! ### One cell -/

/-- A cell that is free to be created is created. -/
theorem Linked.createCell {h : Hierarchy N L} (linked : h.Linked) (factory : PayloadFactory N L)
    (now : SimTime) {c : Coord} (free : h.insertError? c = none) :
    ∃ g, h.createCell factory now c = .ok g ∧ Grown factory now [] [c] h g := by
  obtain ⟨k, result, linked_k, patch, arrived⟩ :=
    linked.insert (n := Node.fresh c (factory.node c)) free
  obtain ⟨inside, absent, -⟩ := insertError?_eq_none_iff.mp free
  let begin_ (n : Node N) : Node N := (n.withState .loading).touch now
  have num := linked_k.numbered
  have length := length_of_frame patch.frame
  have inside_k : c.level < k.levelCount := by rwa [levelCount_congr length]
  have queue : ∀ i q, (k.mark c begin_ .load).pending i q =
      if c.level = i ∧ .load = q then h.pending i q ++ [c] else h.pending i q := by
    intro i q
    rw [pending_mark num inside_k, pending_of_frame patch.frame]
  refine ⟨k.mark c begin_ .load, ?_, linked_k.mark c (f := begin_) (fun _ => rfl) .load,
    ?_, ?_, ?_, ?_, ?_, ?_⟩
  · rw [Hierarchy.createCell, result, mark_eq_modifyAt num]
    rfl
  · exact (length_mark k c begin_ .load).trans length
  · intro i
    rw [queue, if_neg fun both => Queue.noConfusion both.2]
    rfl
  · intro i
    rw [queue]
    by_cases level : c.level = i <;> simp [level]
  · intro i q _ other
    rw [queue, if_neg fun both => other both.2.symm]
  · intro e
    rw [Hierarchy.body, get?_mark]
    by_cases same : c = e
    · subst same
      obtain ⟨m, found, body⟩ := Option.map_eq_some_iff.mp arrived
      have found : k.get? c = some m := found
      have begun : (begin_ m).clearLinks = begin_ m.clearLinks := rfl
      rw [if_pos rfl, if_pos (List.mem_singleton_self c), found, Option.map_some, Option.map_some,
        begun, body]
      rfl
    · rw [if_neg same, if_neg fun listed => same (List.mem_singleton.mp listed).symm]
      exact patch.body e (Ne.symm same)
  · intro e listed
    rw [List.mem_singleton.mp listed]
    exact absent

/-! ### Chains -/

/-- The cells from `c` up to `n` levels above it, coarsest first. -/
def ascent (n : Nat) (c : Coord) : List Coord :=
  ((List.range n).map fun i => Coord.climb i c).reverse

theorem ascent_succ (n : Nat) (c : Coord) :
    ascent (n + 1) c = Coord.climb n c :: ascent n c := by
  simp [ascent, List.range_succ]

theorem mem_ascent {n : Nat} {c e : Coord} : e ∈ ascent n c ↔ ∃ i < n, Coord.climb i c = e := by
  simp [ascent]

/-- Along the ancestors of a cell, from one whose parent is resident or that has none, nothing is
refused: every cell of the chain is resident afterwards. -/
theorem Linked.createChain {h : Hierarchy N L} (linked : h.Linked) (factory : PayloadFactory N L)
    (now : SimTime) {n : Nat} {c : Coord} (inside : c.level.toNat + n ≤ h.levels.length)
    (top : c.level.toNat + n = h.levels.length ∨ h.contains (Coord.climb n c) = true) :
    ∃ g, createChain factory now (ascent n c) h =
        (.ok (), (ascent n c).filter fun e => !h.contains e, g) ∧
      Grown factory now [] ((ascent n c).filter fun e => !h.contains e) h g ∧
      ∀ e ∈ ascent n c, g.contains e = true := by
  induction n generalizing h with
  | zero =>
    refine ⟨h, rfl, Grown.refl linked, ?_⟩
    intro e listed
    cases listed
  | succ n ih =>
    have num := linked.numbered
    have short := num.length_lt
    let d := Coord.climb n c
    have level : d.level.toNat = c.level.toNat + n := Coord.toNat_climb_level (by omega)
    rw [ascent_succ]
    by_cases resident : h.contains d = true
    · -- The head is there already and is the resident parent of the next cell.
      obtain ⟨g, run, grown, all⟩ := ih linked (by omega) (Or.inr resident)
      have kept : (d :: ascent n c).filter (fun e => !h.contains e) =
          (ascent n c).filter fun e => !h.contains e := by simp [resident]
      refine ⟨g, ?_, ?_, ?_⟩
      · rw [Hierarchy.createChain, if_pos resident, run, kept]
      · rw [kept]
        exact grown
      · intro e listed
        rcases List.mem_cons.mp listed with rfl | listed
        · exact grown.contains resident
        · exact all e listed
    · have free : h.insertError? d = none := by
        refine insertError?_eq_none_iff.mpr ⟨?_, Bool.eq_false_iff.mpr resident, fun below => ?_⟩
        · rw [UInt8.lt_iff_toNat_lt, num.toNat_levelCount, level]
          omega
        · have room := (num.lt_coarsest_iff d.level).mp below
          rw [← Coord.climb_succ]
          exact top.resolve_left (by omega)
      obtain ⟨k, made, first⟩ := linked.createCell factory now free
      have length := first.length
      obtain ⟨g, run, grown, all⟩ := ih first.linked (by omega)
        (Or.inr ((first.contains_iff d).mpr (Or.inl (List.mem_singleton_self d))))
      have lower : ∀ e ∈ ascent n c, k.contains e = h.contains e := by
        intro e listed
        obtain ⟨i, hi, rfl⟩ := mem_ascent.mp listed
        have other : Coord.climb i c ≠ d := by
          intro same
          have := congrArg (fun e => e.level.toNat) same
          simp only [level, Coord.toNat_climb_level (n := i) (c := c) (by omega)] at this
          omega
        apply Bool.eq_iff_iff.mpr
        rw [first.contains_iff, List.mem_singleton, or_iff_right other]
      have kept : (d :: ascent n c).filter (fun e => !h.contains e) =
          [d] ++ (ascent n c).filter fun e => !k.contains e := by
        rw [List.filter_cons_of_pos (by simpa using resident), List.singleton_append]
        congr 1
        exact List.filter_congr fun e listed => by rw [lower e listed]
      refine ⟨g, ?_, ?_, ?_⟩
      · rw [Hierarchy.createChain, if_neg resident, made, kept]
        simp only [run]
        rfl
      · rw [kept]
        exact first.trans grown
      · intro e listed
        rcases List.mem_cons.mp listed with rfl | listed
        · exact grown.contains
            ((first.contains_iff d).mpr (Or.inl (List.mem_singleton_self d)))
        · exact all e listed

/-! ### Requests -/

/-- The cells a request creates: the absent ones among the cell and its ancestors. -/
def missing (h : Hierarchy N L) (c : Coord) : List Coord :=
  if c.level < h.levelCount then (h.lineage c).filter fun e => !h.contains e else []

theorem mem_lineage_self {h : Hierarchy N L} (num : h.Numbered) {c : Coord}
    (inside : c.level < h.levelCount) : c ∈ h.lineage c := by
  have below := UInt8.lt_iff_toNat_lt.mp inside
  rw [num.toNat_levelCount] at below
  have top := num.toNat_coarsest (by omega)
  exact mem_ascent.mpr ⟨0, by omega, rfl⟩

theorem under_of_mem_lineage {h : Hierarchy N L} {c e : Coord} (listed : e ∈ h.lineage c) :
    c.Under e := by
  obtain ⟨n, lower, rfl⟩ := mem_ascent.mp listed
  have top := h.coarsest.toNat_lt
  exact ⟨n, rfl, Coord.toNat_climb_level (by omega)⟩

theorem lineage_congr {h g : Hierarchy N L} (same : g.coarsest = h.coarsest) (c : Coord) :
    g.lineage c = h.lineage c := by
  rw [lineage, lineage, same]

/-- A request is refused exactly when there is no such level. -/
theorem Linked.ensure {h : Hierarchy N L} (linked : h.Linked) (factory : PayloadFactory N L)
    (now : SimTime) (c : Coord) :
    ∃ g, h.ensure factory now c = (if c.level < h.levelCount then .ok (!h.contains c)
        else .error (.levelOutOfRange c.level h.levelCount), h.missing c, g) ∧
      Grown factory now [] (h.missing c) h g ∧
      (c.level < h.levelCount → g.contains c = true) := by
  have num := linked.numbered
  unfold Hierarchy.ensure checkLevel missing
  by_cases inside : c.level < h.levelCount
  · have below := UInt8.lt_iff_toNat_lt.mp inside
    rw [num.toNat_levelCount] at below
    have top := num.toNat_coarsest (by omega)
    simp only [if_pos inside]
    by_cases resident : h.contains c = true
    · have none_ : (h.lineage c).filter (fun e => !h.contains e) = [] := by
        refine List.filter_eq_nil_iff.mpr fun e listed => ?_
        obtain ⟨i, hi, rfl⟩ := mem_ascent.mp listed
        rw [linked.climb_resident resident (by omega)]
        exact Bool.false_ne_true
      rw [if_pos resident, none_, resident]
      exact ⟨h, rfl, Grown.refl linked, fun _ => resident⟩
    · obtain ⟨g, run, grown, all⟩ := linked.createChain factory now (c := c)
        (n := h.coarsest.toNat + 1 - c.level.toNat) (by omega) (Or.inl (by omega))
      have absent : h.contains c = false := Bool.eq_false_iff.mpr resident
      have run : Hierarchy.createChain factory now (h.lineage c) h =
        (.ok (), (h.lineage c).filter fun e => !h.contains e, g) := run
      refine ⟨g, ?_, grown, fun _ => all c (mem_lineage_self num inside)⟩
      rw [if_neg resident, run, absent]
      rfl
  · simp only [if_neg inside]
    exact ⟨h, rfl, Grown.refl linked, fun below => absurd below inside⟩

theorem Linked.ensureAll {h : Hierarchy N L} (linked : h.Linked) (factory : PayloadFactory N L)
    (now : SimTime) (cs : List Coord) :
    ∃ created g, ensureAll factory now cs h = (created, g) ∧ Grown factory now [] created h g ∧
      (∀ c ∈ cs, c.level < h.levelCount → g.contains c = true) ∧
      ∀ e ∈ created, ∃ c ∈ cs, c.level < h.levelCount ∧ e ∈ h.lineage c := by
  induction cs generalizing h with
  | nil =>
    refine ⟨[], h, rfl, Grown.refl linked, ?_, ?_⟩
    · intro c listed
      cases listed
    · intro e listed
      cases listed
  | cons c cs ih =>
    obtain ⟨k, run, first, here⟩ := linked.ensure factory now c
    obtain ⟨created, g, rest, second, all, origin⟩ := ih first.linked
    refine ⟨h.missing c ++ created, g, ?_, first.trans second, ?_, ?_⟩
    · rw [Hierarchy.ensureAll, run]
      simp only [rest]
    · intro e listed inside
      rcases List.mem_cons.mp listed with rfl | listed
      · exact second.contains (here inside)
      · exact all e listed (by rwa [first.levelCount])
    · intro e listed
      rcases List.mem_append.mp listed with early | late
      · unfold missing at early
        split at early
        · rename_i inside
          exact ⟨c, List.mem_cons_self, inside, (List.mem_filter.mp early).1⟩
        · cases early
      · obtain ⟨d, asked, inside, above⟩ := origin e late
        rw [first.levelCount] at inside
        rw [lineage_congr first.coarsest] at above
        exact ⟨d, List.mem_cons_of_mem c asked, inside, above⟩

/-! ### Draining the create queues -/

theorem Grown.clear {h : Hierarchy N L} (linked : h.Linked) (factory : PayloadFactory N L)
    (now : SimTime) (i : UInt8) :
    Grown factory now [i] [] h (h.modifyLevel i (·.clear .create)) := by
  refine ⟨linked.clear i .create, length_modifyLevel h i _, fun j => ?_, fun j => ?_,
    fun j q other _ => ?_, fun c => ?_, ?_⟩
  · rw [pending_clear]
    simp [eq_comm]
  · rw [pending_clear, if_neg fun both => Queue.noConfusion both.2]
    exact (List.append_nil _).symm
  · rw [pending_clear, if_neg fun both => other both.2.symm]
  · rw [Hierarchy.body, get?_modifyLevel_of_get? i fun l c => Level.get?_clear l .create c]
    rfl
  · intro c listed
    cases listed

theorem createAt_cons (factory : PayloadFactory N L) (now : SimTime) (i : UInt8)
    (is : List UInt8) (h : Hierarchy N L) :
    createAt factory now (i :: is) h =
      let (created, k) := ensureAll factory now (CoordSet.sorted (h.pending i .create))
        (h.modifyLevel i (·.clear .create))
      let (more, g) := createAt factory now is k
      (created ++ more, g) := by
  rw [createAt, pending]
  cases h.level? i with
  | none => rfl
  | some l => rfl

theorem Linked.createAt {h : Hierarchy N L} (linked : h.Linked) (factory : PayloadFactory N L)
    (now : SimTime) (is : List UInt8) :
    ∃ created g, createAt factory now is h = (created, g) ∧ Grown factory now is created h g ∧
      (∀ i ∈ is, ∀ c ∈ h.pending i .create, c.level < h.levelCount → g.contains c = true) ∧
      ∀ e ∈ created, ∃ i ∈ is, ∃ c ∈ h.pending i .create,
        c.level < h.levelCount ∧ e ∈ h.lineage c := by
  induction is generalizing h with
  | nil =>
    refine ⟨[], h, rfl, Grown.refl linked, ?_, ?_⟩
    · intro i listed
      cases listed
    · intro e listed
      cases listed
  | cons i is ih =>
    let requests := CoordSet.sorted (h.pending i .create)
    have cleared := Grown.clear linked factory now i
    obtain ⟨made, k, run, first, here, cause⟩ := cleared.linked.ensureAll factory now requests
    have step := cleared.trans first
    obtain ⟨created, g, rest, second, all, origin⟩ := ih first.linked
    refine ⟨made ++ created, g, ?_, step.trans second, ?_, ?_⟩
    · rw [createAt_cons]
      simp only [requests] at run
      simp only [run, rest]
    · intro j listed c asked inside
      rcases List.mem_cons.mp listed with rfl | listed
      · refine second.contains (here c (Level.mem_sorted.mpr asked) ?_)
        rwa [cleared.levelCount]
      · by_cases same : j = i
        · subst same
          refine second.contains (here c (Level.mem_sorted.mpr asked) ?_)
          rwa [cleared.levelCount]
        · refine all j listed c ?_ (by rwa [step.levelCount])
          rw [step.create, if_neg (by simpa using same)]
          exact asked
    · intro e listed
      rcases List.mem_append.mp listed with early | late
      · obtain ⟨c, asked, inside, above⟩ := cause e early
        rw [cleared.levelCount] at inside
        rw [lineage_congr cleared.coarsest] at above
        exact ⟨i, List.mem_cons_self, c, Level.mem_sorted.mp asked, inside, above⟩
      · obtain ⟨j, listed, c, asked, inside, above⟩ := origin e late
        rw [step.levelCount] at inside
        rw [lineage_congr step.coarsest] at above
        rw [step.create] at asked
        split at asked
        · cases asked
        · exact ⟨j, List.mem_cons_of_mem i listed, c, asked, inside, above⟩

/-- Draining all create queues empties them and makes every requested cell resident. -/
theorem Linked.createPending {h : Hierarchy N L} (linked : h.Linked)
    (factory : PayloadFactory N L) (now : SimTime) :
    ∃ created g, h.createPending factory now = (created, g) ∧
      Grown factory now h.indices.reverse created h g ∧ (∀ i, g.pending i .create = []) ∧
      (∀ i, ∀ c ∈ h.pending i .create, c.level < h.levelCount → g.contains c = true) ∧
      ∀ e ∈ created, ∃ i, ∃ c ∈ h.pending i .create, c.level < h.levelCount ∧ e ∈ h.lineage c := by
  obtain ⟨created, g, run, grown, all, origin⟩ :=
    linked.createAt factory now h.indices.reverse
  have listed : ∀ i, i ∉ h.indices.reverse → h.pending i .create = [] := fun i away =>
    linked.numbered.pending_of_not_mem_indices (fun listed => away (List.mem_reverse.mpr listed))
      .create
  refine ⟨created, g, run, grown, fun i => ?_, fun i c asked => ?_, fun e made => ?_⟩
  · rw [grown.create]
    split
    · rfl
    · rename_i away
      exact listed i away
  · by_cases named : i ∈ h.indices.reverse
    · exact all i named c asked
    · rw [listed i named] at asked
      cases asked
  · obtain ⟨i, -, c, asked, inside, above⟩ := origin e made
    exact ⟨i, c, asked, inside, above⟩

end Hierarchy

end OctreeWorld
