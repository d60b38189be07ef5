import OctreeWorld.Hierarchy
import OctreeWorld.Processor

/-!
# The life of a node

A requested cell is created together with its missing ancestors and is `loading` until the load
processors have run; it is `loaded` until a request to unload it, `unloading` until the unload
processors have run, and `deleting` until it is removed. Each transition drains one queue. A
drained queue is a set: every command acts once, in the order of levels and positions.

These steps serve worlds and regions alike, and the transitions happen whether or not any
processor is registered.
-/

namespace OctreeWorld

variable {N L σ : Type}

/-! ### Creation -/

namespace Hierarchy

/-- Create one cell: insert it as loading, stamped with the time, and queue its load. -/
def createCell (h : Hierarchy N L) (factory : PayloadFactory N L) (now : SimTime) (c : Coord) :
    Except OctreeError (Hierarchy N L) := do
  let h ← h.insert (Node.fresh c (factory.node c))
  return h.modifyLevel c.level fun l =>
    (l.modifyAt c.pos fun n => (n.withState .loading).touch now).push .load c

/-- Create the absent cells of a chain in turn, stopping at the first that is refused. Also lists
the cells created. -/
def createChain (factory : PayloadFactory N L) (now : SimTime) :
    List Coord → Hierarchy N L → Except OctreeError Unit × List Coord × Hierarchy N L
  | [], h => (.ok (), [], h)
  | c :: cs, h =>
    if h.contains c then createChain factory now cs h
    else
      match h.createCell factory now c with
      | .error e => (.error e, [], h)
      | .ok h =>
        let (r, created, h) := createChain factory now cs h
        (r, c :: created, h)

/-- A cell and its ancestors in the hierarchy, coarsest first. -/
def lineage (h : Hierarchy N L) (c : Coord) : List Coord :=
  ((List.range (h.coarsest.toNat + 1 - c.level.toNat)).map fun i => Coord.climb i c).reverse

/-- Make a cell resident, with its missing ancestors. Answers whether the cell was missing, and
lists the cells created. -/
def ensure (h : Hierarchy N L) (factory : PayloadFactory N L) (now : SimTime) (c : Coord) :
    Except OctreeError Bool × List Coord × Hierarchy N L :=
  match h.checkLevel c.level with
  | .error e => (.error e, [], h)
  | .ok () =>
    if h.contains c then (.ok false, [], h)
    else
      let (r, created, h) := createChain factory now (h.lineage c) h
      (r.map fun _ => true, created, h)

/-- Make every cell of a list resident. Refused requests are dropped. -/
def ensureAll (factory : PayloadFactory N L) (now : SimTime) :
    List Coord → Hierarchy N L → List Coord × Hierarchy N L
  | [], h => ([], h)
  | c :: cs, h =>
    let (_, created, h) := h.ensure factory now c
    let (rest, h) := ensureAll factory now cs h
    (created ++ rest, h)

/-- Drain the create queue of each level of a list in turn. -/
def createAt (factory : PayloadFactory N L) (now : SimTime) :
    List UInt8 → Hierarchy N L → List Coord × Hierarchy N L
  | [], h => ([], h)
  | index :: rest, h =>
    let requests := match h.level? index with
      | some l => l.drained .create
      | none => []
    let h := h.modifyLevel index (·.clear .create)
    let (created, h) := ensureAll factory now requests h
    let (more, h) := createAt factory now rest h
    (created ++ more, h)

/-- The level indices, finest first. -/
def indices (h : Hierarchy N L) : List UInt8 :=
  (List.range h.levelCount.toNat).map UInt8.ofNat

/-- Drain every create queue, coarsest level first, and list the cells created. -/
def createPending (h : Hierarchy N L) (factory : PayloadFactory N L) (now : SimTime) :
    List Coord × Hierarchy N L :=
  createAt factory now h.indices.reverse h

end Hierarchy

/-! ### One level's queues -/

namespace Level

/-- Drain the load queue: run the load processors over the nodes that are loading, then mark those
loaded. Answers how many there were. -/
def load (ps : List (NodeProcessor σ N L)) (ctx : BatchContext) (l : Level N L) (s : σ) :
    Nat × Level N L × σ :=
  let cs := (l.drained .load).filter fun c => (l.get? c).any (·.state == .loading)
  let (l, s) := runNodeBatch ps ctx (l.clear .load) cs s
  (cs.length, l.modifyAll cs (·.withState .loaded), s)

/-- Drain the unload queue: run the unload processors over the leaves, mark those deleting and queue
their destruction. Nodes with children go back to loaded, nodes already deleting are passed over.
Answers how many leaves there were. -/
def unload (ps : List (NodeProcessor σ N L)) (ctx : BatchContext) (l : Level N L) (s : σ) :
    Nat × Level N L × σ :=
  let live := (l.drained .unload).filter fun c => (l.get? c).any (·.state != .deleting)
  let leaves := live.filter fun c => (l.get? c).any (·.isLeaf)
  let parents := live.filter fun c => !(l.get? c).any (·.isLeaf)
  let l := (l.clear .unload).modifyAll parents (·.withState .loaded)
  let (l, s) := runNodeBatch ps ctx l leaves s
  let l := l.modifyAll leaves (·.withState .deleting)
  (leaves.length, l.pushAll .destroy leaves, s)

/-- Drain the tick queue through the tick processors. Answers how many nodes were resident. -/
def tick (ps : List (NodeProcessor σ N L)) (ctx : BatchContext) (l : Level N L) (s : σ) :
    Nat × Level N L × σ :=
  let cs := (l.drained .tick).filter l.contains
  let (l, s) := runNodeBatch ps ctx (l.clear .tick) cs s
  (cs.length, l, s)

end Level

/-! ### Removal -/

namespace Hierarchy

/-- Run the unload processors over the nodes of a list that lie on one level and are not deleting
yet, and mark those deleting. -/
def retireAt (ps : List (NodeProcessor σ N L)) (ctx : BatchContext) (order : List Coord)
    (index : UInt8) (h : Hierarchy N L) (s : σ) : Hierarchy N L × σ :=
  match h.level? index with
  | none => (h, s)
  | some l =>
    let cs := order.filter fun c =>
      c.level == index && (l.get? c).any (·.state != .deleting)
    let (l, s) := runNodeBatch ps (ctx.atLevel index) l cs s
    (h.modifyLevel index fun _ => l.modifyAll cs (·.withState .deleting), s)

/-- Retire the nodes of a list, level by level. -/
def retire (ps : List (NodeProcessor σ N L)) (ctx : BatchContext) (order : List Coord) :
    List UInt8 → Hierarchy N L → σ → Hierarchy N L × σ
  | [], h, s => (h, s)
  | index :: rest, h, s =>
    let (h, s) := retireAt ps ctx order index h s
    retire ps ctx order rest h s

/-- Remove nodes in turn, stopping at the first that is refused. -/
def removeAll : List Coord → Hierarchy N L → Except OctreeError Unit × Hierarchy N L
  | [], h => (.ok (), h)
  | c :: cs, h =>
    match h.remove c with
    | .error e => (.error e, h)
    | .ok h => removeAll cs h

/-- Unload the subtree of a cell at once, leaf first: run the unload processors over every node not
deleting yet, then unlink and drop every node. Answers the removed coordinates in the order of
removal. -/
def unloadSubtree (h : Hierarchy N L) (ps : List (NodeProcessor σ N L)) (ctx : BatchContext)
    (root : Coord) (s : σ) : Except OctreeError (List Coord) × Hierarchy N L × σ :=
  match h.subtree root with
  | .error e => (.error e, h, s)
  | .ok order =>
    let levels := (List.range (root.level.toNat + 1)).map UInt8.ofNat
    let (h, s) := retire ps ctx order levels h s
    let (r, h) := removeAll order h
    (r.map fun _ => order, h, s)

/-- Unload the subtrees of the cells of a list that are still resident. -/
def destroyAll (ps : List (NodeProcessor σ N L)) (ctx : BatchContext) :
    List Coord → Hierarchy N L → σ → List Coord × Hierarchy N L × σ
  | [], h, s => ([], h, s)
  | c :: cs, h, s =>
    if h.contains c then
      let (r, h, s) := h.unloadSubtree ps ctx c s
      let removed := match r with
        | .ok order => order
        | .error _ => []
      let (more, h, s) := destroyAll ps ctx cs h s
      (removed ++ more, h, s)
    else destroyAll ps ctx cs h s

/-- Drain the destroy queue of each level of a list in turn. -/
def destroyAt (ps : List (NodeProcessor σ N L)) (ctx : BatchContext) :
    List UInt8 → Hierarchy N L → σ → List Coord × Hierarchy N L × σ
  | [], h, s => ([], h, s)
  | index :: rest, h, s =>
    let doomed := match h.level? index with
      | some l => l.drained .destroy
      | none => []
    let h := h.modifyLevel index (·.clear .destroy)
    let (removed, h, s) := destroyAll ps (ctx.atLevel index) doomed h s
    let (more, h, s) := destroyAt ps ctx rest h s
    (removed ++ more, h, s)

/-- Drain every destroy queue, finest level first, and list the removed coordinates. -/
def destroyPending (h : Hierarchy N L) (ps : List (NodeProcessor σ N L)) (ctx : BatchContext)
    (s : σ) : List Coord × Hierarchy N L × σ :=
  destroyAt ps ctx h.indices h s

/-- Run a step on every level, finest first, and add up what it answers. -/
def sweepLevels (step : Level N L → σ → Nat × Level N L × σ) (h : Hierarchy N L) (s : σ) :
    Nat × Hierarchy N L × σ :=
  let (counts, levels, s) := sweep step h.levels s
  (tally counts, ⟨levels⟩, s)

end Hierarchy

end OctreeWorld
