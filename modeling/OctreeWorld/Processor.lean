import OctreeWorld.Identifier
import OctreeWorld.Level

/-!
# Processors and batches

A processor attaches a side effect to one kind of command. For every batch each registered
processor is started, every command is shown to every processor in the order of registration, and
every processor is finished. An empty batch starts nothing.

The side effects act on a state `σ` that the whole run threads along. What a processor does to a
node, a level or a region is a list of edits. The edits are all that a processor can do, so link
bits are out of its reach, and versions and time stamps can only rise.
-/

namespace OctreeWorld

/-- Which queue or worker a batch comes from. -/
inductive CommandKind where
  | load
  | unload
  | tick
  | level
  | region
deriving DecidableEq, Inhabited

namespace CommandKind

def text : CommandKind → String
  | load => "load"
  | unload => "unload"
  | tick => "tick"
  | level => "level"
  | region => "region"

end CommandKind

/-- What a processor learns about a batch. -/
structure BatchContext where
  world : WorldId
  kind : CommandKind
  /-- The level in work, absent for batches of regions. -/
  level : Option UInt8 := none
  now : SimTime
  tick : UInt64
deriving DecidableEq

namespace BatchContext

def atLevel (ctx : BatchContext) (index : UInt8) : BatchContext := { ctx with level := some index }

def withKind (ctx : BatchContext) (kind : CommandKind) : BatchContext := { ctx with kind }

end BatchContext

/-- A side effect on the state `σ`: it is shown `V` and answers with edits `E`. -/
structure Processor (σ V E : Type) where
  name : String
  start : BatchContext → σ → σ
  process : BatchContext → V → σ → List E × σ
  finish : BatchContext → σ → σ

namespace Processor

variable {σ V E : Type}

/-- A processor that does nothing at the ends of a batch. -/
def plain (name : String) (process : BatchContext → V → σ → List E × σ) : Processor σ V E :=
  ⟨name, fun _ s => s, process, fun _ s => s⟩

end Processor

/-- Where a state keeps one of its parts. -/
structure Slot (σ α : Type) where
  get : σ → α
  set : σ → α → σ

namespace Slot

/-- The whole state. -/
def whole (σ : Type) : Slot σ σ := ⟨id, fun _ s => s⟩

end Slot

/-- How commands `κ` address parts of a target `τ`: the part a processor is shown, if it is there,
and the effect of one edit. -/
structure Addressing (κ τ V E : Type) where
  view : κ → τ → Option V
  edit : κ → τ → E → τ

section Batch

variable {κ τ V E σ : Type}

/-- Show a command to one processor and apply its edits. -/
def offerTo (addr : Addressing κ τ V E) (ctx : BatchContext) (c : κ) (p : Processor σ V E)
    (t : τ) (s : σ) : τ × σ :=
  match addr.view c t with
  | none => (t, s)
  | some v =>
    let (edits, s) := p.process ctx v s
    (edits.foldl (addr.edit c) t, s)

/-- Show a command to every processor, each one seeing the edits of those before it. -/
def offer (addr : Addressing κ τ V E) (ctx : BatchContext) (c : κ) :
    List (Processor σ V E) → τ → σ → τ × σ
  | [], t, s => (t, s)
  | p :: ps, t, s =>
    let (t, s) := offerTo addr ctx c p t s
    offer addr ctx c ps t s

/-- Show every command to every processor. -/
def dispatch (addr : Addressing κ τ V E) (ctx : BatchContext) (ps : List (Processor σ V E)) :
    List κ → τ → σ → τ × σ
  | [], t, s => (t, s)
  | c :: cs, t, s =>
    let (t, s) := offer addr ctx c ps t s
    dispatch addr ctx ps cs t s

/-- One batch: start every processor, dispatch every command, finish every processor. -/
def runBatch (addr : Addressing κ τ V E) (ctx : BatchContext) (ps : List (Processor σ V E))
    (cs : List κ) (t : τ) (s : σ) : τ × σ :=
  if cs.isEmpty then (t, s)
  else
    let s := ps.foldl (fun s p => p.start ctx s) s
    let (t, s) := dispatch addr ctx ps cs t s
    (t, ps.foldl (fun s p => p.finish ctx s) s)

end Batch

/-- Run a step on every element of a list in turn, threading the effects. -/
def sweep {τ σ α : Type} (step : τ → σ → α × τ × σ) : List τ → σ → List α × List τ × σ
  | [], s => ([], [], s)
  | t :: ts, s =>
    let (a, t, s) := step t s
    let (as, ts, s) := sweep step ts s
    (a :: as, t :: ts, s)

/-! ### Nodes -/

/-- What a processor of nodes is shown. -/
structure NodeView (N L : Type) where
  levelData : L
  node : Node N

/-- What a processor can do to a node and to the payload of its level. -/
inductive NodeEdit (N L : Type) where
  | setState (s : NodeState)
  | bumpVersion
  | raiseVersion (v : UInt32)
  | touch (now : SimTime)
  | setData (d : N)
  | setLevelData (d : L)

variable {N L σ : Type}

/-- Apply an edit to the node at a coordinate. -/
def Level.editNode (c : Coord) (l : Level N L) : NodeEdit N L → Level N L
  | .setState s => l.modify c (·.withState s)
  | .bumpVersion => l.modify c (·.bumpVersion)
  | .raiseVersion v => l.modify c (·.raiseVersion v)
  | .touch now => l.modify c (·.touch now)
  | .setData d => l.modify c fun n => { n with data := d }
  | .setLevelData d => { l with data := d }

abbrev NodeProcessor (σ N L : Type) := Processor σ (NodeView N L) (NodeEdit N L)

/-- A coordinate addresses the node it holds on a level. -/
def nodeAddressing : Addressing Coord (Level N L) (NodeView N L) (NodeEdit N L) where
  view c l := (l.get? c).map fun n => ⟨l.data, n⟩
  edit c l e := l.editNode c e

/-- Run processors over commands of one level. Commands without a node are passed over. -/
def runNodeBatch (ps : List (NodeProcessor σ N L)) (ctx : BatchContext) (l : Level N L)
    (cs : List Coord) (s : σ) : Level N L × σ :=
  runBatch nodeAddressing ctx ps cs l s

/-! ### Levels -/

/-- What a processor can do to a level. -/
inductive LevelEdit (N L : Type) where
  | setData (d : L)
  | push (q : Queue) (c : Coord)
  | node (c : Coord) (e : NodeEdit N L)

def Level.edit (l : Level N L) : LevelEdit N L → Level N L
  | .setData d => { l with data := d }
  | .push q c => l.push q c
  | .node c e => l.editNode c e

abbrev LevelProcessor (σ N L : Type) := Processor σ (Level N L) (LevelEdit N L)

/-- The one command of a level's own batch addresses the level itself. -/
def levelAddressing : Addressing Unit (Level N L) (Level N L) (LevelEdit N L) where
  view _ l := some l
  edit _ l e := l.edit e

def runLevelBatch (ps : List (LevelProcessor σ N L)) (ctx : BatchContext) (l : Level N L)
    (s : σ) : Level N L × σ :=
  runBatch levelAddressing ctx ps [()] l s

end OctreeWorld
