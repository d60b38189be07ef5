import OctreeWorld.Journal
import OctreeWorld.Region.Edit

/-!
# Scripted processors

Processors that follow a list of actions, for worlds whose nodes and levels carry 64-bit integers.
An action sees what the actions before it have done.
-/

namespace OctreeWorld.Scripted

/-- An action on a node. -/
inductive NodeAction where
  /-- Add to the node's payload, and one to that of its level. -/
  | add (n : Int64)
  | multiply (n : Int64)
  | bumpVersion
  | raiseVersion (v : UInt32)
  | setState (s : NodeState)
deriving DecidableEq

/-- An action on a level. -/
inductive LevelAction where
  | add (n : Int64)
  /-- Queue a command for every resident node, ordered by position. -/
  | pushAll (q : Queue)
deriving DecidableEq

/-- An action on a region. -/
inductive RegionAction where
  /-- Mark every resident node as changed. -/
  | markAll
  /-- Create a cell at once, at the time of the batch. -/
  | load (c : Coord)
deriving DecidableEq

/-- The edits that actions make to a node with payload `data` on a level with payload `level`. -/
def nodeEdits : List NodeAction → Int64 → Int64 → List (NodeEdit Int64 Int64)
  | [], _, _ => []
  | .add n :: rest, data, level =>
    .setData (data + n) :: .setLevelData (level + 1) :: nodeEdits rest (data + n) (level + 1)
  | .multiply n :: rest, data, level => .setData (data * n) :: nodeEdits rest (data * n) level
  | .bumpVersion :: rest, data, level => .bumpVersion :: nodeEdits rest data level
  | .raiseVersion v :: rest, data, level => .raiseVersion v :: nodeEdits rest data level
  | .setState s :: rest, data, level => .setState s :: nodeEdits rest data level

/-- The edits that actions make to a level whose payload is `data` by now. -/
def levelEdits (l : Level Int64 Int64) : List LevelAction → Int64 → List (LevelEdit Int64 Int64)
  | [], _ => []
  | .add n :: rest, data => .setData (data + n) :: levelEdits l rest (data + n)
  | .pushAll q :: rest, data =>
    (Level.byPosition (l.nodeList.map (·.coord))).map (LevelEdit.push q) ++ levelEdits l rest data

/-- The edits that actions make to a region. -/
def regionEdits (now : SimTime) :
    List RegionAction → Region Int64 Int64 → List (RegionEdit Int64 Int64)
  | [], _ => []
  | .markAll :: rest, r =>
    let marks := r.hierarchy.nodeList.map fun n => RegionEdit.markChanged n.coord
    marks ++ regionEdits now rest (marks.foldl Region.edit r)
  | .load c :: rest, r => .load c now :: regionEdits now rest (r.edit (.load c now))

/-- Payloads that tell where they belong: three coefficients and the level for a node, the level for
a level. -/
def factory : PayloadFactory Int64 Int64 where
  node c := c.pos.x.toInt64 + 3 * c.pos.y.toInt64 + 7 * c.pos.z.toInt64 +
    1000 * Int64.ofNat c.level.toNat
  level index := 100 * Int64.ofNat index.toNat

variable {σ V E : Type}

/-- A processor that acts, and that records if there is a journal to write to. -/
def processor (journal : Option (Slot σ Journal)) (name : String) (shown : V → String)
    (act : BatchContext → V → List E) : Processor σ V E :=
  match journal with
  | some slot => .recording slot name shown act
  | none => .plain name fun ctx v s => (act ctx v, s)

def integerText (n : Int64) : String := toString n.toInt

def nodeProcessor (journal : Option (Slot σ Journal)) (name : String)
    (actions : List NodeAction) : NodeProcessor σ Int64 Int64 :=
  processor journal name (NodeView.text integerText integerText) fun _ v =>
    nodeEdits actions v.node.data v.levelData

def levelProcessor (journal : Option (Slot σ Journal)) (name : String)
    (actions : List LevelAction) : LevelProcessor σ Int64 Int64 :=
  processor journal name (Level.text integerText) fun _ l => levelEdits l actions l.data

def regionProcessor (journal : Option (Slot σ Journal)) (name : String)
    (actions : List RegionAction) : RegionProcessor σ Int64 Int64 :=
  processor journal name Region.text fun ctx r => regionEdits ctx.now actions r

end OctreeWorld.Scripted
