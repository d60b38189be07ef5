import OctreeWorld.Region

/-!
# Journals of batches

A journal is the list of the batches in which some recording processor took part. A recording
processor writes an event when it is started, whenever it is shown something, and when it is
finished; so the entry of a batch runs from the first start to the last finish, and the next start
opens the next entry.
-/

namespace OctreeWorld

/-- What the recording processors wrote during one batch. -/
structure JournalEntry where
  kind : CommandKind
  level : Option UInt8
  tick : UInt64
  now : SimTime
  /-- Newest first. -/
  events : List String
  /-- Whether the newest event is the finish of a processor. -/
  closing : Bool
deriving DecidableEq, Inhabited

/-- Entries, newest first. -/
abbrev Journal := List JournalEntry

namespace JournalEntry

/-- The first event of a batch. -/
def first (ctx : BatchContext) (event : String) : JournalEntry :=
  { kind := ctx.kind, level := ctx.level, tick := ctx.tick, now := ctx.now
    events := [event], closing := false }

/-- Write an event behind the others. -/
def add (e : JournalEntry) (event : String) (closing : Bool) : JournalEntry :=
  { e with events := event :: e.events, closing }

/-- The level, batches without one coming before all levels. -/
def rank (e : JournalEntry) : Nat := (e.level.map fun index => index.toNat + 1).getD 0

/-- The order in which batches of parallel work are listed: by level, by kind, and then by their
events. -/
def listingOrder (a b : JournalEntry) : Ordering :=
  (compare a.rank b.rank).then <|
    (compare a.kind.text b.kind.text).then (compare a.events.reverse b.events.reverse)

end JournalEntry

namespace Journal

/-- Write the start of a processor. It opens a new entry when the last one is closing. -/
def start (j : Journal) (ctx : BatchContext) (event : String) : Journal :=
  match j with
  | [] => [.first ctx event]
  | e :: rest =>
    if e.closing then .first ctx event :: e :: rest else e.add event false :: rest

/-- Write an event into the newest entry. -/
def write (j : Journal) (event : String) (closing : Bool) : Journal :=
  match j with
  | [] => []
  | e :: rest => e.add event closing :: rest

/-- The entries, oldest first. -/
def inOrder (j : Journal) : List JournalEntry := j.reverse

/-- The entries in the order of listings. -/
def listed (j : Journal) : List JournalEntry :=
  j.inOrder.mergeSort fun a b => (a.listingOrder b).isLE

end Journal

/-- A processor that records what it is shown before it acts. -/
def Processor.recording {σ V E : Type} (slot : Slot σ Journal) (name : String)
    (shown : V → String) (act : BatchContext → V → List E) : Processor σ V E where
  name
  start ctx s := slot.set s (Journal.start (slot.get s) ctx ("init " ++ name))
  process ctx v s :=
    (act ctx v, slot.set s (Journal.write (slot.get s) (name ++ " " ++ shown v) false))
  finish _ s := slot.set s (Journal.write (slot.get s) ("destroy " ++ name) true)

/-! ### How things are shown -/

/-- A node with its payload and that of its level. -/
def NodeView.text {N L : Type} (node : N → String) (level : L → String) (v : NodeView N L) :
    String :=
  v.node.coord.text ++ " " ++ v.node.state.text ++ s!" v{v.node.version.toNat} d" ++
    node v.node.data ++ " l" ++ level v.levelData

/-- A level with its counts and its payload. -/
def Level.text {N L : Type} (level : L → String) (l : Level N L) : String :=
  s!"L{l.index.toNat} nodes={l.size} pending={l.pendingTotal} data=" ++ level l.data

/-- A region with its counts. -/
def Region.text {N L : Type} (r : Region N L) : String :=
  r.box.text ++ s!" nodes={r.nodeCount} empty={r.isEmpty}"

end OctreeWorld
