import OctreeWorld.Engine

/-!
# Sessions

A session keeps the worlds and regions that someone works with under numbers, which are given out in
the order of making. It chooses every identifier itself, so what a session does is a function of
the requests made to it. Its worlds belong to its engine when it has one.
-/

namespace OctreeWorld

/-- Where the region of a number is. -/
inductive RegionPlace (N L : Type) where
  | inWorld (world : WorldId) (id : RegionId)
  /-- A region that no world owns. -/
  | free (r : Region N L)
  | gone

/-- Worlds and regions under numbers, and the state that their processors act on. -/
structure Session (σ N L : Type) where
  engine : Option (Engine σ N L) := none
  /-- The worlds, when there is no engine. -/
  worlds : List (World σ N L) := []
  /-- The identifiers of the worlds ever made, in order. -/
  worldIds : List WorldId := []
  places : List (RegionPlace N L) := []
  /-- Loaders ever made. -/
  loaders : Nat := 0
  /-- Identifiers given to worlds and regions, and to what does not exist. -/
  identifiers : Nat := 0
  effects : σ

namespace Session

variable {σ N L : Type}

/-- An identifier that nothing has. -/
def fresh (s : Session σ N L) : Identifier × Session σ N L :=
  (.ofNat s.identifiers, { s with identifiers := s.identifiers + 1 })

/-- The identifier of a loader's number. -/
def loaderId (number : Nat) : LoaderId := .ofNat number

/-- The number of a new loader. -/
def newLoader (s : Session σ N L) : Nat × Session σ N L :=
  (s.loaders, { s with loaders := s.loaders + 1 })

/-! ### Worlds -/

def worldOf? (s : Session σ N L) (id : WorldId) : Option (World σ N L) :=
  match s.engine with
  | some e => e.world? id
  | none => s.worlds.find? (·.id == id)

def world? (s : Session σ N L) (number : Nat) : Option (World σ N L) :=
  (s.worldIds[number]?).bind s.worldOf?

/-- Put a changed world back. -/
def setWorld (s : Session σ N L) (w : World σ N L) : Session σ N L :=
  match s.engine with
  | some e => { s with engine := some (e.modifyWorld w.id fun _ => w) }
  | none => { s with worlds := s.worlds.map fun v => if v.id = w.id then w else v }

/-- Make a world and answer with its number. Without a shape of its own it has that of the
engine. -/
def addWorld (s : Session σ N L) (shape : Option (WorldConfig × Box))
    (factory : PayloadFactory N L) : Nat × Session σ N L :=
  let (id, s) := s.fresh
  let (config, bounds) := shape.getD ({}, Box.everything)
  let w : World σ N L := { World.empty id config factory with bounds }
  let s := match s.engine, shape with
    | some e, none => { s with engine := some (e.addWorld id factory) }
    | some e, some _ => { s with engine := some (e.insertWorld w) }
    | none, _ => { s with worlds := s.worlds ++ [w] }
  (s.worldIds.length, { s with worldIds := s.worldIds ++ [id] })

/-! ### Regions -/

def region? (s : Session σ N L) (number : Nat) : Option (Region N L) :=
  match s.places[number]? with
  | some (.inWorld world id) => (s.worldOf? world).bind (·.region? id)
  | some (.free r) => some r
  | _ => none

/-- Whether a number stands for a region that no world owns. -/
def isFree (s : Session σ N L) (number : Nat) : Bool :=
  match s.places[number]? with
  | some (.free _) => true
  | _ => false

def setPlace (s : Session σ N L) (number : Nat) (p : RegionPlace N L) : Session σ N L :=
  { s with places := s.places.set number p }

/-- Put a changed region back. -/
def setRegion (s : Session σ N L) (number : Nat) (r : Region N L) : Session σ N L :=
  match s.places[number]? with
  | some (.inWorld world id) =>
    match s.worldOf? world with
    | some w => s.setWorld (w.modifyRegion id fun _ => r)
    | none => s
  | some (.free _) => s.setPlace number (.free r)
  | _ => s

def addPlace (s : Session σ N L) (p : RegionPlace N L) : Nat × Session σ N L :=
  (s.places.length, { s with places := s.places ++ [p] })

/-- Add a region to a world and answer with its number. -/
def addRegion (s : Session σ N L) (w : World σ N L) (box : Box) : Nat × Session σ N L :=
  let (id, s) := s.fresh
  (s.setWorld (w.addRegion id box)).addPlace (.inWorld w.id id)

/-- Make a region that no world owns and answer with its number. -/
def addFreeRegion (s : Session σ N L) (w : World σ N L) (box : Box) (levelCount : UInt8) :
    Nat × Session σ N L :=
  let (id, s) := s.fresh
  s.addPlace (.free (Region.empty id w.id box w.factory levelCount))

/-- Forget the region of a number. -/
def removeRegion (s : Session σ N L) (number : Nat) : Session σ N L :=
  let s := match s.places[number]? with
    | some (.inWorld world id) =>
      match s.worldOf? world with
      | some w => s.setWorld (w.removeRegion id)
      | none => s
    | _ => s
  s.setPlace number .gone

/-- The number of the region of a world that holds a cell. -/
def regionAt? (s : Session σ N L) (w : World σ N L) (c : Coord) : Option Nat := do
  let wanted ← w.regionAt? c
  s.places.findIdx? fun
    | .inWorld world id => world == w.id && id == wanted
    | _ => false

/-- The processors that act on the region of a number when it works on its own: those of a world for
a free region, and none for a region inside a world. -/
def regionProcessors (s : Session σ N L) (w : World σ N L) (number : Nat) :
    NodeProcessors σ N L :=
  if s.isFree number then w.processors.toNodeProcessors else {}

/-- The identifier by which a world knows the region of a number, a fresh one when it knows
none. -/
def regionIn (s : Session σ N L) (world : WorldId) (number : Nat) :
    RegionId × Session σ N L :=
  match s.places[number]? with
  | some (.inWorld owner id) => if owner = world then (id, s) else s.fresh
  | _ => s.fresh

/-- Fold the region of one number into that of another: two free regions with each other, all
others as regions of a world, after which the source is gone. -/
def merge (s : Session σ N L) (w : World σ N L) (source destination : Nat) :
    Except OctreeError MergeStats × Session σ N L :=
  match s.places[source]?, s.places[destination]?, source == destination with
  | some (.free src), some (.free dst), false =>
    let (r, src, dst) := Region.merge src dst
    (r, (s.setRegion source src).setRegion destination dst)
  | _, _, _ =>
    let (src, s) := s.regionIn w.id source
    let (dst, s) := s.regionIn w.id destination
    let (r, w) := w.mergeRegions src dst
    let s := s.setWorld w
    (r, match r with
      | .ok _ => s.setPlace source .gone
      | .error _ => s)

/-! ### Loaders of the engine -/

/-- Work on the engine, if there is one. -/
def setEngine (s : Session σ N L) (e : Engine σ N L) : Session σ N L := { s with engine := some e }

end Session

end OctreeWorld
