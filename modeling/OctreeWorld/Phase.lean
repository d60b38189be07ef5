/-!
# Phases of a tick

A tick runs nine phases in a fixed order. The cursor remembers which phase is next and accepts no
other, so the accepted phases of any run follow the order over and over again.
-/

namespace OctreeWorld

/-- The stages of one tick, in order. -/
inductive Phase where
  | loader
  | levelWorker
  | regionWorker
  | worldWorker
  | create
  | load
  | unload
  | destroy
  | finish
deriving DecidableEq, Inhabited

/-- What a phase divides its work into. Two workers of one phase never share a part. -/
inductive Partition where
  | perLoader
  | perWorldLevel
  | perRegion
  | perWorld
  | singleThreaded
deriving DecidableEq, Inhabited

/-- The order in which a worker walks the levels of a world. -/
inductive LevelOrder where
  | unordered
  | coarsestFirst
  | finestFirst
deriving DecidableEq, Inhabited

namespace Partition

/-- The name under which data formats know the partition. -/
def identifier : Partition → String
  | perLoader => "PerLoader"
  | perWorldLevel => "PerWorldLevel"
  | perRegion => "PerRegion"
  | perWorld => "PerWorld"
  | singleThreaded => "SingleThreaded"

end Partition

namespace LevelOrder

/-- The name under which data formats know the order. -/
def identifier : LevelOrder → String
  | unordered => "Unordered"
  | coarsestFirst => "CoarsestFirst"
  | finestFirst => "FinestFirst"

end LevelOrder

/-- A phase was asked for that is not the next one. -/
structure OutOfOrder where
  expected : Phase
  got : Phase
deriving DecidableEq

namespace Phase

/-- The phases in the order of a tick. -/
def all : List Phase :=
  [loader, levelWorker, regionWorker, worldWorker, create, load, unload, destroy, finish]

/-- The place of a phase in a tick. -/
def index : Phase → Nat
  | loader => 0
  | levelWorker => 1
  | regionWorker => 2
  | worldWorker => 3
  | create => 4
  | load => 5
  | unload => 6
  | destroy => 7
  | finish => 8

/-- The phase after this one; a tick's last phase leads to the first of the next. -/
def next : Phase → Phase
  | loader => levelWorker
  | levelWorker => regionWorker
  | regionWorker => worldWorker
  | worldWorker => create
  | create => load
  | load => unload
  | unload => destroy
  | destroy => finish
  | finish => loader

def partition : Phase → Partition
  | loader => .perLoader
  | levelWorker | load | unload => .perWorldLevel
  | regionWorker => .perRegion
  | worldWorker | create | destroy => .perWorld
  | finish => .singleThreaded

def levelOrder : Phase → LevelOrder
  | create => .coarsestFirst
  | destroy => .finestFirst
  | _ => .unordered

def text : Phase → String
  | loader => "loader"
  | levelWorker => "level-worker"
  | regionWorker => "region-worker"
  | worldWorker => "world-worker"
  | create => "create"
  | load => "load"
  | unload => "unload"
  | destroy => "destroy"
  | finish => "end"

/-- The name under which data formats know the phase. -/
def identifier : Phase → String
  | loader => "Loader"
  | levelWorker => "LevelWorker"
  | regionWorker => "RegionWorker"
  | worldWorker => "WorldWorker"
  | create => "Create"
  | load => "Load"
  | unload => "Unload"
  | destroy => "Destroy"
  | finish => "End"

theorem all_getElem_index (p : Phase) : all[p.index]? = some p := by cases p <;> rfl

theorem index_injective {p q : Phase} (same : p.index = q.index) : p = q := by
  have listed := all_getElem_index p
  rw [same, all_getElem_index] at listed
  exact (Option.some.inj listed).symm

theorem index_next (p : Phase) : p.next.index = (p.index + 1) % 9 := by cases p <;> rfl

end Phase

namespace OutOfOrder

def message (e : OutOfOrder) : String :=
  "phase " ++ e.got.text ++ " run out of order, expected " ++ e.expected.text

end OutOfOrder

/-- Which phase may run next. -/
structure PhaseCursor where
  expected : Phase := .loader
deriving DecidableEq, Inhabited

namespace PhaseCursor

/-- Whether a tick has begun and not ended. -/
def inTick (c : PhaseCursor) : Bool := c.expected != .loader

/-- Accept the expected phase and move on. -/
def advance (c : PhaseCursor) (p : Phase) : Except OutOfOrder PhaseCursor :=
  if p = c.expected then .ok ⟨p.next⟩ else .error ⟨c.expected, p⟩

end PhaseCursor

end OctreeWorld
