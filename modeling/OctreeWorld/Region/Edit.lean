import OctreeWorld.Region.Merge
import OctreeWorld.Streaming

/-!
# What processors do to regions

A processor of regions is handed a whole region and may do to it whatever its owner may: change its
nodes and levels, load and unload, stream, tick it, or fold another region into it. An edit names
one such operation. Processors of nodes that an edit brings along keep no state.
-/

namespace OctreeWorld

/-- What a processor can do to a region. -/
inductive RegionEdit (N L : Type) where
  | load (c : Coord) (now : SimTime)
  | unload (ps : NodeProcessors Unit N L) (c : Coord) (tick : UInt64) (now : SimTime)
  | markChanged (c : Coord)
  | observe (c : Coord)
  | release (c : Coord)
  | addLoader (id : LoaderId) (l : Loader)
  | removeLoader (id : LoaderId)
  | level (index : UInt8) (e : LevelEdit N L)
  | stream (config : StreamConfig) (tick : UInt64) (now : SimTime)
  | tick (ps : NodeProcessors Unit N L) (tick : UInt64) (now : SimTime) (timeout : Duration)
  | merge (source : Region N L)

variable {N L σ : Type}

/-- Apply an edit to a region. A refused edit changes nothing that an accepted one would not. -/
def Region.edit (r : Region N L) : RegionEdit N L → Region N L
  | .load c now => (r.loadNode c now).2
  | .unload ps c tick now => (r.unloadNode ps c tick now ()).2.1
  | .markChanged c => (r.markChanged c).toOption.getD r
  | .observe c => ((r.observe c).toOption.map (·.2)).getD r
  | .release c => ((r.release c).toOption.map (·.2)).getD r
  | .addLoader id l => r.addLoader id l
  | .removeLoader id => r.removeLoader id
  | .level index e => r.modifyLevel index (·.edit e)
  | .stream config tick now => (Region.stream config tick now r).2
  | .tick ps tick now timeout => (r.tick ps tick now timeout ()).2.1
  | .merge source => (Region.merge source r).2.2

abbrev RegionProcessor (σ N L : Type) := Processor σ (Region N L) (RegionEdit N L)

/-- The one command of a region's own batch addresses the region itself. -/
def regionAddressing : Addressing Unit (Region N L) (Region N L) (RegionEdit N L) where
  view _ r := some r
  edit _ r e := r.edit e

def runRegionBatch (ps : List (RegionProcessor σ N L)) (ctx : BatchContext) (r : Region N L)
    (s : σ) : Region N L × σ :=
  runBatch regionAddressing ctx ps [()] r s

end OctreeWorld
