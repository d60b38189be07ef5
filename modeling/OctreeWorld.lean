import OctreeWorld.Box
import OctreeWorld.Time
import OctreeWorld.Identifier
import OctreeWorld.Loader
import OctreeWorld.Level
import OctreeWorld.Hierarchy
import OctreeWorld.Lifecycle
import OctreeWorld.Region.Edit
import OctreeWorld.World
import OctreeWorld.Engine
import OctreeWorld.Summary
import OctreeWorld.Document
import OctreeWorld.Json.Reader
import OctreeWorld.Json.Number
import OctreeWorld.Yaml.Format
import OctreeWorld.Cbor.Codec
import OctreeWorld.Archive.Folder
import OctreeWorld.Archive.Standard
import OctreeWorld.ConfigFile
import OctreeWorld.FileTree
import OctreeWorld.Journal
import OctreeWorld.Scripted
import OctreeWorld.Session
import OctreeWorld.Exchange.Reading
import OctreeWorld.Exchange.Writing
import OctreeWorld.CommandLine.Rehearsal
import OctreeWorld.Main
import OctreeWorld.Proofs.Family
import OctreeWorld.Proofs.Descent
import OctreeWorld.Proofs.Footprints
import OctreeWorld.Proofs.Sharing
import OctreeWorld.Proofs.Links
import OctreeWorld.Proofs.Linking
import OctreeWorld.Proofs.Batches
import OctreeWorld.Proofs.Creation
import OctreeWorld.Proofs.Removal
import OctreeWorld.Proofs.Merging
import OctreeWorld.Proofs.Steps
import OctreeWorld.Proofs.Evolution
import OctreeWorld.Proofs.Reached
import OctreeWorld.Proofs.RegionMerge
import OctreeWorld.Proofs.Attendance
import OctreeWorld.Proofs.Tick
import OctreeWorld.Proofs.Settling
import OctreeWorld.Proofs.Streaming
import OctreeWorld.Proofs.Service
import OctreeWorld.Proofs.Coverage
import OctreeWorld.Proofs.Eviction
import OctreeWorld.Proofs.Convergence
import OctreeWorld.Proofs.History
import OctreeWorld.Proofs.Accounts
import OctreeWorld.Proofs.Residency
import OctreeWorld.Proofs.Commands
import OctreeWorld.Proofs.Operations
import OctreeWorld.Proofs.Watching
import OctreeWorld.Proofs.Agreement
import OctreeWorld.Proofs.LoaderOrder
import OctreeWorld.Proofs.Observation
import OctreeWorld.Proofs.Tracking
import OctreeWorld.Proofs.RegionStreaming
import OctreeWorld.Proofs.Frames
import OctreeWorld.Proofs.Archiving
import OctreeWorld.Proofs.Safekeeping
import OctreeWorld.Proofs.Custody
import OctreeWorld.Proofs.Survival
import OctreeWorld.Proofs.Uniformity
import OctreeWorld.Proofs.Refusals
import OctreeWorld.Proofs.Bookkeeping
import OctreeWorld.Proofs.Regrouping
import OctreeWorld.Proofs.Checking
import OctreeWorld.Proofs.Protocol
import OctreeWorld.Proofs.QueueSets
import OctreeWorld.Proofs.Register
import OctreeWorld.Proofs.Saving
import OctreeWorld.Proofs.PhaseOrder
import OctreeWorld.Proofs.Budgets
import OctreeWorld.Proofs.Selection
import OctreeWorld.Proofs.Cadence
import OctreeWorld.Proofs.Lineage
import OctreeWorld.Proofs.RegionTick
import OctreeWorld.Proofs.Aging
import OctreeWorld.Proofs.Timelines
import OctreeWorld.Proofs.Walks
import OctreeWorld.Proofs.Unloading
import OctreeWorld.Proofs.Requests
import OctreeWorld.Proofs.SlidingWindow
import OctreeWorld.Proofs.Census
import OctreeWorld.Proofs.Balance
