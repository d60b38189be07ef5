import OctreeWorld.Archive.Folder
import OctreeWorld.Archive.Standard
import OctreeWorld.CommandLine.Command
import OctreeWorld.ConfigFile
import OctreeWorld.Summary

/-!
# Running commands

A command runs on a host, which reads and writes files, prints lines, knows the time and chooses
identifiers. Everything else is decided here, so that the same command does the same on every host.

A command ends with code 0, with code 1 when it failed, and with code 2 when the arguments made no
command.
-/

namespace OctreeWorld.CommandLine

/-- What a command needs from the machine that it runs on. -/
structure Host (m : Type → Type) where
  print : String → m Unit
  /-- Print a line for those who look after errors. -/
  complain : String → m Unit
  /-- The content of a file, absent when it cannot be read. -/
  readFile : String → m (Option Bytes)
  /-- The files of a saved archive, absent when the folder holds no manifest. -/
  readArchive : String → m (Option ArchiveFolder)
  /-- Write a saved archive, making the folder if needed. Answers whether that worked. -/
  writeArchive : String → ArchiveFolder → m Bool
  /-- Nanoseconds since some fixed moment. -/
  clock : m Nat
  freshIdentifier : m Identifier
  /-- Processors of the machine. -/
  processors : m Nat

/-- How the program is called in its own lines. -/
def programName : String := "spatial-cli"

def version : String := "0.1.0"

/-- What the program takes. -/
def usageLines : List String :=
  ["Usage: " ++ programName ++ " [--verbose] <command>",
    "",
    "Commands:",
    "  info      Print version and default configuration",
    "  simulate  Drive a world with one moving loader",
    "  config    Validate a config file and print it, or print the defaults",
    "  inspect   Simulate, then print one node's details"]

/-- A command that went wrong, with the reason. -/
structure Failure where
  reason : String

section Steps

variable {m : Type → Type} [Monad m]

/-- The lines of a command, in a monad that may stop with a failure. -/
abbrev Task (m : Type → Type) := ExceptT Failure m

/-- Go on with a result, or stop. -/
def orFail {ε α : Type} (message : ε → String) (r : Except ε α) : Task m α :=
  match r with
  | .ok a => pure a
  | .error e => throw ⟨message e⟩

/-- The configuration of a file, or the default one. -/
def readConfig (host : Host m) (path : Option String) : Task m EngineConfig := do
  match path with
  | none => return {}
  | some path =>
    let content ← host.readFile path
    orFail ConfigError.message (EngineConfig.ofFile path content)

/-- Text padded with blanks on the left. -/
def alignRight (width : Nat) (s : String) : String := "".pushn ' ' (width - s.length) ++ s

/-- One line about a tick that has just run. -/
def tickLine {σ N L : Type} (e : Engine σ N L) : String :=
  let t := e.last
  "tick " ++ alignRight 5 (toString t.tick.toNat) ++
    s!": nodes={e.nodeCount} created={t.created} destroyed={t.destroyed} " ++
    s!"evicted={t.stream.evicted} took=" ++ t.duration.text

/-- An engine of worlds without payloads whose processors act on an archive. -/
abbrev ArchiveEngine := Engine Archive Unit Unit

/-- Run one tick. The clock is read before its last phase, which keeps the time. -/
def timedTick (host : Host m) (e : ArchiveEngine) (s : Archive) :
    Task m (ArchiveEngine × Archive) := do
  let start ← host.clock
  let (e, s) ← orFail OutOfOrder.message (Engine.runPhases .zero Phase.all.dropLast e s)
  let stop ← host.clock
  orFail OutOfOrder.message (Engine.runPhases ⟨stop - start⟩ [.finish] e s)

/-- Run ticks, moving a loader along `x` after each of them and printing a line every so often. -/
def runTicks (host : Host m) (loader : LoaderId) (speed : Int32) (reportEvery : Nat) :
    Nat → Nat → ArchiveEngine → Archive → Task m (ArchiveEngine × Archive)
  | 0, _, e, s => return (e, s)
  | n + 1, done, e, s => do
    let (e, s) ← timedTick host e s
    let step (p : Position) : Position := ⟨p.x + speed, p.y, p.z⟩
    let e := e.modifyLoader loader fun l => { l with position := step l.position }
    if reportEvery ≠ 0 && (done + 1) % reportEvery = 0 then host.print (tickLine e)
    runTicks host loader speed reportEvery n (done + 1) e s

/-- The configuration of a simulation: that of its file, with the replaced settings. -/
def Simulation.configured (s : Simulation) (c : EngineConfig) : EngineConfig :=
  { c with
    stream := { c.stream with
      levelTickInterval := s.stagger.getD c.stream.levelTickInterval }
    threads := s.threads.or c.threads }

/-- The archive in a folder, or an empty one where there is none. -/
def openArchive (host : Host m) (folder : Option String) : Task m Archive := do
  match folder with
  | none => return .empty
  | some folder =>
    match ← host.readArchive folder with
    | none => return .empty
    | some files => orFail ArchiveError.message (Archive.load files)

/-- The processors that tie a world to an archive. -/
def archiveProcessors : ProcessorRegistry Archive Unit Unit :=
  { load := [Archive.loadProcessor (Slot.whole Archive) Codec.unit]
    unload := [Archive.unloadProcessor (Slot.whole Archive) Codec.unit] }

def simulate (host : Host m) (s : Simulation) : Task m Unit := do
  let config := s.configured (← readConfig host s.config)
  let levels := min s.levels config.world.levelCount
  let archive ← openArchive host s.archive
  let e : ArchiveEngine ← orFail ConfigFault.message (Engine.create config (← host.processors))
  let worldId ← host.freshIdentifier
  let loaderId ← host.freshIdentifier
  let world : World Archive Unit Unit := World.empty worldId config.world .plain
  let processors := if s.archive.isSome then archiveProcessors else {}
  let loader : Loader := { radius := s.radius, minLevel := 0, maxLevel := levels }
  let e := (e.insertWorld { world with processors }).addLoader loaderId loader
  host.print <|
    s!"Simulating {s.ticks.toNat} ticks: radius={s.radius.toNat} levels=0..{levels.toNat} " ++
      s!"speed={s.speed.toInt}"
  let (e, archive) ←
    runTicks host loaderId s.speed s.reportEvery.toNat s.ticks.toNat 0 e archive
  if let some w := e.world? worldId then
    orFail OctreeError.message w.check
    w.summary.lines.forM fun line => host.print line
  host.print e.summary.text
  if let some folder := s.archive then
    let (manifest, files) := archive.save
    if !(← host.writeArchive folder files) then throw ⟨"IO error: cannot write " ++ folder⟩
    host.print s!"Archive: {manifest.recordCount.toNat} records, sha256={manifest.digest}"

def inspect (host : Host m) (c : Coord) (ticks : UInt64) : Task m Unit := do
  let e : ArchiveEngine ← orFail ConfigFault.message (Engine.create {} (← host.processors))
  let worldId ← host.freshIdentifier
  let loaderId ← host.freshIdentifier
  let e := (e.addWorld worldId .plain).addLoader loaderId
    { radius := 2, minLevel := 0, maxLevel := e.config.world.levelCount }
  let (e, _) ← orFail OutOfOrder.message (e.runTicks .zero ticks.toNat .empty)
  match (e.world? worldId).bind (·.inspect? c) with
  | some info => host.print info.text
  | none => host.print (c.text ++ ": not resident")

def info (host : Host m) : Task m Unit := do
  let config : EngineConfig := {}
  host.print (programName ++ " v" ++ version)
  host.print <|
    s!"levels={config.world.levelCount.toNat} eviction_timeout=" ++
      config.world.evictionTimeout.text ++ " tick_interval=" ++ config.tickInterval.text
  host.print s!"archive schema: v{ArchiveError.schemaVersion.toNat}"

def printConfig (host : Host m) (path : Option String) : Task m Unit := do
  (← readConfig host path).yamlLines.forM fun line => host.print line

/-- Run a command. -/
def perform (host : Host m) : Command → Task m Unit
  | .info => info host
  | .simulate s => simulate host s
  | .config path => printConfig host path
  | .inspect c ticks => inspect host c ticks

/-- Run the command that words write, and answer its code. -/
def run (host : Host m) (words : List String) : m UInt32 := do
  match Command.read words with
  | .error .help =>
    usageLines.forM host.print
    return 0
  | .error .usage =>
    usageLines.forM host.complain
    return 2
  | .ok command =>
    match ← (perform host command).run with
    | .ok () => return 0
    | .error failure =>
      host.complain ("Error: " ++ failure.reason)
      return 1

end Steps

end OctreeWorld.CommandLine
