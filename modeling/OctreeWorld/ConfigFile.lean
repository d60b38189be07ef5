import OctreeWorld.Bytes
import OctreeWorld.Document
import OctreeWorld.Json.Reader
import OctreeWorld.Yaml.Format

/-!
# Configuration files

A configuration is read from a YAML or a JSON text, by the ending of the file's name, and is
validated before anyone sees it. It is written as YAML with every setting on a line of its own.
-/

namespace OctreeWorld

/-- Why a configuration could not be read. -/
inductive ConfigError where
  /-- The file is missing, or is no text. -/
  | unreadable (path : String)
  | notYaml
  | notJson
  | unsupportedFormat (path : String)
  | invalid (fault : ConfigFault)
deriving DecidableEq

namespace ConfigError

def message : ConfigError → String
  | unreadable path => "IO error: cannot read " ++ path
  | notYaml => "YAML error: no engine configuration"
  | notJson => "JSON error: no engine configuration"
  | unsupportedFormat path => "unsupported config format: " ++ path
  | invalid fault => fault.message

end ConfigError

/-- The last part of a path, without the parts that stay in place. -/
def lastPart (path : String) : Option String :=
  ((path.splitOn "/").filter fun part => part != "" && part != ".").getLast?

/-- The ending of a file's name behind its last point. A name that starts with its only point has
none. -/
def fileEnding (path : String) : Option String := do
  let name ← lastPart path
  if name = ".." then failure
  let parts := name.splitOn "."
  let ending ← parts.getLast?
  if parts.length = 1 || (parts.length = 2 && parts.head? == some "") then failure
  return ending

namespace EngineConfig

/-- Refuse a configuration that has a fault. -/
def checked (c : EngineConfig) : Except ConfigError EngineConfig :=
  match c.validated with
  | .ok c => .ok c
  | .error fault => .error (.invalid fault)

def ofYaml (text : String) : Except ConfigError EngineConfig :=
  match Yaml.Document.read? text with
  | none => .error .notYaml
  | some d =>
    match EngineConfig.read? (Yaml.Document.format d.anchored) d.root with
    | some c => c.checked
    | none => .error .notYaml

def ofJson (text : String) : Except ConfigError EngineConfig :=
  match (Json.read? text).bind (EngineConfig.read? Json.format) with
  | some c => c.checked
  | none => .error .notJson

/-- How YAML writes a double. -/
def yamlFloats : Decimal.Notation :=
  { least := -5, greatest := 15, plus := false, infinity := ".inf", notANumber := ".nan" }

/-- A number, or the word for nothing. -/
def optionText (n : Option UInt64) : String := (n.map fun n => toString n.toNat).getD "null"

/-- The settings in YAML, a line for each. -/
def yamlLines (c : EngineConfig) : List String :=
  ["world:",
    s!"  level_count: {c.world.levelCount.toNat}",
    "  eviction_timeout_secs: " ++ Decimal.floatText yamlFloats c.world.evictionTimeoutSecs,
    "stream:",
    s!"  level_tick_interval: {c.stream.levelTickInterval.toNat}",
    "  create_budget: " ++ optionText c.stream.createBudget,
    "  unload_budget: " ++ optionText c.stream.unloadBudget,
    "threads: " ++ optionText c.threads,
    s!"tick_interval_ms: {c.tickIntervalMs.toNat}"]

/-- The settings in YAML. -/
def yamlText (c : EngineConfig) : String := String.join (c.yamlLines.map (· ++ "\n"))

/-- The configuration in a file of a name and a content. A file that is missing or no text is
reported before an ending that names no format. -/
def ofFile (path : String) (content : Option Bytes) : Except ConfigError EngineConfig :=
  match content.bind Bytes.characters? with
  | none => .error (.unreadable path)
  | some text =>
    match (fileEnding path).map String.toLower with
    | some "yaml" | some "yml" => ofYaml text
    | some "json" => ofJson text
    | _ => .error (.unsupportedFormat path)

end EngineConfig

end OctreeWorld
