/-!
# Arguments of a command

A grammar names the flags, the options with a value and the positional arguments of a command. Flags
and options have a long form, introduced by two dashes, and may have a short one of a single letter.
No flag or option may be given twice. Two dashes alone end the options.
-/

namespace OctreeWorld.CommandLine

/-- A flag or an option. -/
structure Switch where
  long : String
  short : Option Char := none
  /-- Whether a value follows. -/
  valued : Bool := true
deriving DecidableEq

/-- What a command takes. -/
structure Grammar where
  switches : List Switch
  /-- For each positional argument, whether it may start with a dash. -/
  positionals : List Bool := []
  /-- Whether the first word that is no switch ends the reading. -/
  stopsAtWord : Bool := false

/-- Why arguments make no command. -/
inductive Refusal where
  | usage
  /-- Help was asked for. -/
  | help
deriving DecidableEq

/-- The arguments read so far. -/
structure Arguments where
  flags : List String := []
  values : List (String × String) := []
  positionals : List String := []

/-- The flag that asks for help. -/
def helpSwitch : Switch := { long := "help", short := some 'h', valued := false }

namespace Arguments

/-- The value of an option. -/
def value? (a : Arguments) (long : String) : Option String := a.values.lookup long

/-- Note a flag, the first of its kind. -/
def addFlag (a : Arguments) (s : Switch) : Except Refusal Arguments :=
  if s = helpSwitch then .error .help
  else if a.flags.contains s.long then .error .usage
  else .ok { a with flags := s.long :: a.flags }

/-- Note an option, the first of its kind. -/
def addValue (a : Arguments) (s : Switch) (value : String) : Except Refusal Arguments :=
  if (a.value? s.long).isSome then .error .usage
  else .ok { a with values := (s.long, value) :: a.values }

/-- Note a positional argument, if there is room for it. -/
def addWord (g : Grammar) (a : Arguments) (word : String) : Except Refusal Arguments :=
  if a.positionals.length < g.positionals.length then
    .ok { a with positionals := a.positionals ++ [word] }
  else .error .usage

end Arguments

/-- Whether a word is a switch by its looks. -/
def isSwitch (word : String) : Bool := word.startsWith "-" && word != "-"

namespace Grammar

/-- Whether the next positional argument may start with a dash. -/
def takesDash (g : Grammar) (a : Arguments) : Bool :=
  (g.positionals[a.positionals.length]?).getD false

/-- What one word means. -/
inductive Reading where
  | noted (a : Arguments)
  /-- The value of a switch follows. -/
  | wants (s : Switch)

/-- A long switch behind its dashes, with a value behind an equals sign if there is one. -/
def readLong (g : Grammar) (a : Arguments) (word : String) : Except Refusal Reading :=
  let name := word.toList.drop 2
  let long := String.ofList (name.takeWhile (· != '='))
  let attached := match name.dropWhile (· != '=') with
    | [] => none
    | _ :: value => some (String.ofList value)
  match (helpSwitch :: g.switches).find? (·.long == long), attached with
  | some s, some value =>
    if s.valued then (a.addValue s value).map .noted else .error .usage
  | some s, none => if s.valued then .ok (.wants s) else (a.addFlag s).map .noted
  | none, _ => if g.takesDash a then (a.addWord g word).map .noted else .error .usage

/-- Short switches behind their dash: flags, and at the end an option with the value behind it. -/
def readShort (g : Grammar) (a : Arguments) : List Char → Except Refusal Reading
  | [] => .ok (.noted a)
  | c :: cs =>
    match (helpSwitch :: g.switches).find? (·.short == some c) with
    | none => .error .usage
    | some s =>
      if s.valued then
        match cs with
        | [] => .ok (.wants s)
        | '=' :: value => (a.addValue s (String.ofList value)).map .noted
        | value => (a.addValue s (String.ofList value)).map .noted
      else do readShort g (← a.addFlag s) cs

/-- Whether a letter is the short form of a switch. -/
def knowsShort (g : Grammar) (c : Char) : Bool :=
  (helpSwitch :: g.switches).any (·.short == some c)

/-- One word that stands for no value. Where a positional argument may start with a dash, only known
letters make short switches. -/
def readWord (g : Grammar) (a : Arguments) (word : String) : Except Refusal Reading :=
  let letters := word.toList.drop 1
  if word.startsWith "--" then g.readLong a word
  else if isSwitch word && (!g.takesDash a || letters.all g.knowsShort) then g.readShort a letters
  else (a.addWord g word).map .noted

/-- Read words in turn. Answers the words behind the one that ended the reading, together with
it. -/
def read (g : Grammar) : Option Switch → Arguments → List String →
    Except Refusal (Arguments × List String)
  | some _, _, [] => .error .usage
  | none, a, [] => .ok (a, [])
  | some s, a, word :: words =>
    if isSwitch word then .error .usage
    else do g.read none (← a.addValue s word) words
  | none, a, word :: words =>
    if word = "--" then do
      let a ← words.foldlM (fun a w => a.addWord g w) a
      return (a, [])
    else if g.stopsAtWord && !isSwitch word then .ok (a, word :: words)
    else do
      match ← g.readWord a word with
      | .noted a => g.read none a words
      | .wants s => g.read (some s) a words

end Grammar

/-! ### Values -/

/-- A path, which is not empty. -/
def path? (word : String) : Option String := if word.isEmpty then none else some word

/-- The value of an option, read, or a default. An unreadable value is refused. -/
def Arguments.option {α : Type} (a : Arguments) (long : String) (default : α)
    (read : String → Option α) : Except Refusal α :=
  match a.value? long with
  | none => .ok default
  | some word => (read word).elim (.error .usage) .ok

/-- A positional argument, read, or a default. -/
def Arguments.word {α : Type} (a : Arguments) (place : Nat) (default : Option α)
    (read : String → Option α) : Except Refusal α :=
  match a.positionals[place]? with
  | none => default.elim (.error .usage) .ok
  | some word => (read word).elim (.error .usage) .ok

end OctreeWorld.CommandLine
