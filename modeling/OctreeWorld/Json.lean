import OctreeWorld.Hex

/-!
# JSON values

A value keeps its numbers as they are written and the members of an object in their order, repeated
names included; what a number is worth, or whether a name may repeat, is up to whoever reads the
value. `Json.text` writes a value without blanks.
-/

namespace OctreeWorld

/-- A JSON value. -/
inductive Json where
  | null
  | bool (b : Bool)
  /-- A number as it is written. -/
  | number (literal : String)
  | string (s : String)
  /-- A string with half a surrogate pair: it can be passed over, but it stands for no text. -/
  | illFormed
  | array (items : List Json)
  /-- Members in order. A name is absent when it stands for no text. -/
  | object (members : List (Option String × Json))
deriving Inhabited

namespace Json

def ofNat (n : Nat) : Json := number (toString n)

def ofInt (n : Int) : Json := number (toString n)

/-- An object of named members. -/
def ofMembers (members : List (String × Json)) : Json :=
  object (members.map fun (name, value) => (some name, value))

/-- A character inside a written string. -/
def escape (c : Char) : String :=
  match c with
  | '"' => "\\\""
  | '\\' => "\\\\"
  | '\n' => "\\n"
  | '\r' => "\\r"
  | '\t' => "\\t"
  | _ =>
    if c.toNat = 8 then "\\b"
    else if c.toNat = 12 then "\\f"
    else if c.toNat < 32 then
      "\\u" ++ String.ofList (Hex.digits 4 c.toNat)
    else c.toString

/-- A string in quotes. -/
def quoted (s : String) : String := s.foldl (fun acc c => acc ++ escape c) "\"" ++ "\""

mutual

/-- Append the text of a value. -/
def write (acc : String) : Json → String
  | null => acc ++ "null"
  | bool true => acc ++ "true"
  | bool false => acc ++ "false"
  | number literal => acc ++ literal
  | string s => acc ++ quoted s
  | illFormed => acc ++ "\"\""
  | array [] => acc ++ "[]"
  | array (v :: vs) => writeItems (write (acc.push '[') v) vs
  | object [] => (acc.push '\x7b').push '\x7d'
  | object ((name, v) :: ms) =>
    writeMembers (write ((acc.push '\x7b' ++ quoted (name.getD "")).push ':') v) ms

/-- Append the items after the first, and the closing bracket. -/
def writeItems (acc : String) : List Json → String
  | [] => acc.push ']'
  | v :: vs => writeItems (write (acc.push ',') v) vs

/-- Append the members after the first, and the closing brace. -/
def writeMembers (acc : String) : List (Option String × Json) → String
  | [] => acc.push '\x7d'
  | (name, v) :: ms =>
    writeMembers (write ((acc.push ',' ++ quoted (name.getD "")).push ':') v) ms

end

/-- The value without blanks. -/
def text (v : Json) : String := write "" v

/-- The first member of a name. -/
def member? (v : Json) (name : String) : Option Json :=
  match v with
  | object members => (members.find? fun (n, _) => n == some name).map (·.2)
  | _ => none

end Json

end OctreeWorld
