import OctreeWorld.Json

/-!
# Reading JSON

A text is one value, with blanks around it and nothing else. Every part of the reader answers with
the value it found and the characters behind it, or with nothing when the text is not JSON.

Recursion is bounded by a fuel that starts at the length of the text: every call of `readValue`
has consumed a character since the call around it.
-/

namespace OctreeWorld.Json

/-- Blank, line feed, carriage return and tabulator. -/
def isBlank (c : Char) : Bool := c == ' ' || c == '\n' || c == '\r' || c == '\t'

def skipBlanks (cs : List Char) : List Char := cs.dropWhile isBlank

def isDigit (c : Char) : Bool := decide ('0' ≤ c) && decide (c ≤ '9')

/-- Four hexadecimal digits. -/
def readHex4? : List Char → Option (Nat × List Char)
  | a :: b :: c :: d :: rest => do
    let a ← Hex.value? a
    let b ← Hex.value? b
    let c ← Hex.value? c
    let d ← Hex.value? d
    return (a * 4096 + b * 256 + c * 16 + d, rest)
  | _ => none

/-- A code unit escape behind its `u`. Answers the character, or nothing in its place for half a
surrogate pair. -/
def readUnit? (cs : List Char) : Option (Option Char × List Char) := do
  let (high, rest) ← readHex4? cs
  if 0xD800 ≤ high ∧ high ≤ 0xDBFF then
    match rest with
    | '\\' :: 'u' :: tail =>
      match readHex4? tail with
      | some (low, tail) =>
        if 0xDC00 ≤ low ∧ low ≤ 0xDFFF then
          return (some (Char.ofNat (0x10000 + (high - 0xD800) * 0x400 + (low - 0xDC00))), tail)
        else return (none, rest)
      | none => none
    | _ => return (none, rest)
  else if 0xDC00 ≤ high ∧ high ≤ 0xDFFF then return (none, rest)
  else return (some (Char.ofNat high), rest)

/-- A string behind its opening quote, `acc` holding the characters so far in reverse; `acc` is
absent once half a surrogate pair has been seen. -/
def readString? : Nat → Option (List Char) → List Char → Option (Option String × List Char)
  | 0, _, _ => none
  | _ + 1, _, [] => none
  | fuel + 1, acc, c :: cs =>
    let push (c : Char) := acc.map (c :: ·)
    if c = '"' then some (acc.map fun r => String.ofList r.reverse, cs)
    else if c = '\\' then
      match cs with
      | '"' :: rest => readString? fuel (push '"') rest
      | '\\' :: rest => readString? fuel (push '\\') rest
      | '/' :: rest => readString? fuel (push '/') rest
      | 'b' :: rest => readString? fuel (push (Char.ofNat 8)) rest
      | 'f' :: rest => readString? fuel (push (Char.ofNat 12)) rest
      | 'n' :: rest => readString? fuel (push '\n') rest
      | 'r' :: rest => readString? fuel (push '\r') rest
      | 't' :: rest => readString? fuel (push '\t') rest
      | 'u' :: rest =>
        match readUnit? rest with
        | some (some c, rest) => readString? fuel (push c) rest
        | some (none, rest) => readString? fuel none rest
        | none => none
      | _ => none
    else if c.toNat < 32 then none
    else readString? fuel (push c) cs

/-- Digits, and what stands behind them. -/
def takeDigits (cs : List Char) : List Char × List Char :=
  (cs.takeWhile isDigit, cs.dropWhile isDigit)

/-- The whole part of a number: a lone zero, or digits that do not start with one. -/
def readWhole? (cs : List Char) : Option (List Char × List Char) :=
  match cs with
  | '0' :: rest =>
    match rest with
    | c :: _ => if isDigit c then none else some (['0'], rest)
    | [] => some (['0'], rest)
  | _ =>
    let (ds, rest) := takeDigits cs
    if ds.isEmpty then none else some (ds, rest)

/-- The fraction of a number, if there is one, with its point. -/
def readFraction? (cs : List Char) : Option (List Char × List Char) :=
  match cs with
  | '.' :: rest =>
    let (ds, rest) := takeDigits rest
    if ds.isEmpty then none else some ('.' :: ds, rest)
  | _ => some ([], cs)

/-- The exponent of a number, if there is one, with its mark and sign. -/
def readExponent? (cs : List Char) : Option (List Char × List Char) :=
  match cs with
  | c :: rest =>
    if c = 'e' ∨ c = 'E' then
      let (sign, rest) := match rest with
        | '+' :: r => (['+'], r)
        | '-' :: r => (['-'], r)
        | _ => ([], rest)
      let (ds, rest) := takeDigits rest
      if ds.isEmpty then none else some ('e' :: sign ++ ds, rest)
    else some ([], cs)
  | [] => some ([], cs)

/-- A number, kept as written. -/
def readNumber? (cs : List Char) : Option (Json × List Char) := do
  let (sign, rest) := match cs with
    | '-' :: r => (['-'], r)
    | _ => ([], cs)
  let (whole, rest) ← readWhole? rest
  let (fraction, rest) ← readFraction? rest
  let (exponent, rest) ← readExponent? rest
  return (number (String.ofList (sign ++ whole ++ fraction ++ exponent)), rest)

/-- A fixed word. -/
def readWord? (word : String) (v : Json) (cs : List Char) : Option (Json × List Char) :=
  let w := word.toList
  if cs.take w.length = w then some (v, cs.drop w.length) else none

/-- The value of a string, well-formed or not. -/
def ofString? : Option String → Json
  | some s => string s
  | none => illFormed

mutual

/-- One value, blanks before it included. -/
def readValue? : Nat → List Char → Option (Json × List Char)
  | 0, _ => none
  | fuel + 1, cs =>
    let cs := skipBlanks cs
    match cs with
    | '"' :: rest =>
      (readString? (rest.length + 1) (some []) rest).map fun (s, r) => (ofString? s, r)
    | '[' :: rest =>
      match skipBlanks rest with
      | ']' :: rest => some (array [], rest)
      | rest => readItems? fuel [] rest
    | '\x7b' :: rest =>
      match skipBlanks rest with
      | '\x7d' :: rest => some (object [], rest)
      | rest => readMembers? fuel [] rest
    | 't' :: _ => readWord? "true" (bool true) cs
    | 'f' :: _ => readWord? "false" (bool false) cs
    | 'n' :: _ => readWord? "null" null cs
    | _ => readNumber? cs

/-- Items up to the closing bracket, `acc` holding those before in reverse. -/
def readItems? : Nat → List Json → List Char → Option (Json × List Char)
  | 0, _, _ => none
  | fuel + 1, acc, cs =>
    match readValue? fuel cs with
    | none => none
    | some (v, rest) =>
      match skipBlanks rest with
      | ',' :: rest => readItems? fuel (v :: acc) rest
      | ']' :: rest => some (array (v :: acc).reverse, rest)
      | _ => none

/-- Members up to the closing brace, `acc` holding those before in reverse. -/
def readMembers? : Nat → List (Option String × Json) → List Char → Option (Json × List Char)
  | 0, _, _ => none
  | fuel + 1, acc, cs =>
    match skipBlanks cs with
    | '"' :: rest =>
      match readString? (rest.length + 1) (some []) rest with
      | none => none
      | some (name, rest) =>
        match skipBlanks rest with
        | ':' :: rest =>
          match readValue? fuel rest with
          | none => none
          | some (v, rest) =>
            match skipBlanks rest with
            | ',' :: rest => readMembers? fuel ((name, v) :: acc) rest
            | '\x7d' :: rest => some (object ((name, v) :: acc).reverse, rest)
            | _ => none
        | _ => none
    | _ => none

end

/-- The value that a text writes, if it is JSON. -/
def read? (s : String) : Option Json :=
  let cs := s.toList
  match readValue? (cs.length + 1) cs with
  | some (v, rest) => if (skipBlanks rest).isEmpty then some v else none
  | none => none

end OctreeWorld.Json
