import OctreeWorld.Bytes
import OctreeWorld.Yaml.Scalar

/-!
# YAML tokens

A text falls into marks, names and scalars. Indentation becomes tokens of its own: a collection
starts where an entry stands deeper than the block around it and ends where a token stands less
deep. The key of a mapping is only recognised at the colon behind it; its tokens are then put
in front of the key that has already been read, which has to lie on one line and within 1024
characters.
-/

namespace OctreeWorld.Yaml

/-- A token. Nodes of block collections are bracketed by start and end tokens, like those of
collections in brackets. -/
inductive Token where
  | version (major minor : Nat)
  | tagHandle (handle expansion : String)
  | documentStart
  | documentEnd
  | streamEnd
  | blockSequence
  | blockMapping
  | blockEnd
  | flowSequence
  | flowSequenceEnd
  | flowMapping
  | flowMappingEnd
  | blockEntry
  | flowEntry
  | key
  | value
  | alias (name : String)
  | anchor (name : String)
  | tag (handle suffix : String)
  | scalar (text : String) (style : Style)
deriving DecidableEq, Inhabited

/-- A place that may turn out to be the start of a key. -/
structure KeyCandidate where
  /-- Whether the block's indentation leaves no other reading. -/
  required : Bool
  /-- How many tokens stand before it. -/
  token : Nat
  index : Nat
  line : Nat
  column : Nat
deriving DecidableEq

/-- The state of a reading of tokens. -/
structure Scanner where
  cursor : Cursor
  /-- The column of the block in work, minus one outside all blocks. -/
  indent : Int := -1
  /-- The columns of the blocks around it. -/
  outer : List Int := []
  /-- Whether a key may start here. -/
  keyAllowed : Bool := true
  /-- A candidate for each pair of open brackets, and one for the block. -/
  candidates : List (Option KeyCandidate) := [none]
  /-- The tokens so far, newest first. -/
  tokens : List Token := []

namespace Scanner

def inFlow (s : Scanner) : Bool := decide (1 < s.candidates.length)

def emit (s : Scanner) (t : Token) : Scanner := { s with tokens := t :: s.tokens }

/-- Put a token in front of all but the first `place` tokens. -/
def emitAt (s : Scanner) (place : Nat) (t : Token) : Scanner :=
  { s with tokens := s.tokens.insertIdx (s.tokens.length - place) t }

def moveTo (s : Scanner) (c : Cursor) : Scanner := { s with cursor := c }

def allowKey (s : Scanner) (allowed : Bool) : Scanner := { s with keyAllowed := allowed }

def column (s : Scanner) : Int := s.cursor.column

/-! ### Blanks, keys and indentation -/

/-- Skip blanks, comments, line ends and a mark of byte order that starts a line. A new line allows
a key outside brackets. -/
def skipGap : Nat → Scanner → Scanner
  | 0, s => s
  | fuel + 1, s =>
    let blank (c : Char) := c == ' ' || (c == '\t' && (s.inFlow || !s.keyAllowed))
    let c := s.cursor.skipOrderMark.skipWhile blank
    let c := if c.isAt '#' then c.skipWhile (!isBreak ·) else c
    let s := s.moveTo c
    if c.at? isBreak then skipGap fuel ((s.moveTo c.nextLine).allowKey (!s.inFlow || s.keyAllowed))
    else s

/-- Whether a candidate lies too far back. -/
def isStale (c : Cursor) (k : KeyCandidate) : Bool :=
  decide (k.line < c.line) || decide (k.index + 1024 < c.index)

/-- Drop the candidates that lie too far back. A required one must not. -/
def dropStale? (s : Scanner) : Option Scanner :=
  if s.candidates.any fun k => k.any fun k => isStale s.cursor k && k.required then none
  else
    some { s with candidates := s.candidates.map fun k => k.filter (!isStale s.cursor ·) }

/-- Drop the innermost candidate, which must not be required. -/
def dropCandidate? (s : Scanner) : Option Scanner :=
  match s.candidates with
  | some k :: rest => if k.required then none else some { s with candidates := none :: rest }
  | _ => some s

/-- Note that a key may start here. -/
def saveCandidate? (s : Scanner) : Option Scanner :=
  if !s.keyAllowed then some s
  else do
    let s ← s.dropCandidate?
    let c := s.cursor
    let candidate : KeyCandidate :=
      { required := !s.inFlow && s.indent == s.column
        token := s.tokens.length
        index := c.index
        line := c.line
        column := c.column }
    return { s with candidates := some candidate :: s.candidates.drop 1 }

/-- Open a block whose entries stand at a column, unless one is open there already. Its start goes
in front of all but the first `place` tokens. -/
def openBlock (s : Scanner) (column : Int) (place : Nat) (t : Token) : Scanner :=
  if s.inFlow || decide (column ≤ s.indent) then s
  else { s with outer := s.indent :: s.outer, indent := column }.emitAt place t

/-- Close the blocks of a list whose entries stand deeper than a column. -/
def closeDeeper (column : Int) : List Int → Scanner → Scanner
  | [], s => s
  | around :: outer, s =>
    if s.indent ≤ column then s
    else
      closeDeeper column outer { s with indent := around, outer, tokens := .blockEnd :: s.tokens }

/-- Close the blocks whose entries stand deeper than a column. -/
def closeBlocks (s : Scanner) (column : Int) : Scanner :=
  if s.inFlow then s else closeDeeper column s.outer s

/-! ### Single tokens -/

/-- A token of some characters that starts no key. -/
def mark? (s : Scanner) (width : Nat) (allowed : Bool) (t : Token) : Option Scanner := do
  let s ← s.dropCandidate?
  return ((s.moveTo (s.cursor.advance width)).allowKey allowed).emit t

/-- The end of the text: all blocks close. -/
def finish? (s : Scanner) : Option Scanner := do
  let s ← (s.closeBlocks (-1)).dropCandidate?
  return s.emit .streamEnd

def documentMark? (s : Scanner) (t : Token) : Option Scanner :=
  (s.closeBlocks (-1)).mark? 3 false t

/-- An opening bracket or brace. It may itself start a key. -/
def openFlow? (s : Scanner) (t : Token) : Option Scanner := do
  let s ← s.saveCandidate?
  return (({ s with candidates := none :: s.candidates }.moveTo (s.cursor.advance 1)).allowKey
    true).emit t

/-- A closing bracket or brace. -/
def closeFlow? (s : Scanner) (t : Token) : Option Scanner := do
  let s ← s.dropCandidate?
  let candidates := if s.inFlow then s.candidates.drop 1 else s.candidates
  return (({ s with candidates }.moveTo (s.cursor.advance 1)).allowKey false).emit t

/-- The dash before an entry of a sequence. -/
def blockEntry? (s : Scanner) : Option Scanner :=
  if s.inFlow then s.mark? 1 true .blockEntry
  else if !s.keyAllowed then none
  else (s.openBlock s.column s.tokens.length .blockSequence).mark? 1 true .blockEntry

/-- The question mark before a key. -/
def explicitKey? (s : Scanner) : Option Scanner :=
  if s.inFlow then s.mark? 1 false .key
  else if !s.keyAllowed then none
  else (s.openBlock s.column s.tokens.length .blockMapping).mark? 1 true .key

/-- The colon before a value. Behind a candidate it makes a key of it. -/
def value? (s : Scanner) : Option Scanner :=
  match s.candidates with
  | some k :: rest =>
    let s := { s with candidates := none :: rest }.emitAt k.token .key
    let s := s.openBlock k.column k.token .blockMapping
    s.mark? 1 false .value
  | _ =>
    if s.inFlow then s.mark? 1 false .value
    else if !s.keyAllowed then none
    else (s.openBlock s.column s.tokens.length .blockMapping).mark? 1 true .value

/-- An anchor or an alias: a name behind its mark. -/
def name? (s : Scanner) (make : String → Token) : Option Scanner := do
  let s ← s.saveCandidate?
  let (name, c) := (s.cursor.advance 1).takeWhile isWord
  let closing (x : Char) :=
    isSpace x || x == '?' || x == ':' || x == ',' || x == ']' || x == '\x7d' || x == '%' ||
      x == '@' || x == '\x60'
  if name.isEmpty || !c.peek?.all closing then failure
  return ((s.moveTo c).allowKey false).emit (make name)

/-- Characters of a tag; commas and brackets only between angle brackets. -/
def isTagChar (verbatim : Bool) (c : Char) : Bool :=
  isWord c || ";/?:@&=+$.!~*'()%".contains c || (verbatim && (c == ',' || c == '[' || c == ']'))

/-- Read an escaped byte behind its percent sign. -/
def escapedByte? : List Char → Option (UInt8 × List Char)
  | a :: b :: rest => do
    let high ← Hex.value? a
    let low ← Hex.value? b
    return (UInt8.ofNat (16 * high + low), rest)
  | _ => none

/-- The characters that escaped bytes write. The whole sequence of bytes of a character has to be
escaped. -/
def unescape? : Nat → List Char → Bytes → List Char → Option (List Char)
  | 0, _, _, _ => none
  | fuel + 1, text, bytes, cs =>
    let flushed := (Bytes.characters? bytes.reverse).map fun s =>
      s.toList.reverse ++ text
    match cs with
    | [] => flushed.map List.reverse
    | '%' :: rest =>
      match escapedByte? rest with
      | some (b, rest) => unescape? fuel text (b :: bytes) rest
      | none => none
    | c :: rest =>
      match flushed with
      | some text => unescape? fuel (c :: text) [] rest
      | none => none

/-- The characters of a tag from a cursor on. -/
def tagText? (verbatim : Bool) (c : Cursor) : Option (String × Cursor) := do
  let (raw, c) := c.takeWhile (isTagChar verbatim)
  let text ← unescape? (raw.length + 1) [] [] raw.toList
  return (String.ofList text, c)

/-- The handle of a tag: an exclamation mark, or a word between two. -/
def tagHandle (c : Cursor) : String × Cursor :=
  let (word, c) := (c.advance 1).takeWhile isWord
  if c.isAt '!' then ("!" ++ word ++ "!", c.advance 1) else ("!" ++ word, c)

/-- A tag, taken apart into handle and suffix. -/
def readTag? (c : Cursor) : Option (String × String × Cursor) :=
  if (c.rest[1]?) == some '<' then do
    let (suffix, c) ← tagText? true (c.advance 2)
    if suffix.isEmpty || !c.isAt '>' then failure
    return ("", suffix, c.advance 1)
  else
    let (handle, after) := tagHandle c
    if 1 < handle.length && handle.endsWith "!" then do
      let (suffix, c) ← tagText? false after
      if suffix.isEmpty then failure
      return (handle, suffix, c)
    else do
      let (more, c) ← tagText? false after
      let suffix := (handle.drop 1).toString ++ more
      return if suffix.isEmpty then ("", "!", c) else ("!", suffix, c)

def tag? (s : Scanner) : Option Scanner := do
  let s ← s.saveCandidate?
  let (handle, suffix, c) ← readTag? s.cursor
  if !c.atGap && !(s.inFlow && c.isAt ',') then failure
  return ((s.moveTo c).allowKey false).emit (.tag handle suffix)

/-- A block scalar behind its mark. -/
def block? (s : Scanner) (literal : Bool) : Option Scanner := do
  let s ← s.dropCandidate?
  let (text, c) ← readBlock? literal s.indent (s.cursor.advance 1)
  let style := if literal then Style.literal else Style.folded
  return ((s.moveTo c).allowKey true).emit (.scalar text style)

/-- A quoted scalar behind its quote. -/
def quoted? (s : Scanner) (double : Bool) : Option Scanner := do
  let s ← s.saveCandidate?
  let (text, c) ← readQuoted? double (s.cursor.advance 1)
  let style := if double then Style.double else Style.single
  return ((s.moveTo c).allowKey false).emit (.scalar text style)

/-- A plain scalar. A key may follow when a line has ended behind it. -/
def plain? (s : Scanner) : Option Scanner := do
  let s ← s.saveCandidate?
  let (text, broken, c) ← readPlain? s.inFlow (s.indent + 1).toNat s.cursor
  return ((s.moveTo c).allowKey broken).emit (.scalar text .plain)

/-! ### Directives -/

/-- A number of at most nine digits. -/
def versionNumber? (c : Cursor) : Option (Nat × Cursor) :=
  let (digits, c) := c.takeWhile Char.isDigit
  if digits.isEmpty || 9 < digits.length then none
  else some (digits.foldl (fun n d => 10 * n + (d.toNat - 48)) 0, c)

/-- The version of the format that a text names. -/
def readVersion? (c : Cursor) : Option (Token × Cursor) := do
  let (major, c) ← versionNumber? (c.skipWhile isBlank)
  if !c.isAt '.' then failure
  let (minor, c) ← versionNumber? (c.advance 1)
  return (.version major minor, c)

/-- A handle for tags and what it stands for. -/
def readTagHandle? (c : Cursor) : Option (Token × Cursor) := do
  let c := c.skipWhile isBlank
  if !c.isAt '!' then failure
  let (handle, c) := tagHandle c
  if !handle.endsWith "!" || !c.at? isBlank then failure
  let (expansion, c) ← tagText? true (c.skipWhile isBlank)
  if expansion.isEmpty || !c.atGap then failure
  return (.tagHandle handle expansion, c)

/-- A directive, with the rest of its line. -/
def directive? (s : Scanner) : Option Scanner := do
  let s ← (s.closeBlocks (-1)).dropCandidate?
  let (name, c) := (s.cursor.advance 1).takeWhile isWord
  if name.isEmpty || !c.atGap then failure
  let (t, c) ←
    if name = "YAML" then readVersion? c
    else if name = "TAG" then readTagHandle? c
    else failure
  let c ← c.finishLine?
  return ((s.moveTo c).allowKey false).emit t

/-! ### The whole text -/

/-- Whether a plain scalar may start here. -/
def startsPlain (s : Scanner) : Bool :=
  match s.cursor.rest with
  | [] => false
  | x :: rest =>
    let marks := "-?:,[]\x7b\x7d#&*!|>'\"%@\x60"
    if isSpace x then false
    else if !marks.contains x then true
    else if x == '-' then !rest.head?.any isBlank
    else !s.inFlow && (x == '?' || x == ':') && !rest.head?.all isSpace

/-- The token at the cursor, which stands at none of the spaces. -/
def next? (s : Scanner) : Option Scanner :=
  let c := s.cursor
  match c.rest with
  | [] => none
  | x :: _ =>
    let spaced := s.inFlow || c.gapAfterNext
    if c.column == 0 && x == '%' then s.directive?
    else if c.atDocumentMark then
      s.documentMark? (if x == '-' then .documentStart else .documentEnd)
    else if x == '[' then s.openFlow? .flowSequence
    else if x == '\x7b' then s.openFlow? .flowMapping
    else if x == ']' then s.closeFlow? .flowSequenceEnd
    else if x == '\x7d' then s.closeFlow? .flowMappingEnd
    else if x == ',' then s.mark? 1 true .flowEntry
    else if x == '-' && c.gapAfterNext then s.blockEntry?
    else if x == '?' && spaced then s.explicitKey?
    else if x == ':' && spaced then s.value?
    else if x == '*' then s.name? .alias
    else if x == '&' then s.name? .anchor
    else if x == '!' then s.tag?
    else if x == '|' && !s.inFlow then s.block? true
    else if x == '>' && !s.inFlow then s.block? false
    else if x == '\'' then s.quoted? false
    else if x == '"' then s.quoted? true
    else if s.startsPlain then s.plain?
    else none

/-- All tokens from a state on. -/
def run? : Nat → Scanner → Option (List Token)
  | 0, _ => none
  | fuel + 1, s => do
    let s := s.skipGap (s.cursor.rest.length + 1)
    let s ← s.dropStale?
    let s := s.closeBlocks s.column
    if s.cursor.rest.isEmpty then return (← s.finish?).tokens.reverse
    run? fuel (← s.next?)

end Scanner

/-- The tokens of a text, if every character of it is allowed. -/
def tokens? (text : String) : Option (List Token) :=
  let cs := text.toList
  if cs.all isAllowed then Scanner.run? (cs.length + 1) { cursor := { rest := cs } } else none

end OctreeWorld.Yaml
