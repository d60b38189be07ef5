import OctreeWorld.Hex
import OctreeWorld.Yaml.Cursor

/-!
# YAML scalars

The text of a scalar in each of the five styles: plain, in single or double quotes, and as a literal
or folded block. A line end inside the first three folds into a blank, and further empty lines stay.
-/

namespace OctreeWorld.Yaml

inductive Style where
  | plain
  | single
  | double
  | literal
  | folded
deriving DecidableEq, Inhabited

/-- The space between two pieces of text. -/
structure Gap where
  /-- Blanks on the line. -/
  blanks : String := ""
  /-- Whether a line has ended. -/
  broken : Bool := false
  /-- The first line end. -/
  first : String := ""
  /-- The line ends after the first. -/
  further : String := ""

namespace Gap

/-- What the space adds to the text. -/
def text (g : Gap) : String :=
  if !g.broken then g.blanks
  else if g.first.startsWith "\n" then (if g.further.isEmpty then " " else g.further)
  else g.first ++ g.further

/-- One more line end. -/
def breakLine (g : Gap) (lineEnd : String) : Gap :=
  if g.broken then { g with further := g.further ++ lineEnd }
  else { g with broken := true, blanks := "", first := lineEnd }

/-- Read blanks and line ends. A tab may not stand before column `indent` of a later line. -/
def read? (indent : Nat) : Nat → Cursor → Gap → Option (Gap × Cursor)
  | 0, _, _ => none
  | fuel + 1, c, g =>
    match c.peek? with
    | none => some (g, c)
    | some x =>
      if isBreak x then read? indent fuel c.nextLine (g.breakLine c.lineEndText)
      else if isBlank x then
        if g.broken && decide (c.column < indent) && x == '\t' then none
        else if g.broken then read? indent fuel (c.advance 1) g
        else read? indent fuel (c.advance 1) { g with blanks := g.blanks.push x }
      else some (g, c)

end Gap

/-! ### Plain scalars -/

/-- Marks of collections in brackets and braces. -/
def isFlowMark (c : Char) : Bool :=
  c == ',' || c == '[' || c == ']' || c == '\x7b' || c == '\x7d'

/-- Characters of a plain scalar up to a space or to what ends it. Inside brackets a colon must not
stand right before a mark. -/
def plainPiece? (inFlow : Bool) : List Char → Option (List Char)
  | [] => some []
  | c :: cs =>
    if isSpace c then some []
    else if c == ':' && inFlow && cs.head?.any (fun d => isFlowMark d || d == '?') then none
    else if c == ':' && cs.head?.all isSpace then some []
    else if inFlow && isFlowMark c then some []
    else (plainPiece? inFlow cs).map (c :: ·)

/-- A plain scalar with the text and the space so far. Also answers whether a line has ended
behind it. -/
def plainFrom? (inFlow : Bool) (indent : Nat) :
    Nat → Cursor → String → Gap → Option (String × Bool × Cursor)
  | 0, _, _, _ => none
  | fuel + 1, c, text, gap => do
    if c.atDocumentMark || c.isAt '#' then return (text, gap.broken, c)
    let piece ← plainPiece? inFlow c.rest
    let (text, gap) :=
      if piece.isEmpty then (text, gap) else (text ++ gap.text ++ String.ofList piece, {})
    let c := c.advance piece.length
    if !c.at? isSpace then return (text, gap.broken, c)
    let (gap, c) ← gap.read? indent (c.rest.length + 1) c
    if !inFlow && decide (c.column < indent) then return (text, gap.broken, c)
    plainFrom? inFlow indent fuel c text gap

/-- A plain scalar whose later lines start at column `indent` or behind. -/
def readPlain? (inFlow : Bool) (indent : Nat) (c : Cursor) : Option (String × Bool × Cursor) :=
  plainFrom? inFlow indent (c.rest.length + 1) c "" {}

/-! ### Quoted scalars -/

/-- The characters of the escapes of one letter. -/
def escapes : List (Char × Nat) :=
  [('0', 0), ('a', 7), ('b', 8), ('t', 9), ('\t', 9), ('n', 10), ('v', 11), ('f', 12), ('r', 13),
    ('e', 27), (' ', 32), ('"', 34), ('/', 47), ('\\', 92), ('N', 0x85), ('_', 0xa0), ('L', 0x2028),
    ('P', 0x2029)]

/-- Digits of the escapes that write a code. -/
def codeLengths : List (Char × Nat) := [('x', 2), ('u', 4), ('U', 8)]

/-- The character of a code, unless it is half a surrogate pair or too great. -/
def ofCode? (n : Nat) : Option Char := if Nat.isValidChar n then some (Char.ofNat n) else none

/-- An escape behind its backslash, and how many characters it takes. -/
def readEscape? : List Char → Option (Char × Nat)
  | [] => none
  | c :: cs =>
    match escapes.lookup c, codeLengths.lookup c with
    | some n, _ => some (Char.ofNat n, 1)
    | none, some width =>
      if cs.length < width then none
      else do
        let n ← Hex.number? (cs.take width)
        let x ← ofCode? n
        return (x, width + 1)
    | none, none => none

/-- Characters of a quoted scalar up to a space, the closing quote or an escaped line end. Answers
the text, the place behind it and whether an escaped line end came last. -/
def quotedPiece? (double : Bool) : Nat → Cursor → String → Option (String × Cursor × Bool)
  | 0, _, _ => none
  | fuel + 1, c, text =>
    match c.rest with
    | [] => some (text, c, false)
    | x :: xs =>
      if isSpace x then some (text, c, false)
      else if !double && x == '\'' then
        if xs.head? == some '\'' then quotedPiece? double fuel (c.advance 2) (text.push '\'')
        else some (text, c, false)
      else if double && x == '"' then some (text, c, false)
      else if double && x == '\\' then
        if xs.head?.any isBreak then some (text, (c.advance 1).nextLine, true)
        else
          match readEscape? xs with
          | none => none
          | some (y, width) => quotedPiece? double fuel (c.advance (width + 1)) (text.push y)
      else quotedPiece? double fuel (c.advance 1) (text.push x)

/-- A quoted scalar behind its opening quote, with the text so far. -/
def quotedFrom? (double : Bool) : Nat → Cursor → String → Option (String × Cursor)
  | 0, _, _ => none
  | fuel + 1, c, text => do
    if c.atDocumentMark || c.rest.isEmpty then failure
    let (text, c, continued) ← quotedPiece? double (c.rest.length + 1) c text
    if c.isAt (if double then '"' else '\'') then return (text, c.advance 1)
    let (gap, c) ← Gap.read? 0 (c.rest.length + 1) c { broken := continued }
    quotedFrom? double fuel c (text ++ gap.text)

/-- A quoted scalar behind its opening quote. -/
def readQuoted? (double : Bool) (c : Cursor) : Option (String × Cursor) :=
  quotedFrom? double (c.rest.length + 1) c ""

/-! ### Block scalars -/

/-- What happens to the line ends behind a block. -/
inductive Chomping where
  | strip
  | clip
  | keep
deriving DecidableEq

def chomping? (c : Cursor) : Option Chomping :=
  if c.isAt '+' then some .keep else if c.isAt '-' then some .strip else none

/-- The indentation that a block's header may ask for, a digit from one. -/
def increment? (c : Cursor) : Option Nat :=
  c.peek?.bind fun x => if x.isDigit then some (x.toNat - 48) else none

/-- A block's header behind its mark: chomping and indentation in either order. -/
def readBlockHeader? (c : Cursor) : Option ((Chomping × Option Nat) × Cursor) := do
  let (chomping, increment, c) :=
    match chomping? c, increment? c with
    | some ch, _ =>
      let c := c.advance 1
      match increment? c with
      | some n => (ch, some n, c.advance 1)
      | none => (ch, none, c)
    | none, some n =>
      let c := c.advance 1
      match chomping? c with
      | some ch => (ch, some n, c.advance 1)
      | none => (Chomping.clip, some n, c)
    | none, none => (Chomping.clip, none, c)
  if increment = some 0 then failure
  return ((chomping, increment), ← c.finishLine?)

/-- Empty lines of a block, up to `indent` if that is known already. Answers the line ends, the
deepest column that was reached and the place behind. -/
def readEmptyLines? (indent : Option Nat) :
    Nat → Cursor → String → Nat → Option (String × Nat × Cursor)
  | 0, _, _, _ => none
  | fuel + 1, c, breaks, deepest => do
    let open_ (column : Nat) := indent.all fun n => column < n
    let blanks := (c.rest.takeWhile (· == ' ')).length
    let c := c.advance (match indent with
      | some n => min blanks (n - c.column)
      | none => blanks)
    let deepest := max deepest c.column
    if open_ c.column && c.isAt '\t' then failure
    if c.at? isBreak then readEmptyLines? indent fuel c.nextLine (breaks ++ c.lineEndText) deepest
    else return (breaks, deepest, c)

/-- The lines of a block of known indentation, with the text so far, the line end before the next
line, the empty lines behind it, and whether the last line began with a blank. Answers the text and
the line ends that chomping decides about. -/
def blockLines? (literal : Bool) (indent : Nat) :
    Nat → Cursor → String → String → String → Bool → Option ((String × String × String) × Cursor)
  | 0, _, _, _, _, _ => none
  | fuel + 1, c, text, lineEnd, breaks, afterBlank => do
    if c.column != indent || c.rest.isEmpty then return ((text, lineEnd, breaks), c)
    let blank := c.at? isBlank
    let joint :=
      if !literal && lineEnd.startsWith "\n" && !afterBlank && !blank then
        if breaks.isEmpty then " " else ""
      else lineEnd
    let (line, c) := c.takeWhile (!isBreak ·)
    let text := text ++ joint ++ breaks ++ line
    let (lineEnd, c) := if c.rest.isEmpty then ("", c) else (c.lineEndText, c.nextLine)
    let (breaks, _, c) ← readEmptyLines? (some indent) (c.rest.length + 1) c "" 0
    blockLines? literal indent fuel c text lineEnd breaks blank

/-- A block behind its mark, in a collection of the given indentation. -/
def readBlock? (literal : Bool) (outer : Int) (c : Cursor) : Option (String × Cursor) := do
  let ((chomping, increment), c) ← readBlockHeader? c
  let known := increment.map fun n => (max outer 0).toNat + n
  let (breaks, deepest, c) ← readEmptyLines? known (c.rest.length + 1) c "" 0
  let indent := known.getD (max (max deepest (outer + 1).toNat) 1)
  let ((text, lineEnd, breaks), c) ←
    blockLines? literal indent (c.rest.length + 1) c "" "" breaks false
  let text := if chomping = .strip then text else text ++ lineEnd
  return (if chomping = .keep then text ++ breaks else text, c)

end OctreeWorld.Yaml
