/-!
# A place in a YAML text

The cursor knows the characters ahead and how far it has come, in characters, lines and columns. A
line ends with a carriage return, a line feed, both, or one of three less common characters; the end
of the text counts as the end of a line.
-/

namespace OctreeWorld.Yaml

/-- A place in a text. -/
structure Cursor where
  rest : List Char
  index : Nat := 0
  line : Nat := 0
  column : Nat := 0

/-- Blanks inside a line. -/
def isBlank (c : Char) : Bool := c == ' ' || c == '\t'

/-- Characters that end a line. -/
def isBreak (c : Char) : Bool :=
  c == '\r' || c == '\n' || c.toNat == 0x85 || c.toNat == 0x2028 || c.toNat == 0x2029

/-- Blanks and line ends. -/
def isSpace (c : Char) : Bool := isBlank c || isBreak c

/-- Characters of names. -/
def isWord (c : Char) : Bool := c.isAlphanum || c == '_' || c == '-'

/-- Characters that a text may hold. -/
def isAllowed (c : Char) : Bool :=
  let n := c.toNat
  n == 9 || n == 10 || n == 13 || (32 ≤ n && n ≤ 126) || n == 0x85 || (0xa0 ≤ n && n ≤ 0xd7ff) ||
    (0xe000 ≤ n && n ≤ 0xfffd) || 0x10000 ≤ n

namespace Cursor

def peek? (c : Cursor) : Option Char := c.rest.head?

/-- Whether the next character is there and passes a test. -/
def at? (c : Cursor) (test : Char → Bool) : Bool := c.rest.head?.any test

/-- Whether the next character is the given one. -/
def isAt (c : Cursor) (x : Char) : Bool := c.rest.head? == some x

/-- Whether the text or the line ends here, or a blank comes. -/
def atGap (c : Cursor) : Bool := c.rest.head?.all isSpace

/-- Whether the character after the next one is absent or a space. -/
def gapAfterNext (c : Cursor) : Bool := (c.rest[1]?).all isSpace

/-- Whether the text or the line ends here. -/
def atLineEnd (c : Cursor) : Bool := c.rest.head?.all isBreak

/-- Move over characters of the same line. -/
def advance (c : Cursor) (count : Nat) : Cursor :=
  { c with rest := c.rest.drop count, index := c.index + count, column := c.column + count }

/-- Move over a mark of byte order that starts a line. -/
def skipOrderMark (c : Cursor) : Cursor :=
  if c.column == 0 && c.isAt '\ufeff' then c.advance 1 else c

/-- The characters up to the first that fails a test, and the place behind them. None of them may
end a line. -/
def takeWhile (c : Cursor) (test : Char → Bool) : String × Cursor :=
  let taken := c.rest.takeWhile test
  (String.ofList taken, c.advance taken.length)

def skipWhile (c : Cursor) (test : Char → Bool) : Cursor := (c.takeWhile test).2

/-- Move over the end of a line. -/
def nextLine (c : Cursor) : Cursor :=
  let width := match c.rest with
    | '\r' :: '\n' :: _ => 2
    | _ => 1
  { rest := c.rest.drop width, index := c.index + width, line := c.line + 1, column := 0 }

/-- What the end of a line stands for: a line feed, but for the two separators that stay. -/
def lineEndText (c : Cursor) : String :=
  match c.rest with
  | x :: _ => if x.toNat == 0x2028 || x.toNat == 0x2029 then x.toString else "\n"
  | [] => ""

/-- Whether a line starts with one of the two marks between documents. -/
def atDocumentMark (c : Cursor) : Bool :=
  let start := c.rest.take 3
  let mark := start == ['-', '-', '-'] || start == ['.', '.', '.']
  c.column == 0 && mark && (c.rest[3]?).all isSpace

/-- Move to the end of the line, behind blanks and a comment. Absent when anything else stands
there. -/
def finishLine? (c : Cursor) : Option Cursor :=
  let c := c.skipWhile isBlank
  let c := if c.isAt '#' then c.skipWhile (!isBreak ·) else c
  if !c.atLineEnd then none
  else if c.rest.isEmpty then some c
  else some c.nextLine

end Cursor

end OctreeWorld.Yaml
