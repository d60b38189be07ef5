import OctreeWorld.DataFormat
import OctreeWorld.Decimal.Reading
import OctreeWorld.Yaml.Node

/-!
# Reading records from YAML

Which scalars are numbers and which stand for nothing. Quotes make a text of a scalar, whatever it
holds; a literal block is a number only if its tag says so.
-/

namespace OctreeWorld.Yaml

namespace Scalar

/-- Whether a scalar may be a value of the type of a tag. -/
def mayBe (type : String) (s : Scalar) : Bool :=
  s.style == .plain || (s.style == .literal && s.tag == some ("tag:yaml.org,2002:" ++ type))

/-- The value of a digit in bases up to sixteen. -/
def digitIn? (base : Nat) (c : Char) : Option Nat := (Hex.value? c).filter (· < base)

/-- The number that digits of a base write, if there is any digit. -/
def numberIn? (base : Nat) (cs : List Char) : Option Nat :=
  if cs.isEmpty then none
  else cs.foldlM (fun n c => (digitIn? base c).map (base * n + ·)) 0

/-- A number in the base that its first two characters name. -/
def based? : List Char → Option Nat
  | '0' :: 'x' :: cs => numberIn? 16 cs
  | '0' :: 'o' :: cs => numberIn? 8 cs
  | '0' :: 'b' :: cs => numberIn? 2 cs
  | _ => none

/-- Decimal digits behind a leading zero write no number. -/
def isPadded (cs : List Char) : Bool :=
  cs.head? == some '0' && decide (1 < cs.length) && cs.all Char.isDigit

/-- A natural number: decimal digits, or digits behind the mark of their base. A plus sign may stand
in front. -/
def natural? (cs : List Char) : Option Nat :=
  let unsigned := match cs with
    | '+' :: rest => rest
    | _ => cs
  (based? unsigned).or (if isPadded unsigned then none else numberIn? 10 unsigned)

/-- The names of the doubles that have no digits. -/
def specialFloats : List (String × Float) :=
  [(".inf", 1 / 0), (".Inf", 1 / 0), (".INF", 1 / 0), ("+.inf", 1 / 0), ("+.Inf", 1 / 0),
    ("+.INF", 1 / 0), ("-.inf", -1 / 0), ("-.Inf", -1 / 0), ("-.INF", -1 / 0), (".nan", 0 / 0),
    (".NaN", 0 / 0), (".NAN", 0 / 0)]

/-- A double: one of the names, or a decimal number within the range of doubles. -/
def float? (text : String) : Option Float :=
  (specialFloats.lookup text).or <|
    ((Decimal.Literal.read? text.toList).map (·.toFloat)).filter (·.isFinite)

/-- The words that stand for nothing. -/
def nothings : List String := ["null", "Null", "NULL", "~"]

/-- Whether a scalar stands for nothing: an empty plain scalar or one of the words, unless a tag
says otherwise. The tag of nothing must come with one of the words. -/
def isNothing? (s : Scalar) : Option Bool :=
  let word := nothings.contains s.text
  if s.style != .plain then some false
  else
    match s.tag with
    | none => some (s.text.isEmpty || word)
    | some t =>
      if t == "tag:yaml.org,2002:null" then (if word then some true else none) else some false

end Scalar

namespace Document

/-- The node itself, or the one that an alias stands for. -/
def resolve (anchored : List (Nat × Node)) (n : Node) : Node :=
  match n with
  | .alias id => (anchored.lookup id).getD Node.blank
  | _ => n

/-- The text of a key, which has to be a scalar. -/
def key? (anchored : List (Nat × Node)) (n : Node) : Option String :=
  match resolve anchored n with
  | .scalar s => some s.text
  | _ => none

/-- The entries of a list among the given names, in order. Absent when one of these names repeats,
or when a key is no scalar. -/
def knownEntries? (anchored : List (Nat × Node)) (names : List String) :
    List (Node × Node) → Option (List (String × Node))
  | [] => some []
  | (k, v) :: rest => do
    let name ← key? anchored k
    let known ← knownEntries? anchored names rest
    if !names.contains name then return known
    else if (known.lookup name).isSome then none
    else return (name, v) :: known

/-- The fields of a record: the entries of a mapping, or none where nothing is written. -/
def fields? (anchored : List (Nat × Node)) (names : List String) (n : Node) :
    Option (List (String × Node)) :=
  match resolve anchored n with
  | .mapping entries => knownEntries? anchored names entries
  | .scalar s => if s.text.isEmpty && s.style == .plain then some [] else none
  | _ => none

/-- A scalar that may be a value of the type of a tag. -/
def typed? (anchored : List (Nat × Node)) (type : String) (n : Node) : Option String :=
  match resolve anchored n with
  | .scalar s => if s.mayBe type then some s.text else none
  | _ => none

/-- The nodes of a document as a format for records. -/
def format (anchored : List (Nat × Node)) : DataFormat Node where
  fields? := fields? anchored
  natural? bound n := do
    let value ← Scalar.natural? (← typed? anchored "int" n).toList
    if value ≤ bound then some value else none
  float? n := (typed? anchored "float" n).bind Scalar.float?
  isNothing? n :=
    match resolve anchored n with
    | .scalar s => s.isNothing?
    | _ => some false

end Document

end OctreeWorld.Yaml
