import OctreeWorld.Yaml.Token

/-!
# YAML nodes

A text holds one document, a tree of scalars, sequences and mappings. A node may carry an anchor;
an alias elsewhere in the document stands for it. Aliases stay in the tree as numbers, because an
alias may lie inside the node that it stands for.
-/

namespace OctreeWorld.Yaml

/-- A scalar with the tag it carries, if any. -/
structure Scalar where
  text : String
  style : Style := .plain
  tag : Option String := none
deriving DecidableEq, Inhabited

/-- A node of a document. -/
inductive Node where
  | scalar (s : Scalar)
  | sequence (items : List Node)
  | mapping (entries : List (Node × Node))
  /-- Stands for the node of a number in the document's list of anchored nodes. -/
  | alias (id : Nat)
deriving Inhabited

/-- A document: its root, and the nodes that aliases stand for. -/
structure Document where
  root : Node
  anchored : List (Nat × Node) := []
deriving Inhabited

/-- The node of no text. -/
def Node.blank : Node := .scalar { text := "" }

/-- A place between two tokens, with the handles, names and nodes that are known there. -/
structure Place where
  tokens : List Token
  /-- What the handles of tags stand for. -/
  handles : List (String × String) := []
  /-- The numbers of anchors. A number is the count of other names so far. -/
  names : List (String × Nat) := []
  /-- Anchored nodes, the latest first. -/
  anchored : List (Nat × Node) := []

namespace Place

def skip (p : Place) : Place := { p with tokens := p.tokens.drop 1 }

/-- Whether the next token is one of a list. -/
def at? (p : Place) (ts : List Token) : Bool := p.tokens.head?.any ts.contains

/-- The handles that need no directive. -/
def standardHandles : List (String × String) := [("!", "!"), ("!!", "tag:yaml.org,2002:")]

/-- A tag in full, if its handle is known. -/
def resolveTag? (p : Place) (handle suffix : String) : Option String :=
  if handle.isEmpty then some suffix
  else ((p.handles ++ standardHandles).lookup handle).map (· ++ suffix)

/-- Number a new anchor. -/
def name (p : Place) (anchor : String) : Nat × Place :=
  let id := p.names.length
  (id, { p with names := (anchor, id) :: p.names.filter (·.1 != anchor) })

/-- The anchor and the tag before a node, in either order, each at most once. -/
def properties? (p : Place) : Option ((Option String × Option String) × Place) :=
  match p.tokens with
  | .anchor a :: .tag h s :: rest => do
    let tag ← p.resolveTag? h s
    return ((some a, some tag), { p with tokens := rest })
  | .tag h s :: .anchor a :: rest => do
    let tag ← p.resolveTag? h s
    return ((some a, some tag), { p with tokens := rest })
  | .anchor a :: rest => some ((some a, none), { p with tokens := rest })
  | .tag h s :: rest => do
    let tag ← p.resolveTag? h s
    return ((none, some tag), { p with tokens := rest })
  | _ => some ((none, none), p)

/-- What kinds of nodes may stand at a place. -/
structure Allowed where
  block : Bool
  /-- Whether a sequence may stand at the indentation of its mapping. -/
  indentless : Bool

def Allowed.flow : Allowed := ⟨false, false⟩

def Allowed.entry : Allowed := ⟨true, false⟩

def Allowed.member : Allowed := ⟨true, true⟩

mutual

/-- One node. -/
def node? : Nat → Allowed → Place → Option (Node × Place)
  | 0, _, _ => none
  | fuel + 1, allowed, p =>
    match p.tokens with
    | .alias a :: _ => (p.names.lookup a).map fun id => (.alias id, p.skip)
    | _ => do
      let ((anchor, tag), p) ← p.properties?
      let (id, p) := match anchor with
        | some a =>
          let (id, p) := p.name a
          (some id, p)
        | none => (none, p)
      let (n, p) ← content? fuel allowed tag (anchor.isSome || tag.isSome) p
      return (n, match id with
        | some id => { p with anchored := (id, n) :: p.anchored }
        | none => p)

/-- A node behind its anchor and tag. Without content these make an empty scalar. -/
def content? : Nat → Allowed → Option String → Bool → Place → Option (Node × Place)
  | 0, _, _, _, _ => none
  | fuel + 1, allowed, tag, marked, p =>
    let sequence := Option.map fun (items, p) => (Node.sequence items, p)
    let mapping := Option.map fun (entries, p) => (Node.mapping entries, p)
    let otherwise : Option (Node × Place) :=
      if marked then some (.scalar { text := "", tag }, p) else none
    match p.tokens.head? with
    | some .blockEntry =>
      if allowed.indentless then sequence (indentlessItems? fuel p) else otherwise
    | some (.scalar text style) => some (.scalar { text, style, tag }, p.skip)
    | some .flowSequence => sequence (flowItems? fuel true p.skip)
    | some .flowMapping => mapping (flowEntries? fuel true p.skip)
    | some .blockSequence =>
      if allowed.block then sequence (blockItems? fuel p.skip) else otherwise
    | some .blockMapping =>
      if allowed.block then mapping (blockEntries? fuel p.skip) else otherwise
    | _ => otherwise

/-- A node, or an empty one in front of some tokens. -/
def nodeUnless? : Nat → List Token → Allowed → Place → Option (Node × Place)
  | 0, _, _, _ => none
  | fuel + 1, ends, allowed, p =>
    if p.at? ends then some (Node.blank, p) else node? fuel allowed p

/-- Entries of a block sequence up to its end. -/
def blockItems? : Nat → Place → Option (List Node × Place)
  | 0, _ => none
  | fuel + 1, p =>
    match p.tokens.head? with
    | some .blockEntry => do
      let (n, p) ← nodeUnless? fuel [.blockEntry, .blockEnd] .entry p.skip
      let (ns, p) ← blockItems? fuel p
      return (n :: ns, p)
    | some .blockEnd => some ([], p.skip)
    | _ => none

/-- Entries of a sequence at the indentation of its mapping. -/
def indentlessItems? : Nat → Place → Option (List Node × Place)
  | 0, _ => none
  | fuel + 1, p =>
    match p.tokens.head? with
    | some .blockEntry => do
      let (n, p) ← nodeUnless? fuel [.blockEntry, .key, .value, .blockEnd] .entry p.skip
      let (ns, p) ← indentlessItems? fuel p
      return (n :: ns, p)
    | _ => some ([], p)

/-- Entries of a block mapping up to its end. -/
def blockEntries? : Nat → Place → Option (List (Node × Node) × Place)
  | 0, _ => none
  | fuel + 1, p =>
    match p.tokens.head? with
    | some .key => do
      let (k, p) ← nodeUnless? fuel [.key, .value, .blockEnd] .member p.skip
      let (v, p) ←
        if p.at? [.value] then nodeUnless? fuel [.key, .value, .blockEnd] .member p.skip
        else some (Node.blank, p)
      let (rest, p) ← blockEntries? fuel p
      return ((k, v) :: rest, p)
    | some .blockEnd => some ([], p.skip)
    | _ => none

/-- Items of a sequence in brackets, up to its end. -/
def flowItems? : Nat → Bool → Place → Option (List Node × Place)
  | 0, _, _ => none
  | fuel + 1, first, p =>
    if p.at? [.flowSequenceEnd] then some ([], p.skip)
    else if !first && !p.at? [.flowEntry] then none
    else
      let p := if first then p else p.skip
      if p.at? [.flowSequenceEnd] then some ([], p.skip)
      else do
        let (n, p) ←
          if p.at? [.key] then flowPair? fuel p.skip else node? fuel .flow p
        let (ns, p) ← flowItems? fuel false p
        return (n :: ns, p)

/-- A mapping of one entry that stands as an item in brackets, behind the mark of its key. Without
a key the token in its place is passed over. -/
def flowPair? : Nat → Place → Option (Node × Place)
  | 0, _ => none
  | fuel + 1, p => do
    let (k, p) ←
      if p.at? [.value, .flowEntry, .flowSequenceEnd] then some (Node.blank, p.skip)
      else node? fuel .flow p
    let (v, p) ←
      if p.at? [.value] then nodeUnless? fuel [.flowEntry, .flowSequenceEnd] .flow p.skip
      else some (Node.blank, p)
    return (.mapping [(k, v)], p)

/-- Entries of a mapping in braces, up to its end. -/
def flowEntries? : Nat → Bool → Place → Option (List (Node × Node) × Place)
  | 0, _, _ => none
  | fuel + 1, first, p =>
    if p.at? [.flowMappingEnd] then some ([], p.skip)
    else if !first && !p.at? [.flowEntry] then none
    else
      let p := if first then p else p.skip
      if p.at? [.flowMappingEnd] then some ([], p.skip)
      else if p.at? [.key] then do
        let (k, p) ← nodeUnless? fuel [.value, .flowEntry, .flowMappingEnd] .flow p.skip
        let (v, p) ←
          if p.at? [.value] then nodeUnless? fuel [.flowEntry, .flowMappingEnd] .flow p.skip
          else some (Node.blank, p)
        let (rest, p) ← flowEntries? fuel false p
        return ((k, v) :: rest, p)
      else do
        let (k, p) ← node? fuel .flow p
        let (rest, p) ← flowEntries? fuel false p
        return ((k, Node.blank) :: rest, p)

end

/-! ### Documents -/

/-- The directives before a document: at most one version, which has to be 1.1 or 1.2, and each
handle at most once. -/
def directives? : Nat → Bool → Place → Option Place
  | 0, _, _ => none
  | fuel + 1, versioned, p =>
    match p.tokens.head? with
    | some (.version major minor) =>
      if versioned || major != 1 || (minor != 1 && minor != 2) then none
      else directives? fuel true p.skip
    | some (.tagHandle handle expansion) =>
      if (p.handles.lookup handle).isSome then none
      else directives? fuel versioned { p.skip with handles := (handle, expansion) :: p.handles }
    | _ => some p

/-- Whether the next token belongs to the frame of documents and not to a node. -/
def atFrame (p : Place) : Bool :=
  match p.tokens.head? with
  | some (.version _ _) | some (.tagHandle _ _) | some .documentStart | some .documentEnd
  | some .streamEnd => true
  | _ => false

/-- The root of the first document. A text without one has an empty root. -/
def root? (p : Place) : Option (Node × Place) :=
  let fuel := 4 * p.tokens.length + 8
  if p.at? [.streamEnd] then some (Node.blank, p)
  else if p.atFrame && !p.at? [.documentEnd] then do
    let p ← directives? fuel false p
    if !p.at? [.documentStart] then failure
    let p := p.skip
    if p.atFrame then return (Node.blank, p)
    node? fuel .entry p
  else node? fuel .entry p

/-- Whether nothing but ends of documents is left. -/
def atEnd (p : Place) : Bool :=
  p.tokens.dropWhile (· == .documentEnd) == [.streamEnd]

end Place

namespace Document

/-- The document of a text that holds no more than one. -/
def read? (text : String) : Option Document := do
  let tokens ← tokens? text
  let (root, p) ← Place.root? { tokens }
  if p.atEnd then return { root, anchored := p.anchored } else failure

end Document

end OctreeWorld.Yaml
