import SchemaDocs.Yaml.Node
import SchemaDocs.Yaml.Token

/-!
# YAML documents

The document that the tokens of a text describe. An alias stands for the node that its anchor names.
A collection can be referred to from within itself: its anchor is known before its parts are read. A
part that is left out is an empty scalar.
-/

namespace SchemaDocs.Yaml

def Token.startsDocument : Token → Bool
  | .directive _ | .documentStart => true
  | _ => false

/-- The state of the reading of nodes. -/
structure Composer where
  tokens : List Token
  /-- Why there are no more tokens, if that is not the end of the text. -/
  fault : Option Fault
  /-- What the handles of tags stand for. -/
  handles : List (String × String) := []
  /-- The nodes that aliases can refer to. -/
  anchors : List (String × NodeId) := []
  nodes : Array Node := #[]

/-- Reading nodes from tokens. -/
abbrev Compose := StateT Composer (Except Fault)

namespace Compose

def malformed {α : Type} : Compose α := throw .malformed

/-! ## Tokens -/

/-- The next token; none at the end of the text. -/
def peek : Compose (Option Token) := do
  let state ← get
  match state.tokens, state.fault with
  | token :: _, _ => return some token
  | [], some fault => throw fault
  | [], none => return none

def next : Compose Unit := modify fun state => { state with tokens := state.tokens.drop 1 }

def isAt (tokens : List Token) : Compose Bool := do
  match ← peek with
  | some token => return tokens.contains token
  | none => return false

/-- Passes over a token that has to stand here. -/
def expect (token : Token) : Compose Unit := do
  if ← isAt [token] then next else malformed

/-! ## Making nodes -/

/-- Adds a node; gives its number. -/
def add (node : Node) : Compose NodeId := do
  let id := (← get).nodes.size
  modify fun state => { state with nodes := state.nodes.push node }
  return id

def put (id : NodeId) (node : Node) : Compose Unit :=
  modify fun state => { state with nodes := state.nodes.setIfInBounds id node }

/-- Refuses an anchor that another node has. -/
def requireNew : Option String → Compose Unit
  | none => return ()
  | some name => do
    if (← get).anchors.any fun entry => entry.1 == name then malformed

/-- Lets aliases refer to a node. -/
def keep (anchor : Option String) (id : NodeId) : Compose Unit :=
  match anchor with
  | none => return ()
  | some name => modify fun state => { state with anchors := (name, id) :: state.anchors }

def aliased (name : String) : Compose NodeId := do
  match (← get).anchors.find? fun entry => entry.1 = name with
  | some entry => return entry.2
  | none => malformed

def scalar (anchor : Option String) (tag : Tag) (text : String) : Compose NodeId := do
  requireNew anchor
  let id ← add (.scalar tag text)
  keep anchor id
  return id

/-- Makes a sequence, whose items are read when it can already be referred to. -/
def sequence (anchor name : Option String) (read : Compose (List NodeId)) : Compose NodeId := do
  let tag := Node.collectionTag .seq name
  requireNew anchor
  let id ← add (.sequence tag [])
  keep anchor id
  let items ← read
  put id (.sequence tag items)
  return id

/-- Makes a mapping, whose entries are read when it can already be referred to. -/
def mapping (anchor name : Option String) (read : Compose (List (NodeId × NodeId))) :
    Compose NodeId := do
  let tag := Node.collectionTag .map name
  requireNew anchor
  let id ← add (.mapping tag [])
  keep anchor id
  let entries ← read
  put id (.mapping tag entries)
  return id

/-- Reads a node unless it is left out, which one of `ends` shows. -/
def unlessAt (ends : List Token) (read : Compose NodeId) : Compose NodeId := do
  if ← isAt ends then add .empty else read

/-- Reads the node after a mark; it is left out if the mark is missing or one of `ends` follows. -/
def after (mark : Token) (ends : List Token) (read : Compose NodeId) : Compose NodeId := do
  if ← isAt [mark] then
    next
    unlessAt ends read
  else add .empty

/-! ## Properties of nodes -/

def anchor? : Compose (Option String) := do
  match ← peek with
  | some (.anchor name) => next; return some name
  | _ => return none

def tag? : Compose (Option (Option String × String)) := do
  match ← peek with
  | some (.tag handle suffix) => next; return some (handle, suffix)
  | _ => return none

def fullName : Option (Option String × String) → Compose (Option String)
  | none => return none
  | some (none, suffix) => return some suffix
  | some (some handle, suffix) => do
    match (← get).handles.find? fun entry => entry.1 = handle with
    | some entry => return some (entry.2 ++ suffix)
    | none => malformed

/-- Reads the anchor and the tag of a node, which stand in either order. -/
def properties : Compose (Option String × Option String) := do
  match ← anchor? with
  | some anchor =>
    let tag ← tag?
    let name ← fullName tag
    return (some anchor, name)
  | none =>
    let tag ← tag?
    if tag.isSome then
      let anchor ← anchor?
      let name ← fullName tag
      return (anchor, name)
    else return (none, none)

/-! ## Nodes -/

mutual

/-- Reads a node. Collections in block style are taken if `block` holds, and if `indentless` holds
also a sequence that is not indented. The fuel bounds the number of tokens. -/
def node : Nat → Bool → Bool → Compose NodeId
  | 0, _, _ => malformed
  | fuel + 1, block, indentless => do
    match ← peek with
    | some (.aliasOf name) => next; aliased name
    | _ =>
      let (anchor, name) ← properties
      content fuel block indentless anchor name

/-- Reads what follows the anchor and the tag of a node. -/
def content : Nat → Bool → Bool → Option String → Option String → Compose NodeId
  | 0, _, _, _, _ => malformed
  | fuel + 1, block, indentless, anchor, name => do
    let blank : Compose NodeId :=
      if anchor.isSome || name.isSome then scalar anchor (Node.scalarTag name true "") ""
      else malformed
    match ← peek with
    | some (.scalar text plain) =>
      next
      scalar anchor (Node.scalarTag name plain text) text
    | some .flowSequenceStart =>
      next
      sequence anchor name (flowItems fuel true)
    | some .flowMappingStart =>
      next
      mapping anchor name (flowEntries fuel true)
    | some .blockEntry =>
      if indentless then sequence anchor name (indentlessItems fuel) else blank
    | some .blockSequenceStart =>
      if block then
        next
        sequence anchor name (blockItems fuel)
      else blank
    | some .blockMappingStart =>
      if block then
        next
        mapping anchor name (blockEntries fuel)
      else blank
    | _ => blank

/-- Reads the items of a sequence in block style and its end. -/
def blockItems : Nat → Compose (List NodeId)
  | 0 => malformed
  | fuel + 1 => do
    if ← isAt [.blockEntry] then
      next
      let item ← unlessAt [.blockEntry, .blockEnd] (node fuel true false)
      let items ← blockItems fuel
      return item :: items
    else
      expect .blockEnd
      return []

/-- Reads the items of a sequence that is not indented. -/
def indentlessItems : Nat → Compose (List NodeId)
  | 0 => malformed
  | fuel + 1 => do
    if ← isAt [.blockEntry] then
      next
      let item ← unlessAt [.blockEntry, .key, .value, .blockEnd] (node fuel true false)
      let items ← indentlessItems fuel
      return item :: items
    else return []

/-- Reads the entries of a mapping in block style and its end. -/
def blockEntries : Nat → Compose (List (NodeId × NodeId))
  | 0 => malformed
  | fuel + 1 => do
    if ← isAt [.key] then
      let key ← after .key [.key, .value, .blockEnd] (node fuel true true)
      let value ← after .value [.key, .value, .blockEnd] (node fuel true true)
      let entries ← blockEntries fuel
      return (key, value) :: entries
    else
      expect .blockEnd
      return []

/-- Reads the items of a sequence in flow style and its end. An item can be a mapping of one entry
without its braces. -/
def flowItems : Nat → Bool → Compose (List NodeId)
  | 0, _ => malformed
  | fuel + 1, first => do
    if ← isAt [.flowSequenceEnd] then
      next
      return []
    if !first then expect .flowEntry
    if ← isAt [.flowSequenceEnd] then
      next
      return []
    let item ←
      if ← isAt [.key] then mapping none none (pairEntries fuel) else node fuel false false
    let items ← flowItems fuel false
    return item :: items

/-- Reads the entry of a mapping without braces. -/
def pairEntries : Nat → Compose (List (NodeId × NodeId))
  | 0 => malformed
  | fuel + 1 => do
    let key ← after .key [.value, .flowEntry, .flowSequenceEnd] (node fuel false false)
    let value ← after .value [.flowEntry, .flowSequenceEnd] (node fuel false false)
    return [(key, value)]

/-- Reads the entries of a mapping in flow style and its end. A key can stand alone. -/
def flowEntries : Nat → Bool → Compose (List (NodeId × NodeId))
  | 0, _ => malformed
  | fuel + 1, first => do
    if ← isAt [.flowMappingEnd] then
      next
      return []
    if !first then expect .flowEntry
    if ← isAt [.flowMappingEnd] then
      next
      return []
    let entryHere ←
      if ← isAt [.key] then do
        let key ← after .key [.value, .flowEntry, .flowMappingEnd] (node fuel false false)
        let value ← after .value [.flowEntry, .flowMappingEnd] (node fuel false false)
        pure (key, value)
      else do
        let key ← node fuel false false
        let value ← add .empty
        pure (key, value)
    let entries ← flowEntries fuel false
    return entryHere :: entries

end

/-! ## Documents -/

def usualHandles : List (String × String) := [("!", "!"), ("!!", Tag.standardStart)]

/-- Reads the directives before a document; a version may be given once, and so may every handle. -/
def directives : Nat → Bool → Compose Unit
  | 0, _ => return ()
  | fuel + 1, versioned => do
    match ← peek with
    | some (.directive (.version major _)) =>
      next
      if versioned || major != 1 then malformed
      directives fuel true
    | some (.directive (.tag handle start)) =>
      next
      if (← get).handles.any fun entry => entry.1 == handle then malformed
      modify fun state => { state with handles := (handle, start) :: state.handles }
      directives fuel versioned
    | some (.directive .other) =>
      next
      directives fuel versioned
    | _ => modify fun state => { state with handles := state.handles ++ usualHandles }

/-- The next token begins or ends a document, or the text is at its end. -/
def isAtDocumentEdge : Compose Bool := do
  match ← peek with
  | none => return true
  | some token => return token.startsDocument || token == .documentEnd

/-- Reads to the end of the text, in which no other document may begin. -/
def finish (fuel : Nat) : Compose Unit := do
  modify fun state => { state with
    tokens := state.tokens.dropWhile (· == Token.documentEnd), handles := [] }
  match ← peek with
  | none => return ()
  | some _ =>
    directives fuel false
    discard peek
    malformed

/-- Reads the document of a text, if it has one, up to the end of the text. -/
def document? : Compose (Option NodeId) := do
  let fuel := 3 * (← get).tokens.length + 3
  match ← peek with
  | none => return none
  | some first =>
    let root ←
      if first.startsDocument then do
        directives fuel false
        expect .documentStart
        if ← isAtDocumentEdge then add .empty else node fuel true false
      else do
        modify fun state => { state with handles := usualHandles }
        node fuel true false
    finish fuel
    return some root

end Compose

/-- The only document of a text that is given by its tokens, if there is a document. -/
def Document.ofTokens? (tokens : List Token) (fault : Option Fault) :
    Except Fault (Option Document) := do
  let (root, state) ← Compose.document?.run { tokens := tokens, fault := fault }
  return root.map fun root => { nodes := state.nodes, root := root }

end SchemaDocs.Yaml
