import SchemaDocs.Yaml.Merge
import SchemaDocs.Yaml.Scalar

/-!
# Products of YAML nodes

What the nodes of a document are made into. A scalar is a value at once. A collection is made first
and filled later: all collections wait in a row, and to fill one means to make its parts, so of two
faults the one counts that lies in the collection that was made first. A node is made once, however
often it is referred to.
-/

namespace SchemaDocs.Yaml

/-- What a collection is filled with, by the numbers of nodes. -/
inductive Filling where
  | list (items : List NodeId)
  | map (entries : List (NodeId × NodeId))
  | set (members : List NodeId)
  | pairs (entries : List (NodeId × NodeId))

/-- What a node has been made into. -/
inductive Product where
  /-- A value that is not made of others. Everything written `.nan` is one and the same. -/
  | single (value : Value) (nanWord : Bool)
  /-- A collection that waits to be filled. -/
  | waiting
  | filled (filling : Filling)

/-- The node of this tag is a collection, which is filled after it has been made. -/
def Tag.isCollection : Tag → Bool
  | .seq | .map | .set | .omap | .pairs => true
  | _ => false

/-- The state of the making. -/
structure Workshop where
  nodes : Array Node
  /-- What the nodes have been made into so far, by their numbers. -/
  products : Array (Option Product)
  /-- The collections in the order in which they have been made. -/
  row : Array NodeId := #[]

abbrev Making := StateT Workshop (Except Fault)

namespace Making

def node (id : NodeId) : Making Node := return (← get).nodes.getD id default

/-- What a node has been made into, if it has been. -/
def product? (id : NodeId) : Making (Option Product) := return (← get).products.getD id none

/-- Keeps what a node has been made into. -/
def put (id : NodeId) (product : Product) : Making Unit :=
  modify fun state => { state with products := state.products.setIfInBounds id (some product) }

def onNodes (step : Merging Unit) : Making Unit := do
  let state ← get
  match step.run state.nodes with
  | .ok (_, nodes) => set { state with nodes := nodes }
  | .error fault => throw fault

/-! ## Single values -/

/-- The text of a scalar, or of the scalar that stands for a mapping under its key `=`. -/
def textWithin (nodes : Array Node) : Nat → NodeId → Except Fault String
  | 0, _ => .error .malformed
  | levels + 1, id =>
    match nodes.getD id default with
    | .scalar _ text => .ok text
    | .sequence _ _ => .error .malformed
    | .mapping _ entries =>
      match entries.find? fun e => Merging.tagOf nodes e.1 = .value with
      | some e => textWithin nodes levels e.2
      | none => .error .malformed

/-- Makes a single value of a node with the given tag. A time is read off the node itself, so no
mapping can stand for it. -/
def single (id : NodeId) (tag : Tag) : Making Product := do
  let nodes := (← get).nodes
  let text ← textWithin nodes nodes.size id
  if tag = .timestamp && ((← node id).entries?).isSome then throw .timeInMapping
  let value ← Scalar.value tag text
  return .single value (tag = .float && Scalar.isNanWord text)

/-- Makes what a node stands for, unless it has been made. -/
def make (id : NodeId) : Making Product := do
  match ← product? id with
  | some product => return product
  | none =>
    let tag := (← node id).tag
    if tag.isCollection then
      put id .waiting
      modify fun state => { state with row := state.row.push id }
      return .waiting
    else
      let product ← single id tag
      put id product
      return product

/-! ## Collections -/

/-- Two nodes have been made into the same key. What is no number is the same as itself only. -/
def sameKey (products : Array (Option Product)) (a b : NodeId) : Bool :=
  a == b || match products.getD a none, products.getD b none with
    | some (.single v nanV), some (.single w nanW) => (nanV && nanW) || Value.sameKey v w
    | _, _ => false

/-- The entries with `value` under `key`: at the place of the key if it is there, at the end
otherwise. -/
def putEntry (products : Array (Option Product)) (key value : NodeId) :
    List (NodeId × NodeId) → List (NodeId × NodeId)
  | [] => [(key, value)]
  | (k, v) :: rest =>
    if sameKey products k key then (k, value) :: rest
    else (k, v) :: putEntry products key value rest

def items (id : NodeId) : Making (List NodeId) := do
  match ← node id with
  | .sequence _ items =>
    items.forM fun item => discard (make item)
    return items
  | _ => throw .malformed

/-- Makes the keys and the values of a mapping, after other mappings have been merged into it. No
collection can be a key. -/
def entries (id : NodeId) (fuel : Nat) : Making (List (NodeId × NodeId)) := do
  onNodes (Merging.mergeInto fuel id [])
  match ← node id with
  | .mapping _ entries =>
    entries.forM fun (key, value) => do
      match ← make key with
      | .single _ _ => discard (make value)
      | _ => throw .malformed
    let products := (← get).products
    return entries.foldl (fun written e => putEntry products e.1 e.2 written) []
  | _ => throw .malformed

/-- Makes the keys and the values of a sequence of mappings, each with one entry. -/
def pairs (id : NodeId) : Making (List (NodeId × NodeId)) := do
  match ← node id with
  | .sequence _ items =>
    items.mapM fun item => do
      match ← node item with
      | .mapping _ [(key, value)] =>
        discard (make key)
        discard (make value)
        return (key, value)
      | _ => throw .malformed
  | _ => throw .malformed

def fill (id : NodeId) (fuel : Nat) : Making Unit := do
  let filling : Filling ← match (← node id).tag with
    | .seq => .list <$> items id
    | .map => .map <$> entries id fuel
    | .set => do
      let members ← entries id fuel
      pure (.set (members.map (·.1)))
    | _ => .pairs <$> pairs id
  put id (.filled filling)

/-- Fills the collections of the row from a place on. At most `rounds` are left. -/
def fillFrom (fuel : Nat) : Nat → Nat → Making Unit
  | 0, _ => return ()
  | rounds + 1, index => do
    match (← get).row[index]? with
    | none => return ()
    | some id =>
      fill id fuel
      fillFrom fuel rounds (index + 1)

/-- Makes what the node at the root stands for, and everything in it. -/
def all (root : NodeId) : Making Unit := do
  discard (make root)
  let nodes := (← get).nodes
  fillFrom (countEntries nodes + 1) nodes.size 0

end Making

/-- What the nodes of a document have been made into, and the collections among them in the order in
which they have been made. -/
def Document.products (document : Document) : Except Fault (Array (Option Product) × List NodeId) := do
  let start : Workshop := {
    nodes := document.nodes
    products := Array.replicate document.nodes.size none }
  let (_, done) ← (Making.all document.root).run start
  return (done.products, done.row.toList)

end SchemaDocs.Yaml
