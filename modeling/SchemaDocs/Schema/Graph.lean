import SchemaDocs.Assoc
import SchemaDocs.Schema.Check

/-!
# Graphs of schemas

Schemas given as a graph, in which nodes can be shared and can refer back to nodes above them. The
check visits every shared node once.
-/

namespace SchemaDocs

/-- A node of a graph: a shared one by its name, or one of its own. -/
inductive GraphNode where
  | shared (name : String)
  | own (facts : Facts) (properties : List (String × GraphNode))
      (items additional keyType : Option GraphNode) (members : List GraphNode)

/-- A node together with the shared nodes. -/
structure SchemaGraph where
  root : GraphNode
  shared : List (String × GraphNode) := []

namespace GraphNode

/-! ## The check -/

/-- Visiting a node at a location, with the names of the shared nodes that have been visited. -/
abbrev Visit := String → List String → Except Problem (List String)

mutual

/-- Checks a node that is not known to have been visited; `visit` checks the shared nodes. -/
def check (visit : String → Visit) (location : String) (seen : List String) :
    GraphNode → Except Problem (List String)
  | .shared name => visit name location seen
  | .own facts properties items additional _ members =>
    match Schema.undeclared? facts.required (properties.map (·.1)) with
    | some name => .error (.undeclared name location)
    | none =>
      if facts.modelType.isSome && !location.isEmpty then .ok seen
      else do
        let seen ← checkProperties visit location seen properties
        let seen ← checkElement visit (Location.element location "items") seen items
        let seen ← checkElement visit (Location.element location "additionalProperties") seen
          additional
        checkMembers visit location 0 seen members
termination_by structural node => node

def checkProperties (visit : String → Visit) (location : String) (seen : List String) :
    List (String × GraphNode) → Except Problem (List String)
  | [] => .ok seen
  | (name, node) :: rest => do
    let seen ← check visit (Location.property location name) seen node
    checkProperties visit location seen rest
termination_by structural properties => properties

def checkElement (visit : String → Visit) (location : String) (seen : List String) :
    Option GraphNode → Except Problem (List String)
  | none => .ok seen
  | some node => check visit location seen node
termination_by structural element => element

/-- Checks the members of the union at a location, counted from `index`. -/
def checkMembers (visit : String → Visit) (location : String) (index : Nat) (seen : List String) :
    List GraphNode → Except Problem (List String)
  | [] => .ok seen
  | node :: rest => do
    let seen ← check visit (Location.member location index) seen node
    checkMembers visit location (index + 1) seen rest
termination_by structural members => members

end

/-- Checks a shared node unless it has been visited. Every level marks one more shared node, so no
more levels than there are shared nodes are needed. -/
def checkShared (shared : List (String × GraphNode)) : Nat → String → Visit
  | 0, _ => fun _ seen => .ok seen
  | levels + 1, name => fun location seen =>
    if seen.contains name then .ok seen
    else match Assoc.get? name shared with
      | none => .ok seen
      | some node => check (checkShared shared levels) location (name :: seen) node

end GraphNode

namespace SchemaGraph

/-- The root with the name of a shared node replaced by the node, so that its facts are at hand. -/
def rootFacts (g : SchemaGraph) : Facts :=
  match g.root with
  | .own facts _ _ _ _ _ => facts
  | .shared name => match Assoc.get? name g.shared with
    | some (.own facts _ _ _ _ _) => facts
    | _ => {}

/-- The first problem of the nodes that are reached from the root. -/
def problem? (g : SchemaGraph) : Option Problem :=
  match g.root.check (GraphNode.checkShared g.shared g.shared.length) "" [] with
  | .error problem => some problem
  | .ok _ => none

/-- The first problem of a graph whose root is a declared schema. -/
def problemOfDeclared? (g : SchemaGraph) : Option Problem :=
  if g.rootFacts.modelType.isNone then some .unnamed else g.problem?

end SchemaGraph

end SchemaDocs
