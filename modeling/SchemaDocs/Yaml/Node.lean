import SchemaDocs.Yaml.Tag

/-!
# Nodes of YAML documents

The nodes that a text describes, each with its tag. Nodes are known by their numbers, so a node can
stand in several places, and a collection can stand in itself.
-/

namespace SchemaDocs.Yaml

abbrev NodeId := Nat

/-- A node of a document; the parts of a collection are given by their numbers. -/
inductive Node where
  | scalar (tag : Tag) (text : String)
  | sequence (tag : Tag) (items : List NodeId)
  | mapping (tag : Tag) (entries : List (NodeId × NodeId))

namespace Node

/-- What stands where nothing is written. -/
def empty : Node := .scalar (.ofPlain "") ""

instance : Inhabited Node := ⟨empty⟩

def tag : Node → Tag
  | .scalar tag _ | .sequence tag _ | .mapping tag _ => tag

def withTag (tag : Tag) : Node → Node
  | .scalar _ text => .scalar tag text
  | .sequence _ items => .sequence tag items
  | .mapping _ entries => .mapping tag entries

def entries? : Node → Option (List (NodeId × NodeId))
  | .mapping _ entries => some entries
  | _ => none

def withEntries (entries : List (NodeId × NodeId)) : Node → Node
  | .mapping tag _ => .mapping tag entries
  | node => node

/-- The tag of a scalar under the name given for it. The name `!` stands for the look of the text, as
no name does for a text without quotation marks. -/
def scalarTag (name : Option String) (plain : Bool) (text : String) : Tag :=
  match name with
  | none => if plain then .ofPlain text else .str
  | some name => if name = "!" then .ofPlain text else .ofName name

/-- The tag of a collection under the name given for it. -/
def collectionTag (usual : Tag) : Option String → Tag
  | none => usual
  | some name => if name = "!" then usual else .ofName name

end Node

/-- A document: its nodes, and the number of the one at its root. -/
structure Document where
  nodes : Array Node
  root : NodeId

end SchemaDocs.Yaml
