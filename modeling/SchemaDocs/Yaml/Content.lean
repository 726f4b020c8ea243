import SchemaDocs.Value.Members
import SchemaDocs.Yaml.Product

/-!
# Contents of YAML documents

The value that a document stands for. A collection has a value as soon as its parts have; the last
collections of the row mostly come first. Collections that lie in themselves, and those around them,
never get to it: they are unrolled to a depth that no reader of the value exhausts.
-/

namespace SchemaDocs.Yaml

/-- The values of nodes, as far as they are known. -/
abbrev Values := Array (Option Value)

namespace Filling

def valueOfPair (values : Values) (e : NodeId × NodeId) : Option (Value × Value) := do
  let first ← values.getD e.1 none
  let second ← values.getD e.2 none
  return (first, second)

/-- Pairs with marks that tell them from each other: the node of their list, and their positions in
it from one on. -/
def knottedPairs (id : NodeId) : Nat → List (Value × Value) → List Value
  | _, [] => []
  | index, (first, second) :: rest =>
    .knot (id, index) (.pair first second) :: knottedPairs id (index + 1) rest

/-- The value of a collection, if the values of its parts are known. -/
def value? (values : Values) : Filling → Option Value
  | .list items => (items.mapM fun item => values.getD item none).map .list
  | .map entries => (entries.mapM (valueOfPair values)).map .map
  | .set members => (members.mapM fun member => values.getD member none).map Value.setOf
  | .pairs entries => (entries.mapM (valueOfPair values)).map fun entries =>
    .list (entries.map fun (first, second) => .pair first second)

/-- The value of a collection that can lie in itself. -/
def knotted? (values : Values) (id : NodeId) (filling : Filling) : Option Value :=
  match filling with
  | .pairs entries => (entries.mapM (valueOfPair values)).map fun entries =>
    .knot (id, 0) (.list (knottedPairs id 1 entries))
  | filling => (filling.value? values).map (.knot (id, 0))

end Filling

def fillingOf (products : Array (Option Product)) (id : NodeId) : Filling :=
  match products.getD id none with
  | some (.filled filling) => filling
  | _ => .list []

def singleValues (products : Array (Option Product)) : Values :=
  products.map fun product => match product with
    | some (.single value _) => some value
    | _ => none

/-- Finds the values of collections one after another; gives those that have none yet, in their
order. -/
def settleOnce (products : Array (Option Product)) (values : Values) (ids : List NodeId) :
    Values × List NodeId :=
  let (values, left) := ids.foldl (fun (values, left) id =>
    match (fillingOf products id).value? values with
    | some value => (values.setIfInBounds id (some value), left)
    | none => (values, id :: left)) (values, [])
  (values, left.reverse)

/-- Finds the values of collections as long as new ones are found. -/
def settle (products : Array (Option Product)) : Nat → Values → List NodeId → Values × List NodeId
  | 0, values, ids => (values, ids)
  | rounds + 1, values, ids =>
    let (found, left) := settleOnce products values ids
    if left.length < ids.length then settle products rounds found left else (values, ids)

/-- The values of collections that can lie in themselves, one level deeper than before. -/
def deepen (products : Array (Option Product)) (ids : List NodeId) (values : Values) : Values :=
  ids.foldl (fun deeper id =>
    deeper.setIfInBounds id ((fillingOf products id).knotted? values id)) values

/-- The values of collections that can lie in themselves to a number of levels. -/
def unroll (products : Array (Option Product)) (ids : List NodeId) : Nat → Values → Values
  | 0, values => values
  | levels + 1, values => unroll products ids levels (deepen products ids values)

/-- The number of ways in which a reader of a dump can look at one collection, with room to spare:
as a node, as its attributes, as a list of decorators and so on. To see a collection twice in one way
on the way down is to go down forever. -/
def readerRoles : Nat := 24

def Document.value (document : Document) : Except Fault Value := do
  let (products, row) ← document.products
  let (values, knotted) := settle products (row.length + 1) (singleValues products) row.reverse
  let values :=
    if knotted.isEmpty then values
    else
      let start := knotted.foldl (fun values id => values.setIfInBounds id (some .null)) values
      unroll products knotted (readerRoles * (knotted.length + 1)) start
  return (values.getD document.root none).getD .null

end SchemaDocs.Yaml
