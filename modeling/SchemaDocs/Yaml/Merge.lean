import SchemaDocs.Yaml.Fault
import SchemaDocs.Yaml.Node

/-!
# Merged mappings

A mapping can ask for other mappings to be merged into it, by the key `<<`. The entries of the others
come before its own ones, and are themselves entries of mappings that have been merged. A merged
mapping keeps its new entries wherever else it stands, and its keys `=` are texts from then on.
-/

namespace SchemaDocs.Yaml

abbrev Merging := StateT (Array Node) (Except Fault)

namespace Merging

def node (id : NodeId) : Merging Node := return (← get).getD id default

def change (id : NodeId) (f : Node → Node) : Merging Unit := modify fun nodes => nodes.modify id f

def tagOf (nodes : Array Node) (id : NodeId) : Tag := (nodes.getD id default).tag

def entries (id : NodeId) : Merging (List (NodeId × NodeId)) := do
  match (← node id).entries? with
  | some entries => return entries
  | none => throw .malformed

/-- Takes the first entry with the key `<<` out of a mapping; gives its value. -/
def takeMerge? (id : NodeId) : Merging (Option NodeId) := do
  let own ← entries id
  let nodes ← get
  let isMerge (e : NodeId × NodeId) : Bool := tagOf nodes e.1 = .merge
  match own.find? isMerge with
  | none => return none
  | some taken =>
    change id (Node.withEntries (own.eraseP isMerge))
    return some taken.2

/-- Makes the keys `=` of a mapping texts, and puts the entries of others before its own ones. -/
def finish (id : NodeId) (merged : List (NodeId × NodeId)) : Merging Unit := do
  let own ← entries id
  let nodes ← get
  own.forM fun e =>
    if tagOf nodes e.1 = .value then change e.1 (Node.withTag .str) else return ()
  if !merged.isEmpty then change id (Node.withEntries (merged ++ own))

/-- Merges into a mapping what it asks for; `merged` holds the entries found so far. Of the mappings
of a sequence the last one comes first. The fuel bounds the number of keys `<<`, of which every
further round and every further level takes one away. -/
def mergeInto : Nat → NodeId → List (NodeId × NodeId) → Merging Unit
  | 0, _, _ => throw .malformed
  | fuel + 1, id, merged => do
    match ← takeMerge? id with
    | none => finish id merged
    | some value =>
      match ← node value with
      | .scalar _ _ => throw .malformed
      | .mapping _ _ =>
        mergeInto fuel value []
        let found ← entries value
        mergeInto fuel id (merged ++ found)
      | .sequence _ items =>
        let parts ← items.mapM fun item => do
          discard (entries item)
          mergeInto fuel item []
          entries item
        mergeInto fuel id (merged ++ parts.reverse.flatten)

end Merging

def countEntries (nodes : Array Node) : Nat :=
  nodes.foldl (fun count node => count + (node.entries?.getD []).length) 0

end SchemaDocs.Yaml
