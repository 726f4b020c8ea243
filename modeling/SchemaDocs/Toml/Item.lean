import SchemaDocs.Assoc
import SchemaDocs.Binary64.Basic
import SchemaDocs.Calendar

/-!
# Items of TOML texts

The values of TOML texts. Tables keep the order in which their keys are written.
-/

namespace SchemaDocs.Toml

/-- A value of a TOML text. -/
inductive Item where
  | string (s : String)
  | boolean (b : Bool)
  | integer (i : Int)
  | float (x : Binary64)
  | date (day : Date)
  | timestamp (time : Timestamp)
  /-- A time of day on no particular day. -/
  | clock (hour minute second microsecond : Nat)
  | array (items : List Item)
  | table (entries : List (String × Item))

namespace Item

instance : Inhabited Item := ⟨.table []⟩

/-- The item is an array or a table. -/
def isCollection : Item → Bool
  | .array _ | .table _ => true
  | _ => false

end Item

abbrev Table := List (String × Item)

namespace Table

/-- The table with the table at the end of a path changed by `f`. Tables on the way that are missing
are made, and if `throughArrays` holds the way leads through the last items of arrays. There is
no such table behind any other item. -/
def updateAt? (throughArrays : Bool) (f : Table → Option Table) :
    List String → Table → Option Table
  | [], table => f table
  | key :: path, table =>
    match Assoc.get? key table with
    | none => do
      let inner ← updateAt? throughArrays f path []
      return Assoc.put key (.table inner) table
    | some (.table inner) => do
      let inner ← updateAt? throughArrays f path inner
      return Assoc.put key (.table inner) table
    | some (.array items) =>
      match throughArrays, items.getLast? with
      | true, some (.table inner) => do
        let inner ← updateAt? throughArrays f path inner
        return Assoc.put key (.array (items.dropLast ++ [.table inner])) table
      | _, _ => none
    | some _ => none

def add? (key : String) (item : Item) (table : Table) : Option Table :=
  if Assoc.has key table then none else some (Assoc.put key item table)

def addToArray? (key : String) (table : Table) : Option Table :=
  match Assoc.get? key table with
  | none => some (Assoc.put key (.array [.table []]) table)
  | some (.array items) => some (Assoc.put key (.array (items ++ [.table []])) table)
  | some _ => none

end Table

end SchemaDocs.Toml
