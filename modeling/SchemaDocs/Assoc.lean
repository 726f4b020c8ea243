/-!
# Ordered tables

Tables as lists of keys with values, in the order in which the keys were first put in, and the
listing of a table in the order of its keys.
-/

namespace SchemaDocs.Assoc

variable {κ α : Type}

section Table

variable [DecidableEq κ]

def get? (key : κ) : List (κ × α) → Option α
  | [] => none
  | (k, a) :: rest => if k = key then some a else get? key rest

def has (key : κ) (table : List (κ × α)) : Bool := (get? key table).isSome

/-- The table with the value under the key changed by `f`, which is given the present value if there
is one. A new key comes last. -/
def alter (key : κ) (f : Option α → α) : List (κ × α) → List (κ × α)
  | [] => [(key, f none)]
  | (k, a) :: rest => if k = key then (k, f (some a)) :: rest else (k, a) :: alter key f rest

/-- The table with the value under the key: at the place of the key if it is there, else at the
end. -/
def put (key : κ) (value : α) (table : List (κ × α)) : List (κ × α) :=
  alter key (fun _ => value) table

/-- The table that results from putting the entries in one after another. -/
def ofList (entries : List (κ × α)) : List (κ × α) :=
  entries.foldl (fun table entry => put entry.1 entry.2 table) []

end Table

/-- The distinct elements of a list in the order of their first occurrences. -/
def distinct [DecidableEq κ] : List κ → List κ
  | [] => []
  | a :: rest => a :: (distinct rest).filter (· ≠ a)

/-! ## Sorting -/

/-- The element put before the first one whose name is not smaller than its own. -/
def insertByName (name : α → String) (a : α) : List α → List α
  | [] => [a]
  | b :: rest => if name b < name a then b :: insertByName name a rest else a :: b :: rest

/-- The elements in the order of their names; elements of one name keep their order. -/
def sortByName (name : α → String) : List α → List α
  | [] => []
  | a :: rest => insertByName name a (sortByName name rest)

end SchemaDocs.Assoc
