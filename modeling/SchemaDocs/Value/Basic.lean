import SchemaDocs.Binary64.Basic
import SchemaDocs.Calendar

/-!
# Values

The dynamic values that a schema dump is made of. Mappings keep the order in which their keys first
appear; a key that appears again replaces the value at its first place. A collection can lie in
itself. Such a collection is unrolled to some depth, and wherever it comes up again it bears the same
mark.
-/

namespace SchemaDocs

/-- A dynamic value. -/
inductive Value where
  | null
  | bool (b : Bool)
  | int (i : Int)
  | float (x : Binary64)
  | str (s : String)
  | list (items : List Value)
  | map (entries : List (Value × Value))
  | date (day : Date)
  | timestamp (time : Timestamp)
  | bytes (data : List UInt8)
  | set (members : List Value)
  | pair (first second : Value)
  /-- A list, a mapping or a pair that can lie in itself, with its mark. -/
  | knot (mark : Nat × Nat) (inner : Value)

namespace Value

instance : Inhabited Value := ⟨.null⟩

/-- A value without the mark of a collection that can lie in itself. -/
def unmarked : Value → Value
  | .knot _ inner => inner
  | v => v

/-! ## Truth -/

/-- The value counts as true: it is neither null nor false, zero or empty. -/
def isTruthy : Value → Bool
  | .null => false
  | .bool b => b
  | .int i => i != 0
  | .float x => !x.isZero
  | .str s => !s.isEmpty
  | .list items => !items.isEmpty
  | .map entries => !entries.isEmpty
  | .bytes data => !data.isEmpty
  | .set members => !members.isEmpty
  | .date _ | .timestamp _ | .pair _ _ => true
  | .knot _ inner => inner.isTruthy

/-! ## Keys -/

/-- The integer that a value equals as a key, if it is an integer or a truth value. -/
def keyInt? : Value → Option Int
  | .int i => some i
  | .bool b => some (if b then 1 else 0)
  | _ => none

/-- Two values are the same key. Numbers are compared by value, whatever their kind; a not-a-number is
the same key as nothing. -/
def sameKey : Value → Value → Bool
  | .null, .null => true
  | .str a, .str b => a == b
  | .date a, .date b => a == b
  | .timestamp a, .timestamp b => a.sameInstant b
  | .bytes a, .bytes b => a == b
  | .float x, .float y => x.sameNumber y
  | .float x, b => match b.keyInt? with
    | some j => x.isInt j
    | none => false
  | a, .float y => match a.keyInt? with
    | some i => y.isInt i
    | none => false
  | a, b => match a.keyInt?, b.keyInt? with
    | some i, some j => i == j
    | _, _ => false

/-! ## Mappings -/

/-- The entries with `value` under `key`: at the place of the key if it is there, at the end
otherwise. -/
def putEntry (key value : Value) : List (Value × Value) → List (Value × Value)
  | [] => [(key, value)]
  | (k, v) :: rest => if sameKey k key then (k, value) :: rest else (k, v) :: putEntry key value rest

/-- The mapping that results from writing the entries one after another. -/
def ofEntries (entries : List (Value × Value)) : List (Value × Value) :=
  entries.foldl (fun written entry => putEntry entry.1 entry.2 written) []

/-- The value under a text key. -/
def lookup (name : String) : List (Value × Value) → Option Value
  | [] => none
  | (.str k, v) :: rest => if k = name then some v else lookup name rest
  | (_, _) :: rest => lookup name rest

def isStr : Value → Bool
  | .str _ => true
  | _ => false

end Value

end SchemaDocs
