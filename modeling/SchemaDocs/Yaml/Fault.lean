/-!
# Faults of YAML texts

Why a YAML text stands for no value.
-/

namespace SchemaDocs.Yaml

/-- Why a YAML text stands for no value. -/
inductive Fault where
  /-- The text is not well formed, or no value has the form that is asked for. -/
  | malformed
  /-- A scalar has the look of a number, a character or a time that does not exist. -/
  | badScalar (message : String)
  /-- A truth value is asked for, and the scalar is none of the words for one. -/
  | notTruthValue
  /-- A time is asked for, and the scalar has not the form of one. -/
  | notTime
  /-- A time is asked for, and a mapping stands for the scalar. -/
  | timeInMapping
  /-- A number is asked for, and the scalar is empty. -/
  | emptyNumber
  /-- A number in base 60 has a part that is too large, or so is the number of a character. -/
  | tooLarge
  /-- An integer has more digits than are read. -/
  | longNumeral (digits : Nat)
  /-- A scalar asks for a surrogate. Texts are made of characters, so nothing is told about it. -/
  | loneSurrogate
deriving DecidableEq

end SchemaDocs.Yaml
