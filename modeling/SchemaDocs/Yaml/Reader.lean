import SchemaDocs.Yaml.Content
import SchemaDocs.Yaml.Document

/-!
# YAML texts

The reader of YAML texts that hold one document, or none, which is null.
-/

namespace SchemaDocs.Yaml

/-- The characters of YAML texts: those that can be printed, tabulators and line ends. -/
def isTextChar (c : Char) : Bool :=
  let n := c.toNat
  n == 0x09 || n == 0x0a || n == 0x0d || (0x20 ≤ n && n ≤ 0x7e) || n == 0x85 ||
  (0xa0 ≤ n && n ≤ 0xd7ff) || (0xe000 ≤ n && n ≤ 0xfffd) || 0x10000 ≤ n

/-- The value that a YAML text stands for. Nothing is told about a document that is well formed but
asks for a surrogate. -/
def read (text : String) : Except Fault Value := do
  let cs := text.toList
  if !cs.all isTextChar then throw .malformed
  let found := Token.ofChars cs
  let document ← Document.ofTokens? found.tokens found.fault
  if found.surrogate then throw .loneSurrogate
  match document with
  | none => return .null
  | some document => document.value

end SchemaDocs.Yaml
