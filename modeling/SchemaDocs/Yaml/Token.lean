import SchemaDocs.Yaml.Text.Block
import SchemaDocs.Yaml.Text.Flow
import SchemaDocs.Yaml.Text.Tag

/-!
# Tokens of YAML texts

The division of a YAML text into tokens. Indentation becomes explicit: a collection in block style
is enclosed in tokens of its own. A key without a mark is only known to be one when the colon after
it is found; until then its place is kept, and the tokens that it calls for are put in there.
-/

namespace SchemaDocs.Yaml

inductive Token where
  | directive (directive : Scan.Directive)
  | documentStart
  | documentEnd
  | blockSequenceStart
  | blockMappingStart
  | blockEnd
  | flowSequenceStart
  | flowSequenceEnd
  | flowMappingStart
  | flowMappingEnd
  | blockEntry
  | flowEntry
  | key
  | value
  | aliasOf (name : String)
  | anchor (name : String)
  | tag (handle : Option String) (suffix : String)
  | scalar (text : String) (plain : Bool)
deriving DecidableEq

/-- A place where a key without a mark may have begun. -/
structure KeyPlace where
  /-- The number of tokens before it. -/
  tokens : Nat
  /-- Nothing but a key can stand there. -/
  required : Bool
  index : Nat
  line : Nat
  column : Nat

/-- The state of the division into tokens. -/
structure Lexer where
  cursor : Cursor
  tokens : Array Token := #[]
  /-- The number of tokens, from the first one on, before which no further token can be put in. -/
  settled : Nat := 0
  /-- The number of open collections in flow style. -/
  flowLevel : Nat := 0
  /-- The column of the innermost collection in block style. -/
  indent : Int := -1
  /-- The columns of the collections around it. -/
  outer : List Int := []
  /-- A key without a mark may begin here. -/
  keyAllowed : Bool := true
  /-- The places where keys may have begun, by flow level, the innermost first. -/
  places : List (Nat × KeyPlace) := []

/-- Dividing a text into tokens. What was found before a fault is kept. -/
abbrev Lex := ExceptT Fault (StateM Lexer)

namespace Lex

/-- Reads from the present position on. -/
def scan {α : Type} (read : Scan α) : Lex α := do
  let lexer ← get
  match read lexer.cursor with
  | .ok (a, cursor) =>
    set { lexer with cursor := cursor }
    return a
  | .error fault => throw fault

def emit (token : Token) : Lex Unit :=
  modify fun lexer => { lexer with tokens := lexer.tokens.push token }

/-- Sets whether a key without a mark may begin here. -/
def allowKey (allowed : Bool) : Lex Unit := modify fun lexer => { lexer with keyAllowed := allowed }

/-- The text is inside a collection in flow style. -/
def inFlow : Lex Bool := return (← get).flowLevel != 0

def column : Lex Int := return ((← get).cursor.column : Int)

/-! ## Places of keys -/

/-- Forgets the place on the present flow level. -/
def dropPlace : Lex Unit := do
  let lexer ← get
  if lexer.places.any fun entry => entry.1 == lexer.flowLevel && entry.2.required then
    throw .malformed
  set { lexer with places := lexer.places.filter fun entry => entry.1 != lexer.flowLevel }

/-- Forgets the places where no key can have begun any more: a key ends on its line and is not
longer than 1024 characters. -/
def dropStalePlaces : Lex Unit := do
  let lexer ← get
  let stale (place : KeyPlace) : Bool :=
    place.line != lexer.cursor.line || 1024 < lexer.cursor.index - place.index
  if lexer.places.any fun entry => stale entry.2 && entry.2.required then throw .malformed
  set { lexer with places := lexer.places.filter fun entry => !stale entry.2 }

/-- Settles the tokens up to the first place where a key may have begun. -/
def settle : Lex Unit := do
  dropStalePlaces
  modify fun lexer => { lexer with
    settled := lexer.places.foldl (fun least entry => min least entry.2.tokens) lexer.tokens.size }

/-- Keeps the present place if a key may begin here. -/
def keepPlace : Lex Unit := do
  let lexer ← get
  if lexer.keyAllowed then
    dropPlace
    let place : KeyPlace := {
      tokens := lexer.tokens.size
      required := lexer.flowLevel == 0 && lexer.indent == lexer.cursor.column
      index := lexer.cursor.index
      line := lexer.cursor.line
      column := lexer.cursor.column }
    modify fun lexer => { lexer with places := (lexer.flowLevel, place) :: lexer.places }

/-! ## Indentation -/

/-- Closes collections in block style, from the innermost one of `outer` on, up to a column. -/
def closeBlocks (column : Int) : List Int → Lex Unit
  | [] => return ()
  | indent :: outer => do
    if column < (← get).indent then
      modify fun lexer => { lexer with indent := indent, outer := outer }
      emit .blockEnd
      closeBlocks column outer

/-- Closes the collections in block style that are indented deeper than a column. -/
def unindent (column : Int) : Lex Unit := do
  if !(← inFlow) then closeBlocks column (← get).outer

/-- Opens a collection in block style at a column, unless one is open there; says whether it did. -/
def indentTo (column : Int) : Lex Bool := do
  let lexer ← get
  if lexer.indent < column then
    set { lexer with indent := column, outer := lexer.indent :: lexer.outer }
    return true
  else return false

/-! ## Tokens -/

/-- Passes over spaces, comments and line ends to the next token. -/
def toNextToken : Nat → Lex Unit
  | 0 => return ()
  | fuel + 1 => do
    scan Scan.skipSpaces
    if (← scan Scan.peek) == some '#' then scan Scan.skipLine
    let lineEnd ← scan Scan.lineBreak
    if !lineEnd.isEmpty then
      if !(← inFlow) then allowKey true
      toNextToken fuel

/-- Closes everything before a line that concerns the document as a whole. -/
def closeAll : Lex Unit := do
  unindent (-1)
  dropPlace
  allowKey false

/-- Reads a token of one character. -/
def indicator (token : Token) : Lex Unit := do
  scan (Scan.skip 1)
  emit token

def flowStart (token : Token) : Lex Unit := do
  keepPlace
  modify fun lexer => { lexer with flowLevel := lexer.flowLevel + 1 }
  allowKey true
  indicator token

def flowEnd (token : Token) : Lex Unit := do
  dropPlace
  if !(← inFlow) then throw .malformed
  modify fun lexer => { lexer with flowLevel := lexer.flowLevel - 1 }
  allowKey false
  indicator token

/-- Opens a collection in block style if an entry, a key or a value here begins one. -/
def openBlock (token : Token) : Lex Unit := do
  if !(← inFlow) then
    if !(← get).keyAllowed then throw .malformed
    if ← indentTo (← column) then emit token

/-- Reads the mark of an entry of a sequence. -/
def blockEntry : Lex Unit := do
  openBlock .blockSequenceStart
  allowKey true
  dropPlace
  indicator .blockEntry

def markedKey : Lex Unit := do
  openBlock .blockMappingStart
  allowKey (!(← inFlow))
  dropPlace
  indicator .key

/-- Reads the mark of a value. If a key may have begun on this level, it has. -/
def markedValue : Lex Unit := do
  let lexer ← get
  match lexer.places.find? fun entry => entry.1 == lexer.flowLevel with
  | some (_, place) =>
    modify fun lexer => { lexer with
      places := lexer.places.filter fun entry => entry.1 != lexer.flowLevel
      tokens := lexer.tokens.insertIdxIfInBounds place.tokens .key }
    if !(← inFlow) then
      if ← indentTo place.column then
        modify fun lexer => { lexer with
          tokens := lexer.tokens.insertIdxIfInBounds place.tokens .blockMappingStart }
    allowKey false
  | none =>
    openBlock .blockMappingStart
    allowKey (!(← inFlow))
    dropPlace
  indicator .value

def keyPart (read : Scan Token) : Lex Unit := do
  keepPlace
  allowKey false
  emit (← scan read)

/-- Reads a plain scalar. A key may begin after it if its line has ended. -/
def plain : Lex Unit := do
  keepPlace
  allowKey false
  let lexer ← get
  let (text, ended) ← scan (Scan.plainScalar (← inFlow) lexer.indent)
  if ended then allowKey true
  emit (.scalar text true)

def blockScalar (folded : Bool) : Lex Unit := do
  allowKey true
  dropPlace
  let text ← scan (Scan.blockScalar folded (← get).indent)
  emit (.scalar text false)

/-- A plain scalar can begin with a character that is followed by another one. -/
def startsPlain (flow : Bool) (c : Char) (next : Option Char) : Bool :=
  !(endsToken (some c) || ['-', '?', ':', ',', '[', ']', '\x7b', '\x7d', '#', '&', '*', '!', '|',
      '>', '\'', '"', '%', '@', '\x60'].contains c) ||
    (!endsToken next && (c == '-' || (!flow && (c == '?' || c == ':'))))

def tokenAt (c : Char) : Lex Unit := do
  let cursor := (← get).cursor
  let flow ← inFlow
  let next := cursor.peekAt 1
  let atStart := cursor.column == 0
  if c == '%' && atStart then
    closeAll
    emit (.directive (← scan Scan.directive))
  else if atStart && cursor.isAtMarks '-' then
    closeAll
    scan (Scan.skip 3)
    emit .documentStart
  else if atStart && cursor.isAtMarks '.' then
    closeAll
    scan (Scan.skip 3)
    emit .documentEnd
  else if c == '[' then flowStart .flowSequenceStart
  else if c == '\x7b' then flowStart .flowMappingStart
  else if c == ']' then flowEnd .flowSequenceEnd
  else if c == '\x7d' then flowEnd .flowMappingEnd
  else if c == ',' then
    allowKey true
    dropPlace
    indicator .flowEntry
  else if c == '-' && endsToken next then blockEntry
  else if c == '?' && (flow || endsToken next) then markedKey
  else if c == ':' && (flow || endsToken next) then markedValue
  else if c == '*' then keyPart (Token.aliasOf <$> Scan.anchorName)
  else if c == '&' then keyPart (Token.anchor <$> Scan.anchorName)
  else if c == '!' then keyPart ((fun (handle, suffix) => Token.tag handle suffix) <$> Scan.tag)
  else if c == '|' && !flow then blockScalar false
  else if c == '>' && !flow then blockScalar true
  else if c == '\'' then keyPart ((Token.scalar · false) <$> Scan.quotedScalar false)
  else if c == '"' then keyPart ((Token.scalar · false) <$> Scan.quotedScalar true)
  else if startsPlain flow c next then plain
  else throw .malformed

/-- Reads all tokens. Every token takes at least one character. -/
def all : Nat → Lex Unit
  | 0 => return ()
  | fuel + 1 => do
    toNextToken (← get).cursor.rest.length.succ
    dropStalePlaces
    unindent (← column)
    match ← scan Scan.peek with
    | none =>
      unindent (-1)
      dropPlace
      modify fun lexer => { lexer with settled := lexer.tokens.size }
    | some c =>
      tokenAt c
      settle
      all fuel

end Lex

/-- What is made of the characters of a text. -/
structure Tokens where
  /-- The tokens; those that were settled before the first fault, if there is one. -/
  tokens : List Token
  fault : Option Fault := none
  /-- A scalar asks for a surrogate. -/
  surrogate : Bool := false

/-- The tokens of a text. A byte order mark at the start of the text is passed over. -/
def Token.ofChars (cs : List Char) : Tokens :=
  let cursor : Cursor := { rest := cs }
  let cursor := if cs.head? = some '\ufeff' then cursor.next else cursor
  match (Lex.all (cs.length + 1)).run.run { cursor := cursor } with
  | (.ok (), lexer) => { tokens := lexer.tokens.toList, surrogate := lexer.cursor.surrogate }
  | (.error fault, lexer) => { tokens := lexer.tokens.toList.take lexer.settled, fault := some fault }

end SchemaDocs.Yaml
