/-!
# Texts

Trimming, splitting, joining and comparing of texts. Every function works on the list of
characters of a text, so that its laws are inductions on lists; a `String` is converted on the way
in and out.
-/

namespace SchemaDocs.Text

/-! ## Trimming -/

/-- The characters without those that satisfy `p` at either end. -/
def trimList (p : Char → Bool) (cs : List Char) : List Char :=
  ((cs.dropWhile p).reverse.dropWhile p).reverse

/-- The text without the characters that satisfy `p` at either end. -/
def trim (p : Char → Bool) (s : String) : String :=
  String.ofList (trimList p s.toList)

def trimLineFeeds (s : String) : String := trim (· == '\n') s

/-! ## Splitting and joining -/

/-- The pieces of a list between the elements equal to `sep`; always at least one piece. -/
def splitList (sep : Char) : List Char → List (List Char)
  | [] => [[]]
  | c :: rest =>
    if c = sep then [] :: splitList sep rest
    else match splitList sep rest with
      | [] => [[c]]
      | piece :: pieces => (c :: piece) :: pieces

/-- The pieces of a text between the occurrences of `sep`; always at least one piece. -/
def split (sep : Char) (s : String) : List String :=
  (splitList sep s.toList).map String.ofList

/-- The lists one after another, with `sep` between two neighbours. -/
def joinList {α : Type} (sep : List α) : List (List α) → List α
  | [] => []
  | [piece] => piece
  | piece :: next :: pieces => piece ++ sep ++ joinList sep (next :: pieces)

/-- The texts one after another, with `sep` between two neighbours. -/
def join (sep : String) : List String → String
  | [] => ""
  | [piece] => piece
  | piece :: next :: pieces => piece ++ sep ++ join sep (next :: pieces)

/-- What stands before and after the last `sep` of a list; nothing stands before it if there is
none. -/
def splitLastList (sep : Char) (cs : List Char) : List Char × List Char :=
  (((cs.reverse.dropWhile (· != sep)).drop 1).reverse, (cs.reverse.takeWhile (· != sep)).reverse)

/-- What stands before and after the last `sep` of a text; nothing stands before it if there is
none. -/
def splitLast (sep : Char) (s : String) : String × String :=
  let (before, after) := splitLastList sep s.toList
  (String.ofList before, String.ofList after)

/-- What follows `start` in a list that begins with it. -/
def afterList? : List Char → List Char → Option (List Char)
  | [], cs => some cs
  | _ :: _, [] => none
  | p :: ps, c :: cs => if p = c then afterList? ps cs else none

/-- What follows `start` in a text that begins with it. -/
def after? (start s : String) : Option String :=
  (afterList? start.toList s.toList).map String.ofList

/-! ## Line ends -/

/-- Every carriage return and line feed pair becomes one line feed. -/
def unifyLineEndsList : List Char → List Char
  | [] => []
  | '\r' :: '\n' :: rest => '\n' :: unifyLineEndsList rest
  | c :: rest => c :: unifyLineEndsList rest

/-- Every carriage return and line feed pair becomes one line feed. -/
def unifyLineEnds (s : String) : String := String.ofList (unifyLineEndsList s.toList)

/-- Every line feed becomes a carriage return and line feed pair. -/
def pairLineEndsList (cs : List Char) : List Char :=
  cs.flatMap fun c => if c = '\n' then ['\r', '\n'] else [c]

/-- Every line feed becomes a carriage return and line feed pair. -/
def pairLineEnds (s : String) : String := String.ofList (pairLineEndsList s.toList)

/-- Every line end, be it a pair, a lone carriage return or a line feed, becomes a line feed. -/
def readLineEndsList : List Char → List Char
  | [] => []
  | '\r' :: '\n' :: rest => '\n' :: readLineEndsList rest
  | '\r' :: rest => '\n' :: readLineEndsList rest
  | c :: rest => c :: readLineEndsList rest

end SchemaDocs.Text
