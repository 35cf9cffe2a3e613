import MiningClient.Text.Layout
import MiningClient.Toml.Quoted
import MiningClient.Toml.Scalar

namespace MiningClient.Toml

/-- Names with points between them; the last one is set apart. -/
structure Key where
  path : List String
  name : String
  deriving DecidableEq, Repr

inductive Term
  | scalar (s : Scalar)
  | array (items : List Term)
  | table (pairs : List (Key × Term))

inductive Statement
  | pair (key : Key) (value : Term)
  | table (key : Key)
  /-- The header of a table that is the next of several. -/
  | item (key : Key)

/-- Arrays and inline tables may be nested this deep, and so many names may make a key. -/
def maxDepth : Nat := 79

def skipSpaces (cs : List Char) : List Char := cs.dropWhile isSpace

def skipLines (inComment : Bool) : List Char → List Char
  | [] => []
  | c :: cs =>
    if c == '\n' then skipLines false cs
    else if c == '\r' then
      match cs with
      | '\n' :: cs => skipLines false cs
      | _ => c :: cs
    else if inComment then if isPlain c then skipLines true cs else c :: cs
    else if isSpace c then skipLines false cs
    else if c == '#' then skipLines true cs
    else c :: cs

/-- The rest of a line: blanks, a comment perhaps, and the end of the line or of the document. -/
def endLine (cs : List Char) : Option (List Char) :=
  let cs := skipSpaces cs
  match if cs.head? = some '#' then cs.dropWhile isPlain else cs with
  | [] => some []
  | '\n' :: cs => some cs
  | '\r' :: '\n' :: cs => some cs
  | _ => none

def isNameChar (c : Char) : Bool := c.isAlphanum || c == '-' || c == '_'

def readName (cs : List Char) : Option (String × List Char) :=
  let (name, rest) := cs.span isNameChar
  if name = [] then readLineText cs else some (String.ofList name, rest)

/-- A key of at most so many names, with blanks around each. -/
def readKey : Nat → List Char → Option (Key × List Char)
  | 0, _ => none
  | most + 1, cs =>
    (readName (skipSpaces cs)).bind fun (name, cs) =>
      match skipSpaces cs with
      | '.' :: cs => (readKey most cs).map fun (key, cs) => (⟨name :: key.path, key.name⟩, cs)
      | cs => some (⟨[], name⟩, cs)

def arrayLayout : Text.Layout := ⟨']', skipLines false, true⟩

def tableLayout : Text.Layout := ⟨'\x7d', skipSpaces, false⟩

def readScalar (cs : List Char) : Option (Scalar × List Char) :=
  if cs.head? = some '\x22' ∨ cs.head? = some '\x27' then
    (readText cs).map fun (text, rest) => (.text text, rest)
  else
    let (word, rest) := splitWord cs
    (Scalar.ofWord? word).map fun s => (s, rest)

def readPair (value : List Char → Option (Term × List Char)) (cs : List Char) :
    Option ((Key × Term) × List Char) :=
  (readKey maxDepth cs).bind fun (key, cs) =>
    match cs with
    | '=' :: cs => (value (skipSpaces cs)).map fun (term, cs) => ((key, term), cs)
    | _ => none

def readTerm : Nat → List Char → Option (Term × List Char)
  | 0, '[' :: _ => none
  | 0, '\x7b' :: _ => none
  | depth + 1, '[' :: cs =>
    (arrayLayout.read (readTerm depth) cs).map fun (items, cs) => (.array items, cs)
  | depth + 1, '\x7b' :: cs =>
    (tableLayout.read (readPair (readTerm depth)) cs).map fun (pairs, cs) => (.table pairs, cs)
  | _, cs => (readScalar cs).map fun (s, cs) => (.scalar s, cs)

def readStatement : List Char → Option (Statement × List Char)
  | '[' :: '[' :: cs =>
    (readKey maxDepth cs).bind fun (key, cs) =>
      match cs with
      | ']' :: ']' :: cs => some (.item key, cs)
      | _ => none
  | '[' :: cs =>
    (readKey maxDepth cs).bind fun (key, cs) =>
      match cs with
      | ']' :: cs => some (.table key, cs)
      | _ => none
  | cs => (readPair (readTerm maxDepth) cs).map fun ((key, term), cs) => (.pair key term, cs)

def readStatements : Nat → List Char → Option (List Statement)
  | 0, _ => none
  | most + 1, cs =>
    let cs := skipLines false cs
    if cs = [] then some []
    else
      (readStatement cs).bind fun (statement, cs) =>
        (endLine cs).bind fun cs => (readStatements most cs).map (statement :: ·)

/-- The statements of a document. A byte order mark may stand in front. -/
def Statement.readAll (text : String) : Option (List Statement) :=
  let cs := text.toList
  let cs := if cs.head? = some '\ufeff' then cs.tail else cs
  readStatements (cs.length + 1) cs

end MiningClient.Toml
