import MiningClient.Number.Radix
import MiningClient.Settings.Value
import MiningClient.Text.Escape

namespace MiningClient.Settings.Ini

/-- The character that is a letter behind a backslash; most stand for themselves. -/
def escaped (c : Char) : Char :=
  match c with
  | '0' => '\x00'
  | 'a' => '\x07'
  | 'b' => '\x08'
  | 't' => '\t'
  | 'r' => '\r'
  | 'n' => '\n'
  | _ => c

/-- A character by four hexadecimal digits; the first may be a plus sign. -/
def readNumbered : List Char → Option (Char × List Char)
  | a :: b :: c :: d :: cs =>
    (Text.charOfHex? (if a = '+' then [b, c, d] else [a, b, c, d])).map fun c => (c, cs)
  | _ => none

/-- What stands behind a backslash. The end of a line stands for nothing. -/
def readEscape : List Char → Option (List Char × List Char)
  | '\n' :: cs => some ([], cs)
  | 'x' :: cs => (readNumbered cs).map fun (c, cs) => ([c], cs)
  | c :: cs => some ([escaped c], cs)
  | [] => none

/-- The text up to a mark, and what begins there. At most so many characters are read. -/
def readUntil (isMark : Char → Bool) : Nat → List Char → Option (List Char × List Char)
  | _, [] => some ([], [])
  | 0, _ => none
  | most + 1, c :: cs =>
    if isMark c then some ([], c :: cs)
    else
      (if c == '\\' then readEscape cs else some ([c], cs)).bind fun (part, cs) =>
        (readUntil isMark most cs).map fun (text, cs) => (part ++ text, cs)

/-- The text up to a mark, which has to be there, and what follows the mark. -/
def readPast (isMark : Char → Bool) (cs : List Char) : Option (List Char × List Char) :=
  (readUntil isMark cs.length cs).bind fun (text, cs) =>
    match cs with
    | [] => none
    | _ :: cs => some (text, cs)

def endsLine (c : Char) : Bool := c == '\n' || c == '\r'

def trimEnd (cs : List Char) : List Char := (cs.reverse.dropWhile Text.isBlank).reverse

/-- A value: parts in quotes, at most so many, and the rest of the line. Without such parts the rest
is trimmed on both sides, else only at its end. -/
def readParts : Nat → Bool → List Char → Option (List Char × List Char)
  | 0, _, _ => none
  | most + 1, first, cs =>
    if cs.head? = some '\x22' ∨ cs.head? = some '\x27' then
      (readPast (some · == cs.head?) cs.tail).bind fun (part, cs) =>
        (readParts most false cs).map fun (text, cs) => (part ++ text, cs)
    else
      (readUntil endsLine cs.length cs).map fun (text, cs) =>
        (if first then Text.stripChars Text.isBlank text else trimEnd text, cs)

def readValue (cs : List Char) : Option (List Char × List Char) :=
  let cs := cs.dropWhile fun c => Text.isBlank c && !endsLine c
  readParts (cs.length + 1) true cs

structure Section where
  name : String
  pairs : List (String × String) := []
  deriving DecidableEq, Repr

structure Document where
  pairs : List (String × String) := []
  sections : List Section := []
  deriving DecidableEq, Repr

namespace Document

def addPair (pair : String × String) (d : Document) : Document :=
  { d with pairs := pair :: d.pairs }

/-- A document whose keys so far are in a section. -/
def addHeader (name : String) (d : Document) : Document := ⟨[], ⟨name, d.pairs⟩ :: d.sections⟩

def textValue (pair : String × String) : String × Value := (pair.1, .single (.text pair.2))

def value (d : Document) : Value :=
  .ofMembers (d.pairs.map textValue ++
    d.sections.map fun s => (s.name, .ofMembers (s.pairs.map textValue)))

end Document

def trimmed (cs : List Char) : String := String.ofList (Text.stripChars Text.isBlank cs)

/-- A document of at most so many headers, pairs and comments. Only at the start of a line there is
a comment. -/
def readDocument : Nat → (atStart : Bool) → List Char → Option Document
  | 0, _, _ => none
  | most + 1, atStart, cs =>
    let blank := cs.takeWhile Text.isBlank
    let atStart := if blank = [] then atStart else blank.getLast? == some '\n'
    match cs.dropWhile Text.isBlank with
    | [] => some {}
    | c :: cs =>
      if c == ';' || c == '#' then
        if atStart then readDocument most true (cs.dropWhile (· != '\n')) else none
      else if c == '[' then
        (readPast (· == ']') cs).bind fun (name, cs) =>
          (readDocument most false cs).map (.addHeader (trimmed name))
      else
        (readPast (fun c => c == '=' || c == ':') (c :: cs)).bind fun (key, cs) =>
          if trimmed key = "" then none
          else
            (readValue cs).bind fun (text, cs) =>
              (readDocument most false cs).map (.addPair (trimmed key, String.ofList text))

def read? (text : String) : Option Value :=
  (readDocument (text.length + 1) true text.toList).map Document.value

end MiningClient.Settings.Ini
