namespace MiningClient.Yaml

def isBlank (c : Char) : Bool := c == ' ' || c == '\t'

def endsLine (c : Char) : Bool := c == '\n' || c == '\r'

/-- Neither a blank nor the end of a line or of the text. -/
def isSolid (c? : Option Char) : Bool := c?.any fun c => !isBlank c && !endsLine c

/-- Has a meaning of its own in lists and tables in brackets. -/
def isFlowMark (c : Char) : Bool :=
  c == ',' || c == '[' || c == ']' || c == '\x7b' || c == '\x7d'

def isNameChar (c : Char) : Bool := c.isAlphanum || c == '_' || c == '-'

structure Cursor where
  rest : List Char
  index : Nat := 0
  line : Nat := 0
  column : Nat := 0
  deriving DecidableEq, Repr

namespace Cursor

def char? (c : Cursor) : Option Char := c.rest.head?

def second? (c : Cursor) : Option Char := c.rest.tail.head?

def next (c : Cursor) : Cursor :=
  match c.rest with
  | [] => c
  | '\n' :: rest => ⟨rest, c.index + 1, c.line + 1, 0⟩
  | _ :: rest => ⟨rest, c.index + 1, c.line, c.column + 1⟩

/-- Goes past the end of a line, which may be two characters. A carriage return alone ends a line and
does not begin a new column. -/
def nextLine (c : Cursor) : Cursor :=
  if c.char? = some '\r' ∧ c.second? = some '\n' then c.next.next else c.next

def skip (c : Cursor) (n : Nat) : Cursor :=
  { c with rest := c.rest.drop n, index := c.index + n, column := c.column + n }

def skipWhile (p : Char → Bool) (c : Cursor) : Cursor :=
  c.skip (c.rest.takeWhile fun x => p x && !endsLine x).length

def span (p : Char → Bool) (c : Cursor) : List Char × Cursor :=
  (c.rest.takeWhile fun x => p x && !endsLine x, c.skipWhile p)

/-- Goes to the end of the line if there is a comment. -/
def skipComment (c : Cursor) : Cursor :=
  if c.char? = some '#' then c.skipWhile fun _ => true else c

def atLineEnd (c : Cursor) : Bool := c.char?.all endsLine

/-- Three characters at the start of a line, alone. -/
def atWord (c : Cursor) (mark : Char) : Bool :=
  c.column == 0 && [mark, mark, mark].isPrefixOf c.rest && !isSolid (c.rest.drop 3).head?

/-- A document begins or ends here. -/
def atBorder (c : Cursor) : Bool := c.atWord '-' || c.atWord '.'

end Cursor
end MiningClient.Yaml
