import MiningClient.Text.Escape
import MiningClient.Yaml.Cursor

namespace MiningClient.Yaml

inductive Gap
  | spaces (cs : List Char)
  /-- The end of a line, and so many more. -/
  | folded (more : Nat)
  /-- The end of a line that does not count, and so many more. -/
  | dropped (more : Nat)

namespace Gap

def none : Gap := spaces []

def hasLineEnd : Gap → Bool
  | spaces _ => false
  | _ => true

/-- With a blank behind it; at the start of a line it does not count. -/
def addBlank (c : Char) : Gap → Gap
  | spaces cs => spaces (cs ++ [c])
  | gap => gap

def addLineEnd : Gap → Gap
  | spaces _ => folded 0
  | folded more => folded (more + 1)
  | dropped more => dropped (more + 1)

def text : Gap → List Char
  | spaces cs => cs
  | folded 0 => [' ']
  | folded more | dropped more => List.replicate more '\n'

end Gap

/-- A plain text ends here: at a colon before a blank, and in brackets at their marks. -/
def endsPlain (inFlow : Bool) (c : Cursor) : Bool :=
  match c.char? with
  | none => true
  | some ':' => !isSolid c.second? || (inFlow && c.second?.any isFlowMark)
  | some x => inFlow && isFlowMark x

/-- A plain text from `c` on, of at most so many characters, behind what was read of it in reverse
order. Outside of brackets a line has to be indented by `indent`. The result tells what stood behind
the last word. -/
def readPlain (inFlow : Bool) (indent : Int) :
    Nat → Cursor → List Char → Gap → (afterGap : Bool) → Option (List Char × Gap × Cursor)
  | 0, _, _, _, _ => none
  | most + 1, c, read, gap, afterGap =>
    match c.char? with
    | none => some (read.reverse, gap, c)
    | some x =>
      if endsLine x then readPlain inFlow indent most c.nextLine read gap.addLineEnd true
      else if isBlank x then
        if gap.hasLineEnd ∧ c.column < indent ∧ x = '\t' then none
        else readPlain inFlow indent most c.next read (gap.addBlank x) true
      else if (afterGap && (c.atBorder || x == '#' || (!inFlow && c.column < indent))) ||
          endsPlain inFlow c then
        some (read.reverse, gap, c)
      else readPlain inFlow indent most c.next (x :: (gap.text.reverse ++ read)) .none false

def escaped? (c : Char) : Option Char :=
  match c with
  | '0' => some '\x00'
  | 'a' => some '\x07'
  | 'b' => some '\x08'
  | 't' | '\t' => some '\t'
  | 'n' => some '\n'
  | 'v' => some '\x0b'
  | 'f' => some '\x0c'
  | 'r' => some '\r'
  | 'e' => some '\x1b'
  | ' ' => some ' '
  | '\x22' => some '\x22'
  | '\x27' => some '\x27'
  | '\\' => some '\\'
  | 'N' => some '\u0085'
  | '_' => some '\u00a0'
  | 'L' => some '\u2028'
  | 'P' => some '\u2029'
  | _ => none

def escapeWidth? (c : Char) : Option Nat :=
  match c with
  | 'x' => some 2
  | 'u' => some 4
  | 'U' => some 8
  | _ => none

def readEscape (c : Cursor) : Option (Char × Cursor) :=
  c.char?.bind fun letter =>
    match escapeWidth? letter with
    | none => (escaped? letter).map fun x => (x, c.next)
    | some width =>
      let ds := c.next.rest.take width
      if ds.length = width then (Text.charOfHex? ds).map fun x => (x, c.next.skip width) else none

/-- A text in quotes behind the opening one, of at most so many characters. A quote in single quotes
is doubled; in double ones there are escapes. -/
def readQuoted (quote : Char) : Nat → Cursor → List Char → Gap → Option (List Char × Cursor)
  | 0, _, _, _ => none
  | most + 1, c, read, gap =>
    match c.char? with
    | none => none
    | some x =>
      let behindGap := gap.text.reverse ++ read
      if endsLine x then readQuoted quote most c.nextLine read gap.addLineEnd
      else if isBlank x then readQuoted quote most c.next read (gap.addBlank x)
      else if c.atBorder then none
      else if x = quote then
        if quote = '\x27' ∧ c.second? = some quote then
          readQuoted quote most c.next.next (x :: behindGap) .none
        else some (behindGap.reverse, c.next)
      else if x = '\\' ∧ quote = '\x22' then
        if c.second?.any endsLine then
          readQuoted quote most c.next.nextLine behindGap (.dropped 0)
        else
          (readEscape c.next).bind fun (y, c) => readQuoted quote most c (y :: behindGap) .none
      else readQuoted quote most c.next (x :: behindGap) .none

inductive Chomping
  | strip
  | clip
  | keep
  deriving DecidableEq, Repr

structure BlockHeader where
  chomping : Chomping := .clip
  increment : Option Nat := none

def chomping? (c : Char) : Option Chomping :=
  match c with
  | '+' => some .keep
  | '-' => some .strip
  | _ => none

def increment? (c : Char) : Option Nat :=
  if c.isDigit ∧ c ≠ '0' then some (c.toNat - 48) else none

/-- What stands behind the mark of a block: its two properties in any order. What is neither is left
where it is. -/
def readBlockHeader (c : Cursor) : BlockHeader × Cursor :=
  match c.char?.bind chomping?, c.char?.bind increment? with
  | some chomping, _ =>
    match c.second?.bind increment? with
    | some n => (⟨chomping, some n⟩, c.skip 2)
    | none => (⟨chomping, none⟩, c.skip 1)
  | none, some n =>
    match c.second?.bind chomping? with
    | some chomping => (⟨chomping, some n⟩, c.skip 2)
    | none => (⟨.clip, some n⟩, c.skip 1)
  | none, none => ({}, c)

/-- Goes past line ends and blanks up to an indentation, or past all blanks when it is not known
yet. The result has the deepest column and the number of line ends. -/
def skipIndent (indent : Option Nat) : Nat → Cursor → Nat → Nat → Option (Nat × Nat × Cursor)
  | 0, _, _, _ => none
  | most + 1, c, deepest, lineEnds =>
    let isInside := indent.all (c.column < ·)
    if c.char? = some ' ' ∧ isInside then skipIndent indent most c.next deepest lineEnds
    else if c.char? = some '\t' ∧ isInside then none
    else
      let deepest := max deepest c.column
      if c.char?.any endsLine then skipIndent indent most c.nextLine deepest (lineEnds + 1)
      else some (deepest, lineEnds, c)

/-- The lines of a block from `c` on, behind what was read of it in reverse order. -/
structure BlockState where
  cursor : Cursor
  read : List Char := []
  lineEnd : Bool := false
  emptyLines : Nat := 0
  /-- The last line began with a blank. -/
  afterBlank : Bool := false

/-- At most so many lines. A line end between two lines that do not begin with a blank is folded
unless the block is literal. -/
def readBlockLines (literal : Bool) (indent : Nat) : Nat → BlockState → Option BlockState
  | 0, _ => none
  | most + 1, s =>
    if s.cursor.column ≠ indent ∨ s.cursor.char? = none then some s
    else
      let startsBlank := s.cursor.char?.any isBlank
      let folds := !literal && s.lineEnd && !s.afterBlank && !startsBlank
      let between :=
        if folds then (if s.emptyLines = 0 then [' '] else [])
        else if s.lineEnd then ['\n'] else []
      let (line, c) := s.cursor.span fun _ => true
      let read := line.reverse ++ (List.replicate s.emptyLines '\n' ++ between ++ s.read)
      if c.char? = none then some ⟨c, read, false, 0, startsBlank⟩
      else
        (skipIndent (some indent) most c.nextLine 0 0).bind fun (_, emptyLines, c) =>
          readBlockLines literal indent most ⟨c, read, true, emptyLines, startsBlank⟩

/-- A block of lines behind its mark, in a context that is indented by `outer`. -/
def readBlock (literal : Bool) (outer : Int) (most : Nat) (c : Cursor) :
    Option (List Char × Cursor) := do
  let (header, c) := readBlockHeader c
  let c := (c.skipWhile isBlank).skipComment
  if !c.atLineEnd then none
  let given := header.increment.map fun n => (max outer 0).toNat + n
  let (deepest, emptyLines, c) ← skipIndent given most c.nextLine 0 0
  let indent := given.getD (max deepest (max (outer + 1).toNat 1))
  let s ← readBlockLines literal indent most { cursor := c, emptyLines }
  let lineEnd := if s.lineEnd && header.chomping != .strip then ['\n'] else []
  let emptyLines := if header.chomping = .keep then s.emptyLines else 0
  some (s.read.reverse ++ lineEnd ++ List.replicate emptyLines '\n', s.cursor)

end MiningClient.Yaml
