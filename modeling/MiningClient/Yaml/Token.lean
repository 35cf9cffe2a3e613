import MiningClient.Yaml.Scalar
import MiningClient.Yaml.Tag

namespace MiningClient.Yaml

inductive Token
  | directive
  | documentStart
  | documentEnd
  | blockSequenceStart
  | blockMappingStart
  | blockEnd
  | flowSequenceStart
  | flowSequenceEnd
  | flowMappingStart
  | flowMappingEnd
  | blockEntry
  | flowEntry
  | key
  | value
  | alias (name : String)
  | anchor (name : String)
  | tag (tag : Tag)
  | scalar (isPlain : Bool) (text : String)
  deriving DecidableEq, Repr

/-- A place where a key may have begun whose colon comes later. -/
structure SimpleKey where
  /-- How many tokens stand in front of it. -/
  position : Nat
  start : Cursor
  /-- There must be a colon. -/
  required : Bool

def maxKeyLength : Nat := 1024

def maxFlowDepth : Nat := 255

structure Lexer where
  cursor : Cursor
  tokens : List Token := []
  count : Nat := 0
  indent : Int := -1
  outer : List Int := []
  /-- For each bracket that is open, and outside of them, the key that may have begun. -/
  keys : List (Option SimpleKey) := [none]
  keyAllowed : Bool := true

namespace Lexer

def flowDepth (l : Lexer) : Nat := l.keys.length - 1

def inFlow (l : Lexer) : Bool := l.flowDepth != 0

def push (l : Lexer) (token : Token) : Lexer :=
  { l with tokens := token :: l.tokens, count := l.count + 1 }

/-- Puts a token where so many stand in front of it. -/
def insert (l : Lexer) (position : Nat) (token : Token) : Lexer :=
  let behind := l.count - position
  { l with
    tokens := l.tokens.take behind ++ token :: l.tokens.drop behind
    count := l.count + 1 }

def pushMark (l : Lexer) (token : Token) : Lexer :=
  { l.push token with cursor := l.cursor.next }

def allowKey (l : Lexer) (keyAllowed : Bool) : Lexer := { l with keyAllowed }

/-- Goes past blanks, comments and line ends, of at most so many characters. Outside of brackets a
key may begin on a new line, and a tab may not stand before it. -/
def skipBlanks : Nat → Lexer → Lexer
  | 0, l => l
  | most + 1, l =>
    match l.cursor.char? with
    | some ' ' => skipBlanks most { l with cursor := l.cursor.next }
    | some '\t' =>
      if l.inFlow || !l.keyAllowed then skipBlanks most { l with cursor := l.cursor.next } else l
    | some '#' => skipBlanks most { l with cursor := l.cursor.skipComment }
    | some c =>
      if endsLine c then
        skipBlanks most
          { l with cursor := l.cursor.nextLine, keyAllowed := l.keyAllowed || !l.inFlow }
      else l
    | none => l

/-- A key that has begun is on this line and not too far back. -/
def isFresh (c : Cursor) (key : SimpleKey) : Bool :=
  key.start.line == c.line && c.index ≤ key.start.index + maxKeyLength

/-- Forgets the keys that have come to nothing, if none of them is required. -/
def dropStale (l : Lexer) : Option Lexer :=
  if l.keys.any (·.any fun key => !isFresh l.cursor key && key.required) then none
  else some { l with keys := l.keys.map (·.filter (isFresh l.cursor)) }

def dropKey (l : Lexer) : Option Lexer :=
  match l.keys with
  | some key :: keys => if key.required then none else some { l with keys := none :: keys }
  | _ => some l

/-- A key may begin here. -/
def markKey (l : Lexer) : Option Lexer :=
  if !l.keyAllowed then some l
  else
    let key : SimpleKey :=
      ⟨l.count, l.cursor, l.inFlow && l.indent == (l.cursor.column : Int)⟩
    l.dropKey.map fun l => { l with keys := some key :: l.keys.tail }

/-- Ends what is indented more than a column. -/
def unroll (column : Int) (l : Lexer) : List Int → Lexer
  | [] => l
  | indent :: outer =>
    if column < l.indent then unroll column { l.push .blockEnd with indent, outer } outer else l

def unrollTo (l : Lexer) (column : Int) : Lexer :=
  if l.inFlow then l else l.unroll column l.outer

/-- Begins a list or a table if a column is further in. -/
def roll (l : Lexer) (column position : Nat) (token : Token) : Lexer :=
  if l.inFlow || column ≤ l.indent then l
  else { l.insert position token with indent := column, outer := l.indent :: l.outer }

/-- Ends all that is open before a line that belongs to no document. -/
def readBorder (l : Lexer) (token : Token) (cursor : Cursor) : Option Lexer :=
  (l.unrollTo (-1)).dropKey.map fun l => { l.push token with cursor, keyAllowed := false }

def openFlow (l : Lexer) (token : Token) : Option Lexer :=
  l.markKey.bind fun l =>
    if l.flowDepth = maxFlowDepth then none
    else some ({ l with keys := none :: l.keys, keyAllowed := true }.pushMark token)

def closeFlow (l : Lexer) (token : Token) : Option Lexer :=
  l.dropKey.map fun l =>
    { l with keys := if l.inFlow then l.keys.tail else l.keys, keyAllowed := false }.pushMark token

def readFlowEntry (l : Lexer) : Option Lexer :=
  l.dropKey.map fun l => (l.allowKey true).pushMark .flowEntry

def readBlockEntry (l : Lexer) : Option Lexer :=
  if l.inFlow || !l.keyAllowed then none
  else
    (l.roll l.cursor.column l.count .blockSequenceStart).dropKey.map fun l =>
      (l.allowKey true).pushMark .blockEntry

def readKey (l : Lexer) : Option Lexer :=
  if !l.inFlow && !l.keyAllowed then none
  else
    (l.roll l.cursor.column l.count .blockMappingStart).dropKey.map fun l =>
      (l.allowKey !l.inFlow).pushMark .key

/-- A colon. The key is the one that has begun, or else stands behind a question mark. -/
def readValue (l : Lexer) : Option Lexer :=
  match l.keys with
  | some key :: keys =>
    let l := (l.insert key.position .key).roll key.start.column key.position .blockMappingStart
    some ({ l with keys := none :: keys, keyAllowed := false }.pushMark .value)
  | _ =>
    if !l.inFlow && !l.keyAllowed then none
    else
      let l := l.roll l.cursor.column l.count .blockMappingStart
      some ((l.allowKey !l.inFlow).pushMark .value)

def readName (c : Cursor) : Option (String × Cursor) :=
  let (name, c) := c.span isNameChar
  if name ≠ [] ∧ (c.char?.all fun x => !isSolid (some x) || "?:,]\x7d%@\x60".contains x) then
    some (String.ofList name, c)
  else none

def readAnchor (l : Lexer) (token : String → Token) : Option Lexer :=
  l.markKey.bind fun l =>
    (readName l.cursor.next).map fun (name, cursor) =>
      { l.push (token name) with cursor, keyAllowed := false }

def readTagged (l : Lexer) (most : Nat) : Option Lexer :=
  l.markKey.bind fun l =>
    (readTag most l.cursor).map fun (tag, cursor) =>
      { l.push (.tag tag) with cursor, keyAllowed := false }

def readBlockText (l : Lexer) (literal : Bool) (most : Nat) : Option Lexer :=
  l.markKey.bind fun l =>
    (readBlock literal l.indent most l.cursor.next).map fun (text, cursor) =>
      { l.push (.scalar false (String.ofList text)) with cursor, keyAllowed := true }

def readQuotedText (l : Lexer) (quote : Char) (most : Nat) : Option Lexer :=
  l.markKey.bind fun l =>
    (readQuoted quote most l.cursor.next [] .none).map fun (text, cursor) =>
      { l.push (.scalar false (String.ofList text)) with cursor, keyAllowed := false }

/-- Behind a plain text at whose end a line ends, a key may begin. -/
def readPlainText (l : Lexer) (most : Nat) : Option Lexer :=
  l.markKey.bind fun l =>
    (readPlain l.inFlow (l.indent + 1) most l.cursor [] .none false).map fun (text, gap, cursor) =>
      { l.push (.scalar true (String.ofList text)) with cursor, keyAllowed := gap.hasLineEnd }

def readToken (l : Lexer) (most : Nat) (c : Char) : Option Lexer :=
  let isAlone := !isSolid l.cursor.second?
  if l.cursor.column = 0 ∧ c = '%' then
    (readDirective most l.cursor.next).bind (l.readBorder .directive)
  else if l.cursor.atWord '-' then l.readBorder .documentStart (l.cursor.skip 3)
  else if l.cursor.atWord '.' then l.readBorder .documentEnd (l.cursor.skip 3)
  else if c = '[' then l.openFlow .flowSequenceStart
  else if c = '\x7b' then l.openFlow .flowMappingStart
  else if c = ']' then l.closeFlow .flowSequenceEnd
  else if c = '\x7d' then l.closeFlow .flowMappingEnd
  else if c = ',' then l.readFlowEntry
  else if c = '-' ∧ isAlone then l.readBlockEntry
  else if c = '?' ∧ (l.inFlow || isAlone) then l.readKey
  else if c = ':' ∧ (l.inFlow || isAlone) then l.readValue
  else if c = '*' then l.readAnchor .alias
  else if c = '&' then l.readAnchor .anchor
  else if c = '!' then l.readTagged most
  else if c = '|' ∧ !l.inFlow then l.readBlockText true most
  else if c = '>' ∧ !l.inFlow then l.readBlockText false most
  else if c = '\x27' ∨ c = '\x22' then l.readQuotedText c most
  else if c = '%' ∨ c = '@' ∨ c = '\x60' then none
  else l.readPlainText most

def readTokens : Nat → Lexer → Option (List Token)
  | 0, _ => none
  | most + 1, l =>
    (l.skipBlanks (most + 1)).dropStale.bind fun l =>
      match l.cursor.char? with
      | none => (l.unrollTo (-1)).dropKey.map fun l => l.tokens.reverse
      | some c =>
        ((l.unrollTo l.cursor.column).readToken (most + 1) c).bind (readTokens most)

end Lexer

/-- The tokens of a text, which ends at the first null character. -/
def tokens? (text : String) : Option (List Token) :=
  let cs := text.toList.takeWhile (· != '\x00')
  Lexer.readTokens (2 * cs.length + 2) { cursor := { rest := cs } }

end MiningClient.Yaml
