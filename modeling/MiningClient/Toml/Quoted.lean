import MiningClient.Text.Escape

namespace MiningClient.Toml

structure Style where
  escapes : Bool
  manyLines : Bool
  deriving DecidableEq, Repr

namespace Style

def quote (s : Style) : Char := if s.escapes then '\x22' else '\x27'

def mark (s : Style) : List Char := List.replicate (if s.manyLines then 3 else 1) s.quote

end Style

def isSpace (c : Char) : Bool := c == ' ' || c == '\t'

def isPlain (c : Char) : Bool := c == '\t' || (' ' ≤ c && c != '\x7f')

def Style.allows (s : Style) (c : Char) : Bool := isPlain c || (s.manyLines && c == '\n')

/-- Where a text ends: the quotes that still belong to it, and what follows the closing ones. -/
def Style.closing? (s : Style) (cs : List Char) : Option (List Char × List Char) :=
  let run := (cs.takeWhile (· == s.quote)).length
  if s.manyLines then
    if 3 ≤ run then some (List.replicate (min (run - 3) 2) s.quote, cs.drop (min run 5)) else none
  else if 1 ≤ run then some ([], cs.drop 1)
  else none

/-- What stands up to the closing quotes, and what follows them. Over many lines the quotes are tripled,
and up to two may stand before the closing ones. -/
def Style.split (s : Style) : List Char → Option (List Char × List Char)
  | [] => none
  | c :: cs =>
    match s.closing? (c :: cs) with
    | some ending => some ending
    | none =>
      if s.escapes && c == '\\' then
        match cs with
        | [] => none
        | e :: cs => (split s cs).map fun (body, rest) => (c :: e :: body, rest)
      else (split s cs).map fun (body, rest) => (c :: body, rest)

/-- Line ends of two characters become one. -/
def unifyLineEnds : List Char → List Char
  | [] => []
  | '\r' :: '\n' :: cs => '\n' :: unifyLineEnds cs
  | c :: cs => c :: unifyLineEnds cs

def endsLine (cs : List Char) : Bool := (cs.dropWhile isSpace).head? == some '\n'

/-- The text that characters and escapes write. A backslash at the end of one of many lines stands
for nothing, with all blanks and line ends behind it; these are being dropped when `dropping`. -/
def Style.unescape (s : Style) (dropping : Bool) : List Char → Option (List Char)
  | [] => some []
  | c :: cs =>
    if dropping && (isSpace c || c == '\n') then unescape s true cs
    else if c != '\\' then
      if s.allows c then (unescape s false cs).map (c :: ·) else none
    else if s.manyLines && endsLine cs then unescape s true cs
    else
      match cs with
      | [] => none
      | e :: cs =>
        match Text.escaped? e with
        | some x => (unescape s false cs).map (x :: ·)
        | none =>
          match e, cs with
          | 'u', h₁ :: h₂ :: h₃ :: h₄ :: cs =>
            (Text.charOfHex? [h₁, h₂, h₃, h₄]).bind fun x => (unescape s false cs).map (x :: ·)
          | 'U', h₁ :: h₂ :: h₃ :: h₄ :: h₅ :: h₆ :: h₇ :: h₈ :: cs =>
            (Text.charOfHex? [h₁, h₂, h₃, h₄, h₅, h₆, h₇, h₈]).bind fun x =>
              (unescape s false cs).map (x :: ·)
          | _, _ => none

def Style.decode (s : Style) (body : List Char) : Option (List Char) :=
  let lines := unifyLineEnds body
  let lines := if lines.head? = some '\n' then lines.tail else lines
  let body := if s.manyLines then lines else body
  if s.escapes then s.unescape false body else if body.all s.allows then some body else none

def Style.read (s : Style) (cs : List Char) : Option (String × List Char) :=
  (s.split cs).bind fun (body, rest) => (s.decode body).map fun text => (String.ofList text, rest)

def readLineText : List Char → Option (String × List Char)
  | '\x22' :: cs => Style.read ⟨true, false⟩ cs
  | '\x27' :: cs => Style.read ⟨false, false⟩ cs
  | _ => none

def readText : List Char → Option (String × List Char)
  | '\x22' :: '\x22' :: '\x22' :: cs => Style.read ⟨true, true⟩ cs
  | '\x27' :: '\x27' :: '\x27' :: cs => Style.read ⟨false, true⟩ cs
  | cs => readLineText cs

/-- Cannot stand as it is in any text. A tab can, and so can a line end over many lines. -/
def isControl (c : Char) : Bool := (c < ' ' && c != '\t' && c != '\n') || c == '\x7f'

/-- The digits of a code point in base 16, upper case, at least four. -/
def hexText (n : Nat) : List Char :=
  let ds := (Nat.toDigits 16 n).map Char.toUpper
  List.replicate (4 - ds.length) '0' ++ ds

def escapeChar (c : Char) : List Char :=
  if c == '\x08' then ['\\', 'b']
  else if c == '\t' then ['\\', 't']
  else if c == '\n' then ['\\', 'n']
  else if c == '\x0c' then ['\\', 'f']
  else if c == '\r' then ['\\', 'r']
  else if c == '\\' then ['\\', '\\']
  else if isControl c then '\\' :: 'u' :: hexText c.toNat
  else [c]

/-- Over many lines every third of quotes in a row is escaped; on one line each is. `run` of them
stand right before. -/
def escape (manyLines : Bool) (run : Nat) : List Char → List Char
  | [] => []
  | c :: cs =>
    if c == '\x22' then
      if manyLines && run < 2 then c :: escape manyLines (run + 1) cs
      else '\\' :: c :: escape manyLines 0 cs
    else if manyLines && c == '\n' then c :: escape manyLines 0 cs
    else escapeChar c ++ escape manyLines 0 cs

def tripled (q : Char) : List Char → Bool
  | a :: b :: c :: cs => (a == q && b == q && c == q) || tripled q (b :: c :: cs)
  | _ => false

/-- The plainest style that shows the text without escapes; where there is none, escapes. -/
def Style.choose (cs : List Char) : Style :=
  let bare := !cs.any isControl
  let lines := cs.contains '\n'
  if bare && !lines && !cs.contains '\\' && !cs.contains '\x22' then ⟨true, false⟩
  else if bare && !lines && !cs.contains '\x27' then ⟨false, false⟩
  else if bare && !cs.contains '\\' && !tripled '\x22' cs then ⟨true, true⟩
  else if bare && !tripled '\x27' cs then ⟨false, true⟩
  else ⟨true, lines⟩

def Style.write (s : Style) (cs : List Char) : List Char :=
  let start := if s.manyLines && cs.contains '\n' then ['\n'] else []
  s.mark ++ start ++ (if s.escapes then escape s.manyLines 0 cs else cs) ++ s.mark

def writeText (text : String) : List Char := (Style.choose text.toList).write text.toList

end MiningClient.Toml
