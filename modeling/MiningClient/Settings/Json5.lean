import MiningClient.Number.Radix
import MiningClient.Settings.Value
import MiningClient.Text.Joining
import MiningClient.Text.Layout
import MiningClient.Text.Letter
import MiningClient.Text.Spacing

namespace MiningClient.Settings.Json5

def endsLine (c : Char) : Bool := c == '\n' || c == '\r' || c == '\u2028' || c == '\u2029'

/-- White space, with the byte order mark and without the next-line character. -/
def isSpace (c : Char) : Bool := (Text.isBlank c && c != '\u0085') || c == '\ufeff'

def spacing : Text.Spacing := ⟨isSpace, endsLine, false⟩

def readHex (width : Nat) (cs : List Char) : Option (Nat × List Char) :=
  if cs.length < width then none
  else (Radix.read? 16 (cs.take width)).map fun n => (n, cs.drop width)

/-- The character that is a letter behind a backslash. Most stand for themselves. -/
def escaped? (c : Char) : Option Char :=
  match c with
  | 'b' => some '\x08'
  | 'f' => some '\x0c'
  | 'n' => some '\n'
  | 'r' => some '\r'
  | 't' => some '\t'
  | 'v' => some '\x0b'
  | '0' => some '\x00'
  | 'x' | 'u' => none
  | _ => if c.isDigit || endsLine c then none else some c

/-- A part of a text: a character, half of one, or the end of a line that goes on. -/
inductive Piece
  | char (c : Char)
  | half (unit : Nat)
  | nothing

def Piece.ofNumber (n : Nat) : Piece := if n.isValidChar then char (Char.ofNat n) else half n

def readEscape : List Char → Option (Piece × List Char)
  | 'x' :: cs => (readHex 2 cs).map fun (n, cs) => (.ofNumber n, cs)
  | 'u' :: cs => (readHex 4 cs).map fun (n, cs) => (.ofNumber n, cs)
  | '\r' :: '\n' :: cs => some (.nothing, cs)
  | c :: cs =>
    if endsLine c then some (.nothing, cs) else (escaped? c).map fun c => (.char c, cs)
  | [] => none

def readPieces (quote : Char) : Nat → List Char → Option (List Piece × List Char)
  | 0, _ => none
  | _, [] => none
  | most + 1, c :: cs =>
    if c == quote then some ([], cs)
    else
      (if c == '\\' then readEscape cs
        else if endsLine c then none else some (.char c, cs)).bind fun (piece, cs) =>
          (readPieces quote most cs).map fun (pieces, cs) => (piece :: pieces, cs)

/-- The characters that pieces make. Two halves make one character. -/
def join? : Option Nat → List Piece → Option (List Char)
  | none, [] => some []
  | none, .char c :: pieces => (join? none pieces).map (c :: ·)
  | none, .half unit :: pieces => if unit < 0xDC00 then join? (some unit) pieces else none
  | some high, .half low :: pieces =>
    if low < 0xDC00 then none
    else
      (join? none pieces).map
        (Char.ofNat (0x10000 + (high - 0xD800) * 0x400 + (low - 0xDC00)) :: ·)
  | high, .nothing :: pieces => join? high pieces
  | some _, _ => none

def readText (quote : Char) (cs : List Char) : Option (String × List Char) :=
  (readPieces quote (cs.length + 1) cs).bind fun (pieces, cs) =>
    (join? none pieces).map fun text => (String.ofList text, cs)

def startsName (c : Char) : Bool := c == '$' || c == '_' || Text.isLetter c

/-- May stand in a name; two of these characters have no width. -/
def continuesName (c : Char) : Bool :=
  startsName c || Text.isJoining c || c == '\u200c' || c == '\u200d'

/-- At most so many pieces of a name, in characters that are allowed or by number. -/
def readNamePieces (allows : Char → Bool) : Nat → List Char → Option (List Piece × List Char)
  | most + 1, '\\' :: 'u' :: cs =>
    (readHex 4 cs).bind fun (n, cs) =>
      (readNamePieces continuesName most cs).map fun (pieces, cs) => (.ofNumber n :: pieces, cs)
  | most + 1, c :: cs =>
    if allows c then
      (readNamePieces continuesName most cs).map fun (pieces, cs) => (.char c :: pieces, cs)
    else some ([], c :: cs)
  | _, cs => some ([], cs)

def readKey : List Char → Option (String × List Char)
  | '\x22' :: cs => readText '\x22' cs
  | '\x27' :: cs => readText '\x27' cs
  | cs =>
    (readNamePieces startsName cs.length cs).bind fun (pieces, cs) =>
      if pieces.isEmpty then none else (join? none pieces).map fun name => (String.ofList name, cs)

def hexNumber? (ds : List Char) : Option Raw :=
  (Radix.read? 16 ds).bind fun n => if n < UInt32.size then some (.integer n) else none

def splitPower (cs : List Char) : List Char × List Char :=
  match cs with
  | e :: rest =>
    if e == 'e' || e == 'E' then
      let sign := rest.takeWhile fun c => c == '+' || c == '-'
      let ds := (rest.drop sign.length).takeWhile Char.isDigit
      if sign.length ≤ 1 ∧ ds ≠ [] then
        (e :: sign ++ ds, rest.drop (sign.length + ds.length))
      else ([], cs)
    else ([], cs)
  | [] => ([], [])

def splitDecimal (cs : List Char) : List Char × List Char :=
  let (whole, rest) :=
    if cs.head? = some '0' then (['0'], cs.tail) else cs.span Char.isDigit
  let (mantissa, rest) :=
    match rest with
    | '.' :: more =>
      let (ds, more) := more.span Char.isDigit
      if whole = [] ∧ ds = [] then ([], rest) else (whole ++ '.' :: ds, more)
    | _ => (whole, rest)
  if mantissa = [] then ([], cs)
  else
    let (power, rest) := splitPower rest
    (mantissa ++ power, rest)

/-- The value of a decimal number with its sign: a whole number if it has neither a point nor an
exponent, else a float of limited size. -/
def decimal? (word : List Char) : Option Raw :=
  if word.any fun c => c == '.' || c == 'e' || c == 'E' then
    (Binary64.ofWord? word).bind fun x =>
      if x.exponent = 2047 then none else some (.float x)
  else (Decimal.signed? word).bind fun n => if Decimal.fits64 n then some (.integer n) else none

/-- A number behind its sign, if it has one. Only a minus sign goes with the two names. -/
def readUnsigned (sign : List Char) : List Char → Option (Raw × List Char)
  | 'I' :: 'n' :: 'f' :: 'i' :: 'n' :: 'i' :: 't' :: 'y' :: cs =>
    if sign = ['+'] then none
    else some (.float (if sign = [] then .infinity else Binary64.infinity.negate), cs)
  | 'N' :: 'a' :: 'N' :: cs => if sign = ['+'] then none else some (.float .notANumber, cs)
  | cs =>
    let (mark, rest) := cs.splitAt 2
    let (ds, rest) := rest.span (Radix.isDigit 16)
    if (mark = ['0', 'x'] ∨ mark = ['0', 'X']) ∧ ds ≠ [] then
      if sign = [] then (hexNumber? ds).map fun raw => (raw, rest) else none
    else
      let (word, rest) := splitDecimal cs
      if word = [] then none else (decimal? (sign ++ word)).map fun raw => (raw, rest)

def readWord : List Char → Option (Raw × List Char)
  | 't' :: 'r' :: 'u' :: 'e' :: cs => some (.flag true, cs)
  | 'f' :: 'a' :: 'l' :: 's' :: 'e' :: cs => some (.flag false, cs)
  | 'n' :: 'u' :: 'l' :: 'l' :: cs => some (.unusable, cs)
  | '+' :: cs => readUnsigned ['+'] cs
  | '-' :: cs => readUnsigned ['-'] cs
  | cs => readUnsigned [] cs

def listLayout : Text.Layout := ⟨']', spacing.skip, true⟩

def objectLayout : Text.Layout := ⟨'\x7d', spacing.skip, true⟩

def readValue : Nat → List Char → Option (Value × List Char)
  | _, '\x22' :: cs => (readText '\x22' cs).map fun (text, cs) => (.single (.text text), cs)
  | _, '\x27' :: cs => (readText '\x27' cs).map fun (text, cs) => (.single (.text text), cs)
  | 0, '[' :: _ => none
  | 0, '\x7b' :: _ => none
  | depth + 1, '[' :: cs =>
    (listLayout.read (readValue depth) cs).map fun (items, cs) => (.ofItems items, cs)
  | depth + 1, '\x7b' :: cs =>
    (objectLayout.read (objectLayout.readMember readKey (readValue depth)) cs).map
      fun (members, cs) => (.ofMembers members, cs)
  | _, cs => (readWord cs).map fun (raw, cs) => (.single raw, cs)

/-- JSON with comments, names as keys, single quotes, commas at the end of lists, and more ways to write
a number. -/
def read? (text : String) : Option Value :=
  let cs := spacing.skip text.toList
  (readValue cs.length cs).bind fun (value, cs) => if spacing.skip cs = [] then some value else none

end MiningClient.Settings.Json5
