import MiningClient.Settings.Value
import MiningClient.Text.Layout

namespace MiningClient.Settings.Json

def maxDepth : Nat := 127

def isSpace (c : Char) : Bool := c == ' ' || c == '\t' || c == '\n' || c == '\r'

def skip (cs : List Char) : List Char := cs.dropWhile isSpace

def readUnit : List Char → Option (Nat × List Char)
  | a :: b :: c :: d :: cs => (Radix.read? 16 [a, b, c, d]).map fun n => (n, cs)
  | _ => none

/-- A character by its number, after the `u`. One beyond U+FFFF is written as two halves. -/
def readNumbered (cs : List Char) : Option (Char × List Char) :=
  (readUnit cs).bind fun (high, cs) =>
    if high.isValidChar then some (Char.ofNat high, cs)
    else
      match cs with
      | '\\' :: 'u' :: cs =>
        (readUnit cs).bind fun (low, cs) =>
          if high < 0xDC00 ∧ 0xDC00 ≤ low ∧ low < 0xE000 then
            some (Char.ofNat (0x10000 + (high - 0xD800) * 0x400 + (low - 0xDC00)), cs)
          else none
      | _ => none

def readChar : List Char → Option (Char × List Char)
  | '\\' :: 'u' :: cs => readNumbered cs
  | '\\' :: '/' :: cs => some ('/', cs)
  | '\\' :: c :: cs => (Text.escaped? c).map fun c => (c, cs)
  | c :: cs => if c == '\\' || c < ' ' then none else some (c, cs)
  | [] => none

def readChars : Nat → List Char → Option (List Char × List Char)
  | _, '\x22' :: cs => some ([], cs)
  | 0, _ => none
  | most + 1, cs =>
    (readChar cs).bind fun (c, cs) => (readChars most cs).map fun (text, cs) => (c :: text, cs)

def readText (cs : List Char) : Option (String × List Char) :=
  (readChars cs.length cs).map fun (text, cs) => (String.ofList text, cs)

/-- The largest power of ten that a number is multiplied with or divided by at once. -/
def maxPower : Nat := 308

def shrink (x : Binary64) (power : Nat) : Binary64 :=
  if power ≤ maxPower then x.dividedBy (Binary64.ofDecimal 1 power)
  else
    let x := x.dividedBy (Binary64.ofDecimal 1 maxPower)
    if x = .zero then .zero else shrink x (power - maxPower)
  termination_by power
  decreasing_by simp only [maxPower] at *; omega

/-- A number multiplied with a power of ten; it may not become too large. -/
def grow? (x : Binary64) (power : Nat) : Option Binary64 :=
  if x = .zero then some .zero
  else if maxPower < power then none
  else
    let x := x.times (Binary64.ofDecimal 1 power)
    if x = .infinity then none else some x

/-- A number that is read as a float: the digits are rounded, and then again with the power. -/
def float? (negative : Bool) (digits : Nat) (power : Int) : Option Raw :=
  let x := Binary64.ofRatio digits 1
  (if power < 0 then some (shrink x power.natAbs) else grow? x power.toNat).map fun x =>
    .float (if negative then x.negate else x)

/-- A whole number that does not fit into 64 bits is a float, and so is a zero with a sign. -/
def whole? (negative : Bool) (n : Nat) : Option Raw :=
  let signed : Int := if negative then -n else n
  if Decimal.fits64 signed ∧ ¬(negative ∧ n = 0) then some (.integer signed)
  else float? negative n 0

/-- The number that digits write behind those whose number is `n`, as long as it fits into 64 bits,
and the digits that are left. -/
def accumulate (n : Nat) : List Char → Nat × List Char
  | [] => (n, [])
  | c :: cs =>
    let more := n * 10 + (c.toNat - 48)
    if more < UInt64.size then accumulate more cs else (n, c :: cs)

/-- Digits behind a point, if there is one; then there is a digit. -/
def fraction? : List Char → Option (List Char × List Char)
  | '.' :: cs =>
    let (ds, cs) := cs.span Char.isDigit
    if ds = [] then none else some (ds, cs)
  | cs => some ([], cs)

/-- The exponent behind the digits, if there is one. -/
def power? : List Char → Option Int
  | [] => some 0
  | c :: cs => if c == 'e' || c == 'E' then Decimal.signed? cs else none

/-- The number that a word writes. Of the digits that are left over, those before the point count
as places and those behind it not at all. -/
def number? (word : List Char) : Option Raw := do
  let negative := word.head? == some '-'
  let (whole, cs) := (if negative then word.tail else word).span Char.isDigit
  if whole = [] ∨ whole.head? = some '0' ∧ whole.length ≠ 1 then none
  let (n, spare) := accumulate 0 whole
  if cs = [] ∧ spare = [] then whole? negative n
  else
    let (behind, cs) ← fraction? cs
    let power ← power? cs
    let (n, left) := accumulate n behind
    float? negative n (power + spare.length - (behind.length - left.length : Nat))

def isNumberChar (c : Char) : Bool :=
  c.isDigit || c == '-' || c == '+' || c == '.' || c == 'e' || c == 'E'

def readWord : List Char → Option (Raw × List Char)
  | 't' :: 'r' :: 'u' :: 'e' :: cs => some (.flag true, cs)
  | 'f' :: 'a' :: 'l' :: 's' :: 'e' :: cs => some (.flag false, cs)
  | 'n' :: 'u' :: 'l' :: 'l' :: cs => some (.unusable, cs)
  | cs =>
    let (word, cs) := cs.span isNumberChar
    (number? word).map fun raw => (raw, cs)

def listLayout : Text.Layout := ⟨']', skip, false⟩

def objectLayout : Text.Layout := ⟨'\x7d', skip, false⟩

def readKey : List Char → Option (String × List Char)
  | '\x22' :: cs => readText cs
  | _ => none

def readValue : Nat → List Char → Option (Value × List Char)
  | _, '\x22' :: cs => (readText cs).map fun (text, cs) => (.single (.text text), cs)
  | 0, '[' :: _ => none
  | 0, '\x7b' :: _ => none
  | depth + 1, '[' :: cs =>
    (listLayout.read (readValue depth) cs).map fun (items, cs) => (.ofItems items, cs)
  | depth + 1, '\x7b' :: cs =>
    (objectLayout.read (objectLayout.readMember readKey (readValue depth)) cs).map
      fun (members, cs) => (.ofMembers members, cs)
  | _, cs => (readWord cs).map fun (raw, cs) => (.single raw, cs)

def read? (text : String) : Option Value :=
  (readValue maxDepth (skip text.toList)).bind fun (value, cs) =>
    if skip cs = [] then some value else none

end MiningClient.Settings.Json
