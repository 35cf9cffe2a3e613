import MiningClient.Number.Binary64
import MiningClient.Number.Radix
import MiningClient.Toml.Moment

namespace MiningClient.Toml

inductive Scalar
  | text (s : String)
  | integer (n : Int)
  | float (x : Binary64)
  | flag (b : Bool)
  | moment (m : Moment)
  deriving DecidableEq, Repr

/-- Digits, at least one, with single underscores between them; the result is without these. -/
def grouped? (isDigit : Char → Bool) : List Char → Option (List Char)
  | [] => none
  | [c] => if isDigit c then some [c] else none
  | c :: '_' :: cs => if isDigit c then (grouped? isDigit cs).map (c :: ·) else none
  | c :: cs => if isDigit c then (grouped? isDigit cs).map (c :: ·) else none

def numeral? (base : Nat) (cs : List Char) : Option Nat :=
  (grouped? (Radix.isDigit base) cs).bind (Radix.read? base)

/-- Digits of which the first is not a zero, unless it is the only one. -/
def plain? (cs : List Char) : Option (List Char) :=
  (grouped? Char.isDigit cs).bind fun ds =>
    if ds.length ≠ 1 ∧ ds.head? = some '0' then none else some ds

/-- Whole numbers of 64 bits. In the bases 16, 8 and 2 there is no sign. -/
def integer? (word : List Char) : Option Int :=
  let n? : Option Int :=
    match word with
    | '0' :: 'x' :: cs => (numeral? 16 cs).map Int.ofNat
    | '0' :: 'o' :: cs => (numeral? 8 cs).map Int.ofNat
    | '0' :: 'b' :: cs => (numeral? 2 cs).map Int.ofNat
    | _ =>
      let (negative, cs) := Decimal.splitSign word
      (plain? cs).bind fun ds =>
        (Decimal.natural? ds).map fun n => if negative then -(n : Int) else n
  n?.bind fun n => if Decimal.fits64 n then some n else none

def decimal? (cs : List Char) : Option Binary64 := do
  let (mantissa, power) := Decimal.cutAt (fun c => c == 'e' || c == 'E') cs
  let (whole, fraction) := Decimal.cutAt (· == '.') mantissa
  if power.isNone && fraction.isNone then none
  let whole ← plain? whole
  let fraction ← (fraction.elim (some []) (grouped? Char.isDigit))
  let power : Int ← power.elim (some 0) fun cs =>
    let (negative, cs) := Decimal.splitSign cs
    (grouped? Char.isDigit cs).bind fun ds =>
      (Decimal.natural? ds).map fun n => if negative then -(n : Int) else n
  let digits ← Decimal.natural? (whole ++ fraction)
  some (.ofDecimal digits (power - fraction.length))

/-- What is too large for a float is refused, unless it is negative. -/
def float? (word : List Char) : Option Binary64 :=
  let (negative, cs) := Decimal.splitSign word
  let put (x : Binary64) := if negative then x.negate else x
  match cs with
  | ['i', 'n', 'f'] => some (put .infinity)
  | ['n', 'a', 'n'] => some (put .notANumber)
  | _ => (decimal? cs).bind fun x => if x = .infinity ∧ ¬negative then none else some (put x)

def Scalar.ofWord? (word : List Char) : Option Scalar :=
  match word with
  | ['t', 'r', 'u', 'e'] => some (flag true)
  | ['f', 'a', 'l', 's', 'e'] => some (flag false)
  | _ =>
    ((Moment.read? word).map moment).or <|
      ((integer? word).map integer).or ((float? word).map float)

def isWordChar (c : Char) : Bool :=
  c.isAlphanum || c == '_' || c == '+' || c == '-' || c == '.' || c == ':'

/-- Splits off the first word. A date and the time behind one space are a single word. -/
def splitWord (cs : List Char) : List Char × List Char :=
  let (word, rest) := cs.span isWordChar
  match rest with
  | ' ' :: d :: _ =>
    match Date.read word with
    | some (_, []) =>
      if d.isDigit then
        let (time, rest) := rest.tail.span isWordChar
        (word ++ ' ' :: time, rest)
      else (word, rest)
    | _ => (word, rest)
  | _ => (word, rest)

end MiningClient.Toml
