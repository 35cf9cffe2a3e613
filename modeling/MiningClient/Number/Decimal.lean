namespace MiningClient.Decimal

/-- The number that decimal digits write, read after the digits whose number is `acc`. -/
def readDigits (acc : Nat) : List Char → Option Nat
  | [] => some acc
  | c :: cs => if c.isDigit then readDigits (acc * 10 + (c.toNat - 48)) cs else none

def natural? : List Char → Option Nat
  | [] => none
  | cs => readDigits 0 cs

def unsigned? : List Char → Option Nat
  | '+' :: cs => natural? cs
  | cs => natural? cs

def signed? : List Char → Option Int
  | '-' :: cs => (natural? cs).map fun n => -(n : Int)
  | cs => (unsigned? cs).map Int.ofNat

/-- Whether there is a minus sign, and what follows the sign if there is one. -/
def splitSign : List Char → Bool × List Char
  | '-' :: cs => (true, cs)
  | '+' :: cs => (false, cs)
  | cs => (false, cs)

/-- The part up to the first mark, and the part behind it if there is one. -/
def cutAt (isMark : Char → Bool) (cs : List Char) : List Char × Option (List Char) :=
  let (before, rest) := cs.span fun c => !isMark c
  (before, rest.tail?)

def fits64 (n : Int) : Bool := -0x8000000000000000 ≤ n && n < 0x8000000000000000

def digits (n : Nat) : List Char :=
  if n < 10 then [Char.ofNat (48 + n)] else digits (n / 10) ++ [Char.ofNat (48 + n % 10)]

def text (n : Nat) : String := String.ofList (digits n)

def signedText (n : Int) : String := (if n < 0 then "-" else "") ++ text n.natAbs

/-- At least `width` digits, with zeros in front. -/
def padded (width n : Nat) : List Char :=
  List.replicate (width - (digits n).length) '0' ++ digits n

end MiningClient.Decimal
