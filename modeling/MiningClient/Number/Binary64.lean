import MiningClient.Number.Decimal
import MiningClient.Number.Rounding

namespace MiningClient

structure Binary64 where
  bits : UInt64
  deriving DecidableEq, Repr

namespace Binary64

def zero : Binary64 := ⟨0⟩

def infinity : Binary64 := ⟨0x7FF0000000000000⟩

def notANumber : Binary64 := ⟨0x7FF8000000000000⟩

def negate (x : Binary64) : Binary64 := ⟨x.bits ^^^ 0x8000000000000000⟩

def isNegative (x : Binary64) : Bool := 0x8000000000000000 ≤ x.bits.toNat

def exponent (x : Binary64) : Nat := x.bits.toNat / 0x10000000000000 % 0x800

def fraction (x : Binary64) : Nat := x.bits.toNat % 0x10000000000000

/-- The size of a finite number is `significand * 2 ^ (scale - 1074)`. -/
def significand (x : Binary64) : Nat :=
  if x.exponent = 0 then x.fraction else x.fraction + 0x10000000000000

def scale (x : Binary64) : Nat := x.exponent - 1

/-- The number nearest to `n / d`; of two equally near, the one with the even significand. -/
def ofRatio (n d : Nat) : Binary64 :=
  if n = 0 then zero
  else
    -- `n / d` is above `2 ^ (lower + 52)` and below `2 ^ (lower + 54)`
    let lower : Int := (n.log2 : Int) - d.log2 - 53
    let scaled (k : Int) : Nat × Nat := (n * Nat.pow 2 (-k).toNat, d * Nat.pow 2 k.toNat)
    let k := if (scaled lower).1 / (scaled lower).2 < 0x20000000000000 then lower else lower + 1
    let k := if k < -1074 then -1074 else k
    let bits := (k + 1074).toNat * 0x10000000000000 + divHalfEven (scaled k).1 (scaled k).2
    if infinity.bits.toNat ≤ bits then infinity else ⟨.ofNat bits⟩

/-- The number nearest to `digits * 10 ^ power`. Beyond the range of the exponents there is no need
to work out the powers. -/
def ofDecimal (digits : Nat) (power : Int) : Binary64 :=
  let top := power + (Decimal.digits digits).length
  if digits = 0 ∨ top < -330 then zero
  else if 310 < top then infinity
  else ofRatio (digits * Nat.pow 10 power.toNat) (Nat.pow 10 (-power).toNat)

/-- Digits with a point or without one, and an exponent behind them or none. -/
def ofDigits? (cs : List Char) : Option Binary64 := do
  let (mantissa, power) := Decimal.cutAt (fun c => c == 'e' || c == 'E') cs
  let (whole, fraction) := Decimal.cutAt (· == '.') mantissa
  let fraction := fraction.getD []
  let digits ← Decimal.natural? (whole ++ fraction)
  let power ← power.elim (some 0) Decimal.signed?
  some (ofDecimal digits (power - fraction.length))

def ofWord? (word : List Char) : Option Binary64 :=
  let (negative, cs) := Decimal.splitSign word
  let size :=
    match cs.map Char.toLower with
    | ['i', 'n', 'f'] | ['i', 'n', 'f', 'i', 'n', 'i', 't', 'y'] => some infinity
    | ['n', 'a', 'n'] => some notANumber
    | _ => ofDigits? cs
  size.map fun x => if negative then x.negate else x

def ratio (x : Binary64) : Nat × Nat := (x.significand * Nat.pow 2 x.scale, Nat.pow 2 1074)

def times (x y : Binary64) : Binary64 :=
  ofRatio (x.ratio.1 * y.ratio.1) (x.ratio.2 * y.ratio.2)

def dividedBy (x y : Binary64) : Binary64 :=
  ofRatio (x.ratio.1 * y.ratio.2) (x.ratio.2 * y.ratio.1)

/-- The nearest whole number that is not negative and not above `most`; a half goes up. -/
def toNatUpTo (most : Nat) (x : Binary64) : Nat :=
  if x.exponent = 2047 ∧ x.fraction ≠ 0 ∨ x.isNegative then 0
  else if x.exponent = 2047 then most
  else min most ((2 * x.significand * Nat.pow 2 x.scale + Nat.pow 2 1074) / Nat.pow 2 1075)

structure Shortest where
  digits : Nat
  power : Int

/-- Of the two multiples of `10 ^ power` around a number's size, the nearer of those that read back;
the upper one when both are equally near. The size is in quarters of the last place, so that the
halves to the neighbours are whole. -/
def onGrid? (x : Binary64) (power : Int) : Option Shortest :=
  let unit := Nat.pow 2 x.scale * Nat.pow 10 (-power).toNat
  let grid := Nat.pow 2 1076 * Nat.pow 10 power.toNat
  let size := 4 * x.significand * unit
  let below := (if x.fraction = 0 ∧ 1 < x.exponent then 1 else 2) * unit
  let above := 2 * unit
  let ends := x.significand % 2 == 0
  let c := size / grid
  let low := size - c * grid
  let high := (c + 1) * grid - size
  let lowReads := 0 < c ∧ (low < below ∨ ends ∧ low = below)
  let highReads := high < above ∨ ends ∧ high = above
  if lowReads ∧ (¬highReads ∨ low < high) then some ⟨c, power⟩
  else if highReads then some ⟨c + 1, power⟩
  else none

/-- The shortest decimal that reads back as the size of the number, which is not zero. -/
def shortest (x : Binary64) : Shortest :=
  ((List.range 1400).findSome? fun i : Nat => x.onGrid? (310 - (i : Int))).getD ⟨0, 0⟩

def Shortest.text (s : Shortest) : List Char :=
  let places := (-s.power).toNat
  if places = 0 then Decimal.digits s.digits ++ List.replicate s.power.toNat '0'
  else
    let ds := Decimal.padded (places + 1) s.digits
    ds.take (ds.length - places) ++ '.' :: ds.drop (ds.length - places)

def text (x : Binary64) : String :=
  let sign := if x.isNegative then "-" else ""
  if x.exponent = 2047 then if x.fraction = 0 then sign ++ "inf" else "NaN"
  else if x.significand = 0 then sign ++ "0"
  else sign ++ String.ofList x.shortest.text

end Binary64
end MiningClient
