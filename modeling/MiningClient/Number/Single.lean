import MiningClient.Number.Decimal
import MiningClient.Number.Rounding

namespace MiningClient

structure Single where
  bits : UInt32
  deriving DecidableEq, Repr

namespace Single

def zero : Single := ⟨0⟩

def isNegative (x : Single) : Bool := 0x80000000 ≤ x.bits.toNat

def exponent (x : Single) : Nat := x.bits.toNat / 0x800000 % 0x100

def fraction (x : Single) : Nat := x.bits.toNat % 0x800000

/-- Zero of either sign. -/
def isZero (x : Single) : Bool := x.bits.toNat % 0x80000000 == 0

/-- The size of a finite number in units of `2 ^ -149`. -/
def units (x : Single) : Nat :=
  if x.exponent = 0 then x.fraction else (x.fraction + 0x800000) * Nat.pow 2 (x.exponent - 1)

/-- The size of a finite number in hundredths, rounded; a half goes to the even neighbour. -/
def hundredths (x : Single) : Nat := divHalfEven (x.units * 100) (Nat.pow 2 149)

def text (x : Single) : String :=
  if x.exponent = 255 then
    if x.fraction = 0 then (if x.isNegative then "-inf" else "inf") else "NaN"
  else
    (if x.isNegative then "-" else "") ++
      Decimal.text (x.hundredths / 100) ++ "." ++
        String.ofList (Decimal.padded 2 (x.hundredths % 100))

end Single
end MiningClient
