namespace MiningClient

abbrev Bytes := List UInt8

namespace Bytes

/-- Four bytes, most significant first, of the low 32 bits of `n`. -/
def ofLength (n : Nat) : Bytes :=
  [UInt8.ofNat (n / 0x1000000), UInt8.ofNat (n / 0x10000), UInt8.ofNat (n / 0x100), UInt8.ofNat n]

def toLength (a b c d : UInt8) : Nat :=
  ((a.toNat * 256 + b.toNat) * 256 + c.toNat) * 256 + d.toNat

theorem toLength_ofLength (n : Nat) (h : n < UInt32.size) :
    toLength (.ofNat (n / 0x1000000)) (.ofNat (n / 0x10000)) (.ofNat (n / 0x100)) (.ofNat n) =
      n := by
  simp only [toLength, UInt8.toNat_ofNat', UInt32.size] at *
  omega

/-- Four bytes, least significant first. -/
def ofWord (w : UInt32) : Bytes :=
  let n := w.toNat
  [UInt8.ofNat n, UInt8.ofNat (n / 0x100), UInt8.ofNat (n / 0x10000), UInt8.ofNat (n / 0x1000000)]

def toWord (a b c d : UInt8) : UInt32 := UInt32.ofNat (toLength d c b a)

theorem toWord_ofWord (w : UInt32) :
    toWord (.ofNat w.toNat) (.ofNat (w.toNat / 0x100)) (.ofNat (w.toNat / 0x10000))
      (.ofNat (w.toNat / 0x1000000)) = w := by
  rw [toWord, toLength_ofLength _ w.toNat_lt]
  exact UInt32.ofNat_toNat

end Bytes
end MiningClient
