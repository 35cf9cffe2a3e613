import MiningClient.Bytes

namespace MiningClient.Wire.Varint

def write (n : Nat) : Bytes :=
  if n < 128 then [UInt8.ofNat n] else UInt8.ofNat (n % 128 + 128) :: write (n / 128)

/-- Reads a number of at most `left` bytes, the last of which may hold one bit. -/
def readWithin : Nat → Bytes → Option (Nat × Bytes)
  | 0, _ => none
  | _ + 1, [] => none
  | left + 1, b :: rest =>
    if b.toNat < 128 then
      if left = 0 ∧ 2 ≤ b.toNat then none else some (b.toNat, rest)
    else
      (readWithin left rest).map fun (n, rest) => (b.toNat - 128 + 128 * n, rest)

def read (bs : Bytes) : Option (Nat × Bytes) := readWithin 10 bs

/-- What `left` bytes and one bit more can hold is below this. -/
def limit : Nat → Nat
  | 0 => 2
  | left + 1 => 128 * limit left

theorem readWithin_write (left n : Nat) (rest : Bytes) (h : n < limit left) :
    readWithin (left + 1) (write n ++ rest) = some (n, rest) := by
  induction left generalizing n with
  | zero =>
    rw [limit] at h
    have hn : n < 128 := by omega
    have hb : (UInt8.ofNat n).toNat = n := by simp; omega
    rw [write, if_pos hn]
    simp only [List.singleton_append, readWithin, hb]
    rw [if_pos hn, if_neg (by omega)]
  | succ left ih =>
    rw [limit] at h
    rw [write]
    split
    · next hn =>
      have hb : (UInt8.ofNat n).toNat = n := by simp; omega
      simp only [List.singleton_append, readWithin, hb]
      rw [if_pos hn, if_neg (by omega)]
    · next hn =>
      have hb : (UInt8.ofNat (n % 128 + 128)).toNat = n % 128 + 128 := by simp; omega
      rw [List.cons_append, readWithin, hb, if_neg (by omega), ih (n / 128) (by omega)]
      simp only [Option.map_some, Option.some.injEq, Prod.mk.injEq, and_true]
      omega

theorem read_write (n : Nat) (rest : Bytes) (h : n < UInt64.size) :
    read (write n ++ rest) = some (n, rest) :=
  readWithin_write 9 n rest h

end MiningClient.Wire.Varint
