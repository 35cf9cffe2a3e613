import MiningClient.Wire.Fault
import MiningClient.Wire.Varint

namespace MiningClient.Wire

structure Key where
  number : Nat
  wireType : WireType
  deriving DecidableEq, Repr

def readVarint (bs : Bytes) : Except Cause (Nat × Bytes) :=
  match Varint.read bs with
  | some r => .ok r
  | none => .error .invalidVarint

def takeBytes (n : Nat) (bs : Bytes) : Except Cause (Bytes × Bytes) :=
  if bs.length < n then .error .bufferUnderflow else .ok (bs.take n, bs.drop n)

namespace Key

def write (key : Key) : Bytes := Varint.write (key.number * 8 + key.wireType.number)

/-- A key has 32 bits, the low three of them for the wire type, and a field number above zero. -/
def read (bs : Bytes) : Except Cause (Key × Bytes) :=
  match readVarint bs with
  | .error e => .error e
  | .ok (key, rest) =>
    if UInt32.size ≤ key then .error (.keyTooLarge key)
    else
      match WireType.ofNumber? (key % 8) with
      | none => .error (.unknownWireType (key % 8))
      | some wireType =>
        if key / 8 = 0 then .error .zeroTag else .ok (⟨key / 8, wireType⟩, rest)

theorem read_write (key : Key) (rest : Bytes) (low : 0 < key.number)
    (high : key.number < 0x20000000) : read (key.write ++ rest) = .ok (key, rest) := by
  have hw : key.wireType.number < 8 := by cases key.wireType <;> decide
  have hd : (key.number * 8 + key.wireType.number) / 8 = key.number := by omega
  have hm : (key.number * 8 + key.wireType.number) % 8 = key.wireType.number := by omega
  have hr : readVarint (key.write ++ rest) = .ok (key.number * 8 + key.wireType.number, rest) := by
    simp only [readVarint, write]
    rw [Varint.read_write _ rest (by simp only [UInt64.size]; omega)]
  simp only [read, hr, hd, hm, WireType.ofNumber?_number]
  rw [if_neg (by simp only [UInt32.size]; omega), if_neg (by omega)]

end Key

/-- Steps over the fields of group `number` and over its end, with `skip` for one field. -/
def skipGroup (skip : Key → Bytes → Except Cause Bytes) (number : Nat) :
    Nat → Bytes → Except Cause Bytes
  | 0, _ => .error .invalidVarint
  | fuel + 1, bs =>
    match Key.read bs with
    | .error e => .error e
    | .ok (key, rest) =>
      if key.wireType = .endGroup then
        if key.number = number then .ok rest else .error .unexpectedEndGroup
      else
        match skip key rest with
        | .error e => .error e
        | .ok rest => skipGroup skip number fuel rest

/-- Steps over the field that follows `key`, with at most `depth` groups inside one another. -/
def skipField : Nat → Key → Bytes → Except Cause Bytes
  | 0, _, _ => .error .tooDeep
  | depth + 1, key, bs =>
    match key.wireType with
    | .varint => (readVarint bs).map (·.2)
    | .thirtyTwoBit => (takeBytes 4 bs).map (·.2)
    | .sixtyFourBit => (takeBytes 8 bs).map (·.2)
    | .lengthDelimited =>
      match readVarint bs with
      | .error e => .error e
      | .ok (length, rest) => (takeBytes length rest).map (·.2)
    | .startGroup => skipGroup (skipField depth) key.number (bs.length + 1) bs
    | .endGroup => .error .unexpectedEndGroup

end MiningClient.Wire
