import MiningClient.Number.Single
import MiningClient.Text.Utf8
import MiningClient.Wire.Key

namespace MiningClient.Wire

/-- How a field of type `β` stands on the wire. `merge` reads one occurrence after its key and
combines it with the value so far; its first argument is how deep messages may still nest. -/
structure Codec (β : Type) where
  initial : β
  write : Nat → β → Bytes
  merge : Nat → WireType → β → Bytes → Except Fault (β × Bytes)

def expect (actual expected : WireType) : Except Cause Unit :=
  if actual = expected then .ok () else .error (.unexpectedWireType actual expected)

def readDelimited (bs : Bytes) : Except Cause (Bytes × Bytes) :=
  match readVarint bs with
  | .error e => .error e
  | .ok (length, rest) => takeBytes length rest

def writeDelimited (number : Nat) (payload : Bytes) : Bytes :=
  Key.write ⟨number, .lengthDelimited⟩ ++ Varint.write payload.length ++ payload

namespace Codec

/-- A field of one value, with the wire type, the value's text on the wire and its reader. A value at
its default is not written; a value that comes again replaces the earlier one. -/
def scalar {β : Type} [DecidableEq β] (initial : β) (wireType : WireType) (isDefault : β → Bool)
    (put : β → Bytes) (get : Bytes → Except Cause (β × Bytes)) : Codec β where
  initial
  write number v := if isDefault v then [] else Key.write ⟨number, wireType⟩ ++ put v
  merge _ actual _ bs :=
    match expect actual wireType with
    | .error e => .error ⟨[], e⟩
    | .ok () => (get bs).mapError fun e => ⟨[], e⟩

def readText (bs : Bytes) : Except Cause (String × Bytes) :=
  match readDelimited bs with
  | .error e => .error e
  | .ok (payload, rest) =>
    match Utf8.decode? payload with
    | some s => .ok (s, rest)
    | none => .error .textNotUtf8

def readSingle : Bytes → Except Cause (Single × Bytes)
  | a :: b :: c :: d :: rest => .ok (⟨Bytes.toWord a b c d⟩, rest)
  | _ => .error .bufferUnderflow

def text : Codec String :=
  scalar "" .lengthDelimited (· == "")
    (fun s => Varint.write (Utf8.encode s).length ++ Utf8.encode s) readText

def single : Codec Single :=
  scalar .zero .thirtyTwoBit Single.isZero (Bytes.ofWord ·.bits) readSingle

def unsigned : Codec UInt32 :=
  scalar 0 .varint (· == 0) (Varint.write ·.toNat)
    fun bs => (readVarint bs).map fun (n, rest) => (.ofNat n, rest)

/-- A negative number is written in 64 bits, two's complement. -/
def signed : Codec Int32 :=
  scalar 0 .varint (· == 0) (fun n => Varint.write (n.toInt % UInt64.size).toNat)
    fun bs => (readVarint bs).map fun (n, rest) => (.ofNat n, rest)

def flag : Codec Bool :=
  scalar false .varint (· == false) (fun b => Varint.write b.toNat)
    fun bs => (readVarint bs).map fun (n, rest) => (n != 0, rest)

end Codec
end MiningClient.Wire
