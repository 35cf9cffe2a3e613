import MiningClient.Number.Decimal

namespace MiningClient.Wire

inductive WireType
  | varint | sixtyFourBit | lengthDelimited | startGroup | endGroup | thirtyTwoBit
  deriving DecidableEq, Repr

namespace WireType

def number : WireType → Nat
  | varint => 0
  | sixtyFourBit => 1
  | lengthDelimited => 2
  | startGroup => 3
  | endGroup => 4
  | thirtyTwoBit => 5

def ofNumber? : Nat → Option WireType
  | 0 => some varint
  | 1 => some sixtyFourBit
  | 2 => some lengthDelimited
  | 3 => some startGroup
  | 4 => some endGroup
  | 5 => some thirtyTwoBit
  | _ => none

theorem ofNumber?_number (w : WireType) : ofNumber? w.number = some w := by
  cases w <;> rfl

def text : WireType → String
  | varint => "Varint"
  | sixtyFourBit => "SixtyFourBit"
  | lengthDelimited => "LengthDelimited"
  | startGroup => "StartGroup"
  | endGroup => "EndGroup"
  | thirtyTwoBit => "ThirtyTwoBit"

end WireType

inductive Cause
  | bufferUnderflow
  | invalidVarint
  | unexpectedWireType (actual expected : WireType)
  | unknownWireType (number : Nat)
  | zeroTag
  | keyTooLarge (key : Nat)
  | textNotUtf8
  | unexpectedEndGroup
  | lengthExceeded
  | tooDeep
  deriving DecidableEq, Repr

def Cause.text : Cause → String
  | bufferUnderflow => "buffer underflow"
  | invalidVarint => "invalid varint"
  | unexpectedWireType actual expected =>
    "invalid wire type: " ++ actual.text ++ " (expected " ++ expected.text ++ ")"
  | unknownWireType number => "invalid wire type value: " ++ Decimal.text number
  | zeroTag => "invalid tag value: 0"
  | keyTooLarge key => "invalid key value: " ++ Decimal.text key
  | textNotUtf8 => "invalid string value: data is not UTF-8 encoded"
  | unexpectedEndGroup => "unexpected end group tag"
  | lengthExceeded => "delimited length exceeded"
  | tooDeep => "recursion limit reached"

structure FieldPath where
  message : String
  field : String
  deriving DecidableEq, Repr

/-- Why bytes are no message, with the fields it happened in, innermost first. -/
structure Fault where
  path : List FieldPath
  cause : Cause
  deriving DecidableEq, Repr

namespace Fault

def within (message field : String) (fault : Fault) : Fault :=
  { fault with path := fault.path ++ [⟨message, field⟩] }

def text (fault : Fault) : String :=
  "failed to decode Protobuf message: " ++
    String.join (fault.path.map fun p => p.message ++ "." ++ p.field ++ ": ") ++ fault.cause.text

end Fault
end MiningClient.Wire
