import MiningClient.Number.Decimal
import MiningClient.Text.Blank

namespace MiningClient

inductive Code
  | ok | cancelled | unknown | invalidArgument | deadlineExceeded | notFound | alreadyExists
  | permissionDenied | resourceExhausted | failedPrecondition | aborted | outOfRange
  | unimplemented | internal | unavailable | dataLoss | unauthenticated
  deriving DecidableEq, Repr

namespace Code

def ofNumber : Int → Code
  | 0 => ok
  | 1 => cancelled
  | 2 => unknown
  | 3 => invalidArgument
  | 4 => deadlineExceeded
  | 5 => notFound
  | 6 => alreadyExists
  | 7 => permissionDenied
  | 8 => resourceExhausted
  | 9 => failedPrecondition
  | 10 => aborted
  | 11 => outOfRange
  | 12 => unimplemented
  | 13 => internal
  | 14 => unavailable
  | 15 => dataLoss
  | 16 => unauthenticated
  | _ => unknown

/-- Reads a signed decimal number with white space around it. What names no code is `unknown`. -/
def ofText (s : String) : Code :=
  match Decimal.signed? (Text.trim s).toList with
  | some n => ofNumber n
  | none => unknown

def ofHttpStatus : Nat → Code
  | 400 => internal
  | 401 => unauthenticated
  | 403 => permissionDenied
  | 404 => unimplemented
  | 429 | 502 | 503 | 504 => unavailable
  | _ => unknown

def text : Code → String
  | ok => "ok"
  | cancelled => "cancelled"
  | unknown => "unknown"
  | invalidArgument => "invalid argument"
  | deadlineExceeded => "deadline exceeded"
  | notFound => "not found"
  | alreadyExists => "already exists"
  | permissionDenied => "permission denied"
  | resourceExhausted => "resource exhausted"
  | failedPrecondition => "failed precondition"
  | aborted => "aborted"
  | outOfRange => "out of range"
  | unimplemented => "unimplemented"
  | internal => "internal"
  | unavailable => "unavailable"
  | dataLoss => "data loss"
  | unauthenticated => "unauthenticated"

theorem ofHttpStatus_ne_ok (status : Nat) : ofHttpStatus status ≠ ok := by
  unfold ofHttpStatus
  split <;> decide

end Code
end MiningClient
