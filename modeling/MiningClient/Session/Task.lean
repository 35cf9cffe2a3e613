import MiningClient.Session.Machine

namespace MiningClient.Session

inductive Task
  | run (id : Nat)
  | load (run : Nat) (place : Place)
  deriving DecidableEq, Repr

/-- What an endpoint answers with, each its own part. -/
structure Payload where
  items : List ItemDescriptor := []
  account : UserAccountInfo := {}
  places : List Location := []
  deriving DecidableEq, Repr

abbrev Reply := Except Error Payload

namespace Machine
variable {σ : Type}

/-- Goes on with a task on the reply to the fetch it waits for. -/
def receive (m : Machine σ) (task : Task) (endpoint : Endpoint) (reply : Reply) :
    Machine σ × List Effect :=
  match task, endpoint with
  | .run id, .items => m.pollRun id (some (reply.map Payload.items)) none
  | .run id, _ => m.pollRun id none (some (reply.map Payload.account))
  | .load run place, _ => m.pollLoad run place (some (reply.map Payload.places))

def isGoing (m : Machine σ) : Task → Bool
  | .run id => m.runs.any (·.id == id)
  | .load run place => m.loads.any (isLoad run place)

end Machine
end MiningClient.Session
