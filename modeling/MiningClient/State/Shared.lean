import MiningClient.State.Observable

namespace MiningClient

def Observable.isLive {α : Type} (o : Observable α) (id : Nat) : Bool :=
  o.subscriptions.any fun s => s.id == id && s.live

/-- An observable in the hands of a program, with any number of handles and subscriptions. Nothing can
be done through a handle that was closed or a subscription that was dropped. -/
structure Shared (α : Type) where
  cell : Observable α
  handles : List Nat := [0]
  nextHandle : Nat := 1

namespace Shared
variable {α : Type}

inductive HandleUse (α : Type)
  | get
  | set (a : α)
  | update (f : α → α)
  | updateIf (f : α → Option α)
  | subscribe
  | count
  | clone
  | close

/-- To receive and to ask for the next of a stream is the same. -/
inductive SubscriptionUse
  | tryReceive
  | receive
  | next
  | unsubscribe

inductive Action (α : Type)
  | handle (n : Nat) (use : HandleUse α)
  | subscription (id : Nat) (use : SubscriptionUse)

inductive Output (α : Type)
  | refused
  | done
  | value (a : α)
  | published (accepted : Bool)
  | subscribed (id : Nat)
  | counted (n : Nat)
  | opened (n : Nat)
  | tried (a : Option α)
  | received (r : Received α)
  deriving DecidableEq, Repr

/-- With one handle, the number 0, and without subscriptions. -/
def start (a : α) : Shared α := { cell := { value := a } }

def onHandle (s : Shared α) (n : Nat) : HandleUse α → Output α × Shared α
  | .get => (.value s.cell.value, s)
  | .set a => (.done, { s with cell := s.cell.publish a })
  | .update f => (.done, { s with cell := s.cell.update f })
  | .updateIf f =>
    let (accepted, cell) := s.cell.updateIf f
    (.published accepted, { s with cell })
  | .subscribe =>
    let (id, cell) := s.cell.subscribe
    (.subscribed id, { s with cell })
  | .count => (.counted s.cell.count, s)
  | .clone =>
    (.opened s.nextHandle,
      { cell := s.cell.addHandle
        handles := s.handles ++ [s.nextHandle]
        nextHandle := s.nextHandle + 1 })
  | .close => (.done, { s with cell := s.cell.dropHandle, handles := s.handles.erase n })

def onSubscription (s : Shared α) (id : Nat) : SubscriptionUse → Output α × Shared α
  | .tryReceive =>
    let (a, cell) := s.cell.tryReceive id
    (.tried a, { s with cell })
  | .receive | .next =>
    let (r, cell) := s.cell.receive id
    (.received r, { s with cell })
  | .unsubscribe => (.done, { s with cell := s.cell.unsubscribe id })

def step (s : Shared α) : Action α → Output α × Shared α
  | .handle n use => if n ∈ s.handles then s.onHandle n use else (.refused, s)
  | .subscription id use => if s.cell.isLive id then s.onSubscription id use else (.refused, s)

abbrev Entry (α : Type) := Action α × Output α

def run (s : Shared α) : List (Action α) → List (Entry α) × Shared α
  | [] => ([], s)
  | a :: actions =>
    let (out, s) := s.step a
    let (log, s) := s.run actions
    ((a, out) :: log, s)

end Shared
end MiningClient
