namespace MiningClient

/-- A follower with the values it has not received yet. -/
structure Subscription (α : Type) where
  id : Nat
  live : Bool := true
  queue : List α
  deriving DecidableEq, Repr

inductive Received (α : Type)
  | value (a : α)
  | pending
  | closed
  deriving DecidableEq, Repr

/-- A value that is only replaced whole. A follower gets the value at the time it subscribes and every
value published after that, in order. A follower that left is dropped at the next publication. -/
structure Observable (α : Type) where
  value : α
  subscriptions : List (Subscription α) := []
  nextId : Nat := 0
  handles : Nat := 1
  deriving DecidableEq, Repr

namespace Observable
variable {α : Type}

def publish (o : Observable α) (a : α) : Observable α :=
  let live := o.subscriptions.filter (·.live)
  { o with value := a, subscriptions := live.map fun s => { s with queue := s.queue ++ [a] } }

def update (o : Observable α) (f : α → α) : Observable α := o.publish (f o.value)

/-- Publishes what `f` makes of the value, unless it declines. -/
def updateIf (o : Observable α) (f : α → Option α) : Bool × Observable α :=
  match f o.value with
  | some a => (true, o.publish a)
  | none => (false, o)

def subscribe (o : Observable α) : Nat × Observable α :=
  (o.nextId,
    { o with
      subscriptions := o.subscriptions ++ [{ id := o.nextId, queue := [o.value] }]
      nextId := o.nextId + 1 })

def unsubscribe (o : Observable α) (id : Nat) : Observable α :=
  let leave (s : Subscription α) := if s.id = id then { s with live := false } else s
  { o with subscriptions := o.subscriptions.map leave }

/-- The followers as of the last publication, and those since. -/
def count (o : Observable α) : Nat := o.subscriptions.length

def queue (o : Observable α) (id : Nat) : List α :=
  ((o.subscriptions.find? (·.id == id)).map (·.queue)).getD []

def setQueue (o : Observable α) (id : Nat) (queue : List α) : Observable α :=
  { o with
    subscriptions := o.subscriptions.map fun s => if s.id = id then { s with queue } else s }

def tryReceive (o : Observable α) (id : Nat) : Option α × Observable α :=
  match o.queue id with
  | [] => (none, o)
  | a :: rest => (some a, o.setQueue id rest)

/-- The next value; without one, whether there may still come one. -/
def receive (o : Observable α) (id : Nat) : Received α × Observable α :=
  match o.tryReceive id with
  | (some a, o) => (.value a, o)
  | (none, o) => (if o.handles = 0 then .closed else .pending, o)

def addHandle (o : Observable α) : Observable α := { o with handles := o.handles + 1 }

def dropHandle (o : Observable α) : Observable α := { o with handles := o.handles - 1 }

end Observable
end MiningClient
