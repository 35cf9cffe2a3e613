import MiningClient.Session.Task

namespace MiningClient.Session

structure ReplySlot where
  endpoint : Endpoint
  name : String
  reply : Option Reply

structure OpenFetch where
  task : Task
  endpoint : Endpoint
  name : String
  deriving DecidableEq, Repr

def unexpectedCall : Error := .protocol (.other "unexpected call")

def replyDropped : Error := .protocol (.other "reply dropped")

/-- A session whose fetches are answered from slots that are prepared in advance. A fetch takes the
front slot of its endpoint and waits until that slot is replied to. After every step all tasks run until
they wait. -/
structure Rehearsal (σ : Type) where
  machine : Machine σ
  slots : List ReplySlot := []
  fetches : List OpenFetch := []

namespace Rehearsal
variable {σ : Type}

def takeSlot (endpoint : Endpoint) : List ReplySlot → Option (ReplySlot × List ReplySlot)
  | [] => none
  | s :: rest =>
    if s.endpoint = endpoint then some (s, rest)
    else (takeSlot endpoint rest).map fun (found, rest) => (found, s :: rest)

/-- A fetch by a task: its reply, if it is there already. -/
def ask (r : Rehearsal σ) (task : Task) (endpoint : Endpoint) : Option Reply × Rehearsal σ :=
  match takeSlot endpoint r.slots with
  | none => (some (.error unexpectedCall), r)
  | some (slot, slots) =>
    match slot.reply with
    | some reply => (some reply, { r with slots })
    | none => (none, { r with slots, fetches := r.fetches ++ [⟨task, endpoint, slot.name⟩] })

def withMachine (r : Rehearsal σ) (step : Machine σ × List Effect) : Rehearsal σ × List Effect :=
  ({ r with machine := step.1 }, step.2)

def startLoad (r : Rehearsal σ) (l : Load) : Rehearsal σ × List Effect :=
  let (reply, r) := r.ask (.load l.run l.place) (.places l.place)
  r.withMachine (r.machine.pollLoad l.run l.place (reply.map (·.map Payload.places)))

def collect {α : Type} (step : Rehearsal σ → α → Rehearsal σ × List Effect) (r : Rehearsal σ)
    (xs : List α) : Rehearsal σ × List Effect :=
  xs.foldl (fun (r, effects) x => let (r, more) := step r x; (r, effects ++ more)) (r, [])

/-- Starts the loads that have not started, then lets the waiting tasks look. -/
def settle (r : Rehearsal σ) : Rehearsal σ × List Effect :=
  let (r, started) := collect startLoad r (r.machine.loads.filter fun l => !l.started)
  let look (r : Rehearsal σ) (w : Waiter) := r.withMachine (r.machine.pollWaiter w.id)
  let (r, woken) := collect look r r.machine.waiters
  (r, started ++ woken)

def thenSettle (step : Rehearsal σ × List Effect) : Rehearsal σ × List Effect :=
  let (r, more) := step.1.settle
  (r, step.2 ++ more)

def start (r : Rehearsal σ) : Rehearsal σ × List Effect :=
  thenSettle <|
    if r.machine.core.mayBegin then
      let task := Task.run r.machine.nextTask
      let (items, r) := r.ask task .items
      let (account, r) := if (errorOf? items).isSome then (none, r) else r.ask task .account
      r.withMachine
        (r.machine.start (items.map (·.map Payload.items)) (account.map (·.map Payload.account)))
    else r.withMachine (r.machine.start none none)

def await (r : Rehearsal σ) (awaited : Awaited) : Rehearsal σ × List Effect :=
  thenSettle (r.withMachine (r.machine.await awaited))

def reset [Slot σ] (r : Rehearsal σ) : Except Error Unit × Rehearsal σ × List Effect :=
  let (result, machine) := r.machine.reset
  (result, thenSettle ({ r with machine }, []))

def endpointOf? (r : Rehearsal σ) (name : String) : Option Endpoint :=
  ((r.fetches.find? (·.name == name)).map (·.endpoint)).or
    ((r.slots.find? fun s => s.name == name && s.reply.isNone).map (·.endpoint))

/-- Replies to the slot of a name: whether anyone can still receive it, nothing when no slot of the
name is open. -/
def reply (r : Rehearsal σ) (name : String) (reply : Reply) :
    Option Bool × Rehearsal σ × List Effect :=
  match r.fetches.find? (·.name == name) with
  | some f =>
    let r := { r with fetches := r.fetches.filter (·.name != name) }
    if r.machine.isGoing f.task then
      (some true, thenSettle (r.withMachine (r.machine.receive f.task f.endpoint reply)))
    else (some false, r, [])
  | none =>
    if r.slots.any fun s => s.name == name && s.reply.isNone then
      (some true,
        { r with slots := r.slots.map fun s =>
            if s.name == name && s.reply.isNone then { s with reply := some reply } else s },
        [])
    else (none, r, [])

def drop (r : Rehearsal σ) (name : String) : Rehearsal σ × List Effect :=
  (r.reply name (.error replyDropped)).2

def queue (r : Rehearsal σ) (endpoint : Endpoint) (reply : Reply) : Rehearsal σ :=
  { r with slots := r.slots ++ [⟨endpoint, "", some reply⟩] }

/-- Adds a slot to reply to later. A slot that had the name is given up. -/
def hold (r : Rehearsal σ) (endpoint : Endpoint) (name : String) : Rehearsal σ × List Effect :=
  let (r, effects) := r.drop name
  ({ r with slots := r.slots ++ [⟨endpoint, name, none⟩] }, effects)

end Rehearsal
end MiningClient.Session
