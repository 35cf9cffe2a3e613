import MiningClient.Rpc.Client
import MiningClient.Session.Task

namespace MiningClient
open Session

/-- What the network answers to a request, and after how long; it may never answer. -/
structure Answer where
  delay : Option Nat := some 0
  exchange : Exchange

/-- The answer to the last of the requests made so far. -/
abbrev Network := List Request → Answer

inductive Job
  | start
  | go (task : Task)
  deriving DecidableEq, Repr

/-- What a fetch brings, and what there is to log about it. -/
abbrev Fetched := Except Error (Payload × List Notice)

structure Delivery where
  task : Task
  endpoint : Endpoint
  due : Nat
  fetched : Fetched

/-- The client at work on a network, in a time of its own that is counted in milliseconds. One task runs
at a time. Tasks that can go on queue up and run first in, first out, whenever the main one waits. -/
structure App (σ : Type) where
  machine : Session.Machine σ
  network : Network
  timeout : Option Nat := none
  /-- How long to wait for the places. -/
  patience : Nat
  now : Nat := 0
  requests : List Request := []
  queue : List Job := []
  deliveries : List Delivery := []
  endings : List (Nat × Ending) := []
  log : List Notice := []

namespace App
variable {σ : Type}

def fetch (c : Client) : Endpoint → Call (Payload × List Notice)
  | .items => c.getItemDescriptors.map fun r => r.map fun r => ({ items := r.itemDescriptors }, [])
  | .account => c.getAccount.map fun r => r.bind fun r =>
    match r.userAccountInfo with
    | some account => .ok ({ account }, [])
    | none => .error (.protocol .accountMissing)
  | .places .mine => c.getMineLocations.map fun r => r.map fun r =>
    ({ places := Location.ofMine r.mineLocations }, Location.skippedMine r.mineLocations)
  | .places .gamble => c.getGambleLocations.map fun r => r.map fun r =>
    ({ places := Location.ofGamble r.gambleLocations }, Location.skippedGamble r.gambleLocations)

def client (w : App σ) : Client := ⟨w.machine.credentials.token, w.timeout⟩

def deliver (w : App σ) (fetched : Fetched) : Reply × App σ :=
  match fetched with
  | .ok (payload, notices) => (.ok payload, { w with log := w.log ++ notices })
  | .error e => (.error e, w)

/-- Begins a fetch: its reply, if there is one at once. -/
def ask (w : App σ) (task : Task) (endpoint : Endpoint) : Option Reply × App σ :=
  match fetch w.client endpoint with
  | .refused e => (some (.error e), w)
  | .sent request finish =>
    let w := { w with requests := w.requests ++ [request] }
    let answer := w.network w.requests
    match answer.delay with
    | none => (none, w)
    | some 0 =>
      let (reply, w) := w.deliver (finish answer.exchange)
      (some reply, w)
    | some delay =>
      let delivery := ⟨task, endpoint, w.now + delay, finish answer.exchange⟩
      (none, { w with deliveries := w.deliveries ++ [delivery] })

def hasArrived (w : App σ) (task : Task) (endpoint : Endpoint) (d : Delivery) : Bool :=
  d.task == task && d.endpoint == endpoint && d.due ≤ w.now

/-- The reply to a fetch that was begun earlier, if it is there now. -/
def collect (w : App σ) (task : Task) (endpoint : Endpoint) : Option Reply × App σ :=
  match w.deliveries.find? (w.hasArrived task endpoint) with
  | none => (none, w)
  | some d =>
    let left := w.deliveries.filter fun d => !w.hasArrived task endpoint d
    let (reply, w) := { w with deliveries := left }.deliver d.fetched
    (some reply, w)

/-- Notes what a step of the machine does. An initialization that is done spawns its two loads. -/
def note (w : App σ) : Effect → App σ
  | .fetched _ => w
  | .noticed notice => { w with log := w.log ++ [notice] }
  | .finished task ending =>
    { w with
      endings := w.endings ++ [(task, ending)]
      queue := w.queue ++
        match ending with
        | .run (.ok .initialized) => [.go (.load task .mine), .go (.load task .gamble)]
        | _ => [] }

def perform (w : App σ) (step : Machine σ × List Effect) : App σ :=
  step.2.foldl note { w with machine := step.1 }

def start (w : App σ) : App σ :=
  if w.machine.core.mayBegin then
    let task := Task.run w.machine.nextTask
    let (items, w) := w.ask task .items
    let (account, w) := if (errorOf? items).isSome then (none, w) else w.ask task .account
    w.perform
      (w.machine.start (items.map (·.map Payload.items)) (account.map (·.map Payload.account)))
  else w.perform (w.machine.start none none)

def spawnStart (w : App σ) : App σ := { w with queue := w.queue ++ [.start] }

/-- Goes on with a task on the replies that are there. -/
def go (w : App σ) : Task → App σ
  | .run id =>
    let (items, w) := w.collect (.run id) .items
    let (account, w) := w.collect (.run id) .account
    w.perform
      (w.machine.pollRun id (items.map (·.map Payload.items)) (account.map (·.map Payload.account)))
  | .load run place =>
    let started := w.machine.loads.any fun l => Machine.isLoad run place l && l.started
    let (reply, w) :=
      if started then w.collect (.load run place) (.places place)
      else w.ask (.load run place) (.places place)
    w.perform (w.machine.pollLoad run place (reply.map (·.map Payload.places)))

def runJob (w : App σ) : Job → App σ
  | .start => w.start
  | .go task => w.go task

def runQueue (w : App σ) : App σ := w.queue.foldl runJob { w with queue := [] }

/-- Runs jobs until none is left. Only initializations queue new jobs, which are loads, and loads
queue none. -/
def drain (w : App σ) : App σ := w.runQueue.runQueue

end App
end MiningClient
