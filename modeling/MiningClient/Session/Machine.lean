import MiningClient.Log
import MiningClient.Session.Core
import MiningClient.Storage.Credentials

namespace MiningClient.Session

inductive Endpoint
  | items
  | account
  | places (place : Place)
  deriving DecidableEq, Repr

abbrev ItemsReply := Except Error (List ItemDescriptor)
abbrev AccountReply := Except Error UserAccountInfo
abbrev PlacesReply := Except Error (List Location)

/-- An initialization that has not ended, with the answers it has. Which answer it looks at first
changes with every poll. -/
structure Run where
  id : Nat
  generation : Nat
  items : Option (List ItemDescriptor) := none
  account : Option UserAccountInfo := none
  accountFirst : Bool := false
  deriving DecidableEq, Repr

inductive Progress
  | waiting (run : Run)
  | failed (e : Error)
  | complete (items : List ItemDescriptor) (account : UserAccountInfo)

def errorOf? {α : Type} : Option (Except Error α) → Option Error
  | some (.error e) => some e
  | _ => none

def valueOf? {α : Type} : Option (Except Error α) → Option α
  | some (.ok a) => some a
  | _ => none

/-- Takes the answers that came. The first failure seen ends the run, answered or not the rest. -/
def Run.poll (run : Run) (items : Option ItemsReply) (account : Option AccountReply) : Progress :=
  let itemsError := if run.items.isSome then none else errorOf? items
  let accountError := if run.account.isSome then none else errorOf? account
  let error := if run.accountFirst then accountError.or itemsError else itemsError.or accountError
  match error with
  | some e => .failed e
  | none =>
    match run.items.or (valueOf? items), run.account.or (valueOf? account) with
    | some items, some account => .complete items account
    | items, account => .waiting { run with items, account, accountFirst := !run.accountFirst }

structure Load where
  run : Nat
  place : Place
  generation : Nat
  started : Bool := false
  deriving DecidableEq, Repr

def Load.key (l : Load) : Nat × Place := (l.run, l.place)

inductive Awaited
  | ready
  | locations
  deriving DecidableEq, Repr

def Awaited.feed : Awaited → Core.Feed
  | ready => .ready
  | locations => .loads

structure Waiter where
  id : Nat
  subscription : Nat
  awaited : Awaited
  deriving DecidableEq, Repr

inductive Ending
  | run (result : Except Error Outcome)
  | ready
  | locations (loads : Loads)

inductive Effect
  | fetched (endpoint : Endpoint)
  | noticed (notice : Notice)
  | finished (task : Nat) (ending : Ending)

structure Machine (σ : Type) where
  core : Core := {}
  credentials : Credentials σ
  runs : List Run := []
  loads : List Load := []
  waiters : List Waiter := []
  nextTask : Nat := 0

namespace Machine
variable {σ : Type}

/-- Goes on with a run that is not among the machine's runs; it is put back if it has to wait. -/
def advance (m : Machine σ) (run : Run) (items : Option ItemsReply)
    (account : Option AccountReply) : Machine σ × List Effect :=
  match run.poll items account with
  | .waiting run => ({ m with runs := m.runs ++ [run] }, [])
  | .failed e =>
    ({ m with core := m.core.fail run.generation e },
      [.noticed (.reported ⟨Report.startup, e⟩), .finished run.id (.run (.error e))])
  | .complete items account =>
    match m.core.publish? run.generation items account with
    | none => (m, [.finished run.id (.run (.ok .discarded))])
    | some core =>
      ({ m with
          core
          loads := m.loads ++
            [{ run := run.id, place := .mine, generation := run.generation },
             { run := run.id, place := .gamble, generation := run.generation }] },
        (GameState.repeatedIds items).map (fun id => .noticed (.repeatedItem id)) ++
          [.finished run.id (.run (.ok .initialized))])

/-- Calls for initialization. The account is not asked for when the item fetch fails at once. -/
def start (m : Machine σ) (items : Option ItemsReply) (account : Option AccountReply) :
    Machine σ × List Effect :=
  let task := m.nextTask
  let m := { m with nextTask := task + 1 }
  match m.core.tryBegin with
  | .error outcome => (m, [.finished task (.run (.ok outcome))])
  | .ok core =>
    let run : Run := { id := task, generation := core.generation }
    let asked := (errorOf? items).isNone
    let (m, effects) := advance { m with core } run items (if asked then account else none)
    (m, .fetched .items :: (if asked then [.fetched .account] else []) ++ effects)

def pollRun (m : Machine σ) (id : Nat) (items : Option ItemsReply)
    (account : Option AccountReply) : Machine σ × List Effect :=
  match m.runs.find? (·.id == id) with
  | none => (m, [])
  | some run => advance { m with runs := m.runs.filter (·.id != id) } run items account

def isLoad (run : Nat) (place : Place) (l : Load) : Bool := l.run == run && l.place == place

/-- Goes on with a load of places; the first time, the places are asked for. -/
def pollLoad (m : Machine σ) (run : Nat) (place : Place) (reply : Option PlacesReply) :
    Machine σ × List Effect :=
  match m.loads.find? (isLoad run place) with
  | none => (m, [])
  | some l =>
    let asked := if l.started then [] else [.fetched (.places place)]
    match reply with
    | none =>
      let begin (l : Load) := if isLoad run place l then { l with started := true } else l
      ({ m with loads := m.loads.map begin }, asked)
    | some result =>
      let m := { m with loads := m.loads.filter fun l => !isLoad run place l }
      match m.core.settle? l.generation place result with
      | none => (m, asked)
      | some core =>
        ({ m with core }, asked ++
          match result with
          | .ok _ => []
          | .error e => [.noticed (.reported ⟨Report.loading place, e⟩)])

/-- Ends the session and forgets the token. Work going on is not stopped. -/
def reset [Slot σ] (m : Machine σ) : Except Error Unit × Machine σ :=
  let (result, credentials) := m.credentials.clear
  (result, { m with core := m.core.reset, credentials })

/-- The first awaited value among those received; without one, all are dropped. -/
def seek {α : Type} (o : Observable α) (subscription : Nat) (p : α → Bool) :
    Option α × Observable α :=
  match (o.queue subscription).find? p with
  | some a => (some a, o.unsubscribe subscription)
  | none => (none, o.setQueue subscription [])

def pollWaiter (m : Machine σ) (id : Nat) : Machine σ × List Effect :=
  match m.waiters.find? (·.id == id) with
  | none => (m, [])
  | some w =>
    let ended := { m with waiters := m.waiters.filter (·.id != id) }
    match w.awaited with
    | .ready =>
      match seek m.core.ready w.subscription (· == true) with
      | (some _, ready) => ({ ended with core := { m.core with ready } }, [.finished id .ready])
      | (none, ready) => ({ m with core := { m.core with ready } }, [])
    | .locations =>
      match seek m.core.loads w.subscription Loads.isSettled with
      | (some l, loads) =>
        ({ ended with core := { m.core with loads } }, [.finished id (.locations l)])
      | (none, loads) => ({ m with core := { m.core with loads } }, [])

/-- Subscribes a task, which looks at the current value at once. -/
def await (m : Machine σ) (awaited : Awaited) : Machine σ × List Effect :=
  let id := m.nextTask
  let (subscription, core) := m.core.subscribe awaited.feed
  let waiters := m.waiters ++ [⟨id, subscription, awaited⟩]
  pollWaiter { m with core, waiters, nextTask := id + 1 } id

def dropWaiter (m : Machine σ) (id : Nat) : Machine σ :=
  match m.waiters.find? (·.id == id) with
  | none => m
  | some w =>
    { m with
      core := m.core.unsubscribe w.subscription w.awaited.feed
      waiters := m.waiters.filter (·.id != id) }

def follow (m : Machine σ) (feed : Core.Feed) : Machine σ :=
  { m with core := (m.core.subscribe feed).2 }

def isWatched (m : Machine σ) (feed : Core.Feed) (id : Nat) : Bool :=
  m.waiters.any fun w => w.awaited.feed == feed && w.subscription == id

/-- A follower leaves. What a waiting task follows is its own to leave. -/
def leave (m : Machine σ) (feed : Core.Feed) (id : Nat) : Machine σ :=
  if m.isWatched feed id then m else { m with core := m.core.unsubscribe id feed }

end Machine

/-- What can happen to a machine. Calls and polls bring the replies that have come by then. -/
inductive Event
  | start (items : Option ItemsReply) (account : Option AccountReply)
  | pollRun (id : Nat) (items : Option ItemsReply) (account : Option AccountReply)
  | pollLoad (run : Nat) (place : Place) (reply : Option PlacesReply)
  | reset
  | await (awaited : Awaited)
  | pollWaiter (id : Nat)
  | dropWaiter (id : Nat)
  | follow (feed : Core.Feed)
  | leave (feed : Core.Feed) (id : Nat)

def Machine.step {σ : Type} [Slot σ] (m : Machine σ) : Event → Machine σ × List Effect
  | .start items account => m.start items account
  | .pollRun id items account => m.pollRun id items account
  | .pollLoad run place reply => m.pollLoad run place reply
  | .reset => (m.reset.2, [])
  | .await awaited => m.await awaited
  | .pollWaiter id => m.pollWaiter id
  | .dropWaiter id => (m.dropWaiter id, [])
  | .follow feed => (m.follow feed, [])
  | .leave feed id => (m.leave feed id, [])

end MiningClient.Session
