import MiningClient.Error
import MiningClient.State.GameState
import MiningClient.State.Observable

namespace MiningClient.Session

inductive Phase
  | uninitialized
  | initializing
  | ready
  | failed (message : String)
  deriving DecidableEq, Repr

/-- How a call for initialization ends when no fetch fails. -/
inductive Outcome
  | initialized
  | alreadyInProgress
  | alreadyReady
  /-- A reset came while the call was loading. -/
  | discarded
  deriving DecidableEq, Repr

/-- The cells that calls, loads and resets share. -/
structure Core where
  phase : Phase := .uninitialized
  /-- Each reset begins a new one, and work that was begun under an earlier one changes nothing. There
  is no last one, where a counter of 64 bits would come back to the first after `2 ^ 64` resets. -/
  generation : Nat := 0
  state : Observable GameState := { value := {} }
  ready : Observable Bool := { value := false }
  loads : Observable Loads := { value := {} }

namespace Core

/-- Lets one initialization begin, unless one is running or done. -/
def tryBegin (c : Core) : Except Outcome Core :=
  match c.phase with
  | .initializing => .error .alreadyInProgress
  | .ready => .error .alreadyReady
  | _ => .ok { c with phase := .initializing }

def mayBegin (c : Core) : Bool := c.tryBegin.toBool

def fail (c : Core) (generation : Nat) (e : Error) : Core :=
  if c.generation = generation then { c with phase := .failed e.text } else c

/-- Publishes the first screen that a generation loaded, unless the generation is over. -/
def publish? (c : Core) (generation : Nat) (items : List ItemDescriptor)
    (account : UserAccountInfo) : Option Core :=
  if c.generation = generation then
    some { c with
      phase := .ready
      state := c.state.update (·.withFirstScreen items account)
      ready := c.ready.publish true }
  else none

/-- Takes the end of a load of places, unless its generation is over. -/
def settle? (c : Core) (generation : Nat) (place : Place) (result : Except Error (List Location)) :
    Option Core :=
  if c.generation = generation then
    match result with
    | .ok locations =>
      some { c with
        state := c.state.update (·.withPlaces place locations)
        loads := c.loads.update (·.mark place .loaded) }
    | .error _ => some { c with loads := c.loads.update (·.mark place .failed) }
  else none

/-- Begins a new generation with nothing in it. -/
def reset (c : Core) : Core where
  phase := .uninitialized
  generation := c.generation + 1
  state := c.state.publish {}
  ready := c.ready.publish false
  loads := c.loads.publish {}

inductive Feed
  | state | ready | loads
  deriving DecidableEq, Repr

def subscribe (c : Core) : Feed → Nat × Core
  | .state => let (id, state) := c.state.subscribe; (id, { c with state })
  | .ready => let (id, ready) := c.ready.subscribe; (id, { c with ready })
  | .loads => let (id, loads) := c.loads.subscribe; (id, { c with loads })

def unsubscribe (c : Core) (id : Nat) : Feed → Core
  | .state => { c with state := c.state.unsubscribe id }
  | .ready => { c with ready := c.ready.unsubscribe id }
  | .loads => { c with loads := c.loads.unsubscribe id }

end Core
end MiningClient.Session
