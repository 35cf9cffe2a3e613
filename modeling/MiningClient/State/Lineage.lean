import MiningClient.Log

namespace MiningClient

inductive Change
  | firstScreen (items : List ItemDescriptor) (account : UserAccountInfo)
  | places (place : Place) (locations : List Location)

namespace Change

def apply : Change → GameState → GameState
  | firstScreen items account, s => s.withFirstScreen items account
  | places place locations, s => s.withPlaces place locations

def notices : Change → List Notice
  | firstScreen items _ => (GameState.repeatedIds items).map .repeatedItem
  | places _ _ => []

end Change

/-- The states by number, and what was logged. The empty state is there at the start. A state is never
changed: what is made of it is one more state, beside all that are there. -/
structure Lineage where
  states : List GameState := [{}]
  log : List Notice := []

namespace Lineage

/-- One more state, made from the one with the number. -/
def derive (l : Lineage) (source : Nat) (change : Change) : Lineage :=
  match l.states[source]? with
  | none => l
  | some s => { states := l.states ++ [change.apply s], log := l.log ++ change.notices }

def run (l : Lineage) (steps : List (Nat × Change)) : Lineage :=
  steps.foldl (fun l step => l.derive step.1 step.2) l

end Lineage
end MiningClient
