import MiningClient.Error
import MiningClient.State.GameState

namespace MiningClient

/-- An error that no caller is told of, and what was being done. -/
structure Report where
  context : String
  error : Error
  deriving DecidableEq, Repr

namespace Report

def startup : String := "Failed to initialize app state"

def loading (place : Place) : String := "Failed to load " ++ place.text ++ " locations"

end Report

inductive Level
  | warn | error
  deriving DecidableEq, Repr

inductive Notice
  | reported (report : Report)
  | tokenUnreadable (fault : StorageFault)
  | repeatedItem (id : UInt32)
  | skippedLocation (place : Place)
  | locationsIncomplete
  | locationsLate
  | stopFailed (error : Error)
  deriving DecidableEq, Repr

namespace Notice

def level : Notice → Level
  | reported _ => .error
  | _ => .warn

def text : Notice → String
  | reported r => r.context ++ ": " ++ r.error.text
  | tokenUnreadable fault => "Failed to read stored session token: " ++ fault.text
  | repeatedItem _ => "duplicate item id in catalog; keeping the later entry"
  | skippedLocation place => "skipping " ++ place.text ++ " location without descriptor"
  | locationsIncomplete => "some locations could not be loaded"
  | locationsLate => "timed out waiting for locations"
  | stopFailed error => "failed to stop mining: " ++ error.text

/-- What is logged beside the text, each under its name. -/
def fields : Notice → List (String × String)
  | reported r => (r.error.code?.map fun c => ("code", c.text)).toList
  | repeatedItem id => [("id", Decimal.text id.toNat)]
  | _ => []

end Notice

namespace Location

def skippedMine (ls : List MineLocation) : List Notice :=
  (ls.filter fun l => (ofMine? l).isNone).map fun _ => .skippedLocation .mine

def skippedGamble (ls : List GambleLocation) : List Notice :=
  (ls.filter fun l => (ofGamble? l).isNone).map fun _ => .skippedLocation .gamble

end Location
end MiningClient
