import MiningClient.App.Account
import MiningClient.Command.Basic
import MiningClient.Text.Columns
import MiningClient.Text.Json

namespace MiningClient

inductive Failure
  | notLoggedIn
  | error (e : Error)
  deriving DecidableEq, Repr

def Failure.text : Failure → String
  | notLoggedIn => "not logged in; run \x60mine-idler login <username> <password>\x60 first"
  | error e => e.text

/-- What a command does itself: what signs in and loads the first screen is not among it. -/
inductive Act
  | line (text : String)
  | request (r : Request)
  deriving DecidableEq

def Act.line? : Act → Option String
  | line text => some text
  | request _ => none

structure Printed where
  /-- One after another, the lines that are printed among them. -/
  acts : List Act := []
  result : Except Failure Unit := .ok ()

def Printed.lines (p : Printed) : List String := p.acts.filterMap Act.line?

namespace Command
variable {σ : Type}

abbrev Ran (σ : Type) := Option (Printed × App σ)

def fails (e : Error) : Printed := { result := .error (.error e) }

def andThen {α : Type} (step : Option (Except Error α × App σ)) (next : α → App σ → Ran σ) :
    Ran σ :=
  match step with
  | none => none
  | some (.error e, w) => some (fails e, w)
  | some (.ok a, w) => next a w

def asks {β : Type} (c : Call β) (w : App σ) (next : β → App σ → Ran σ) : Ran σ :=
  (andThen (w.call c) next).map fun (printed, w) =>
    ({ printed with acts := c.requests.map .request ++ printed.acts }, w)

def prints (lines : List String) (w : App σ) : Ran σ := some ({ acts := lines.map .line }, w)

/-- The first screen, for one who is logged in. -/
def withFirstScreen [Slot σ] (w : App σ) (next : App σ → Ran σ) : Ran σ :=
  if w.isLoggedIn then andThen w.loadFirstScreen fun _ w => next w
  else some ({ result := .error .notLoggedIn }, w)

structure StatusView where
  username : String
  itemTypes : Nat
  mine : List Location
  gamble : List Location
  deriving DecidableEq, Repr

namespace StatusView

def ofState (s : GameState) : StatusView where
  username := (s.account.map (·.username)).getD ""
  itemTypes := (s.items.map (·.length)).getD 0
  mine := s.mine.getD []
  gamble := s.gamble.getD []

def locationJson (l : Location) : Text.Json :=
  .object [("name", .text l.descriptor.name), ("available", .flag l.isAvailable)]

def json (v : StatusView) : Text.Json :=
  .object [("username", .text v.username), ("item_types", .number v.itemTypes),
    ("mine_locations", .list (v.mine.map locationJson)),
    ("gamble_locations", .list (v.gamble.map locationJson))]

def locationLine (l : Location) : String :=
  "  " ++ Text.padRight 24 l.descriptor.name ++ " " ++ if l.isAvailable then "open" else "locked"

def lines (v : StatusView) : List String :=
  ["Player: " ++ v.username, "Known item types: " ++ Decimal.text v.itemTypes] ++
    "Mines:" :: v.mine.map locationLine ++ "Gambling:" :: v.gamble.map locationLine

end StatusView

def loadsNotice? : Option Loads → Option Notice
  | none => some .locationsLate
  | some loads => if loads.anyFailed then some .locationsIncomplete else none

def runStatus [Slot σ] (json : Bool) (w : App σ) : Ran σ :=
  withFirstScreen w fun w =>
    let (loads, w) := w.waitForLocations
    let w := { w with log := w.log ++ (loadsNotice? loads).toList }
    let view := StatusView.ofState w.machine.core.state.value
    prints (if json then [view.json.pretty] else view.lines) w

def hiscoreLine (rank : Nat) (entry : HiscoreEntry) : String :=
  Text.padLeft 3 (Decimal.text rank) ++ ". " ++ Text.padRight 20 entry.username ++ " " ++
    Text.padLeft 12 entry.totalValue.text

def hiscoreLines (rank : Nat) : List HiscoreEntry → List String
  | [] => []
  | entry :: rest => hiscoreLine rank entry :: hiscoreLines (rank + 1) rest

def runHiscores (w : App σ) : Ran σ :=
  asks w.client.getHiscores w fun response => prints (hiscoreLines 1 response.hiscores)

/-- The name of an item in the catalog; an item with a negative id is in none. -/
def itemName (s : GameState) (item : Item) : String :=
  let descriptor := if item.id < 0 then none else s.item? (.ofNat item.id.toInt.toNat)
  (descriptor.map (·.name)).getD "unknown item"

def describe (s : GameState) (item : Item) : String :=
  Text.padRight 20 (itemName s item) ++ " quality " ++ Text.padLeft 5 item.quality.text ++
    "  value " ++ Text.padLeft 8 item.value.text

/-- Pages are counted from one; the page after the last number has the number zero. -/
def pageLine (page : UInt32) (shown total : Nat) : String :=
  "Page " ++ Decimal.text (page + 1).toNat ++
    " (" ++ Decimal.text shown ++ " of " ++ Decimal.text total ++ " items)"

def runInventory [Slot σ] (request : GetInventoryRequest) (w : App σ) : Ran σ :=
  withFirstScreen w fun w =>
    asks (w.client.getInventory request) w fun response w =>
      let state := w.machine.core.state.value
      prints (response.items.map (describe state) ++
        [pageLine request.pageNumber response.items.length response.totalItems.toNat]) w

def upgradesLine : Option Upgrades → String
  | some upgrades => "Storage level: " ++ Decimal.text upgrades.storageLevel.toNat
  | none => "No upgrades yet"

def lootLine (s : GameState) (item : Item) : String := "  " ++ describe s item

structure Loot where
  lines : List String := []
  error : Option Error := none
  unread : List (Except Error StartMiningResponse) := []

/-- Reads up to the first error, or up to the message with which `limit` loots are reached; `received`
counts those before. -/
def readLoot (s : GameState) (limit : Option Nat) :
    Nat → List (Except Error StartMiningResponse) → Loot
  | _, [] => {}
  | _, .error e :: rest => { error := some e, unread := rest }
  | received, .ok message :: rest =>
    let line := (message.loot.map (lootLine s)).toList
    let received := received + line.length
    if limit.any (· ≤ received) then { lines := line, unread := rest }
    else
      let loot := readLoot s limit received rest
      { loot with lines := line ++ loot.lines }

def runMine [Slot σ] (location : String) (limit : Option Nat) (w : App σ) : Ran σ :=
  withFirstScreen w fun w =>
    asks (w.client.startMining ⟨location⟩) w fun stream w =>
      let loot := readLoot w.machine.core.state.value limit 0 stream
      let acts := (("Mining at " ++ location) :: loot.lines).map .line
      match loot.error with
      | some e => some ({ fails e with acts }, w)
      | none =>
        let stop := w.client.stopMining
        (w.call stop).map fun (stopped, w) =>
          let printed : Printed := { acts := acts ++ stop.requests.map .request }
          match stopped with
          | .ok _ => (printed, w)
          | .error e => (printed, { w with log := w.log ++ [.stopFailed e] })

def run [Slot σ] (w : App σ) : Command → Ran σ
  | login username password =>
    andThen (w.login username password) fun _ => prints ["Logged in as " ++ username]
  | register username password =>
    andThen (w.register username password) fun _ =>
      prints ["Registered and logged in as " ++ username]
  | logout => andThen (some w.logout) fun _ => prints ["Logged out"]
  | status json => runStatus json w
  | hiscores => runHiscores w
  | inventory pageSize page sort ascending =>
    runInventory ⟨pageSize, page, sort.sortBy.number,
      (if ascending then SortDirection.ascending else .descending).number⟩ w
  | base => asks w.client.getBase w fun r => prints [upgradesLine r.upgrades]
  | upgrade =>
    asks (w.client.upgradeBase ⟨UpgradeType.storage.number⟩) w fun r =>
      prints [upgradesLine r.upgrades]
  | mine location count => runMine location count w

end Command
end MiningClient
