import MiningClient.Messages.Inventory
import MiningClient.Number.Decimal
import MiningClient.Text.Quoted

namespace MiningClient

inductive SortKey
  | date | rarity | value
  deriving DecidableEq, Repr

namespace SortKey

def name : SortKey → String
  | date => "date"
  | rarity => "rarity"
  | value => "value"

def ofName? (s : String) : Option SortKey := [date, rarity, value].find? (·.name == s)

theorem ofName?_name (k : SortKey) : ofName? k.name = some k := by
  cases k <;> decide

def sortBy : SortKey → SortBy
  | date => .dateAcquired
  | rarity => .rarityTier
  | value => .value

def text : SortKey → String
  | date => "Date"
  | rarity => "Rarity"
  | value => "Value"

end SortKey

inductive Command
  | login (username password : String)
  | register (username password : String)
  | logout
  | status (json : Bool)
  | hiscores
  | inventory (pageSize page : UInt32) (sort : SortKey) (ascending : Bool)
  | base
  | upgrade
  | mine (location : String) (count : Option Nat)
  deriving DecidableEq, Repr

namespace Command

def flagText (b : Bool) : String := if b then "true" else "false"

/-- A name with named parts between braces. -/
def recordText (name : String) (parts : List (String × String)) : String :=
  name ++ " \x7b " ++ String.intercalate ", " (parts.map fun p => p.1 ++ ": " ++ p.2) ++ " \x7d"

def text : Command → String
  | login username password =>
    recordText "Login" [("username", Text.quoted username), ("password", Text.quoted password)]
  | register username password =>
    recordText "Register" [("username", Text.quoted username), ("password", Text.quoted password)]
  | logout => "Logout"
  | status json => recordText "Status" [("json", flagText json)]
  | hiscores => "Hiscores"
  | inventory pageSize page sort ascending =>
    recordText "Inventory" [("page_size", Decimal.text pageSize.toNat),
      ("page", Decimal.text page.toNat), ("sort", sort.text), ("ascending", flagText ascending)]
  | base => "Base"
  | upgrade => "Upgrade"
  | mine location count =>
    recordText "Mine" [("location", Text.quoted location), ("count",
      match count with
      | none => "None"
      | some n => "Some(" ++ Decimal.text n ++ ")")]

end Command
end MiningClient
