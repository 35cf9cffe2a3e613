import MiningClient.Settings.Raw

namespace MiningClient.Settings

/-- A key with its value; without one it says nothing. -/
abbrev KeyValue := String × Option Raw

inductive Value
  | single (raw : Raw)
  | table (entries : List KeyValue)
  /-- Makes the whole file unreadable, unless it is replaced. -/
  | invalid
  deriving DecidableEq, Repr

namespace Value

/-- A value that is there and says nothing that a field can use. -/
def nothing : Value := single .unusable

/-- An empty table says nothing. -/
def raw? : Value → Option Raw
  | single raw => some raw
  | table [] => none
  | _ => some .unusable

def entries? : Value → Option (List KeyValue)
  | table entries => some entries
  | _ => none

def ofItems (items : List Value) : Value := if items.any (· == invalid) then invalid else nothing

/-- Of the members with one key, the last. -/
def lastOfEach [BEq κ] : List (κ × α) → List (κ × α)
  | [] => []
  | member :: members =>
    if members.any (·.1 == member.1) then lastOfEach members else member :: lastOfEach members

def ofMembers (members : List (String × Value)) : Value :=
  let members := lastOfEach members
  if members.any (·.2 == invalid) then invalid
  else table (members.map fun (key, value) => (key, value.raw?))

end Value
end MiningClient.Settings
