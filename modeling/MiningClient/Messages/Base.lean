import MiningClient.Wire.Message

namespace MiningClient
open Wire

structure Upgrades where
  storageLevel : UInt32 := 0
  deriving DecidableEq, Repr

instance : Message Upgrades where
  name := "Upgrades"
  empty := {}
  fields := [
    ⟨1, "storage_level", .unsigned, (·.storageLevel), fun v m => { m with storageLevel := v }⟩]

structure GetBaseRequest where
  deriving DecidableEq, Repr

instance : Message GetBaseRequest := ⟨"GetBaseRequest", {}, []⟩

structure GetBaseResponse where
  upgrades : Option Upgrades := none
  deriving DecidableEq, Repr

instance : Message GetBaseResponse where
  name := "GetBaseResponse"
  empty := {}
  fields := [
    ⟨1, "upgrades", .optional, (·.upgrades), fun v m => { m with upgrades := v }⟩]

inductive UpgradeType
  | storage
  deriving DecidableEq, Repr

namespace UpgradeType

def number : UpgradeType → Int32
  | storage => 0

def ofNumber? (n : Int32) : Option UpgradeType :=
  if n = 0 then some .storage else none

/-- An unknown number reads as the first alternative. -/
def ofNumber (n : Int32) : UpgradeType := (ofNumber? n).getD .storage

theorem ofNumber?_number (x : UpgradeType) : ofNumber? x.number = some x := by
  cases x; rfl

end UpgradeType

structure UpgradeBaseRequest where
  upgradeType : Int32 := 0
  deriving DecidableEq, Repr

instance : Message UpgradeBaseRequest where
  name := "UpgradeBaseRequest"
  empty := {}
  fields := [
    ⟨1, "upgrade_type", .signed, (·.upgradeType), fun v m => { m with upgradeType := v }⟩]

structure UpgradeBaseResponse where
  upgrades : Option Upgrades := none
  deriving DecidableEq, Repr

instance : Message UpgradeBaseResponse where
  name := "UpgradeBaseResponse"
  empty := {}
  fields := [
    ⟨1, "upgrades", .optional, (·.upgrades), fun v m => { m with upgrades := v }⟩]

end MiningClient
