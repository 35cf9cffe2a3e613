import MiningClient.Messages.Inventory

namespace MiningClient
open Wire

structure StartMiningRequest where
  locationName : String := ""
  deriving DecidableEq, Repr

instance : Message StartMiningRequest where
  name := "StartMiningRequest"
  empty := {}
  fields := [
    ⟨1, "location_name", .text, (·.locationName), fun v m => { m with locationName := v }⟩]

structure StartMiningResponse where
  loot : Option Item := none
  deriving DecidableEq, Repr

instance : Message StartMiningResponse where
  name := "StartMiningResponse"
  empty := {}
  fields := [
    ⟨1, "loot", .optional, (·.loot), fun v m => { m with loot := v }⟩]

structure StopMiningRequest where
  deriving DecidableEq, Repr

instance : Message StopMiningRequest := ⟨"StopMiningRequest", {}, []⟩

structure StopMiningResponse where
  deriving DecidableEq, Repr

instance : Message StopMiningResponse := ⟨"StopMiningResponse", {}, []⟩

end MiningClient
