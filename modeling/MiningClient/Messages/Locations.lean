import MiningClient.Wire.Message

namespace MiningClient
open Wire

structure LocationDescriptor where
  id : UInt32 := 0
  name : String := ""
  description : String := ""
  deriving DecidableEq, Repr

instance : Message LocationDescriptor where
  name := "LocationDescriptor"
  empty := {}
  fields := [
    ⟨1, "id", .unsigned, (·.id), fun v m => { m with id := v }⟩,
    ⟨2, "name", .text, (·.name), fun v m => { m with name := v }⟩,
    ⟨3, "description", .text, (·.description), fun v m => { m with description := v }⟩]

structure MineLocation where
  descriptor : Option LocationDescriptor := none
  isAvailable : Bool := false
  deriving DecidableEq, Repr

instance : Message MineLocation where
  name := "MineLocation"
  empty := {}
  fields := [
    ⟨1, "descriptor", .optional, (·.descriptor), fun v m => { m with descriptor := v }⟩,
    ⟨2, "is_available", .flag, (·.isAvailable), fun v m => { m with isAvailable := v }⟩]

structure GambleLocation where
  descriptor : Option LocationDescriptor := none
  isAvailable : Bool := false
  deriving DecidableEq, Repr

instance : Message GambleLocation where
  name := "GambleLocation"
  empty := {}
  fields := [
    ⟨1, "descriptor", .optional, (·.descriptor), fun v m => { m with descriptor := v }⟩,
    ⟨2, "is_available", .flag, (·.isAvailable), fun v m => { m with isAvailable := v }⟩]

structure GetMineLocationsRequest where
  deriving DecidableEq, Repr

instance : Message GetMineLocationsRequest := ⟨"GetMineLocationsRequest", {}, []⟩

structure GetMineLocationsResponse where
  mineLocations : List MineLocation := []
  deriving DecidableEq, Repr

instance : Message GetMineLocationsResponse where
  name := "GetMineLocationsResponse"
  empty := {}
  fields := [
    ⟨1, "mine_locations", .repeated, (·.mineLocations), fun v m => { m with mineLocations := v }⟩]

structure GetGambleLocationsRequest where
  deriving DecidableEq, Repr

instance : Message GetGambleLocationsRequest := ⟨"GetGambleLocationsRequest", {}, []⟩

structure GetGambleLocationsResponse where
  gambleLocations : List GambleLocation := []
  deriving DecidableEq, Repr

instance : Message GetGambleLocationsResponse where
  name := "GetGambleLocationsResponse"
  empty := {}
  fields := [
    ⟨1, "gamble_locations", .repeated, (·.gambleLocations),
      fun v m => { m with gambleLocations := v }⟩]

end MiningClient
