import MiningClient.Wire.Message

namespace MiningClient
open Wire

structure ItemDescriptor where
  id : UInt32 := 0
  name : String := ""
  description : String := ""
  rarityTier : UInt32 := 0
  deriving DecidableEq, Repr

instance : Message ItemDescriptor where
  name := "ItemDescriptor"
  empty := {}
  fields := [
    ⟨1, "id", .unsigned, (·.id), fun v m => { m with id := v }⟩,
    ⟨2, "name", .text, (·.name), fun v m => { m with name := v }⟩,
    ⟨3, "description", .text, (·.description), fun v m => { m with description := v }⟩,
    ⟨4, "rarity_tier", .unsigned, (·.rarityTier), fun v m => { m with rarityTier := v }⟩]

structure GetItemDescriptorsRequest where
  deriving DecidableEq, Repr

instance : Message GetItemDescriptorsRequest := ⟨"GetItemDescriptorsRequest", {}, []⟩

structure GetItemDescriptorsResponse where
  itemDescriptors : List ItemDescriptor := []
  deriving DecidableEq, Repr

instance : Message GetItemDescriptorsResponse where
  name := "GetItemDescriptorsResponse"
  empty := {}
  fields := [
    ⟨1, "item_descriptors", .repeated, (·.itemDescriptors),
      fun v m => { m with itemDescriptors := v }⟩]

end MiningClient
