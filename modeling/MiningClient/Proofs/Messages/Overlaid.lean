import MiningClient.Proofs.Messages.RoundTrip
import MiningClient.Proofs.Wire.Overlay

namespace MiningClient
open Wire

section Overlay

instance : Overlay LoginRequest :=
  ⟨fun a b => ⟨overlay a.username b.username, overlay a.password b.password⟩⟩
instance : Overlay LoginResponse := ⟨fun a b => ⟨overlay a.sessionToken b.sessionToken⟩⟩
instance : Overlay RegisterRequest :=
  ⟨fun a b => ⟨overlay a.username b.username, overlay a.password b.password⟩⟩
instance : Overlay RegisterResponse := ⟨fun a b => ⟨overlay a.sessionToken b.sessionToken⟩⟩
instance : Overlay UserAccountInfo :=
  ⟨fun a b => ⟨overlay a.id b.id, overlay a.username b.username⟩⟩
instance : Overlay GetAccountRequest := ⟨fun _ b => b⟩
instance : Overlay GetAccountResponse := ⟨fun a b => ⟨overlay a.userAccountInfo b.userAccountInfo⟩⟩
instance : Overlay GetHiscoresRequest := ⟨fun _ b => b⟩
instance : Overlay HiscoreEntry :=
  ⟨fun a b => ⟨overlay a.username b.username, overlay a.totalValue b.totalValue⟩⟩
instance : Overlay GetHiscoresResponse := ⟨fun a b => ⟨overlay a.hiscores b.hiscores⟩⟩
instance : Overlay ItemDescriptor :=
  ⟨fun a b =>
    ⟨overlay a.id b.id, overlay a.name b.name,
      overlay a.description b.description, overlay a.rarityTier b.rarityTier⟩⟩
instance : Overlay GetItemDescriptorsRequest := ⟨fun _ b => b⟩
instance : Overlay GetItemDescriptorsResponse :=
  ⟨fun a b => ⟨overlay a.itemDescriptors b.itemDescriptors⟩⟩
instance : Overlay LocationDescriptor :=
  ⟨fun a b => ⟨overlay a.id b.id, overlay a.name b.name, overlay a.description b.description⟩⟩
instance : Overlay MineLocation :=
  ⟨fun a b => ⟨overlay a.descriptor b.descriptor, overlay a.isAvailable b.isAvailable⟩⟩
instance : Overlay GambleLocation :=
  ⟨fun a b => ⟨overlay a.descriptor b.descriptor, overlay a.isAvailable b.isAvailable⟩⟩
instance : Overlay GetMineLocationsRequest := ⟨fun _ b => b⟩
instance : Overlay GetMineLocationsResponse :=
  ⟨fun a b => ⟨overlay a.mineLocations b.mineLocations⟩⟩
instance : Overlay GetGambleLocationsRequest := ⟨fun _ b => b⟩
instance : Overlay GetGambleLocationsResponse :=
  ⟨fun a b => ⟨overlay a.gambleLocations b.gambleLocations⟩⟩
instance : Overlay ItemModifier := ⟨fun a b => ⟨overlay a.name b.name, overlay a.value b.value⟩⟩
instance : Overlay Item :=
  ⟨fun a b =>
    ⟨overlay a.id b.id, overlay a.modifiers b.modifiers,
      overlay a.quality b.quality, overlay a.value b.value⟩⟩
instance : Overlay GetInventoryRequest :=
  ⟨fun a b =>
    ⟨overlay a.pageSize b.pageSize, overlay a.pageNumber b.pageNumber,
      overlay a.sortBy b.sortBy, overlay a.sortDirection b.sortDirection⟩⟩
instance : Overlay GetInventoryResponse :=
  ⟨fun a b => ⟨overlay a.items b.items, overlay a.totalItems b.totalItems⟩⟩
instance : Overlay Upgrades := ⟨fun a b => ⟨overlay a.storageLevel b.storageLevel⟩⟩
instance : Overlay GetBaseRequest := ⟨fun _ b => b⟩
instance : Overlay GetBaseResponse := ⟨fun a b => ⟨overlay a.upgrades b.upgrades⟩⟩
instance : Overlay UpgradeBaseRequest := ⟨fun a b => ⟨overlay a.upgradeType b.upgradeType⟩⟩
instance : Overlay UpgradeBaseResponse := ⟨fun a b => ⟨overlay a.upgrades b.upgrades⟩⟩
instance : Overlay StartMiningRequest := ⟨fun a b => ⟨overlay a.locationName b.locationName⟩⟩
instance : Overlay StartMiningResponse := ⟨fun a b => ⟨overlay a.loot b.loot⟩⟩
instance : Overlay StopMiningRequest := ⟨fun _ b => b⟩
instance : Overlay StopMiningResponse := ⟨fun _ b => b⟩

end Overlay

section Lawful

instance : LawfulOverlay LoginRequest 0 := {}
instance : LawfulOverlay LoginResponse 0 := {}
instance : LawfulOverlay RegisterRequest 0 := {}
instance : LawfulOverlay RegisterResponse 0 := {}
instance : LawfulOverlay UserAccountInfo 0 := {}
instance : LawfulOverlay GetAccountRequest 0 := {}
instance : LawfulOverlay GetAccountResponse 1 := {}
instance : LawfulOverlay GetHiscoresRequest 0 := {}
instance : LawfulOverlay HiscoreEntry 0 := {}
instance : LawfulOverlay GetHiscoresResponse 1 := {}
instance : LawfulOverlay ItemDescriptor 0 := {}
instance : LawfulOverlay GetItemDescriptorsRequest 0 := {}
instance : LawfulOverlay GetItemDescriptorsResponse 1 := {}
instance : LawfulOverlay LocationDescriptor 0 := {}
instance : LawfulOverlay MineLocation 1 := {}
instance : LawfulOverlay GambleLocation 1 := {}
instance : LawfulOverlay GetMineLocationsRequest 0 := {}
instance : LawfulOverlay GetMineLocationsResponse 2 := {}
instance : LawfulOverlay GetGambleLocationsRequest 0 := {}
instance : LawfulOverlay GetGambleLocationsResponse 2 := {}
instance : LawfulOverlay ItemModifier 0 := {}
instance : LawfulOverlay Item 1 := {}
instance : LawfulOverlay GetInventoryRequest 0 := {}
instance : LawfulOverlay GetInventoryResponse 2 := {}
instance : LawfulOverlay Upgrades 0 := {}
instance : LawfulOverlay GetBaseRequest 0 := {}
instance : LawfulOverlay GetBaseResponse 1 := {}
instance : LawfulOverlay UpgradeBaseRequest 0 := {}
instance : LawfulOverlay UpgradeBaseResponse 1 := {}
instance : LawfulOverlay StartMiningRequest 0 := {}
instance : LawfulOverlay StartMiningResponse 2 := {}
instance : LawfulOverlay StopMiningRequest 0 := {}
instance : LawfulOverlay StopMiningResponse 0 := {}

end Lawful

/-- A type of messages, with how a later message stands over an earlier one. -/
structure LayeredType extends MessageType where
  [overlays : Overlay Value]

attribute [instance] LayeredType.overlays

/-- The types of all messages. -/
def layeredTypes : List LayeredType :=
  [⟨⟨LoginRequest⟩⟩, ⟨⟨LoginResponse⟩⟩, ⟨⟨RegisterRequest⟩⟩, ⟨⟨RegisterResponse⟩⟩,
    ⟨⟨GetHiscoresRequest⟩⟩, ⟨⟨HiscoreEntry⟩⟩, ⟨⟨GetHiscoresResponse⟩⟩, ⟨⟨ItemDescriptor⟩⟩,
    ⟨⟨ItemModifier⟩⟩, ⟨⟨Item⟩⟩, ⟨⟨GetItemDescriptorsRequest⟩⟩, ⟨⟨GetItemDescriptorsResponse⟩⟩,
    ⟨⟨LocationDescriptor⟩⟩, ⟨⟨MineLocation⟩⟩, ⟨⟨GambleLocation⟩⟩, ⟨⟨GetMineLocationsRequest⟩⟩,
    ⟨⟨GetMineLocationsResponse⟩⟩, ⟨⟨GetGambleLocationsRequest⟩⟩, ⟨⟨GetGambleLocationsResponse⟩⟩,
    ⟨⟨UserAccountInfo⟩⟩, ⟨⟨GetAccountRequest⟩⟩, ⟨⟨GetAccountResponse⟩⟩, ⟨⟨GetInventoryRequest⟩⟩,
    ⟨⟨GetInventoryResponse⟩⟩, ⟨⟨Upgrades⟩⟩, ⟨⟨GetBaseRequest⟩⟩, ⟨⟨GetBaseResponse⟩⟩,
    ⟨⟨UpgradeBaseRequest⟩⟩, ⟨⟨UpgradeBaseResponse⟩⟩, ⟨⟨StartMiningRequest⟩⟩,
    ⟨⟨StartMiningResponse⟩⟩, ⟨⟨StopMiningRequest⟩⟩, ⟨⟨StopMiningResponse⟩⟩]

example : layeredTypes.map LayeredType.toMessageType = messageTypes := rfl

theorem exists_lawfulOverlay : ∀ t ∈ layeredTypes, ∃ height ≤ maxDepth,
    LawfulMessage t.Value height ∧ LawfulOverlay t.Value height := by
  simp only [layeredTypes, List.forall_mem_cons, List.not_mem_nil, false_imp_iff, implies_true,
    and_true]
  repeat' apply And.intro
  all_goals exact ⟨_, by decide, inferInstance, inferInstance⟩

/-- What was written for two messages, one behind the other, is read as the second over the first, but
for the sign of a zero. Lengths have 64 bits on the wire. -/
theorem encodings_overlaid (t : LayeredType) (known : t ∈ layeredTypes) (a b : t.Value)
    (fits_a : (encode a).length < UInt64.size) (fits_b : (encode b).length < UInt64.size) :
    decode (encode a ++ encode b) = .ok (plain (overlay a b)) := by
  obtain ⟨height, shallow, lawful, lawfulOverlay⟩ := exists_lawfulOverlay t known
  exact decode_encode_append shallow a b fits_a fits_b

/-- Loot with one modifier, a negative zero and a value. -/
def firstLoot : StartMiningResponse where
  loot := some
    { id := -7, modifiers := [{ name := "old", value := ⟨0x80000000⟩ }], quality := ⟨0x80000000⟩,
      value := ⟨0x3F800000⟩ }

/-- Loot with one more modifier and a not-a-number; the rest is at its default. -/
def secondLoot : StartMiningResponse where
  loot := some { modifiers := [{}], quality := ⟨0x80000000⟩, value := ⟨0xFFC00001⟩ }

theorem encodings_overlaid_loot :
    (⟨⟨StartMiningResponse⟩⟩ : LayeredType) ∈ layeredTypes ∧
      (encode firstLoot).length < UInt64.size ∧ (encode secondLoot).length < UInt64.size ∧
      decode (encode firstLoot ++ encode secondLoot) =
        .ok (⟨some ⟨-7, [{ name := "old" }, {}], .zero, ⟨0xFFC00001⟩⟩⟩ : StartMiningResponse) := by
  have known : (⟨⟨StartMiningResponse⟩⟩ : LayeredType) ∈ layeredTypes := by simp [layeredTypes]
  have fits_a : (encode firstLoot).length < UInt64.size := by decide +kernel
  have fits_b : (encode secondLoot).length < UInt64.size := by decide +kernel
  exact ⟨known, fits_a, fits_b,
    encodings_overlaid ⟨⟨StartMiningResponse⟩⟩ known firstLoot secondLoot fits_a fits_b⟩

end MiningClient
