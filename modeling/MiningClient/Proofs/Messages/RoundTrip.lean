import MiningClient.Messages.Account
import MiningClient.Messages.Base
import MiningClient.Messages.Catalog
import MiningClient.Messages.Hiscores
import MiningClient.Messages.Locations
import MiningClient.Messages.Mining
import MiningClient.Proofs.Wire.Lawful

namespace MiningClient
open Wire

section Plain

instance : Plain LoginRequest := {}
instance : Plain LoginResponse := {}
instance : Plain RegisterRequest := {}
instance : Plain RegisterResponse := {}
instance : Plain UserAccountInfo := {}
instance : Plain GetAccountRequest := {}
instance : Plain GetAccountResponse := {}
instance : Plain GetHiscoresRequest := {}
instance : Plain ItemDescriptor := {}
instance : Plain GetItemDescriptorsRequest := {}
instance : Plain GetItemDescriptorsResponse := {}
instance : Plain LocationDescriptor := {}
instance : Plain MineLocation := {}
instance : Plain GambleLocation := {}
instance : Plain GetMineLocationsRequest := {}
instance : Plain GetMineLocationsResponse := {}
instance : Plain GetGambleLocationsRequest := {}
instance : Plain GetGambleLocationsResponse := {}
instance : Plain GetInventoryRequest := {}
instance : Plain Upgrades := {}
instance : Plain GetBaseRequest := {}
instance : Plain GetBaseResponse := {}
instance : Plain UpgradeBaseRequest := {}
instance : Plain UpgradeBaseResponse := {}
instance : Plain StartMiningRequest := {}
instance : Plain StopMiningRequest := {}
instance : Plain StopMiningResponse := {}

instance : Plain HiscoreEntry := ⟨fun m => { m with totalValue := m.totalValue.plain }⟩
instance : Plain GetHiscoresResponse := ⟨fun m => { m with hiscores := m.hiscores.map plain }⟩
instance : Plain ItemModifier := ⟨fun m => { m with value := m.value.plain }⟩
instance : Plain Item :=
  ⟨fun m =>
    { m with
      modifiers := m.modifiers.map plain
      quality := m.quality.plain
      value := m.value.plain }⟩
instance : Plain GetInventoryResponse := ⟨fun m => { m with items := m.items.map plain }⟩
instance : Plain StartMiningResponse := ⟨fun m => { m with loot := m.loot.map plain }⟩

end Plain

section Lawful

instance : LawfulMessage LoginRequest 0 := {}
instance : LawfulMessage LoginResponse 0 := {}
instance : LawfulMessage RegisterRequest 0 := {}
instance : LawfulMessage RegisterResponse 0 := {}
instance : LawfulMessage UserAccountInfo 0 := {}
instance : LawfulMessage GetAccountRequest 0 := {}
instance : LawfulMessage GetAccountResponse 1 := {}
instance : LawfulMessage GetHiscoresRequest 0 := {}
instance : LawfulMessage HiscoreEntry 0 := {}
instance : LawfulMessage GetHiscoresResponse 1 := {}
instance : LawfulMessage ItemDescriptor 0 := {}
instance : LawfulMessage GetItemDescriptorsRequest 0 := {}
instance : LawfulMessage GetItemDescriptorsResponse 1 := {}
instance : LawfulMessage LocationDescriptor 0 := {}
instance : LawfulMessage MineLocation 1 := {}
instance : LawfulMessage GambleLocation 1 := {}
instance : LawfulMessage GetMineLocationsRequest 0 := {}
instance : LawfulMessage GetMineLocationsResponse 2 := {}
instance : LawfulMessage GetGambleLocationsRequest 0 := {}
instance : LawfulMessage GetGambleLocationsResponse 2 := {}
instance : LawfulMessage ItemModifier 0 := {}
instance : LawfulMessage Item 1 := {}
instance : LawfulMessage GetInventoryRequest 0 := {}
instance : LawfulMessage GetInventoryResponse 2 := {}
instance : LawfulMessage Upgrades 0 := {}
instance : LawfulMessage GetBaseRequest 0 := {}
instance : LawfulMessage GetBaseResponse 1 := {}
instance : LawfulMessage UpgradeBaseRequest 0 := {}
instance : LawfulMessage UpgradeBaseResponse 1 := {}
instance : LawfulMessage StartMiningRequest 0 := {}
instance : LawfulMessage StartMiningResponse 2 := {}
instance : LawfulMessage StopMiningRequest 0 := {}
instance : LawfulMessage StopMiningResponse 0 := {}

end Lawful

/-- A type of messages, with what a message is read back as. -/
structure MessageType where
  Value : Type
  [message : Message Value]
  [readBack : Plain Value]

attribute [instance] MessageType.message MessageType.readBack

/-- The types of all messages. -/
def messageTypes : List MessageType :=
  [⟨LoginRequest⟩, ⟨LoginResponse⟩, ⟨RegisterRequest⟩, ⟨RegisterResponse⟩, ⟨GetHiscoresRequest⟩,
    ⟨HiscoreEntry⟩, ⟨GetHiscoresResponse⟩, ⟨ItemDescriptor⟩, ⟨ItemModifier⟩, ⟨Item⟩,
    ⟨GetItemDescriptorsRequest⟩, ⟨GetItemDescriptorsResponse⟩, ⟨LocationDescriptor⟩, ⟨MineLocation⟩,
    ⟨GambleLocation⟩, ⟨GetMineLocationsRequest⟩, ⟨GetMineLocationsResponse⟩,
    ⟨GetGambleLocationsRequest⟩, ⟨GetGambleLocationsResponse⟩, ⟨UserAccountInfo⟩,
    ⟨GetAccountRequest⟩, ⟨GetAccountResponse⟩, ⟨GetInventoryRequest⟩, ⟨GetInventoryResponse⟩,
    ⟨Upgrades⟩, ⟨GetBaseRequest⟩, ⟨GetBaseResponse⟩, ⟨UpgradeBaseRequest⟩, ⟨UpgradeBaseResponse⟩,
    ⟨StartMiningRequest⟩, ⟨StartMiningResponse⟩, ⟨StopMiningRequest⟩, ⟨StopMiningResponse⟩]

theorem exists_lawful : ∀ t ∈ messageTypes, ∃ height ≤ maxDepth, LawfulMessage t.Value height := by
  simp only [messageTypes, List.forall_mem_cons, List.not_mem_nil, false_imp_iff, implies_true,
    and_true]
  repeat' apply And.intro
  all_goals exact ⟨_, by decide, inferInstance⟩

/-- What is written for a message is read as the message, but for the sign of a zero, and is written
again for what was read. Lengths have 64 bits on the wire. -/
theorem messages_read_back (t : MessageType) (known : t ∈ messageTypes) (m : t.Value)
    (fits : (encode m).length < UInt64.size) :
    decode (encode m) = .ok (plain m) ∧
    (∃ m' : t.Value, decode (encode m) = .ok m' ∧ encode m' = encode m) ∧
    (∀ m' : t.Value, encode m' = encode m → plain m' = plain m) ∧
    ∀ bs, decode bs = .ok m →
      ∃ m' : t.Value, decode (encode m) = .ok m' ∧ plain m' = plain m := by
  obtain ⟨height, shallow, lawful⟩ := exists_lawful t known
  -- Reading gives the plain message back, and is told by the bytes alone.
  have read : ∀ m' : t.Value, encode m' = encode m → decode (encode m) = .ok (plain m') := by
    intro m' same
    rw [← same] at fits ⊢
    exact decode_encode shallow m' fits
  -- A message and what it is read as are written alike, so they are read alike.
  have plain_plain : plain (plain m) = plain m := by
    have again := read (plain m) (encode_plain m)
    rw [read m rfl] at again
    exact (Except.ok.inj again).symm
  refine ⟨read m rfl, ⟨plain m, read m rfl, encode_plain m⟩, ?_, ?_⟩
  · intro m' same
    have h := read m' same
    rw [read m rfl] at h
    exact (Except.ok.inj h).symm
  · intro bs _
    exact ⟨plain m, read m rfl, plain_plain⟩

/-- A page of one item: a negative number, a modifier at its defaults, a not-a-number with a payload
of its own, and a negative zero. -/
def oddPage : GetInventoryResponse where
  items := [{ id := -2147483648, modifiers := [{}], quality := ⟨0xFFC00001⟩, value := ⟨0x80000000⟩ }]
  totalItems := 4294967295

theorem messages_read_back_oddPage :
    (⟨GetInventoryResponse⟩ : MessageType) ∈ messageTypes ∧ (encode oddPage).length < UInt64.size ∧
      decode (encode oddPage) =
        .ok { oddPage with
          items := [{ id := -2147483648, modifiers := [{}], quality := ⟨0xFFC00001⟩ }] } := by
  have known : (⟨GetInventoryResponse⟩ : MessageType) ∈ messageTypes := by simp [messageTypes]
  have fits : (encode oddPage).length < UInt64.size := by decide +kernel
  exact ⟨known, fits, (messages_read_back ⟨GetInventoryResponse⟩ known oddPage fits).1⟩

end MiningClient
