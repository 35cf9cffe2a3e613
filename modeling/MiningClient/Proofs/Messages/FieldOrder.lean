import MiningClient.Proofs.Messages.RoundTrip
import MiningClient.Proofs.Wire.Decoded

namespace MiningClient
open Wire

namespace Wire
section
variable {α : Type} [Message α]

section Lawful
variable [Plain α] {height : Nat} [lawful : LawfulMessage α height]
include lawful

variable {n n' : Nat} {g g' : α → α} {f : Field α}

end Lawful

end

end Wire

section Regular

instance : RegularMessage UserAccountInfo := {}
instance : RegularMessage HiscoreEntry := {}
instance : RegularMessage ItemDescriptor := {}
instance : RegularMessage LocationDescriptor := {}
instance : RegularMessage MineLocation := {}
instance : RegularMessage GambleLocation := {}
instance : RegularMessage ItemModifier := {}
instance : RegularMessage Item := {}
instance : RegularMessage Upgrades := {}

end Regular

end MiningClient
