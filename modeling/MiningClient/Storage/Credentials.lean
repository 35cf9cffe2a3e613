import MiningClient.Error
import MiningClient.Storage.Slot

namespace MiningClient

/-- The session token in memory, kept in step with a durable slot. The slot is read once, when the store
is restored; a token that the slot does not take is not taken in memory either. -/
structure Credentials (σ : Type) where
  token : Option String := none
  slot : σ
  deriving DecidableEq, Repr

namespace Credentials
variable {σ : Type} [Slot σ]

/-- The store for a slot, and why the slot could not be read, if so. -/
def restore (slot : σ) : Credentials σ × Option StorageFault :=
  match Slot.load slot with
  | .ok token => (⟨token, slot⟩, none)
  | .error e => (⟨none, slot⟩, some e)

def isAuthenticated (c : Credentials σ) : Bool := c.token.isSome

def set (token : String) (c : Credentials σ) : Except Error Unit × Credentials σ :=
  match Slot.store token c.slot with
  | (.ok (), slot) => (.ok (), ⟨some token, slot⟩)
  | (.error e, slot) => (.error (.credential e), ⟨c.token, slot⟩)

/-- The token in memory is gone even when the slot keeps its own. -/
def clear (c : Credentials σ) : Except Error Unit × Credentials σ :=
  match Slot.clear c.slot with
  | (.ok (), slot) => (.ok (), ⟨none, slot⟩)
  | (.error e, slot) => (.error (.credential e), ⟨none, slot⟩)

def summary (c : Credentials σ) : String :=
  "CredentialStore \x7b authenticated: " ++ (if c.isAuthenticated then "true" else "false") ++
    ", .. \x7d"

end Credentials
end MiningClient
