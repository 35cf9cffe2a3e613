import MiningClient.Storage.Fault

namespace MiningClient

class Slot (σ : Type) where
  load : σ → Except StorageFault (Option String)
  store : String → σ → Except StorageFault Unit × σ
  clear : σ → Except StorageFault Unit × σ

/-- A slot that nothing outlives. -/
structure MemorySlot where
  token : Option String := none
  deriving DecidableEq, Repr

instance : Slot MemorySlot where
  load slot := .ok slot.token
  store token _ := (.ok (), ⟨some token⟩)
  clear _ := (.ok (), ⟨none⟩)

/-- A slot whose operations may be denied, each with the text it is denied with. A denied
operation changes nothing. -/
structure GuardedSlot where
  token : Option String := none
  denyLoad : Option String := none
  denyStore : Option String := none
  denyClear : Option String := none
  deriving DecidableEq, Repr

instance : Slot GuardedSlot where
  load slot :=
    match slot.denyLoad with
    | some text => .error (.permissionDenied text)
    | none => .ok slot.token
  store token slot :=
    match slot.denyStore with
    | some text => (.error (.permissionDenied text), slot)
    | none => (.ok (), { slot with token := some token })
  clear slot :=
    match slot.denyClear with
    | some text => (.error (.permissionDenied text), slot)
    | none => (.ok (), { slot with token := none })

end MiningClient
