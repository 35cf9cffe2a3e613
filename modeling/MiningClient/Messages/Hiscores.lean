import MiningClient.Wire.Message

namespace MiningClient
open Wire

structure GetHiscoresRequest where
  deriving DecidableEq, Repr

instance : Message GetHiscoresRequest := ⟨"GetHiscoresRequest", {}, []⟩

structure HiscoreEntry where
  username : String := ""
  totalValue : Single := .zero
  deriving DecidableEq, Repr

instance : Message HiscoreEntry where
  name := "HiscoreEntry"
  empty := {}
  fields := [
    ⟨1, "username", .text, (·.username), fun v m => { m with username := v }⟩,
    ⟨2, "total_value", .single, (·.totalValue), fun v m => { m with totalValue := v }⟩]

structure GetHiscoresResponse where
  hiscores : List HiscoreEntry := []
  deriving DecidableEq, Repr

instance : Message GetHiscoresResponse where
  name := "GetHiscoresResponse"
  empty := {}
  fields := [
    ⟨1, "hiscores", .repeated, (·.hiscores), fun v m => { m with hiscores := v }⟩]

end MiningClient
