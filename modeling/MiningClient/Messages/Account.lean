import MiningClient.Wire.Message

namespace MiningClient
open Wire

structure LoginRequest where
  username : String := ""
  password : String := ""
  deriving DecidableEq, Repr

instance : Message LoginRequest where
  name := "LoginRequest"
  empty := {}
  fields := [
    ⟨1, "username", .text, (·.username), fun v m => { m with username := v }⟩,
    ⟨2, "password", .text, (·.password), fun v m => { m with password := v }⟩]

structure LoginResponse where
  sessionToken : String := ""
  deriving DecidableEq, Repr

instance : Message LoginResponse where
  name := "LoginResponse"
  empty := {}
  fields := [
    ⟨1, "session_token", .text, (·.sessionToken), fun v m => { m with sessionToken := v }⟩]

structure RegisterRequest where
  username : String := ""
  password : String := ""
  deriving DecidableEq, Repr

instance : Message RegisterRequest where
  name := "RegisterRequest"
  empty := {}
  fields := [
    ⟨1, "username", .text, (·.username), fun v m => { m with username := v }⟩,
    ⟨2, "password", .text, (·.password), fun v m => { m with password := v }⟩]

structure RegisterResponse where
  sessionToken : String := ""
  deriving DecidableEq, Repr

instance : Message RegisterResponse where
  name := "RegisterResponse"
  empty := {}
  fields := [
    ⟨1, "session_token", .text, (·.sessionToken), fun v m => { m with sessionToken := v }⟩]

structure UserAccountInfo where
  id : Int32 := 0
  username : String := ""
  deriving DecidableEq, Repr

instance : Message UserAccountInfo where
  name := "UserAccountInfo"
  empty := {}
  fields := [
    ⟨1, "id", .signed, (·.id), fun v m => { m with id := v }⟩,
    ⟨2, "username", .text, (·.username), fun v m => { m with username := v }⟩]

structure GetAccountRequest where
  deriving DecidableEq, Repr

instance : Message GetAccountRequest := ⟨"GetAccountRequest", {}, []⟩

structure GetAccountResponse where
  userAccountInfo : Option UserAccountInfo := none
  deriving DecidableEq, Repr

instance : Message GetAccountResponse where
  name := "GetAccountResponse"
  empty := {}
  fields := [
    ⟨1, "user_account_info", .optional, (·.userAccountInfo),
      fun v m => { m with userAccountInfo := v }⟩]

end MiningClient
