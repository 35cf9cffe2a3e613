import MiningClient.Messages.Account
import MiningClient.Messages.Base
import MiningClient.Messages.Catalog
import MiningClient.Messages.Hiscores
import MiningClient.Messages.Locations
import MiningClient.Messages.Mining
import MiningClient.Rpc.Channel

namespace MiningClient

def authorization : HeaderName := ⟨"authorization", by decide +kernel⟩

def authorize (token : Option String) : Interceptor := fun request =>
  match token with
  | none => .error .unauthenticated
  | some token =>
    match HeaderValue.ofText? token with
    | none => .error (.protocol .tokenNotHeaderValue)
    | some value =>
      .ok { request with metadata := request.metadata.insert authorization value.asSensitive }

/-- What calls are made with: the session token that is held now, and the time they may take. Calls of
the public service carry no token; those of the private one are refused without it. -/
structure Client where
  token : Option String := none
  timeout : Option Nat := none
  deriving DecidableEq, Repr

namespace Client

def publicService : String := "mine.MinePublicService"

def privateService : String := "mine.MinePrivateService"

def publicChannel (c : Client) : Channel := { service := publicService, timeout := c.timeout }

def privateChannel (c : Client) : Channel :=
  { service := privateService, interceptors := [authorize c.token], timeout := c.timeout }

def login (c : Client) (r : LoginRequest) : Call LoginResponse :=
  c.publicChannel.unary _ "Login" r

def register (c : Client) (r : RegisterRequest) : Call RegisterResponse :=
  c.publicChannel.unary _ "Register" r

def getHiscores (c : Client) : Call GetHiscoresResponse :=
  c.publicChannel.unary _ "GetHiscores" ({} : GetHiscoresRequest)

def getItemDescriptors (c : Client) : Call GetItemDescriptorsResponse :=
  c.privateChannel.unary _ "GetItemDescriptors" ({} : GetItemDescriptorsRequest)

def getMineLocations (c : Client) : Call GetMineLocationsResponse :=
  c.privateChannel.unary _ "GetMineLocations" ({} : GetMineLocationsRequest)

def getGambleLocations (c : Client) : Call GetGambleLocationsResponse :=
  c.privateChannel.unary _ "GetGambleLocations" ({} : GetGambleLocationsRequest)

def getAccount (c : Client) : Call GetAccountResponse :=
  c.privateChannel.unary _ "GetAccount" ({} : GetAccountRequest)

def getInventory (c : Client) (r : GetInventoryRequest) : Call GetInventoryResponse :=
  c.privateChannel.unary _ "GetInventory" r

def getBase (c : Client) : Call GetBaseResponse :=
  c.privateChannel.unary _ "GetBase" ({} : GetBaseRequest)

def startMining (c : Client) (r : StartMiningRequest) :
    Call (List (Except Error StartMiningResponse)) :=
  c.privateChannel.streaming _ "StartMining" r

def stopMining (c : Client) : Call StopMiningResponse :=
  c.privateChannel.unary _ "StopMining" ({} : StopMiningRequest)

def upgradeBase (c : Client) (r : UpgradeBaseRequest) : Call UpgradeBaseResponse :=
  c.privateChannel.unary _ "UpgradeBase" r

end Client
end MiningClient
