import MiningClient.Proofs.App.Traffic
import MiningClient.Proofs.Rpc.Delivery

namespace MiningClient
open Session

namespace Response
variable {β : Type} [Wire.Message β]

/-- The response is framed, holds this message alone, and reports no failure behind it. -/
def Delivers (r : Response) (x : β) : Prop :=
  ∃ trailers, r.Frames [x] trailers ∧
    (trailers.trimmed.get? Status.statusName = none ∨ Status.IsZero trailers.trimmed)

theorem Delivers.single [Wire.Plain β] {height : Nat} [Wire.LawfulMessage β height] {r : Response}
    {x : β} (h : r.Delivers x) (shallow : height ≤ Wire.maxDepth) (service method : String) :
    ((Exchange.accept (.ok r)).bind fun response => response.body.single service method) =
      .ok (Wire.plain x) := by
  obtain ⟨trailers, frames, fine⟩ := h
  have items : r.body.items = [.ok (Wire.plain x)] := by
    -- The trailers report no failure, so the message is the only item.
    rw [frames.items_eq shallow, Status.error?_eq_none_iff.2 fine]
    rfl
  have accepted : Exchange.accept (.ok r) = .ok r := accept_of_bare frames.success frames.bare
  rw [accepted]
  show Body.single service method r.body = _
  rw [Body.single, items]

end Response

namespace Client
variable {α β γ : Type} [Wire.Message α] [Wire.Message β]

/-- With a token that can be sent, a private call makes its request and reads the message that is
delivered. -/
theorem unary_map_private [Wire.Plain β] {height : Nat} [Wire.LawfulMessage β height]
    (shallow : height ≤ Wire.maxDepth) (c : Client) {value : HeaderValue}
    (h : admission c.token = .ok value) {method : String} {m : α}
    {f : Except Error β → Except Error γ} {call : Call γ}
    (maps : call = (c.privateChannel.unary β method m).map f) :
    ∃ request finish, call = .sent request finish ∧
      request.path = "/" ++ privateService ++ "/" ++ method ∧
      ∀ response (x : β), response.Delivers x → finish (.ok response) = f (.ok (Wire.plain x)) := by
  -- The interceptor lets the request pass, with the token on it.
  have sent : c.privateChannel.unary β method m =
      .sent ((Request.blank privateService method m c.timeout).carrying value) fun answer =>
        (Exchange.accept answer).bind fun response => response.body.single privateService method := by
    unfold Channel.unary Channel.prepare
    simp only [privateChannel, Channel.intercept, authorize_eq, h]
    rfl
  refine ⟨_, _, by rw [maps, sent]; rfl, rfl, fun response x delivers => ?_⟩
  exact congrArg f (delivers.single shallow privateService method)

end Client

structure Backend where
  catalog : List ItemDescriptor
  account : GetAccountResponse
  mine : List MineLocation
  gamble : List GambleLocation

namespace App

def path : Endpoint → String
  | .items => "/mine.MinePrivateService/GetItemDescriptors"
  | .account => "/mine.MinePrivateService/GetAccount"
  | .places .mine => "/mine.MinePrivateService/GetMineLocations"
  | .places .gamble => "/mine.MinePrivateService/GetGambleLocations"

end App

namespace Backend

/-- The response to a fetch of the endpoint is what the server has for it. -/
def Answers (b : Backend) : Endpoint → Response → Prop
  | .items, r => r.Delivers ({ itemDescriptors := b.catalog } : GetItemDescriptorsResponse)
  | .account, r => r.Delivers b.account
  | .places .mine, r => r.Delivers ({ mineLocations := b.mine } : GetMineLocationsResponse)
  | .places .gamble, r => r.Delivers ({ gambleLocations := b.gamble } : GetGambleLocationsResponse)

/-- Whenever an endpoint is asked for, the network brings the server's answer, after any time. -/
def Serves (b : Backend) (network : Network) : Prop :=
  ∀ endpoint request requests, request.path = App.path endpoint →
    ∃ delay response, network (requests ++ [request]) = ⟨some delay, .ok response⟩ ∧
      b.Answers endpoint response

def account? (b : Backend) : Except Error UserAccountInfo :=
  b.account.userAccountInfo.elim (.error (.protocol .accountMissing)) .ok

def places (b : Backend) : Place → List Location
  | .mine => Location.ofMine b.mine
  | .gamble => Location.ofGamble b.gamble

def skipped (b : Backend) : Place → List Notice
  | .mine => Location.skippedMine b.mine
  | .gamble => Location.skippedGamble b.gamble

def fetched (b : Backend) : Endpoint → Fetched
  | .items => .ok ({ items := b.catalog }, [])
  | .account => b.account?.map fun account => ({ account }, [])
  | .places place => .ok ({ places := b.places place }, b.skipped place)

/-- With a token that can be sent, a fetch asks for its endpoint and makes of the server's answer what
the server has. -/
theorem fetch_eq (b : Backend) {c : Client} {value : HeaderValue} (h : admission c.token = .ok value)
    (endpoint : Endpoint) :
    ∃ request finish, App.fetch c endpoint = .sent request finish ∧
      request.path = App.path endpoint ∧
      ∀ response, b.Answers endpoint response → finish (.ok response) = b.fetched endpoint := by
  cases endpoint with
  | items =>
    obtain ⟨request, finish, sent, path, brings⟩ :=
      Client.unary_map_private (α := GetItemDescriptorsRequest) (β := GetItemDescriptorsResponse)
        (by decide) c h (show App.fetch c .items = c.getItemDescriptors.map _ from rfl)
    exact ⟨request, finish, sent, path, fun response answers => brings response _ answers⟩
  | account =>
    obtain ⟨request, finish, sent, path, brings⟩ :=
      Client.unary_map_private (α := GetAccountRequest) (β := GetAccountResponse) (by decide) c h
        (show App.fetch c .account = c.getAccount.map _ by rw [App.fetch])
    refine ⟨request, finish, sent, path, fun response answers => ?_⟩
    refine (brings response _ answers).trans ?_
    -- An account that is absent is the error, one that is there the value.
    obtain ⟨catalog, ⟨_ | account⟩, mine, gamble⟩ := b <;> rfl
  | places place =>
    cases place with
    | mine =>
      obtain ⟨request, finish, sent, path, brings⟩ :=
        Client.unary_map_private (α := GetMineLocationsRequest) (β := GetMineLocationsResponse)
          (by decide) c h (show App.fetch c (.places .mine) = c.getMineLocations.map _ from rfl)
      exact ⟨request, finish, sent, path, fun response answers => brings response _ answers⟩
    | gamble =>
      obtain ⟨request, finish, sent, path, brings⟩ :=
        Client.unary_map_private (α := GetGambleLocationsRequest)
          (β := GetGambleLocationsResponse) (by decide) c h
          (show App.fetch c (.places .gamble) = c.getGambleLocations.map _ from rfl)
      exact ⟨request, finish, sent, path, fun response answers => brings response _ answers⟩

end Backend
end MiningClient
