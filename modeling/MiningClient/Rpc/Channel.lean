import MiningClient.Rpc.Body

namespace MiningClient

/-- The timeout is in milliseconds. -/
structure Request where
  path : String
  metadata : Metadata := ∅
  body : Bytes := []
  timeout : Option Nat := none
  deriving DecidableEq

structure Response where
  status : Nat := 200
  metadata : Metadata := ∅
  body : Body := []

/-- What comes back for a request: a response, or why there is none. -/
abbrev Exchange := Except Error Response

namespace Response

/-- Refuses a response with a status that is not ok and, where there is no status, one whose HTTP
status is not a success. -/
def accept (r : Response) : Except Error Response :=
  match Status.code? r.metadata with
  | some .ok => .ok r
  | some code => .error (.status code (Status.message r.metadata))
  | none =>
    if 200 ≤ r.status ∧ r.status < 300 then .ok r
    else .error (.status (.ofHttpStatus r.status) ("HTTP " ++ Decimal.text r.status))

end Response

def Exchange.accept (answer : Exchange) : Except Error Response := answer.bind Response.accept

inductive Call (β : Type)
  | refused (error : Error)
  | sent (request : Request) (finish : Exchange → Except Error β)

namespace Call
variable {β γ : Type}

def map (f : Except Error β → Except Error γ) : Call β → Call γ
  | refused e => refused e
  | sent request finish => sent request fun answer => f (finish answer)

def requests : Call β → List Request
  | refused _ => []
  | sent request _ => [request]

/-- The result of the call, and the requests it made, when `network` answers them. A refused call sends
nothing, any other sends one request and reads the answer. -/
def run (network : Request → Exchange) : Call β → Except Error β × List Request
  | refused e => (.error e, [])
  | sent request finish => (finish (network request), [request])

end Call

abbrev Interceptor := Request → Except Error Request

structure Channel where
  service : String
  interceptors : List Interceptor := []
  timeout : Option Nat := none

namespace Channel

def withInterceptor (ch : Channel) (i : Interceptor) : Channel :=
  { ch with interceptors := ch.interceptors ++ [i] }

def withTimeout (ch : Channel) (timeout : Nat) : Channel := { ch with timeout := some timeout }

variable {α : Type} [Wire.Message α] (β : Type) [Wire.Message β]

def intercept : List Interceptor → Request → Except Error Request
  | [], request => .ok request
  | i :: rest, request =>
    match i request with
    | .error e => .error e
    | .ok request => intercept rest request

def initial (ch : Channel) (method : String) (m : α) : Request :=
  { path := "/" ++ ch.service ++ "/" ++ method, body := Frame.ofMessage m }

def prepare (ch : Channel) (method : String) (m : α) : Except Error Request :=
  intercept ch.interceptors (ch.initial method m)

def unary (ch : Channel) (method : String) (m : α) : Call β :=
  match ch.prepare method m with
  | .error e => .refused e
  | .ok request =>
    .sent { request with timeout := ch.timeout } fun answer =>
      (Exchange.accept answer).bind fun response => response.body.single ch.service method

/-- Any number of messages for one, with the timeout that the interceptors set. -/
def streaming (ch : Channel) (method : String) (m : α) : Call (List (Except Error β)) :=
  match ch.prepare method m with
  | .error e => .refused e
  | .ok request =>
    .sent request fun answer =>
      (Exchange.accept answer).map fun response => response.body.items

end Channel
end MiningClient
