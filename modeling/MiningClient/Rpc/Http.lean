import MiningClient.Rpc.Channel

namespace MiningClient.Http

/-- What is posted for a request: the headers of the caller, and then those that mark the body as framed
messages. The timeout is in milliseconds. -/
structure Post where
  url : String
  headers : Metadata
  body : Bytes
  timeout : Option Nat
  deriving DecidableEq

def contentType : HeaderName := ⟨"content-type", by decide +kernel⟩

def framed : HeaderName := ⟨"x-grpc-web", by decide +kernel⟩

def messageType : HeaderValue :=
  ⟨Utf8.encode "application/grpc-web+proto", false, by decide +kernel⟩

def one : HeaderValue := ⟨Utf8.encode "1", false, by decide +kernel⟩

def baseUrl (address : String) : String := Text.dropTrailing '/' address

def post (address : String) (r : Request) : Post where
  url := baseUrl address ++ r.path
  headers := (r.metadata.append contentType messageType).append framed one
  body := r.body
  timeout := r.timeout

/-- Answers requests with what a connection answers to their posts. -/
def exchange (connection : Post → Exchange) (address : String) (r : Request) : Exchange :=
  connection (post address r)

end MiningClient.Http
