import MiningClient.Code
import MiningClient.Storage.Fault
import MiningClient.Text.Quoted
import MiningClient.Wire.Fault

namespace MiningClient

/-- How an answer, or a call, breaks the rules of the protocol. -/
inductive ProtocolError
  | compressedFrame
  | trailersNotUtf8
  | trailerWithoutColon (line : String)
  | trailerName (name : String)
  | trailerValue (name : String)
  | noMessage (service method : String)
  | manyMessages (service method : String)
  | endedMidFrame
  | tokenNotHeaderValue
  | accountMissing
  | other (text : String)
  deriving DecidableEq, Repr

def ProtocolError.text : ProtocolError → String
  | compressedFrame => "compressed frames are not supported"
  | trailersNotUtf8 => "trailers are not valid UTF-8"
  | trailerWithoutColon line => "malformed trailer line " ++ Text.quoted line
  | trailerName name => "invalid trailer name " ++ Text.quoted name
  | trailerValue name => "invalid value for trailer " ++ name
  | noMessage service method => service ++ "/" ++ method ++ " returned no message"
  | manyMessages service method => service ++ "/" ++ method ++ " returned more than one message"
  | endedMidFrame => "response ended mid-frame"
  | tokenNotHeaderValue => "session token is not a valid header value"
  | accountMissing => "GetAccount response is missing user account info"
  | other text => text

inductive Error
  | unauthenticated
  /-- The server answered with a status that is not ok. -/
  | status (code : Code) (message : String)
  /-- The server could not be reached, or the connection broke. -/
  | network (reason : String)
  | decode (fault : Wire.Fault)
  | protocol (violation : ProtocolError)
  /-- The session token could not be stored or removed. -/
  | credential (fault : StorageFault)
  deriving DecidableEq, Repr

namespace Error

def text : Error → String
  | unauthenticated => "not logged in"
  | status code message => code.text ++ ": " ++ message
  | network reason => "network failure: " ++ reason
  | decode fault => "decode error: " ++ fault.text
  | protocol violation => "protocol error: " ++ violation.text
  | credential fault => "credential storage error: " ++ fault.text

def code? : Error → Option Code
  | unauthenticated => some .unauthenticated
  | status code _ => some code
  | _ => none

def isNetwork : Error → Bool
  | network _ => true
  | _ => false

def source? : Error → Option String
  | network reason => some reason
  | decode fault => some fault.text
  | credential fault => some fault.text
  | _ => none

end Error
end MiningClient
