import MiningClient.Error
import MiningClient.Rpc.Metadata
import MiningClient.Text.Percent

namespace MiningClient.Status

def statusName : String := "grpc-status"
def messageName : String := "grpc-message"
def defaultMessage : String := "Unknown error"

def code? (m : Metadata) : Option Code :=
  (m.get? statusName).map fun value =>
    match value.visible? with
    | some text => Code.ofText text
    | none => .unknown

/-- The percent-encoded message; one that cannot be read is replaced by a default. -/
def message (m : Metadata) : String :=
  match (m.get? messageName).bind (·.visible?) with
  | none => defaultMessage
  | some text => (Utf8.decode? (Percent.decode (Utf8.encode text))).getD defaultMessage

def error? (m : Metadata) : Option Error :=
  match code? m with
  | none => none
  | some .ok => none
  | some code => some (.status code (message m))

def check (m : Metadata) : Except Error Unit :=
  match error? m with
  | none => .ok ()
  | some e => .error e

end MiningClient.Status
