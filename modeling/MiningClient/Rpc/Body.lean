import MiningClient.Rpc.Frame
import MiningClient.Rpc.Status

namespace MiningClient

abbrev Body := List (Except Error Bytes)

namespace Body
variable {β : Type} [Wire.Message β]

def item (payload : Bytes) : Except Error β := (Wire.decode payload).mapError .decode

/-- The items of the complete frames in the buffer, and the decoder that is left unless these
frames ended the body. -/
def ready (d : Decoder) : List (Except Error β) × Option Decoder :=
  match h : d.next with
  | (.ok none, d') => ([], some d')
  | (.error e, _) => ([.error (.protocol e)], none)
  | (.ok (some (.trailers m)), _) => ((Status.error? m).toList.map .error, none)
  | (.ok (some (.data payload)), d') =>
    have := Decoder.next_length h
    let (items, left) := ready d'
    (item payload :: items, left)
  termination_by d.buffer.length

/-- What a body yields after the bytes in the decoder. A body comes in chunks, cut anywhere, and may
break off with an error. Trailers end it, and so does a frame that cannot be read. -/
def itemsFrom (d : Decoder) (body : Body) : List (Except Error β) :=
  match ready (β := β) d with
  | (items, none) => items
  | (items, some d) =>
    items ++
      match body with
      | [] => if d.isEmpty then [] else [.error (.protocol .endedMidFrame)]
      | .error e :: _ => [.error e]
      | .ok chunk :: rest => itemsFrom (d.push chunk) rest
  termination_by structural body

def items (body : Body) : List (Except Error β) := itemsFrom {} body

/-- The one message of a body that holds one message and no error. -/
def single (service method : String) (body : Body) : Except Error β :=
  match items body with
  | [] => .error (.protocol (.noMessage service method))
  | .error e :: _ => .error e
  | [.ok m] => .ok m
  | .ok _ :: .error e :: _ => .error e
  | .ok _ :: .ok _ :: _ => .error (.protocol (.manyMessages service method))

end Body
end MiningClient
