import MiningClient.Wire.Field

namespace MiningClient.Wire

structure Field (α : Type) where
  {β : Type}
  number : Nat
  name : String
  codec : Codec β
  get : α → β
  set : β → α → α

class Message (α : Type) where
  name : String
  empty : α
  fields : List (Field α)

section
variable {α : Type} [Message α]

def encode (m : α) : Bytes :=
  (Message.fields (α := α)).flatMap fun f => f.codec.write f.number (f.get m)

def mergeRecord (depth : Nat) (m : α) (bs : Bytes) : Except Fault (α × Bytes) :=
  match Key.read bs with
  | .error e => .error ⟨[], e⟩
  | .ok (key, rest) =>
    match (Message.fields (α := α)).find? (·.number == key.number) with
    | some f =>
      match f.codec.merge depth key.wireType (f.get m) rest with
      | .error e => .error (e.within (Message.name α) f.name)
      | .ok (v, rest) => .ok (f.set v m, rest)
    | none =>
      match skipField depth key rest with
      | .error e => .error ⟨[], e⟩
      | .ok rest => .ok (m, rest)

/-- Reads records until at most `limit` bytes are left; the first number bounds how many, and no
more of them fit into the bytes than there are bytes. -/
def mergeUntil (depth limit : Nat) : Nat → α → Bytes → Except Fault (α × Bytes)
  | 0, m, bs => .ok (m, bs)
  | fuel + 1, m, bs =>
    if bs.length ≤ limit then .ok (m, bs)
    else
      match mergeRecord depth m bs with
      | .error e => .error e
      | .ok (m, rest) => mergeUntil depth limit fuel m rest

def maxDepth : Nat := 100

def decode (bs : Bytes) : Except Fault α :=
  (mergeUntil maxDepth 0 bs.length Message.empty bs).map (·.1)

/-- Reads a message with its length in front. Its records are read from all the bytes that follow,
so a record may run past the message's end, and only then does the message turn out too long. -/
def mergeNested : Nat → WireType → α → Bytes → Except Fault (α × Bytes)
  | depth, actual, m, bs =>
    match expect actual .lengthDelimited with
    | .error e => .error ⟨[], e⟩
    | .ok () =>
      match depth with
      | 0 => .error ⟨[], .tooDeep⟩
      | depth + 1 =>
        match readVarint bs with
        | .error e => .error ⟨[], e⟩
        | .ok (length, rest) =>
          if rest.length < length then .error ⟨[], .bufferUnderflow⟩
          else
            let limit := rest.length - length
            match mergeUntil depth limit rest.length m rest with
            | .error e => .error e
            | .ok (m, rest) =>
              if rest.length = limit then .ok (m, rest) else .error ⟨[], .lengthExceeded⟩

end

namespace Codec
variable {β : Type} [Message β]

/-- A message that may be absent. It is merged into the one already there. -/
def optional : Codec (Option β) where
  initial := none
  write number v :=
    match v with
    | none => []
    | some m => writeDelimited number (encode m)
  merge depth actual v bs :=
    (mergeNested depth actual (v.getD Message.empty) bs).map fun (m, rest) => (some m, rest)

/-- Any number of messages, each occurrence one more. -/
def repeated : Codec (List β) where
  initial := []
  write number ms := ms.flatMap fun m => writeDelimited number (encode m)
  merge depth actual ms bs :=
    (mergeNested depth actual Message.empty bs).map fun (m, rest) => (ms ++ [m], rest)

end Codec
end MiningClient.Wire
