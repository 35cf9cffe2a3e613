import MiningClient.Number.Radix

namespace MiningClient.Text

/-- What a backslash and one letter stand for. -/
def escaped? (c : Char) : Option Char :=
  match c with
  | 'b' => some '\x08'
  | 't' => some '\t'
  | 'n' => some '\n'
  | 'f' => some '\x0c'
  | 'r' => some '\r'
  | '\x22' => some '\x22'
  | '\\' => some '\\'
  | _ => none

def charOfHex? (ds : List Char) : Option Char :=
  (Radix.read? 16 ds).bind fun n =>
    if n.isValidChar then some (Char.ofNat n) else none

end MiningClient.Text
