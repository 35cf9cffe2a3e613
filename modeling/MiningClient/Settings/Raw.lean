import MiningClient.Text.Blank
import MiningClient.Toml.Document

namespace MiningClient.Settings

inductive Raw
  | text (s : String)
  | integer (n : Int)
  | float (x : Binary64)
  | flag (b : Bool)
  /-- What no field can use: a table, a list, or nothing. -/
  | unusable
  deriving DecidableEq, Repr

namespace Raw

/-- The value of a node. An empty table says nothing. -/
def ofNode? : Toml.Node → Option Raw
  | .scalar (.text s) => some (text s)
  | .scalar (.integer n) => some (integer n)
  | .scalar (.float x) => some (float x)
  | .scalar (.flag b) => some (flag b)
  | .scalar (.moment m) => some (text m.text)
  | .inline [] | .table _ [] => none
  | _ => some unusable

def text? : Raw → Option String
  | text s => some s
  | integer n => some (Decimal.signedText n)
  | float x => some x.text
  | flag b => some (if b then "true" else "false")
  | unusable => none

/-- The number that a text writes, in digits or by a word for yes or no. -/
def wordNumber? (s : String) : Option UInt64 :=
  let word := Text.lowercase s
  if word = "true" ∨ word = "on" ∨ word = "yes" then some 1
  else if word = "false" ∨ word = "off" ∨ word = "no" then some 0
  else
    (Decimal.unsigned? s.toList).bind fun n =>
      if n < UInt64.size then some (UInt64.ofNat n) else none

def number? : Raw → Option UInt64
  | text s => wordNumber? s
  | integer n => if 0 ≤ n ∧ n < UInt64.size then some (UInt64.ofNat n.toNat) else none
  | float x => some (UInt64.ofNat (x.toNatUpTo (UInt64.size - 1)))
  | flag b => some (if b then 1 else 0)
  | unusable => none

end Raw
end MiningClient.Settings
