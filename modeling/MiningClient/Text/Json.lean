import MiningClient.Number.Decimal

namespace MiningClient.Text

inductive Json
  | text (s : String)
  | number (n : Nat)
  | flag (b : Bool)
  | list (items : List Json)
  | object (fields : List (String × Json))

namespace Json

/-- The low byte of a code point in two hexadecimal digits. -/
def hexPair (n : Nat) : List Char := [Nat.digitChar (n / 16 % 16), Nat.digitChar (n % 16)]

def escapeChar (c : Char) : List Char :=
  if c = '\x22' || c = '\\' then ['\\', c]
  else if c = '\x08' then ['\\', 'b']
  else if c = '\x0c' then ['\\', 'f']
  else if c = '\n' then ['\\', 'n']
  else if c = '\r' then ['\\', 'r']
  else if c = '\t' then ['\\', 't']
  else if c.toNat < 0x20 then ['\\', 'u', '0', '0'] ++ hexPair c.toNat
  else [c]

def quoted (s : String) : String :=
  String.ofList ('\x22' :: s.toList.flatMap escapeChar ++ ['\x22'])

def newline (depth : Nat) : String := String.ofList ('\n' :: List.replicate (2 * depth) ' ')

def enclose (opening closing : String) (depth : Nat) (parts : List String) : String :=
  if parts.isEmpty then opening ++ closing
  else
    opening ++ newline (depth + 1) ++ String.intercalate ("," ++ newline (depth + 1)) parts ++
      newline depth ++ closing

mutual

def render (depth : Nat) : Json → String
  | text s => quoted s
  | number n => Decimal.text n
  | flag b => if b then "true" else "false"
  | list items => enclose "[" "]" depth (renderItems (depth + 1) items)
  | object fields => enclose "\x7b" "\x7d" depth (renderFields (depth + 1) fields)

def renderItems (depth : Nat) : List Json → List String
  | [] => []
  | j :: js => render depth j :: renderItems depth js

def renderFields (depth : Nat) : List (String × Json) → List String
  | [] => []
  | (name, j) :: fields => (quoted name ++ ": " ++ render depth j) :: renderFields depth fields

end

def pretty (j : Json) : String := render 0 j

end Json
end MiningClient.Text
