namespace MiningClient.Radix

def digit? (base : Nat) (c : Char) : Option Nat :=
  if c.isDigit ∧ c.toNat - '0'.toNat < base then some (c.toNat - '0'.toNat)
  else if c.isAlpha ∧ c.toLower.toNat - 'a'.toNat + 10 < base then
    some (c.toLower.toNat - 'a'.toNat + 10)
  else none

def isDigit (base : Nat) (c : Char) : Bool := (digit? base c).isSome

/-- The number that digits write in a base up to 36. Letters count in both cases. -/
def read? (base : Nat) (cs : List Char) : Option Nat :=
  cs.foldlM (fun n c => (digit? base c).map fun v => n * base + v) 0

end MiningClient.Radix
