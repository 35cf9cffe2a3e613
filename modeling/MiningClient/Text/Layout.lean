namespace MiningClient.Text

structure Layout where
  close : Char
  /-- Skips what may stand around an item. -/
  skip : List Char → List Char
  /-- A comma may follow the last item. -/
  trailingComma : Bool

namespace Layout

/-- What follows if the list is closed here. -/
def closed? (l : Layout) (cs : List Char) : Option (List Char) :=
  match l.skip cs with
  | [] => none
  | c :: cs => if c == l.close then some cs else none

/-- One item or more, at most so many, up to the end of the list. -/
def readItems (l : Layout) (item : List Char → Option (α × List Char)) :
    Nat → List Char → Option (List α × List Char)
  | 0, _ => none
  | most + 1, cs =>
    (item (l.skip cs)).bind fun (a, cs) =>
      match l.closed? cs with
      | some rest => some ([a], rest)
      | none =>
        match l.skip cs with
        | ',' :: cs =>
          match if l.trailingComma then l.closed? cs else none with
          | some rest => some ([a], rest)
          | none => (readItems l item most cs).map fun (as, rest) => (a :: as, rest)
        | _ => none

def read (l : Layout) (item : List Char → Option (α × List Char)) (cs : List Char) :
    Option (List α × List Char) :=
  match l.closed? cs with
  | some rest => some ([], rest)
  | none => l.readItems item cs.length cs

def readMember (l : Layout) (key : List Char → Option (κ × List Char))
    (value : List Char → Option (α × List Char)) (cs : List Char) :
    Option ((κ × α) × List Char) :=
  (key cs).bind fun (k, cs) =>
    match l.skip cs with
    | ':' :: cs => (value (l.skip cs)).map fun (a, cs) => ((k, a), cs)
    | _ => none

end Layout
end MiningClient.Text
