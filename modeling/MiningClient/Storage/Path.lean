import MiningClient.Text.Blank

namespace MiningClient.Path

inductive Step
  | down (name : String)
  | up
  deriving DecidableEq, Repr

/-- The step of a part between slashes, if it is one: one dot stays where it is, two dots go up, and any
other name goes down. -/
def Step.ofPart? (part : List Char) : Option Step :=
  if part = [] ∨ part = ['.'] then none
  else if part = ['.', '.'] then some up
  else some (down (String.ofList part))

def steps (path : String) : List Step :=
  (Text.splitOn '/' path.toList).filterMap Step.ofPart?

def isAbsolute (path : String) : Bool := path.toList.head? == some '/'

/-- The path of `name` in the folder `base`. An absolute path is in no folder. -/
def join (base name : String) : String :=
  if base = "" ∨ isAbsolute name then name
  else if base.toList.getLast? = some '/' then base ++ name
  else base ++ "/" ++ name

/-- What stands behind the last point of the last name, if anything stands in front of it. -/
def ending? (path : String) : Option String :=
  match (steps path).getLast? with
  | some (.down name) =>
    let (ending, rest) := name.toList.reverse.span (· != '.')
    if rest.length < 2 then none else some (String.ofList ending.reverse)
  | _ => none

def hasNul (path : String) : Bool := path.toList.contains '\x00'

/-- A path has at most this many bytes. -/
def maxSize : Nat := 4095

/-- A name has at most this many bytes. -/
def maxNameSize : Nat := 255

end MiningClient.Path
