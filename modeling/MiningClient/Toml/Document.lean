import MiningClient.Toml.Statement

namespace MiningClient.Toml

inductive Origin
  | header
  | longerHeader
  | dottedKey
  deriving DecidableEq, Repr

inductive Node
  | scalar (s : Scalar)
  | array (items : List Node)
  /-- A table within a value: nothing is added to it any more. -/
  | inline (entries : List (String × Node))
  | table (origin : Origin) (entries : List (String × Node))
  | tables (items : List (List (String × Node)))

structure Table where
  origin : Origin := .header
  entries : List (String × Node) := []

namespace Table

def get? (t : Table) (name : String) : Option Node := t.entries.lookup name

def put (t : Table) (name : String) (node : Node) : Table :=
  { t with entries :=
      if (t.get? name).isSome then
        t.entries.map fun e => if e.1 == name then (name, node) else e
      else t.entries ++ [(name, node)] }

def erase (t : Table) (name : String) : Table :=
  { t with entries := t.entries.filter (·.1 != name) }

/-- Changes the table at the end of a path. Tables that are not there are opened on the way; of
several tables the path runs through the last. A key with points runs through no table that has a
header. -/
def within (opening : Origin) (change : Table → Option Table) : List String → Table → Option Table
  | [], t => change t
  | name :: path, t =>
    match t.get? name with
    | none =>
      (within opening change path { origin := opening }).map fun child =>
        t.put name (.table child.origin child.entries)
    | some (.table origin entries) =>
      if opening = .dottedKey ∧ origin = .header then none
      else
        (within opening change path { origin, entries }).map fun child =>
          t.put name (.table child.origin child.entries)
    | some (.tables items) =>
      items.getLast?.bind fun entries =>
        (within opening change path { entries }).map fun child =>
          t.put name (.tables (items.dropLast ++ [child.entries]))
    | some _ => none

/-- Gives a key its value. It may not have one, and a key with points adds only to what such keys
opened. -/
def define (key : Key) (node : Node) : Table → Option Table :=
  within .dottedKey (fun t =>
    if (key.path = [] ↔ t.origin = .dottedKey) ∨ (t.get? key.name).isSome then none
    else some (t.put key.name node)) key.path

/-- Opens the table of a header. One that a longer header ran through goes to the end. -/
def openTable (key : Key) : Table → Option Table :=
  within .longerHeader (fun t =>
    match t.get? key.name with
    | none => some (t.put key.name (.table .header []))
    | some (.table .longerHeader entries) =>
      some ((t.erase key.name).put key.name (.table .header entries))
    | some _ => none) key.path

def openItem (key : Key) : Table → Option Table :=
  within .longerHeader (fun t =>
    match t.get? key.name with
    | none => some (t.put key.name (.tables [[]]))
    | some (.tables items) => some (t.put key.name (.tables (items ++ [[]])))
    | some _ => none) key.path

end Table

mutual

def Term.node? : Term → Option Node
  | .scalar s => some (.scalar s)
  | .array items => (nodes? items).map .array
  | .table pairs => (definePairs {} pairs).map fun t => .inline t.entries

def nodes? : List Term → Option (List Node)
  | [] => some []
  | item :: items => item.node?.bind fun node => (nodes? items).map (node :: ·)

def definePairs (t : Table) : List (Key × Term) → Option Table
  | [] => some t
  | (key, value) :: pairs =>
    value.node?.bind fun node => (t.define key node).bind fun t => definePairs t pairs

end

/-- The key under which a date or a time stands in quotes. -/
def momentKey : String := "$__toml_private_datetime"

/-- The first key says that the table is a date or a time. -/
def isMoment (entries : List (String × Node)) : Bool := entries.head?.any (·.1 == momentKey)

def momentOf? : List (String × Node) → Option Moment
  | (_, .scalar (.text s)) :: _ => Moment.read? s.toList
  | _ => none

/-- What a table becomes whose entries become `settled`. -/
def settleTable (keep : List (String × Node) → Node) (entries : List (String × Node))
    (settled : Option (List (String × Node))) : Option Node :=
  if isMoment entries then (momentOf? entries).map fun m => .scalar (.moment m)
  else settled.map keep

mutual

/-- Puts the dates and times in place of the tables that write them. -/
def Node.settle : Node → Option Node
  | .scalar s => some (.scalar s)
  | .array items => (settleItems items).map .array
  | .inline entries => settleTable .inline entries (settleEntries entries)
  | .table origin entries => settleTable (.table origin) entries (settleEntries entries)
  | .tables items => (settleTables items).map .array

def settleEntries : List (String × Node) → Option (List (String × Node))
  | [] => some []
  | (key, node) :: entries =>
    node.settle.bind fun node => (settleEntries entries).map ((key, node) :: ·)

def settleItems : List Node → Option (List Node)
  | [] => some []
  | node :: nodes => node.settle.bind fun node => (settleItems nodes).map (node :: ·)

def settleTables : List (List (String × Node)) → Option (List Node)
  | [] => some []
  | entries :: items =>
    (settleTable .inline entries (settleEntries entries)).bind fun node =>
      (settleTables items).map (node :: ·)

end

/-- A document with the path of the table that the last header opened. -/
structure Document where
  root : Table := {}
  current : List String := []

namespace Document

def add (d : Document) : Statement → Option Document
  | .pair key value =>
    value.node?.bind fun node =>
      (d.root.within .longerHeader (Table.define key node) d.current).map fun root =>
        { d with root }
  | .table key => (d.root.openTable key).map fun root => ⟨root, key.path ++ [key.name]⟩
  | .item key => (d.root.openItem key).map fun root => ⟨root, key.path ++ [key.name]⟩

/-- The entries of the document that a text writes. The document itself is no moment. -/
def read? (text : String) : Option (List (String × Node)) :=
  (Statement.readAll text).bind fun statements =>
    (statements.foldlM add ({} : Document)).bind fun d =>
      if isMoment d.root.entries then none else settleEntries d.root.entries

end Document
end MiningClient.Toml
