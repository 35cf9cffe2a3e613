import MiningClient.Bytes
import MiningClient.Storage.Fault
import MiningClient.Storage.Path

namespace MiningClient

inductive Entry
  | file (content : Bytes)
  | folder (entries : List (String × Entry))
  deriving Repr

namespace Entry

/-- What is in a folder; in a file there is nothing. -/
def inside : Entry → List (String × Entry)
  | file _ => []
  | folder entries => entries

def at? : Entry → List String → Option Entry
  | e, [] => some e
  | e, name :: names => (e.inside.lookup name).bind (·.at? names)

/-- Puts `new` behind the names, with folders on the way to it. -/
def put : Entry → List String → Entry → Entry
  | _, [], new => new
  | e, name :: names, new =>
    let child := ((e.inside.lookup name).getD (folder [])).put names new
    folder ((name, child) :: e.inside.filter (·.1 != name))

def remove : Entry → List String → Entry
  | _, [] => folder []
  | e, [name] => folder (e.inside.filter (·.1 != name))
  | e, name :: names =>
    match e.inside.lookup name with
    | none => e
    | some child => folder ((name, child.remove names) :: e.inside.filter (·.1 != name))

theorem at?_put (e : Entry) (names : List String) (new : Entry) :
    (e.put names new).at? names = some new := by
  induction names generalizing e with
  | nil => rfl
  | cons name names ih => simp [put, at?, inside, ih]

end Entry

structure Tree where
  root : Entry := .folder []
  deriving Repr

namespace Tree

def at? (t : Tree) (place : List String) : Option Entry := t.root.at? place

def put (t : Tree) (place : List String) (e : Entry) : Tree := ⟨t.root.put place e⟩

def remove (t : Tree) (place : List String) : Tree := ⟨t.root.remove place⟩

/-- The place that the steps from the place `above` lead to. -/
def walk (t : Tree) (above : List String) : List Path.Step → Except StorageFault (List String)
  | [] => .ok above
  | step :: rest =>
    match t.at? above with
    | none => .error .notFound
    | some (.file _) => .error .notADirectory
    | some (.folder _) =>
      match step with
      | .up => walk t above.dropLast rest
      | .down name =>
        if Path.maxNameSize < name.utf8ByteSize then .error .nameTooLong
        else walk t (above ++ [name]) rest

/-- The place that a path leads to. A path through a file fails, and so does one through nothing; its
last name alone may have nothing there. -/
def locate (t : Tree) (path : String) : Except StorageFault (List String) :=
  if Path.hasNul path then .error .nulInName
  else if Path.maxSize < path.utf8ByteSize then .error .nameTooLong
  else t.walk [] (Path.steps path)

def find (t : Tree) (path : String) : Except StorageFault (Option Entry) :=
  (t.locate path).map t.at?

def isFile (t : Tree) (path : String) : Bool :=
  match t.find path with
  | .ok (some (.file _)) => true
  | _ => false

def read (t : Tree) (path : String) : Except StorageFault Bytes :=
  match t.find path with
  | .error e => .error e
  | .ok none => .error .notFound
  | .ok (some (.folder _)) => .error .isADirectory
  | .ok (some (.file content)) => .ok content

/-- Puts the content in place of all the file held. -/
def write (t : Tree) (path : String) (content : Bytes) : Except StorageFault Tree :=
  match t.locate path with
  | .error e => .error e
  | .ok place =>
    match t.at? place with
    | some (.folder _) => .error .isADirectory
    | _ => .ok (t.put place (.file content))

def delete (t : Tree) (path : String) : Except StorageFault Tree :=
  match t.locate path with
  | .error e => .error e
  | .ok place =>
    match t.at? place with
    | none => .error .notFound
    | some (.folder _) => .error .isADirectory
    | some (.file _) => .ok (t.remove place)

/-- Adds the folders that are missing on the steps from the folder `above`, up to the first that
cannot be one. The folders added before it stay. -/
def addFolders (t : Tree) (above : List String) :
    List Path.Step → Except StorageFault Unit × Tree
  | [] => (.ok (), t)
  | .up :: rest => t.addFolders above.dropLast rest
  | .down name :: rest =>
    if Path.maxNameSize < name.utf8ByteSize then (.error .nameTooLong, t)
    else
      match t.at? (above ++ [name]) with
      | some (.folder _) => t.addFolders (above ++ [name]) rest
      | some (.file _) => (.error .alreadyExists, t)
      | none => (t.put (above ++ [name]) (.folder [])).addFolders (above ++ [name]) rest

/-- Makes sure that there is a folder at the path. Nothing is added when the way to it is barred. -/
def makeFolder (t : Tree) (path : String) : Except StorageFault Unit × Tree :=
  match t.find path with
  | .ok (some (.folder _)) => (.ok (), t)
  | .ok (some (.file _)) => (.error .alreadyExists, t)
  | .ok none | .error .notFound => t.addFolders [] (Path.steps path)
  | .error e => (.error e, t)

end Tree
end MiningClient
