import MiningClient.Settings.Basic
import MiningClient.Settings.Format
import MiningClient.Text.Utf8

namespace MiningClient.Settings

inductive Field
  | apiBaseUrl
  | imageBaseUrl
  | dataFolder
  | requestTimeout
  deriving DecidableEq, Repr

namespace Field

def key : Field → String
  | apiBaseUrl => "api_base_url"
  | imageBaseUrl => "image_base_url"
  | dataFolder => "data_dir"
  | requestTimeout => "request_timeout_secs"

def all : List Field := [apiBaseUrl, imageBaseUrl, dataFolder, requestTimeout]

def ofKey? (key : String) : Option Field := all.find? (·.key == key)

end Field

def isNameChar (c : Char) : Bool := c.isAlphanum || c == ' ' || c == '_' || c == '-'

/-- An index in brackets, with blanks around it. -/
def isIndex (cs : List Char) : Bool :=
  match Text.stripChars Toml.isSpace cs with
  | '+' :: _ => false
  | cs => (Decimal.signed? cs).any Decimal.fits64

/-- Steps into a value, at most so many: names behind points and indices in brackets. -/
def areSteps : Nat → List Char → Bool
  | _, [] => true
  | most + 1, '.' :: cs =>
    let (name, rest) := cs.span isNameChar
    name != [] && areSteps most rest
  | most + 1, '[' :: cs =>
    match cs.span (· != ']') with
    | (index, _ :: rest) => isIndex index && areSteps most rest
    | _ => false
  | _, _ => false

structure Assignment where
  field : Field
  value : Raw
  deriving DecidableEq, Repr

/-- What a key and its value say. The key is the name of a field, in any case, or leads on from one
into its value, which is then no longer single. -/
def Assignment.ofKey? (key : String) (value : Option Raw) : Option Assignment :=
  let (name, rest) := (Text.lowercase key).toList.span isNameChar
  (Field.ofKey? (String.ofList name)).bind fun field =>
    if rest = [] then value.map fun raw => ⟨field, raw⟩
    else if areSteps rest.length rest then some ⟨field, .unusable⟩
    else none

def Assignment.ofEntry? (entry : KeyValue) : Option Assignment := ofKey? entry.1 entry.2

/-- What the names of the program's own variables begin with, in any case. -/
def variableStart : String := "mine_idler_"

/-- What a variable says; its value is a text, even when it is empty. -/
def Assignment.ofVariable? (entry : String × String) : Option Assignment :=
  let name := (Text.lowercase entry.1).toList
  let start := variableStart.toList
  if start.isPrefixOf name then
    ofKey? (String.ofList (name.drop start.length)) (some (.text entry.2))
  else none

abbrev Draft := Field → Raw

namespace Draft

def assign (d : Draft) (a : Assignment) : Draft :=
  fun field => if field = a.field then a.value else d field

def ofSettings (s : Settings) : Draft
  | .apiBaseUrl => .text s.apiBaseUrl
  | .imageBaseUrl => .text s.imageBaseUrl
  | .dataFolder => .text s.dataFolder
  | .requestTimeout => .integer s.requestTimeoutSeconds.toNat

def settings? (d : Draft) : Option Settings := do
  let apiBaseUrl ← (d .apiBaseUrl).text?
  let imageBaseUrl ← (d .imageBaseUrl).text?
  let dataFolder ← (d .dataFolder).text?
  let requestTimeoutSeconds ← (d .requestTimeout).number?
  some { apiBaseUrl, imageBaseUrl, dataFolder, requestTimeoutSeconds }

theorem assign_same (d : Draft) (a : Assignment) : d.assign a a.field = a.value := by
  simp [assign]

theorem assign_of_ne (d : Draft) (a : Assignment) {field : Field} (h : field ≠ a.field) :
    d.assign a field = d field := by
  simp [assign, h]

end Draft

/-- The layers in order: the entries of a file and the variables over the defaults. -/
def layers (env : Environment) (entries : List KeyValue) : Draft :=
  (entries.filterMap Assignment.ofEntry? ++ env.entries.filterMap Assignment.ofVariable?).foldl
    Draft.assign (Draft.ofSettings (default env))

/-- The file for a path: the one there, which counts if its ending is that of a format, or else the
first with the ending of a format added. -/
def findFile? (tree : Tree) (path : String) : Option (String × Format) :=
  if tree.isFile path then (Format.ofPath? path).map fun format => (path, format)
  else
    (Format.endings.map fun (ending, format) => (path ++ "." ++ ending, format)).find? fun file =>
      tree.isFile file.1

/-- The entries of the file for a path. What cannot be read as a text counts as no file. -/
def fileEntries? (tree : Tree) (path : String) : Option (List KeyValue) :=
  match findFile? tree path with
  | none => some []
  | some (path, format) =>
    match tree.read path with
    | .error _ => some []
    | .ok content => (Utf8.decode? content).elim (some []) format.entries?

def loadFrom (env : Environment) (tree : Tree) (path : String) : Except SettingsError Settings :=
  match fileEntries? tree path with
  | none => .error (.unreadableFile path)
  | some entries =>
    match (layers env entries).settings? with
    | none => .error .unusableValues
    | some settings => .ok settings

def load (env : Environment) (tree : Tree) : Except SettingsError Settings :=
  loadFrom env tree (path env)

end MiningClient.Settings
