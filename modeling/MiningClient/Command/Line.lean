import MiningClient.Command.Basic
import MiningClient.Text.Blank

namespace MiningClient.CommandLine

inductive UsageError
  | displayHelp
  | displayVersion
  | displayHelpOnMissingArgumentOrSubcommand
  | missingSubcommand
  | invalidSubcommand
  | unknownArgument
  | tooManyValues
  | invalidValue
  | valueValidation
  | argumentConflict
  | missingRequiredArgument
  deriving DecidableEq, Repr

inductive Kind
  | flag
  | text
  | unsigned
  | natural
  | sortKey
  | help
  | version
  deriving DecidableEq, Repr

def Kind.takesValue : Kind → Bool
  | flag | help | version => false
  | _ => true

inductive Value
  | flag
  | text (s : String)
  | unsigned (n : UInt32)
  | natural (n : Nat)
  | sortKey (k : SortKey)
  deriving DecidableEq, Repr

def Kind.read (kind : Kind) (word : String) : Except UsageError Value :=
  match kind with
  | unsigned =>
    match Decimal.signed? word.toList with
    | some n =>
      if 0 ≤ n ∧ n < UInt32.size then .ok (.unsigned (.ofNat n.toNat)) else .error .valueValidation
    | none => .error .valueValidation
  | natural =>
    match Decimal.unsigned? word.toList with
    | some n => if n < UInt64.size then .ok (.natural n) else .error .valueValidation
    | none => .error .valueValidation
  | sortKey =>
    match SortKey.ofName? word with
    | some k => .ok (.sortKey k)
    | none => .error .invalidValue
  | _ => .ok (.text word)

structure OptionSpec where
  name : String
  kind : Kind
  deriving DecidableEq, Repr

/-- What may stand on one level of the line: options, so many words in order, commands. -/
structure Level where
  options : List OptionSpec
  words : Nat := 0
  commands : List String := []
  deriving DecidableEq, Repr

/-- An option whose value has not been looked at. -/
structure Pending where
  option : OptionSpec
  value : Option String := none
  deriving DecidableEq, Repr

structure State where
  given : List (String × Value) := []
  words : List String := []
  pending : Option Pending := none
  wordsOnly : Bool := false
  deriving DecidableEq, Repr

namespace State

/-- Gives an option its value; each may be given once. -/
def give (s : State) (option : OptionSpec) (value : Except UsageError Value) :
    Except UsageError State :=
  if (s.given.lookup option.name).isSome then .error .argumentConflict
  else value.map fun v => { s with given := s.given ++ [(option.name, v)] }

def resolve (s : State) : Except UsageError State :=
  match s.pending with
  | none => .ok s
  | some ⟨_, none⟩ => .error .invalidValue
  | some ⟨option, some word⟩ => { s with pending := none }.give option (option.kind.read word)

def awaitsValue (s : State) : Bool :=
  match s.pending with
  | some ⟨_, none⟩ => true
  | _ => false

end State

/-- An option without a value: a flag is given, the others show something and end the line. -/
def giveFlag (s : State) (option : OptionSpec) : Except UsageError State :=
  s.resolve.bind fun s =>
    match option.kind with
    | .help => .error .displayHelp
    | .version => .error .displayVersion
    | _ => s.give option (.ok .flag)

def splitEquals : List Char → List Char × Option (List Char)
  | [] => ([], none)
  | '=' :: rest => ([], some rest)
  | c :: rest =>
    let (name, value) := splitEquals rest
    (c :: name, value)

/-- The word `--name` or `--name=value`, without its dashes. -/
def longOption (level : Level) (s : State) (word : List Char) : Except UsageError State :=
  let (name, value) := splitEquals word
  match level.options.find? (·.name == String.ofList name) with
  | none => .error .unknownArgument
  | some option =>
    if option.kind.takesValue then
      match value with
      | some value => s.resolve.bind (·.give option (option.kind.read (String.ofList value)))
      | none => s.resolve.map ({ · with pending := some { option } })
    else if value.isSome then .error .tooManyValues
    else giveFlag s option

/-- The word `-c…`, without its dash. -/
def shortOption (level : Level) (s : State) (c : Char) : Except UsageError State :=
  let kind := if c = 'h' then some Kind.help else if c = 'V' then some Kind.version else none
  match level.options.find? (some ·.kind == kind) with
  | none => .error .unknownArgument
  | some option => giveFlag s option

def takeWord (level : Level) (s : State) (word : String) : Except UsageError State :=
  if s.words.length < level.words then s.resolve.map ({ · with words := s.words ++ [word] })
  else if level.commands.isEmpty then .error .unknownArgument
  else if s.wordsOnly && level.commands.contains word then .error .unknownArgument
  else .error .invalidSubcommand

/-- A word that names no command. -/
def takeArgument (level : Level) (s : State) (word : String) : Except UsageError State :=
  if s.wordsOnly then takeWord level s word
  else
    match word.toList with
    | ['-', '-'] => .ok { s with wordsOnly := true }
    | '-' :: '-' :: rest => longOption level s rest
    | '-' :: c :: _ => shortOption level s c
    | _ =>
      match s.pending with
      | some ⟨option, none⟩ => .ok { s with pending := some ⟨option, some word⟩ }
      | _ => takeWord level s word

/-- Reads one level, up to the name of a command, which comes with the words after it. The value of an
option is looked at when the next option or word in order comes, or at the end. -/
def readLevel (level : Level) (s : State) :
    List String → Except UsageError (State × Option (String × List String))
  | [] => .ok (s, none)
  | word :: rest =>
    if !s.wordsOnly && !s.awaitsValue && level.commands.contains word then
      .ok (s, some (word, rest))
    else
      match takeArgument level s word with
      | .error e => .error e
      | .ok s => readLevel level s rest

def apiOption : OptionSpec := ⟨"api", .text⟩
def helpOption : OptionSpec := ⟨"help", .help⟩

def helpCommand : String := "help"

def commandNames : List String :=
  ["login", "register", "logout", "status", "hiscores", "inventory", "base", "upgrade", "mine"]

def rootLevel : Level where
  options := [apiOption, helpOption, ⟨"version", .version⟩]
  commands := commandNames ++ [helpCommand]

def commandLevel (command : String) : Level where
  options := apiOption :: helpOption ::
    match command with
    | "status" => [⟨"json", .flag⟩]
    | "inventory" => [⟨"page-size", .unsigned⟩, ⟨"page", .unsigned⟩, ⟨"sort", .sortKey⟩,
        ⟨"ascending", .flag⟩]
    | "mine" => [⟨"count", .natural⟩]
    | _ => []
  words :=
    match command with
    | "login" | "register" => 2
    | "mine" => 1
    | _ => 0

namespace State

def hasFlag (s : State) (name : String) : Bool := (s.given.lookup name).isSome

def unsigned (s : State) (name : String) (default : UInt32) : UInt32 :=
  match s.given.lookup name with
  | some (.unsigned n) => n
  | _ => default

def sortKey (s : State) (name : String) : SortKey :=
  match s.given.lookup name with
  | some (.sortKey k) => k
  | _ => .date

def natural? (s : State) (name : String) : Option Nat :=
  match s.given.lookup name with
  | some (.natural n) => some n
  | _ => none

def text? (s : State) (name : String) : Option String :=
  match s.given.lookup name with
  | some (.text t) => some t
  | _ => none

def command (s : State) (name : String) : Except UsageError Command :=
  match name, s.words with
  | "login", [username, password] => .ok (.login username password)
  | "register", [username, password] => .ok (.register username password)
  | "logout", _ => .ok .logout
  | "status", _ => .ok (.status (s.hasFlag "json"))
  | "hiscores", _ => .ok .hiscores
  | "inventory", _ =>
    .ok (.inventory (s.unsigned "page-size" 20) (s.unsigned "page" 0) (s.sortKey "sort")
      (s.hasFlag "ascending"))
  | "base", _ => .ok .base
  | "upgrade", _ => .ok .upgrade
  | "mine", [location] => .ok (.mine location (s.natural? "count"))
  | _, _ => .error .missingRequiredArgument

end State

/-- A command with the address that is to be used in place of the configured one. -/
structure Invocation where
  api : Option String := none
  command : Command
  deriving DecidableEq, Repr

/-- Help on a command; there are no commands below a command. -/
def help : List String → UsageError
  | [] => .displayHelp
  | [name] => if rootLevel.commands.contains name then .displayHelp else .invalidSubcommand
  | _ => .invalidSubcommand

def readCommand (root : State) (name : String) (words : List String) :
    Except UsageError Invocation :=
  match (readLevel (commandLevel name) {} words).bind (·.1.resolve) with
  | .error e => .error e
  | .ok s =>
    match s.command name with
    | .error e => .error e
    | .ok command => root.resolve.map fun root => ⟨(s.text? "api").or (root.text? "api"), command⟩

/-- Reads a command line without the program's name. -/
def read (words : List String) : Except UsageError Invocation :=
  match readLevel rootLevel {} words with
  | .error e => .error e
  | .ok (root, some (name, rest)) =>
    if name = helpCommand then .error (help rest) else readCommand root name rest
  | .ok (root, none) =>
    match root.resolve with
    | .error e => .error e
    | .ok root =>
      .error (if root.given.isEmpty then .displayHelpOnMissingArgumentOrSubcommand
        else .missingSubcommand)

end MiningClient.CommandLine
