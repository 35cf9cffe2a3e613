import MiningClient.Command.Line
import MiningClient.Command.Run
import MiningClient.Rpc.Http
import MiningClient.Settings.DefaultFile
import MiningClient.Storage.TokenFile

namespace MiningClient

structure Output where
  lines : List String := []
  complaints : List String := []
  exitCode : UInt32 := 0
  deriving DecidableEq, Repr

def Output.failure (text : String) : Output := { complaints := ["Error: " ++ text], exitCode := 1 }

def CommandLine.UsageError.text : CommandLine.UsageError → String
  | displayHelp | displayHelpOnMissingArgumentOrSubcommand | missingSubcommand =>
    "commands: " ++ String.intercalate ", " CommandLine.commandNames
  | displayVersion => Settings.folderName
  | invalidSubcommand => "there is no such command"
  | unknownArgument => "unexpected argument"
  | tooManyValues => "unexpected value for an option"
  | invalidValue | valueValidation => "invalid value for an option"
  | argumentConflict => "an option is given more than once"
  | missingRequiredArgument => "an argument is missing"

/-- What the program does with a connection and with the folders it finds. -/
def runProgram (connection : Http.Post → Exchange) (env : Environment) (tree : Tree)
    (words : List String) : Output :=
  match CommandLine.read words with
  | .error e => { complaints := [e.text], exitCode := 2 }
  | .ok invocation =>
    let (ensured, tree) := Settings.ensureFile env tree
    match ensured.bind fun _ => Settings.load env tree with
    | .error e => .failure e.text
    | .ok settings =>
      let address := invocation.api.getD settings.apiBaseUrl
      let (credentials, fault) :=
        Credentials.restore ({ folder := settings.dataFolder, tree } : TokenFile)
      let app : App TokenFile :=
        { machine := { credentials }
          network := fun requests =>
            { exchange := Http.exchange connection address (requests.getLast?.getD { path := "" }) }
          timeout := some settings.requestTimeoutMillis
          patience := settings.requestTimeoutMillis
          log := (fault.map .tokenUnreadable).toList }
      match Command.run app invocation.command with
      | none => .failure "never answered"
      | some (printed, app) =>
        let notices := app.log.map Notice.text
        match printed.result with
        | .ok () => { lines := printed.lines, complaints := notices }
        | .error e =>
          { lines := printed.lines, complaints := notices ++ ["Error: " ++ e.text], exitCode := 1 }

def noConnection (post : Http.Post) : Exchange :=
  .error (.network ("no connection to " ++ post.url))

def variableNames : List String :=
  ["HOME", "XDG_CONFIG_HOME", "XDG_DATA_HOME"] ++
    Settings.Field.all.map fun field => (Settings.variableStart ++ field.key).toUpper

def readEnvironment : IO Environment := do
  let found ← variableNames.mapM fun name => do
    let value ← IO.getEnv name
    return value.map fun value => (name, value)
  return { entries := found.filterMap id }

end MiningClient

def main (words : List String) : IO UInt32 := do
  let env ← MiningClient.readEnvironment
  let output := MiningClient.runProgram MiningClient.noConnection env {} words
  for line in output.lines do IO.println line
  for line in output.complaints do IO.eprintln line
  return output.exitCode
