import MiningClient.Settings.Folders
import MiningClient.Text.Blank

namespace MiningClient

structure Settings where
  apiBaseUrl : String := "http://localhost:5900"
  imageBaseUrl : String := "https://mine-idler.b-cdn.net/"
  /-- Holds the session token. -/
  dataFolder : String
  requestTimeoutSeconds : UInt64 := 30
  deriving DecidableEq, Repr

inductive SettingsError
  | unreadableFile (path : String)
  | unusableValues
  | noFolder (path : String)
  | unwritableFile (path : String)
  deriving DecidableEq, Repr

def SettingsError.text : SettingsError → String
  | unreadableFile path => "failed to read configuration from " ++ path
  | unusableValues => "failed to parse configuration"
  | noFolder path => "failed to create config directory " ++ path
  | unwritableFile path => "failed to write config " ++ path

namespace Settings

def folderName : String := "mine-idler"

def fileName : String := "config.toml"

def default (env : Environment) : Settings :=
  { dataFolder := Path.join env.dataFolder folderName }

def folder (env : Environment) : String := Path.join env.configFolder folderName

/-- The path of the settings file. -/
def path (env : Environment) : String := Path.join (folder env) fileName

def requestTimeoutMillis (s : Settings) : Nat := s.requestTimeoutSeconds.toNat * 1000

/-- The address of a picture: exactly one slash stands between the base and the rest. -/
def imageUrl (s : Settings) (asset : String) : String :=
  Text.dropTrailing '/' s.imageBaseUrl ++ "/" ++ Text.dropLeading '/' asset

end Settings
end MiningClient
