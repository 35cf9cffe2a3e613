import MiningClient.Storage.Tree

namespace MiningClient

structure Environment where
  /-- The variables that are set, each once. -/
  entries : List (String × String) := []
  /-- The home that the system keeps for the account. -/
  accountHome : Option String := none
  deriving DecidableEq, Repr

namespace Environment

def get? (env : Environment) (name : String) : Option String := env.entries.lookup name

def absolutePath? (env : Environment) (name : String) : Option String :=
  (env.get? name).filter fun path => path.toList.head? = some '/'

/-- The home folder: by the variable, unless it is empty, or else by the account. -/
def home? (env : Environment) : Option String :=
  ((env.get? "HOME").filter (· ≠ "")).or env.accountHome

/-- A folder that a variable names, or else one in the home, or else the working folder. -/
def folder (env : Environment) (name inHome : String) : String :=
  ((env.absolutePath? name).or (env.home?.map fun home => Path.join home inHome)).getD "."

def configFolder (env : Environment) : String := env.folder "XDG_CONFIG_HOME" ".config"

def dataFolder (env : Environment) : String := env.folder "XDG_DATA_HOME" ".local/share"

end Environment
end MiningClient
