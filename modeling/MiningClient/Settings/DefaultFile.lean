import MiningClient.Settings.Layers

namespace MiningClient.Settings

def textLine (field : Field) (value : String) : String :=
  field.key ++ " = " ++ String.ofList (Toml.writeText value) ++ "\n"

def fileText (s : Settings) : String :=
  textLine .apiBaseUrl s.apiBaseUrl ++ textLine .imageBaseUrl s.imageBaseUrl ++
    textLine .dataFolder s.dataFolder ++
    Field.requestTimeout.key ++ " = " ++ Decimal.text s.requestTimeoutSeconds.toNat ++ "\n"

/-- Writes the settings file with the defaults, unless there is one. -/
def ensureFile (env : Environment) (tree : Tree) : Except SettingsError Unit × Tree :=
  match tree.find (path env) with
  | .ok (some _) => (.ok (), tree)
  | _ =>
    match tree.makeFolder (folder env) with
    | (.error _, tree) => (.error (.noFolder (folder env)), tree)
    | (.ok (), tree) =>
      match tree.write (path env) (Utf8.encode (fileText (default env))) with
      | .error _ => (.error (.unwritableFile (path env)), tree)
      | .ok tree => (.ok (), tree)

end MiningClient.Settings
