import MiningClient.Settings.Ini
import MiningClient.Settings.Json
import MiningClient.Settings.Json5
import MiningClient.Settings.Ron
import MiningClient.Settings.Yaml
import MiningClient.Storage.Path

namespace MiningClient.Settings

inductive Format
  | toml
  | json
  | yaml
  | ini
  | ron
  | json5
  deriving DecidableEq, Repr

namespace Format

def endings : List (String × Format) :=
  [("toml", toml), ("json", json), ("yaml", yaml), ("yml", yaml), ("ini", ini), ("ron", ron),
    ("json5", json5)]

def ofPath? (path : String) : Option Format := (Path.ending? path).bind fun ending => endings.lookup ending

def entries? (format : Format) (text : String) : Option (List KeyValue) :=
  match format with
  | toml =>
    (Toml.Document.read? text).map fun entries =>
      entries.map fun (key, node) => (key, Raw.ofNode? node)
  | json => (Json.read? text).bind Value.entries?
  | yaml => (Yaml.read? text).bind Value.entries?
  | ini => (Ini.read? text).bind Value.entries?
  | ron => (Ron.read? text).bind Value.entries?
  | json5 => (Json5.read? text).bind Value.entries?

end Format
end MiningClient.Settings
