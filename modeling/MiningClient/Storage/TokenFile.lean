import MiningClient.Storage.Slot
import MiningClient.Storage.Tree
import MiningClient.Text.Utf8

namespace MiningClient

/-- The token is written as it is; what is read loses the white space around it, and a blank file holds
no token. -/
structure TokenFile where
  folder : String
  tree : Tree := {}
  deriving Repr

namespace TokenFile

def fileName : String := "sessionToken"

def path (f : TokenFile) : String := Path.join f.folder fileName

def tokenOf (text : String) : Option String :=
  let token := Text.trim text
  if token = "" then none else some token

def load (f : TokenFile) : Except StorageFault (Option String) :=
  match f.tree.read f.path with
  | .error .notFound => .ok none
  | .error e => .error e
  | .ok content =>
    match Utf8.decode? content with
    | none => .error .notUtf8
    | some text => .ok (tokenOf text)

/-- The folder is made first, if it is not there. -/
def store (token : String) (f : TokenFile) : Except StorageFault Unit × TokenFile :=
  match f.tree.makeFolder f.folder with
  | (.error e, tree) => (.error e, { f with tree })
  | (.ok (), tree) =>
    match tree.write f.path (Utf8.encode token) with
    | .error e => (.error e, { f with tree })
    | .ok tree => (.ok (), { f with tree })

/-- There being no file is no fault. -/
def clear (f : TokenFile) : Except StorageFault Unit × TokenFile :=
  match f.tree.delete f.path with
  | .error .notFound => (.ok (), f)
  | .error e => (.error e, f)
  | .ok tree => (.ok (), { f with tree })

instance : Slot TokenFile := ⟨load, store, clear⟩

end TokenFile
end MiningClient
