import MiningClient.Proofs.Settings.Effective
import MiningClient.Proofs.Storage.Folders
import MiningClient.Proofs.Toml.Pairs
import MiningClient.Settings.DefaultFile

namespace MiningClient.Settings

def pair (s : Settings) : Field → Toml.Pair
  | .apiBaseUrl => ⟨Field.apiBaseUrl.key, Toml.writeText s.apiBaseUrl, .text s.apiBaseUrl⟩
  | .imageBaseUrl => ⟨Field.imageBaseUrl.key, Toml.writeText s.imageBaseUrl, .text s.imageBaseUrl⟩
  | .dataFolder => ⟨Field.dataFolder.key, Toml.writeText s.dataFolder, .text s.dataFolder⟩
  | .requestTimeout =>
    ⟨Field.requestTimeout.key, Decimal.digits s.requestTimeoutSeconds.toNat,
      .integer s.requestTimeoutSeconds.toNat⟩

/-- What a file says that gives each field its value. -/
def fieldEntries (d : Draft) : List KeyValue := Field.all.map fun f => (f.key, some (d f))

section Reading
variable {s : Settings}

theorem fileText_eq (s : Settings) :
    fileText s = String.ofList ((Field.all.map (pair s)).flatMap Toml.Pair.line) := by
  have equals : " = ".toList = [' ', '=', ' '] := rfl
  have lineEnd : "\n".toList = ['\n'] := rfl
  rw [← String.toList_inj, String.toList_ofList]
  simp only [fileText, textLine, Field.all, pair, Toml.Pair.line, Decimal.text, List.map_cons,
    List.map_nil, List.flatMap_cons, List.flatMap_nil, List.append_nil, String.toList_append,
    String.toList_ofList, equals, lineEnd, List.append_assoc]

theorem isBare_key (f : Field) : Toml.IsBare f.key where
  ne_empty := by cases f <;> decide +kernel
  names := by
    have all : f.key.toList.all Toml.isNameChar = true := by cases f <;> decide +kernel
    exact List.all_eq_true.1 all

/-- A number above the bound would be written as none that can be read. -/
theorem pair_valid (fits : Decimal.fits64 s.requestTimeoutSeconds.toNat = true) (f : Field) :
    (pair s f).Valid := by
  cases f with
  | apiBaseUrl => exact ⟨isBare_key .apiBaseUrl, Toml.writes_text _⟩
  | imageBaseUrl => exact ⟨isBare_key .imageBaseUrl, Toml.writes_text _⟩
  | dataFolder => exact ⟨isBare_key .dataFolder, Toml.writes_text _⟩
  | requestTimeout => exact ⟨isBare_key .requestTimeout, Toml.writes_digits fits⟩

theorem read?_fileText (fits : Decimal.fits64 s.requestTimeoutSeconds.toNat = true) :
    Toml.Document.read? (fileText s) = some ((Field.all.map (pair s)).map Toml.Pair.entry) := by
  have keys : (Field.all.map (pair s)).map Toml.Pair.key = Field.all.map Field.key := rfl
  have distinct : ((Field.all.map (pair s)).map Toml.Pair.key).Nodup := by
    rw [keys]
    decide +kernel
  have valid : ∀ p ∈ Field.all.map (pair s), p.Valid :=
    List.forall_mem_map.2 fun f _ => pair_valid fits f
  rw [fileText_eq, Toml.read?_lines valid distinct]

theorem entries?_fileText (fits : Decimal.fits64 s.requestTimeoutSeconds.toNat = true) :
    Format.toml.entries? (fileText s) = some (fieldEntries (Draft.ofSettings s)) := by
  rw [Format.entries?, read?_fileText fits]
  rfl

theorem named_fieldEntries (d : Draft) : Named ((fieldEntries d).map (·.1)) where
  name := by
    simp only [fieldEntries, List.map_map, List.forall_mem_map]
    intro f _
    exact IsName.of_all (List.all_eq_true.2 fun c => Field.isNameChar_of_mem_key)
  distinct := by
    have keys : (fieldEntries d).map (·.1) = Field.all.map Field.key := rfl
    rw [keys]
    decide +kernel

theorem fileValue?_fieldEntries (d : Draft) (f : Field) :
    fileValue? (fieldEntries d) f = some (d f) := by
  have found : (Field.all.find? fun g => Text.lowercase g.key == f.key) = some f := by
    cases f <;> decide +kernel
  rw [fileValue?, fieldEntries, List.find?_map]
  exact congrArg (fun g => (g.map fun g => (g.key, some (d g))).bind (·.2)) found

theorem settings?_ofSettings (s : Settings) : (Draft.ofSettings s).settings? = some s := by
  refine settings?_eq_some_iff.2 fun f => ?_
  cases f with
  | apiBaseUrl | imageBaseUrl | dataFolder => rfl
  | requestTimeout =>
    have bound := s.requestTimeoutSeconds.toNat_lt
    have inside : (0 : Int) ≤ s.requestTimeoutSeconds.toNat ∧
        (s.requestTimeoutSeconds.toNat : Int) < UInt64.size := by
      constructor
      · omega
      · exact Int.ofNat_lt.2 bound
    change Raw.number? (.integer s.requestTimeoutSeconds.toNat) = some s.requestTimeoutSeconds
    rw [Raw.number?, if_pos inside, Int.toNat_natCast, UInt64.ofNat_toNat]

theorem variableText?_of_ownNames {env : Environment} (unset : ownNames env = []) (f : Field) :
    variableText? env f = none := by
  rw [variableText?, Option.map_eq_none_iff, List.find?_eq_none]
  intro e mem same
  have own : isOwn e.1 = true := (isOwn_iff.2 (eq_of_beq same)).1
  have listed : e.1 ∈ ownNames env := List.mem_filter.2 ⟨List.mem_map_of_mem mem, own⟩
  rw [unset] at listed
  cases listed

theorem loadFrom_fileText {env : Environment} {tree : Tree} {path : String}
    (toml : Format.ofPath? path = some .toml)
    (fits : Decimal.fits64 s.requestTimeoutSeconds.toNat = true) (unset : ownNames env = [])
    (read : tree.read path = .ok (Utf8.encode (fileText s))) :
    loadFrom env tree path = .ok s := by
  have entries : fileEntries? tree path = some (fieldEntries (Draft.ofSettings s)) := by
    have found : findFile? tree path = some (path, .toml) := by
      rw [findFile?, Tree.isFile, Tree.find_of_read read, if_pos rfl, toml]
      rfl
    simp only [fileEntries?, found, read, Utf8.decode?_encode, Option.elim_some,
      entries?_fileText fits]
  have own : Named (ownNames env) := by
    rw [unset]
    exact ⟨by simp, List.nodup_nil⟩
  have effective : effective env (fieldEntries (Draft.ofSettings s)) = Draft.ofSettings s := by
    funext f
    rw [effective, variableText?_of_ownNames unset, fileValue?_fieldEntries]
    rfl
  rw [loadFrom_eq_ok_iff entries (named_fieldEntries _) own, effective, settings?_ofSettings]

end Reading

section Ensuring
variable {env : Environment} {tree tree' : Tree}

theorem isName_fileName : Path.IsName fileName := ⟨by decide, by decide⟩

/-- Whatever the folder is called, its file is read as what is written into it. -/
theorem ofPath?_path (env : Environment) : Format.ofPath? (path env) = some .toml := by
  have ending : Path.ending? (path env) = some "toml" := by
    rw [Path.ending?, path, Path.steps_join _ isName_fileName, List.getLast?_concat]
    decide +kernel
  rw [Format.ofPath?, ending]
  rfl

theorem ensureFile_of_find {e : Entry} (there : tree.find (path env) = .ok (some e)) :
    ensureFile env tree = (.ok (), tree) := by
  delta ensureFile
  rw [there]

theorem read_of_ensureFile (missing : ∀ e, tree.find (path env) ≠ .ok (some e))
    (made : ensureFile env tree = (.ok (), tree')) :
    tree'.read (path env) = .ok (Utf8.encode (fileText (default env))) := by
  delta ensureFile at made
  split at made
  · rename_i e there
    exact absurd there (missing e)
  · split at made
    · cases made
    · split at made
      · cases made
      -- The folder is there and the file has been written.
      · rename_i written
        obtain rfl := congrArg Prod.snd made
        exact (Tree.read_write written).1

theorem ensureFile_of_isOpen (way : tree.IsOpen (folder env) fileName) :
    ∃ tree', ensureFile env tree = (.ok (), tree') := by
  obtain ⟨tree₁, tree₂, made, written⟩ :=
    Tree.write_of_isOpen isName_fileName way (Utf8.encode (fileText (default env)))
  have written : tree₁.write (path env) (Utf8.encode (fileText (default env))) = .ok tree₂ := written
  delta ensureFile
  split
  · exact ⟨tree, rfl⟩
  · rw [made]
    simp only [written]
    exact ⟨tree₂, rfl⟩

end Ensuring

/-- Whatever a settings file that is there holds, it is left as it is, and so is all else. Where there is
none and one is written, it says the four defaults, and the settings that are loaded with it are the
defaults, if no variable of the program's own is set; missing folders are no reason not to write it, and
it is not written twice. -/
theorem default_file_reads_back (env : Environment) (tree : Tree) :
    (∀ e, tree.find (path env) = .ok (some e) → ensureFile env tree = (.ok (), tree)) ∧
      (∀ tree', (∀ e, tree.find (path env) ≠ .ok (some e)) →
        ensureFile env tree = (.ok (), tree') → ownNames env = [] →
          load env tree' = .ok (default env)) ∧
      (∀ tree', (∀ e, tree.find (path env) ≠ .ok (some e)) →
        ensureFile env tree = (.ok (), tree') →
          ∃ text, tree'.read (path env) = .ok (Utf8.encode text) ∧
            Toml.Document.read? text = some [
              ("api_base_url", .scalar (.text "http://localhost:5900")),
              ("image_base_url", .scalar (.text "https://mine-idler.b-cdn.net/")),
              ("data_dir", .scalar (.text (Path.join env.dataFolder "mine-idler"))),
              ("request_timeout_secs", .scalar (.integer 30))]) ∧
      (∀ tree', ensureFile env tree = (.ok (), tree') → ensureFile env tree' = (.ok (), tree')) ∧
      (tree.IsOpen (folder env) fileName → ∃ tree', ensureFile env tree = (.ok (), tree')) := by
  have fits : Decimal.fits64 (default env).requestTimeoutSeconds.toNat = true := by
    show Decimal.fits64 (30 : UInt64).toNat = true
    decide
  refine ⟨fun e there => ensureFile_of_find there, ?_, ?_, ?_, ensureFile_of_isOpen⟩
  · intro tree' missing made unset
    exact loadFrom_fileText (ofPath?_path env) fits unset (read_of_ensureFile missing made)
  · intro tree' missing made
    exact ⟨_, read_of_ensureFile missing made, read?_fileText fits⟩
  · intro tree' made
    -- A file that is there is found again; otherwise the one just written is.
    by_cases there : ∃ e, tree.find (path env) = .ok (some e)
    · obtain ⟨e, there⟩ := there
      have same := made
      rw [ensureFile_of_find there] at same
      obtain rfl : tree = tree' := congrArg Prod.snd same
      exact made
    · exact ensureFile_of_find (Tree.find_of_read (read_of_ensureFile (not_exists.1 there) made))

/-- A data folder with quotes three in a row, a backslash, a line end and a control character. -/
def oddEnvironment : Environment where
  entries := [("HOME", "/home/ada"), ("XDG_DATA_HOME", "/\n\x27\x27\x27\x22\x22\x22\x22\\ü\x01\x27")]

theorem default_file_reads_back_odd :
    (∀ e, ({} : Tree).find (path oddEnvironment) ≠ .ok (some e)) ∧ ownNames oddEnvironment = [] ∧
      ∃ tree, ensureFile oddEnvironment {} = (.ok (), tree) ∧
        load oddEnvironment tree = .ok (default oddEnvironment) := by
  have missing : ∀ e, ({} : Tree).find (path oddEnvironment) ≠ .ok (some e) := by
    have none : (({} : Tree).find (path oddEnvironment)).toOption.join.isNone = true := by
      decide +kernel
    intro e there
    rw [there] at none
    cases none
  have unset : ownNames oddEnvironment = [] := by decide +kernel
  have succeeds : (ensureFile oddEnvironment {}).1.toBool = true := by decide +kernel
  obtain ⟨-, reads, -⟩ := default_file_reads_back oddEnvironment {}
  generalize made : ensureFile oddEnvironment {} = after at succeeds
  obtain ⟨e | ⟨⟩, tree⟩ := after
  · cases succeeds
  · exact ⟨missing, unset, tree, rfl, reads tree missing made unset⟩

end MiningClient.Settings
