import MiningClient.Proofs.Command.Options

namespace MiningClient
open CommandLine (Value)

namespace Command

def name : Command → String
  | login _ _ => "login"
  | register _ _ => "register"
  | logout => "logout"
  | status _ => "status"
  | hiscores => "hiscores"
  | inventory _ _ _ _ => "inventory"
  | base => "base"
  | upgrade => "upgrade"
  | mine _ _ => "mine"

def arguments : Command → List String
  | login username password => [username, password]
  | register username password => [username, password]
  | mine location _ => [location]
  | _ => []

/-- A flag that is set stands there, one that is not set does not. -/
def flagSettings (name : String) (isSet : Bool) : List (String × Value) :=
  if isSet then [(name, .flag)] else []

def settings : Command → List (String × Value)
  | status json => flagSettings "json" json
  | inventory pageSize page sort ascending =>
    [("page-size", .unsigned pageSize), ("page", .unsigned page), ("sort", .sortKey sort)] ++
      flagSettings "ascending" ascending
  | mine _ (some count) => [("count", .natural count)]
  | _ => []

end Command

namespace CommandLine

def addressSettings (api : Option String) : List (String × Value) :=
  (api.map fun address => ("api", .text address)).toList

/-- What goes without saying. -/
def defaults : List (String × Value) :=
  [("page-size", .unsigned 20), ("page", .unsigned 0), ("sort", .sortKey .date)]

/-- Arguments stand behind two dashes. -/
def argumentWords : List String → List String
  | [] => []
  | words => "--" :: words

/-- All but some of the options, in any order; what is left out goes without saying. -/
def Arranges (all given : List (String × Value)) : Prop :=
  ∃ omitted, (given ++ omitted).Perm all ∧ ∀ x ∈ omitted, x ∈ defaults

/-- The lines that say what is to be done. The address stands in front of the command or among its
options. -/
inductive Says (i : Invocation) : List String → Prop
  | line {front among given : List (String × Value)} {before options : List String}
    (placed : front ++ among = addressSettings i.api)
    (arranged : Arranges (i.command.settings ++ among) given)
    (before_writes : WritesAll front before) (options_write : WritesAll given options) :
    Says i (before ++ i.command.name :: (options ++ argumentWords i.command.arguments))

section Lookup
variable {all given : List (String × Value)} {name : String} {value : Value}

theorem lookup_eq_some (distinct : (given.map Prod.fst).Nodup) (h : (name, value) ∈ given) :
    given.lookup name = some value := by
  obtain ⟨before, after, rfl⟩ := List.append_of_mem h
  refine List.lookup_eq_some_iff.2 ⟨before, after, rfl, fun p hp => ?_⟩
  rw [List.map_append, List.map_cons, List.nodup_append] at distinct
  rw [bne_iff_ne]
  exact (distinct.2.2 p.1 (List.mem_map_of_mem hp) name (List.mem_cons_self ..)).symm

theorem Arranges.distinct (h : Arranges all given) (distinct : (all.map Prod.fst).Nodup) :
    (given.map Prod.fst).Nodup := by
  obtain ⟨omitted, perm, -⟩ := h
  have both := (perm.map Prod.fst).nodup_iff.2 distinct
  rw [List.map_append] at both
  exact (List.nodup_append.1 both).1

theorem Arranges.mem_all (h : Arranges all given) {x : String × Value} (hx : x ∈ given) : x ∈ all := by
  obtain ⟨omitted, perm, -⟩ := h
  exact perm.mem_iff.1 (List.mem_append_left _ hx)

theorem Arranges.lookup (h : Arranges all given) (distinct : (all.map Prod.fst).Nodup)
    (mem : (name, value) ∈ all) :
    given.lookup name = some value ∨ given.lookup name = none ∧ (name, value) ∈ defaults := by
  have names := h.distinct distinct
  obtain ⟨omitted, perm, silent⟩ := h
  obtain mem | mem := List.mem_append.1 (perm.mem_iff.2 mem)
  · exact .inl (lookup_eq_some names mem)
  -- What is left out is under no other name either, as no name is there twice.
  · have both := (perm.map Prod.fst).nodup_iff.2 distinct
    rw [List.map_append, List.nodup_append] at both
    refine .inr ⟨lookup_eq_none fun old => ?_, silent _ mem⟩
    exact both.2.2 name old name (List.mem_map_of_mem mem) rfl

theorem Arranges.lookup_eq_none (h : Arranges all given) (absent : name ∉ all.map Prod.fst) :
    given.lookup name = none := by
  refine CommandLine.lookup_eq_none fun there => absent ?_
  obtain ⟨x, hx, rfl⟩ := List.mem_map.1 there
  exact List.mem_map_of_mem (h.mem_all hx)

end Lookup

section Levels
variable {command : Command} {api : Option String} {among : List (String × Value)}

theorem isPlain_root : rootLevel.IsPlain := ⟨by decide, by decide⟩

theorem name_mem (command : Command) : command.name ∈ commandNames := by
  cases command <;> simp [Command.name, commandNames]

theorem isPlain_command (command : Command) : (commandLevel command.name).IsPlain where
  commands := by
    intro c h
    cases h
  options := by
    have all : ∀ name ∈ commandNames, ∀ o ∈ (commandLevel name).options,
        o.name.toList ≠ [] ∧ '=' ∉ o.name.toList := by decide
    exact all command.name (name_mem command)

theorem mem_flagSettings {name : String} {isSet : Bool} {x : String × Value} :
    x ∈ Command.flagSettings name isSet ↔ isSet = true ∧ x = (name, .flag) := by
  cases isSet <;> simp [Command.flagSettings]

theorem takes_settings (fits : ∀ location n, command = .mine location (some n) → n < UInt64.size)
    {x : String × Value} (h : x ∈ command.settings) : (commandLevel command.name).Takes x := by
  cases command with
  | login | register | logout | hiscores | base | upgrade => cases h
  | status json =>
    obtain ⟨-, rfl⟩ := mem_flagSettings.1 h
    exact ⟨rfl, trivial⟩
  | inventory pageSize page sort ascending =>
    obtain h | h := List.mem_append.1 h
    · simp only [List.mem_cons, List.not_mem_nil, or_false] at h
      obtain rfl | rfl | rfl := h <;> exact ⟨rfl, trivial⟩
    · obtain ⟨-, rfl⟩ := mem_flagSettings.1 h
      exact ⟨rfl, trivial⟩
  | mine location count =>
    cases count with
    | none => cases h
    | some n =>
      obtain rfl := List.mem_singleton.1 h
      exact ⟨rfl, fits location n rfl⟩

theorem takes_address {level : Level} {options : List OptionSpec} (h : level.options = apiOption :: options)
    {x : String × Value} (hx : x ∈ addressSettings api) : level.Takes x := by
  cases api with
  | none => cases hx
  | some address =>
    obtain rfl := List.mem_singleton.1 hx
    exact ⟨by rw [h]; rfl, trivial⟩

theorem fst_of_mem_address {x : String × Value} (h : x ∈ addressSettings api) : x.1 = "api" := by
  cases api with
  | none => cases h
  | some address => rw [List.mem_singleton.1 h]

theorem distinct_settings (command : Command) (api : Option String) :
    ((command.settings ++ addressSettings api).map Prod.fst).Nodup := by
  have address : (addressSettings api).map Prod.fst = (api.map fun _ => "api").toList := by
    cases api <;> rfl
  rw [List.map_append, address]
  cases command with
  | login | register | logout | hiscores | base | upgrade => cases api <;> simp [Command.settings]
  | status json => cases json <;> cases api <;> simp [Command.settings, Command.flagSettings]
  | inventory pageSize page sort ascending =>
    cases ascending <;> cases api <;> simp [Command.settings, Command.flagSettings]
  | mine location count => cases count <;> cases api <;> simp [Command.settings]

theorem api_not_mem (command : Command) : "api" ∉ command.settings.map Prod.fst := by
  have distinct := distinct_settings command (some "")
  rw [List.map_append, List.nodup_append] at distinct
  exact fun there => distinct.2.2 _ there _ (List.mem_singleton_self "api") rfl

end Levels

/-- The options of a level are those of the command, and the address at most. -/
structure Holds (t : State) (command : Command) (among : List (String × Value)) : Prop where
  arranged : Arranges (command.settings ++ among) t.given
  distinct : ((command.settings ++ among).map Prod.fst).Nodup
  others : ∀ x ∈ among, x.1 = "api"

namespace Holds
variable {t : State} {command : Command} {among : List (String × Value)} {name : String}

theorem lookup (h : Holds t command among) {value : Value} (mem : (name, value) ∈ command.settings) :
    t.given.lookup name = some value ∨ t.given.lookup name = none ∧ (name, value) ∈ defaults :=
  h.arranged.lookup h.distinct (List.mem_append_left _ mem)

theorem lookup_eq_none (h : Holds t command among) (api : name ≠ "api")
    (absent : name ∉ command.settings.map Prod.fst) : t.given.lookup name = none := by
  refine h.arranged.lookup_eq_none ?_
  rw [List.map_append, List.mem_append, not_or]
  refine ⟨absent, fun there => api ?_⟩
  obtain ⟨x, hx, rfl⟩ := List.mem_map.1 there
  exact h.others x hx

theorem hasFlag_eq (h : Holds t command among) (api : name ≠ "api") {isSet : Bool}
    (isGiven : isSet = true → (name, .flag) ∈ command.settings)
    (absent : isSet = false → name ∉ command.settings.map Prod.fst) : t.hasFlag name = isSet := by
  cases isSet with
  | true =>
    obtain found | ⟨-, silent⟩ := h.lookup (isGiven rfl)
    · rw [State.hasFlag, found]
      rfl
    · simp [defaults] at silent
  | false =>
    rw [State.hasFlag, h.lookup_eq_none api (absent rfl)]
    rfl

theorem unsigned_eq (h : Holds t command among) {n default : UInt32}
    (isGiven : (name, .unsigned n) ∈ command.settings)
    (silent : (name, .unsigned n) ∈ defaults → n = default) : t.unsigned name default = n := by
  obtain found | ⟨none, left⟩ := h.lookup isGiven
  · rw [State.unsigned, found]
  · rw [State.unsigned, none, silent left]

theorem sortKey_eq (h : Holds t command among) {key : SortKey}
    (isGiven : (name, .sortKey key) ∈ command.settings)
    (silent : (name, .sortKey key) ∈ defaults → key = .date) : t.sortKey name = key := by
  obtain found | ⟨none, left⟩ := h.lookup isGiven
  · rw [State.sortKey, found]
  · rw [State.sortKey, none, silent left]

theorem status {json : Bool} (h : Holds t (.status json) among) :
    t.command "status" = .ok (.status json) := by
  have flag : t.hasFlag "json" = json := by
    refine h.hasFlag_eq (by decide) (fun set => mem_flagSettings.2 ⟨set, rfl⟩) fun unset => ?_
    subst unset
    exact List.not_mem_nil
  have shape : t.command "status" = .ok (.status (t.hasFlag "json")) := rfl
  rw [shape, flag]

theorem inventory {pageSize page : UInt32} {sort : SortKey} {ascending : Bool}
    (h : Holds t (.inventory pageSize page sort ascending) among) :
    t.command "inventory" = .ok (.inventory pageSize page sort ascending) := by
  have flag : t.hasFlag "ascending" = ascending := by
    refine h.hasFlag_eq (by decide) (fun set => ?_) fun unset => ?_
    · exact List.mem_append_right _ (mem_flagSettings.2 ⟨set, rfl⟩)
    · subst unset
      simp [Command.settings, Command.flagSettings]
  have size : t.unsigned "page-size" 20 = pageSize :=
    h.unsigned_eq (by simp [Command.settings]) fun silent => by simpa [defaults] using silent
  have number : t.unsigned "page" 0 = page :=
    h.unsigned_eq (by simp [Command.settings]) fun silent => by simpa [defaults] using silent
  have key : t.sortKey "sort" = sort :=
    h.sortKey_eq (by simp [Command.settings]) fun silent => by simpa [defaults] using silent
  have shape : t.command "inventory" = .ok (.inventory (t.unsigned "page-size" 20)
      (t.unsigned "page" 0) (t.sortKey "sort") (t.hasFlag "ascending")) := rfl
  rw [shape, size, number, key, flag]

theorem mine {location : String} {count : Option Nat} (h : Holds t (.mine location count) among)
    (words : t.words = [location]) : t.command "mine" = .ok (.mine location count) := by
  have found : t.natural? "count" = count := by
    cases count with
    | none => rw [State.natural?, h.lookup_eq_none (by decide) List.not_mem_nil]
    | some n =>
      obtain found | ⟨-, silent⟩ := h.lookup (List.mem_singleton_self ("count", Value.natural n))
      · rw [State.natural?, found]
      · simp [defaults] at silent
  have shape : t.command "mine" = .ok (.mine location (t.natural? "count")) := by
    obtain ⟨given, _, pending, wordsOnly⟩ := t
    cases words
    rfl
  rw [shape, found]

theorem command_eq (h : Holds t command among) (words : t.words = command.arguments) :
    t.command command.name = .ok command := by
  cases command with
  | login username password | register username password =>
    obtain ⟨given, _, pending, wordsOnly⟩ := t
    cases words
    rfl
  | logout | hiscores | base | upgrade => rfl
  | status json => exact h.status
  | inventory pageSize page sort ascending => exact h.inventory
  | mine location count => exact h.mine words

/-- The address is found where it stands, and nowhere else. -/
theorem address_eq (h : Holds t command among) {front : List (String × Value)} {api : Option String}
    {root : State} (placed : front ++ among = addressSettings api) (before : root.given = front) :
    (t.text? "api").or (root.text? "api") = api := by
  -- `api` is no setting of a command, so it is given only where `among` gives it.
  have nowhere (none : among = []) : t.text? "api" = Option.none := by
    have arranged := h.arranged
    rw [none, List.append_nil] at arranged
    rw [State.text?, arranged.lookup_eq_none (api_not_mem command)]
  cases api with
  | none =>
    obtain ⟨rfl, rfl⟩ := List.append_eq_nil_iff.1 placed
    rw [nowhere rfl, State.text?, before]
    rfl
  | some address =>
    obtain ⟨rfl, rfl⟩ | ⟨rfl, rfl⟩ := List.append_eq_singleton_iff.1 placed
    · have mem : ("api", .text address) ∈ command.settings ++ [("api", Value.text address)] :=
        List.mem_append_right _ (List.mem_singleton_self _)
      obtain found | ⟨-, silent⟩ := h.arranged.lookup h.distinct mem
      · rw [State.text?, found]
        rfl
      · simp [defaults] at silent
    · rw [nowhere rfl, State.text?, before]
      rfl

end Holds

theorem exists_writesAll (settings : List (String × Value)) : ∃ words, WritesAll settings words := by
  induction settings with
  | nil => exact ⟨[], [], .nil, rfl⟩
  | cons x settings ih =>
    obtain ⟨_, parts, each, rfl⟩ := ih
    obtain ⟨name, value⟩ := x
    have one : ∃ words, Writes (name, value) words := by
      cases value with
      | flag => exact ⟨_, .flag name⟩
      | text | unsigned | natural | sortKey => exact ⟨_, .joined name rfl⟩
    obtain ⟨words, writes⟩ := one
    exact ⟨_, words :: parts, .cons writes each, rfl⟩

theorem exists_line (i : Invocation) : ∃ words, Says i words := by
  obtain ⟨before, front⟩ := exists_writesAll (addressSettings i.api)
  obtain ⟨options, given⟩ := exists_writesAll (i.command.settings ++ [])
  have all : Arranges (i.command.settings ++ []) (i.command.settings ++ []) :=
    ⟨[], by rw [List.append_nil], fun _ h => absurd h List.not_mem_nil⟩
  exact ⟨_, .line (List.append_nil _) all front given⟩

theorem readLevel_arguments {level : Level} {s t : State} {words : List String} (plain : level.IsPlain)
    (resolved : s.resolve = .ok t) (options : t.wordsOnly = false)
    (room : t.words.length + words.length ≤ level.words) :
    ∃ s' t', readLevel level s (argumentWords words) = .ok (s', none) ∧ s'.resolve = .ok t' ∧
      t'.given = t.given ∧ t'.words = t.words ++ words := by
  cases words with
  | nil => exact ⟨s, t, rfl, resolved, rfl, (List.append_nil _).symm⟩
  | cons word words =>
    obtain ⟨s', read, resolved'⟩ := readLevel_dashes plain resolved options room
    exact ⟨s', _, read, resolved', rfl, rfl⟩

theorem readLevel_name {root t : State} (command : Command) (resolved : root.resolve = .ok t)
    (options : t.wordsOnly = false) (rest : List String) :
    readLevel rootLevel root (command.name :: rest) = .ok (root, some (command.name, rest)) := by
  obtain ⟨awaits, -, -, same⟩ := State.resolve_eq_ok resolved
  have known : rootLevel.commands.contains command.name = true :=
    List.contains_iff_mem.2 (List.mem_append_left _ (name_mem command))
  rw [readLevel, known, awaits, ← same, options]
  rfl

theorem length_arguments (command : Command) :
    command.arguments.length ≤ (commandLevel command.name).words := by
  cases command <;> exact Nat.le_refl _

theorem readCommand_eq {i : Invocation} {root t : State} {front among given : List (String × Value)}
    {options : List String} (resolved : root.resolve = .ok t) (before : t.given = front)
    (placed : front ++ among = addressSettings i.api)
    (arranged : Arranges (i.command.settings ++ among) given)
    (distinct : ((i.command.settings ++ among).map Prod.fst).Nodup)
    (takes : ∀ x ∈ given, (commandLevel i.command.name).Takes x) (writes : WritesAll given options) :
    readCommand root i.command.name (options ++ argumentWords i.command.arguments) = .ok i := by
  have room : ({} : State).words.length + i.command.arguments.length ≤
      (commandLevel i.command.name).words := by
    rw [List.length_nil, Nat.zero_add]
    exact length_arguments i.command
  obtain ⟨s, read, settled⟩ := readLevel_writesAll (s := {}) (isPlain_command i.command) takes writes
    rfl rfl (arranged.distinct distinct) (argumentWords i.command.arguments)
  obtain ⟨s', t', read', settled', same, words⟩ :=
    readLevel_arguments (isPlain_command i.command) settled rfl room
  rw [← show t'.given = given from same] at arranged
  have holds : Holds t' i.command among :=
    ⟨arranged, distinct, fun x hx => fst_of_mem_address (placed ▸ List.mem_append_right front hx)⟩
  have command := holds.command_eq words
  have api := holds.address_eq placed before
  rw [readCommand, read, read']
  simp only [Except.bind, settled', command, resolved, Except.map, api]

section Placed
variable {command : Command} {api : Option String} {front among given : List (String × Value)}
  (placed : front ++ among = addressSettings api)
include placed

theorem takes_front : ∀ x ∈ front, rootLevel.Takes x := by
  intro x hx
  exact takes_address rfl (placed ▸ List.mem_append_left among hx)

theorem takes_given (fits : ∀ location n, command = .mine location (some n) → n < UInt64.size)
    (arranged : Arranges (command.settings ++ among) given) :
    ∀ x ∈ given, (commandLevel command.name).Takes x := by
  intro x hx
  obtain h | h := List.mem_append.1 (arranged.mem_all hx)
  · exact takes_settings fits h
  · exact takes_address rfl (placed ▸ List.mem_append_right front h)

theorem distinct_front : (front.map Prod.fst).Nodup := by
  have distinct := distinct_settings .base api
  rw [← placed] at distinct
  exact distinct.sublist ((List.sublist_append_left front among).map Prod.fst)

theorem distinct_among (command : Command) : ((command.settings ++ among).map Prod.fst).Nodup := by
  have distinct := distinct_settings command api
  rw [← placed] at distinct
  exact distinct.sublist
    (((List.Sublist.refl _).append (List.sublist_append_right front among)).map Prod.fst)

end Placed

/-- Every command can be written, and in every way in which it can be written it is read. -/
theorem commands_read_back (i : Invocation)
    (fits : ∀ location n, i.command = .mine location (some n) → n < UInt64.size) :
    (∃ words, Says i words) ∧ ∀ words, Says i words → read words = .ok i := by
  refine ⟨exists_line i, ?_⟩
  rintro _ @⟨front, among, given, before, options, placed, arranged, front_writes, given_writes⟩
  obtain ⟨root, first, resolved⟩ := readLevel_writesAll (s := {}) isPlain_root (takes_front placed)
    front_writes rfl rfl (distinct_front placed)
    (i.command.name :: (options ++ argumentWords i.command.arguments))
  -- What waits before the name of the command is looked at only when the whole line has been read.
  have rest := readCommand_eq resolved rfl placed arranged (distinct_among placed i.command)
    (takes_given placed fits arranged) given_writes
  have noHelp : i.command.name ≠ helpCommand := by
    have all : ∀ name ∈ commandNames, name ≠ helpCommand := by decide
    exact all _ (name_mem i.command)
  rw [CommandLine.read, first, readLevel_name i.command resolved rfl]
  exact (if_neg noHelp).trans rest

/-- The address is the name of a command, and the place looks like the end of the options. -/
theorem commands_read_back_dashes :
    let i : Invocation := ⟨some "help", .mine "--" (some 3)⟩
    let words := ["--api", "help", "mine", "--count=3", "--", "--"]
    (∀ location n, i.command = .mine location (some n) → n < UInt64.size) ∧
      Says i words ∧ read words = .ok i := by
  intro i words
  have fits : ∀ location n, i.command = .mine location (some n) → n < UInt64.size := by
    rintro _ _ ⟨⟩
    decide
  have line : Says i words := by
    have placed : [("api", Value.text "help")] ++ [] = addressSettings (some "help") := rfl
    have arranged : Arranges (i.command.settings ++ []) [("count", .natural 3)] :=
      ⟨[], .refl _, fun _ h => absurd h List.not_mem_nil⟩
    have address : WritesAll [("api", .text "help")] ["--api", "help"] :=
      ⟨[["--api", "help"]], .cons (.apart "api" rfl (by decide)) .nil, rfl⟩
    have three : (Value.natural 3).word? = some "3" := by
      rw [Value.word?, Decimal.text, Decimal.digits]
      rfl
    have count : WritesAll [("count", .natural 3)] ["--count=3"] :=
      ⟨[["--count=3"]], .cons (.joined "count" three) .nil, rfl⟩
    exact .line placed arranged address count
  exact ⟨fits, line, (commands_read_back i fits).2 words line⟩

example : read ["inventory", "--ascending", "--api", "-", "--sort=rarity"] =
    .ok ⟨some "-", .inventory 20 0 .rarity true⟩ := by decide

end CommandLine
end MiningClient
