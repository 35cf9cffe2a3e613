import Mathlib.Data.List.Nodup
import Mathlib.Data.List.TakeDrop
import MiningClient.Settings.Layers

namespace MiningClient

namespace Settings

/-- The key is a name, not a way on from one. -/
def IsName (key : String) : Prop := ∀ c ∈ key.toList, c ≠ '.' ∧ c ≠ '['

/-- The keys of one source are names, each there once in whatever case. -/
structure Named (keys : List String) : Prop where
  name : ∀ key ∈ keys, IsName key
  distinct : (keys.map Text.lowercase).Nodup

namespace Field

abbrev Value : Field → Type
  | requestTimeout => UInt64
  | _ => String

def read? : (f : Field) → Raw → Option f.Value
  | apiBaseUrl, raw => raw.text?
  | imageBaseUrl, raw => raw.text?
  | dataFolder, raw => raw.text?
  | requestTimeout, raw => raw.number?

theorem ofKey?_eq_some_iff {key : String} {f : Field} : ofKey? key = some f ↔ key = f.key := by
  constructor
  · intro h
    exact (eq_of_beq (List.find?_some (p := fun g : Field => g.key == key) h)).symm
  · rintro rfl
    cases f <;> rfl

theorem key_injective {f g : Field} (h : f.key = g.key) : f = g := by
  have hf : ofKey? f.key = some f := ofKey?_eq_some_iff.2 rfl
  rw [h, ofKey?_eq_some_iff.2 rfl] at hf
  exact (Option.some.inj hf).symm

theorem isNameChar_of_mem_key {f : Field} {c : Char} (h : c ∈ f.key.toList) :
    isNameChar c = true := by
  have all : f.key.toList.all isNameChar = true := by cases f <;> decide +kernel
  exact List.all_eq_true.1 all c h

end Field

def value (s : Settings) : (f : Field) → f.Value
  | .apiBaseUrl => s.apiBaseUrl
  | .imageBaseUrl => s.imageBaseUrl
  | .dataFolder => s.dataFolder
  | .requestTimeout => s.requestTimeoutSeconds

/-- What a file says for a field; an empty table says nothing. -/
def fileValue? (entries : List KeyValue) (f : Field) : Option Raw :=
  (entries.find? fun e => Text.lowercase e.1 == f.key).bind (·.2)

def variableText? (env : Environment) (f : Field) : Option String :=
  (env.entries.find? fun e => Text.lowercase e.1 == variableStart ++ f.key).map (·.2)

def effective (env : Environment) (entries : List KeyValue) : Draft := fun f =>
  (((variableText? env f).map .text).or (fileValue? entries f)).getD
    (Draft.ofSettings (default env) f)

def isOwn (name : String) : Bool :=
  variableStart.toList.isPrefixOf (Text.lowercase name).toList

/-- The names of the program's own variables that are set. -/
def ownNames (env : Environment) : List String := (env.entries.map (·.1)).filter isOwn

section Keys

theorem areSteps_of_ne {c : Char} (hc : c ≠ '.' ∧ c ≠ '[') (most : Nat) (cs : List Char) :
    areSteps most (c :: cs) = false := by
  unfold areSteps
  split
  · rename_i h
    cases h
  · rename_i h
    exact absurd (List.cons.inj h).1 hc.1
  · rename_i h
    exact absurd (List.cons.inj h).1 hc.2
  · rfl

/-- Names of letters, digits and underscores are among them. -/
theorem IsName.of_all {key : String} (h : key.toList.all isNameChar = true) : IsName key := by
  intro c hc
  have := List.all_eq_true.1 h c hc
  constructor <;> rintro rfl <;> exact absurd this (by decide)

theorem isName_lowercase {key : String} : IsName (Text.lowercase key) ↔ IsName key := by
  simp only [IsName, Text.lowercase, String.toList_ofList, List.forall_mem_map]
  refine forall₂_congr fun c _ => ?_
  obtain same | ⟨low, high⟩ := Text.toLower_cases c
  · rw [same]
  · have letter : ∀ d : Char, d.toNat < 0x41 ∨ d.toNat = 0x5B → c.toLower ≠ d ∧ c ≠ d := by
      intro d hd
      constructor
      · rintro rfl
        omega
      · rintro rfl
        rw [Text.toLower_of_bounds (by omega)] at low
        omega
    have dot := letter '.' (by decide)
    have bracket := letter '[' (by decide)
    simp [dot, bracket]

/-- What a name and its value say is for the field of that name, if there is one. -/
theorem ofKey?_of_isName {key : String} (h : IsName key) (value : Option Raw) :
    Assignment.ofKey? key value =
      (Field.ofKey? (Text.lowercase key)).bind fun f => value.map (⟨f, ·⟩) := by
  have h := isName_lowercase.2 h
  unfold Assignment.ofKey?
  generalize Text.lowercase key = lower at h
  have whole := List.takeWhile_append_dropWhile (p := isNameChar) (l := lower.toList)
  rw [List.span_eq_takeWhile_dropWhile]
  simp only
  cases hrest : lower.toList.dropWhile isNameChar with
  | nil =>
    rw [hrest, List.append_nil] at whole
    rw [whole, String.ofList_toList]
    simp
  | cons c rest =>
    -- The character behind the first part leads nowhere, and no field has it in its name.
    have mem : c ∈ lower.toList := by
      rw [← whole, hrest]
      simp
    have other : isNameChar c = false := by
      have := List.head?_dropWhile_not isNameChar lower.toList
      simpa [hrest] using this
    have unknown : Field.ofKey? lower = none := by
      refine Option.eq_none_iff_forall_ne_some.2 fun f hf => ?_
      rw [Field.ofKey?_eq_some_iff.1 hf] at mem
      rw [Field.isNameChar_of_mem_key mem] at other
      cases other
    rw [unknown]
    simp [areSteps_of_ne (h c mem)]

end Keys

section Lookup
variable {entries : List KeyValue}

theorem Named.tail {key : String} {keys : List String} (h : Named (key :: keys)) :
    Text.lowercase key ∉ keys.map Text.lowercase ∧ Named keys := by
  obtain ⟨-, name⟩ := List.forall_mem_cons.1 h.name
  obtain ⟨fresh, distinct⟩ := List.nodup_cons.1 h.distinct
  exact ⟨fresh, name, distinct⟩

theorem Named.sublist {keys keys' : List String} (h : Named keys) (sub : keys'.Sublist keys) :
    Named keys' :=
  ⟨fun key hkey => h.name key (sub.subset hkey), h.distinct.sublist (sub.map _)⟩

theorem fileValue?_of_not_mem {f : Field} (h : f.key ∉ (entries.map (·.1)).map Text.lowercase) :
    fileValue? entries f = none := by
  have none : (entries.find? fun e => Text.lowercase e.1 == f.key) = none := by
    rw [List.find?_eq_none]
    intro e he same
    refine h ?_
    rw [← eq_of_beq same, List.map_map]
    exact List.mem_map_of_mem he
  rw [fileValue?, none]
  rfl

theorem fileValue?_cons_self {f : Field} {key : String} (h : Text.lowercase key = f.key)
    (value : Option Raw) : fileValue? ((key, value) :: entries) f = value := by
  simp [fileValue?, h]

theorem fileValue?_cons_of_ne {f : Field} {key : String} (h : Text.lowercase key ≠ f.key)
    (value : Option Raw) : fileValue? ((key, value) :: entries) f = fileValue? entries f := by
  simp [fileValue?, h]

/-- The entries of one source, assigned in order, give each field what the source says for it. -/
theorem foldl_assign (named : Named (entries.map (·.1))) (d : Draft) (f : Field) :
    (entries.filterMap Assignment.ofEntry?).foldl Draft.assign d f =
      (fileValue? entries f).getD (d f) := by
  induction entries generalizing d with
  | nil => rfl
  | cons e entries ih =>
    obtain ⟨key, value⟩ := e
    obtain ⟨fresh, rest⟩ := named.tail
    have meant := ofKey?_of_isName (named.name key (List.mem_cons_self ..)) value
    rw [List.filterMap_cons, Assignment.ofEntry?, meant]
    cases hkey : Field.ofKey? (Text.lowercase key) with
    | none =>
      have other : Text.lowercase key ≠ f.key := fun h => by
        rw [Field.ofKey?_eq_some_iff.2 h] at hkey
        cases hkey
      rw [fileValue?_cons_of_ne other]
      exact ih rest d
    | some g =>
      have hg := Field.ofKey?_eq_some_iff.1 hkey
      rw [hg] at fresh
      by_cases hf : f = g
      · subst hf
        rw [fileValue?_cons_self hg]
        -- The key is there once, so nothing later replaces the value.
        have later := fileValue?_of_not_mem fresh
        cases value with
        | none => exact (ih rest d).trans (by rw [later])
        | some raw =>
          refine (ih rest (d.assign ⟨f, raw⟩)).trans ?_
          rw [later]
          exact Draft.assign_same d ⟨f, raw⟩
      · have other : Text.lowercase key ≠ f.key := fun h => hf (Field.key_injective (h.symm.trans hg))
        rw [fileValue?_cons_of_ne other]
        cases value with
        | none => exact ih rest d
        | some raw =>
          refine (ih rest (d.assign ⟨g, raw⟩)).trans ?_
          rw [Draft.assign_of_ne d ⟨g, raw⟩ hf]

end Lookup

section Variables
variable {env : Environment}

def ownKey (name : String) : String :=
  String.ofList ((Text.lowercase name).toList.drop variableStart.toList.length)

theorem lowercase_of_isOwn {name : String} (h : isOwn name = true) :
    Text.lowercase name = variableStart ++ ownKey name := by
  obtain ⟨rest, hrest⟩ := List.isPrefixOf_iff_prefix.1 h
  rw [← String.toList_inj, String.toList_append, ownKey, String.toList_ofList, ← hrest,
    List.drop_left]

theorem isOwn_iff {name : String} {f : Field} :
    isOwn name = true ∧ ownKey name = f.key ↔ Text.lowercase name = variableStart ++ f.key := by
  constructor
  · rintro ⟨own, key⟩
    rw [lowercase_of_isOwn own, key]
  · intro h
    have own : isOwn name = true := by
      rw [isOwn, h, String.toList_append]
      exact List.isPrefixOf_iff_prefix.2 (List.prefix_append _ _)
    refine ⟨own, ?_⟩
    rw [lowercase_of_isOwn own] at h
    exact (String.append_right_inj variableStart).1 h

/-- The program's own variables as entries. -/
def ownKeyValue? (entry : String × String) : Option KeyValue :=
  if isOwn entry.1 then some (ownKey entry.1, some (.text entry.2)) else none

theorem ofVariable?_eq (entry : String × String) :
    Assignment.ofVariable? entry = (ownKeyValue? entry).bind Assignment.ofEntry? := by
  unfold Assignment.ofVariable? ownKeyValue?
  dsimp only
  by_cases h : isOwn entry.1 = true
  · rw [if_pos h, Option.bind_some, Assignment.ofEntry?]
    rw [isOwn] at h
    rw [if_pos h, ownKey]
  · rw [if_neg h, Option.bind_none]
    rw [isOwn] at h
    rw [if_neg h]

theorem map_ownKeyValue? (entries : List (String × String)) :
    (entries.filterMap ownKeyValue?).map (·.1) = ((entries.map (·.1)).filter isOwn).map ownKey := by
  induction entries with
  | nil => rfl
  | cons e entries ih =>
    rw [List.filterMap_cons, List.map_cons, List.filter_cons, ownKeyValue?]
    cases isOwn e.1 <;> simp [ih]

theorem Named.ownKeys {names : List String} (h : Named names) (own : ∀ n ∈ names, isOwn n = true) :
    Named (names.map ownKey) where
  name := by
    rw [List.forall_mem_map]
    intro n hn c hc
    refine isName_lowercase.2 (h.name n hn) c ?_
    rw [lowercase_of_isOwn (own n hn), String.toList_append]
    exact List.mem_append_right _ hc
  distinct := by
    have distinct := h.distinct
    rw [List.map_map]
    refine List.Nodup.map_on ?_ (List.Nodup.of_map _ distinct)
    -- Names of the program's own have the same start, so they differ behind it.
    intro a ha b hb same
    have same : Text.lowercase (ownKey a) = Text.lowercase (ownKey b) := same
    refine List.inj_on_of_nodup_map distinct ha hb ?_
    rw [ownKey, ownKey, Text.lowercase_drop, Text.lowercase_drop] at same
    rw [lowercase_of_isOwn (own a ha), lowercase_of_isOwn (own b hb), ownKey, ownKey, same]

theorem fileValue?_ownEntries (f : Field) :
    fileValue? (env.entries.filterMap ownKeyValue?) f = (variableText? env f).map .text := by
  have same : ∀ e : String × String,
      (ownKeyValue? e).any (fun e => Text.lowercase e.1 == f.key) =
        (Text.lowercase e.1 == variableStart ++ f.key) := by
    intro e
    rw [Bool.eq_iff_iff, beq_iff_eq, ← isOwn_iff, ownKeyValue?]
    cases isOwn e.1 with
    | false => simp
    | true => simp [ownKey, Text.lowercase_drop]
  rw [fileValue?, List.find?_filterMap, variableText?, Option.map_map]
  simp only [same]
  cases hfound : env.entries.find? fun e => Text.lowercase e.1 == variableStart ++ f.key with
  | none => rfl
  | some e =>
    have own := (isOwn_iff.2 (eq_of_beq (List.find?_some
      (p := fun e : String × String => Text.lowercase e.1 == variableStart ++ f.key) hfound))).1
    simp [ownKeyValue?, own]

end Variables

theorem layers_eq {env : Environment} {entries : List KeyValue} (file : Named (entries.map (·.1)))
    (vars : Named (ownNames env)) : layers env entries = effective env entries := by
  funext f
  have own : Named ((env.entries.filterMap ownKeyValue?).map (·.1)) := by
    rw [map_ownKeyValue?]
    exact vars.ownKeys fun n hn => (List.mem_filter.1 hn).2
  have asEntries : env.entries.filterMap Assignment.ofVariable? =
      (env.entries.filterMap ownKeyValue?).filterMap Assignment.ofEntry? := by
    rw [List.filterMap_filterMap]
    exact List.filterMap_congr fun e _ => ofVariable?_eq e
  rw [layers, List.foldl_append, asEntries, foldl_assign own, foldl_assign file,
    fileValue?_ownEntries, effective]
  cases (variableText? env f) <;> rfl

section Reading

theorem settings?_eq_some_iff {d : Draft} {s : Settings} :
    d.settings? = some s ↔ ∀ f : Field, f.read? (d f) = some (s.value f) := by
  constructor
  · intro h f
    simp only [Draft.settings?, Option.bind_eq_bind, Option.bind_eq_some_iff, Option.some.injEq] at h
    obtain ⟨api, hapi, image, himage, folder, hfolder, timeout, htimeout, rfl⟩ := h
    cases f with
    | apiBaseUrl => exact hapi
    | imageBaseUrl => exact himage
    | dataFolder => exact hfolder
    | requestTimeout => exact htimeout
  · intro h
    have hapi : (d .apiBaseUrl).text? = some s.apiBaseUrl := h .apiBaseUrl
    have himage : (d .imageBaseUrl).text? = some s.imageBaseUrl := h .imageBaseUrl
    have hfolder : (d .dataFolder).text? = some s.dataFolder := h .dataFolder
    have htimeout : (d .requestTimeout).number? = some s.requestTimeoutSeconds := h .requestTimeout
    simp only [Draft.settings?, hapi, himage, hfolder, htimeout, Option.bind_eq_bind,
      Option.bind_some]

theorem exists_settings_iff {d : Draft} :
    (∃ s, d.settings? = some s) ↔ ∀ f : Field, (f.read? (d f)).isSome := by
  constructor
  · rintro ⟨s, hs⟩ f
    rw [settings?_eq_some_iff.1 hs f]
    rfl
  · intro h
    obtain ⟨apiBaseUrl, hapi⟩ := Option.isSome_iff_exists.1 (h .apiBaseUrl)
    obtain ⟨imageBaseUrl, himage⟩ := Option.isSome_iff_exists.1 (h .imageBaseUrl)
    obtain ⟨dataFolder, hfolder⟩ := Option.isSome_iff_exists.1 (h .dataFolder)
    obtain ⟨requestTimeoutSeconds, htimeout⟩ := Option.isSome_iff_exists.1 (h .requestTimeout)
    exact ⟨{ apiBaseUrl, imageBaseUrl, dataFolder, requestTimeoutSeconds },
      settings?_eq_some_iff.2 fun f => by cases f <;> assumption⟩

variable {env : Environment} {tree : Tree} {path : String} {entries : List KeyValue}

theorem loadFrom_eq_ok_iff (read : fileEntries? tree path = some entries)
    (file : Named (entries.map (·.1))) (own : Named (ownNames env)) {s : Settings} :
    loadFrom env tree path = .ok s ↔ (effective env entries).settings? = some s := by
  rw [loadFrom, read]
  simp only [layers_eq file own]
  cases (effective env entries).settings? <;> simp

theorem loadFrom_congr {env' : Environment} {tree' : Tree} {path' : String}
    {entries' : List KeyValue} (read : fileEntries? tree path = some entries)
    (file : Named (entries.map (·.1))) (own : Named (ownNames env))
    (read' : fileEntries? tree' path' = some entries') (file' : Named (entries'.map (·.1)))
    (own' : Named (ownNames env')) (same : effective env' entries' = effective env entries) :
    loadFrom env' tree' path' = loadFrom env tree path := by
  rw [loadFrom, read', loadFrom, read]
  simp only [layers_eq file own, layers_eq file' own', same]

end Reading

section Overriding

theorem find?_filter_of_imp {α : Type} {p q : α → Bool} (h : ∀ a, p a = true → q a = true)
    (l : List α) : (l.filter q).find? p = l.find? p := by
  rw [List.find?_filter]
  congr 1
  funext a
  cases hp : p a with
  | false => simp
  | true => simp [h a hp]

variable {env env' : Environment}

def others (env : Environment) : List (String × String) := env.entries.filter fun e => !isOwn e.1

theorem get?_congr {name : String} (same : others env' = others env) (h : isOwn name = false) :
    env'.get? name = env.get? name := by
  -- An own variable has another name, so dropping them all does not change the look-up.
  have among : ∀ entries : List (String × String),
      (entries.filter fun e => !isOwn e.1).lookup name = entries.lookup name := by
    intro entries
    induction entries with
    | nil => rfl
    | cons e entries ih =>
      obtain ⟨key, value⟩ := e
      rw [List.filter_cons, List.lookup_cons]
      cases own : isOwn key with
      | true =>
        have ne : (name == key) = false := by
          rw [beq_eq_false_iff_ne]
          rintro rfl
          rw [h] at own
          cases own
        simpa [ne] using ih
      | false => simp [List.lookup_cons, ih]
  rw [Environment.get?, ← among, Environment.get?, ← among env.entries]
  exact congrArg _ same

theorem default_congr (same : others env' = others env) (home : env'.accountHome = env.accountHome) :
    default env' = default env := by
  have h : isOwn "HOME" = false := by decide +kernel
  have h' : isOwn "XDG_DATA_HOME" = false := by decide +kernel
  simp only [default, Environment.dataFolder, Environment.folder, Environment.absolutePath?,
    Environment.home?, get?_congr same h, get?_congr same h', home]

/-- The environment with a variable set, in place of every one of its name in whatever case. -/
def overridden (env : Environment) (name text : String) : Environment :=
  { env with
    entries :=
      env.entries.filter (fun e => Text.lowercase e.1 != Text.lowercase name) ++ [(name, text)] }

/-- The environment without the program's own variables that are for no field. -/
def withoutUnknown (env : Environment) : Environment :=
  { env with
    entries := env.entries.filter fun e => !isOwn e.1 || (Field.ofKey? (ownKey e.1)).isSome }

variable {name text : String} {f : Field}

theorem others_overridden (h : isOwn name = true) :
    others (overridden env name text) = others env := by
  rw [others, overridden]
  simp only [List.filter_append, List.filter_filter, List.filter_cons, h, List.filter_nil]
  simp only [Bool.not_true, Bool.false_eq_true, if_false, List.append_nil]
  refine List.filter_congr fun e _ => ?_
  cases own : isOwn e.1 with
  | true => rfl
  | false =>
    have ne : Text.lowercase e.1 ≠ Text.lowercase name := fun same => by
      rw [isOwn, same, ← isOwn, h] at own
      cases own
    simpa using ne

theorem variableText?_overridden (h : Text.lowercase name = variableStart ++ f.key) (g : Field) :
    variableText? (overridden env name text) g =
      if g = f then some text else variableText? env g := by
  have ends : variableText? (overridden env name text) g =
      (((env.entries.filter fun e => Text.lowercase e.1 != Text.lowercase name).find? fun e =>
        Text.lowercase e.1 == variableStart ++ g.key).or
          ([(name, text)].find? fun e => Text.lowercase e.1 == variableStart ++ g.key)).map (·.2) := by
    rw [variableText?, overridden, List.find?_append]
  by_cases hg : g = f
  · subst hg
    -- What was set before under a name of the same letters is no longer there.
    have gone : ((env.entries.filter fun e => Text.lowercase e.1 != Text.lowercase name).find? fun e =>
        Text.lowercase e.1 == variableStart ++ g.key) = none := by
      rw [List.find?_eq_none]
      intro e he same
      have ne := (List.mem_filter.1 he).2
      rw [eq_of_beq same, h] at ne
      simp at ne
    rw [ends, gone]
    simp [h]
  · have ne : variableStart ++ g.key ≠ variableStart ++ f.key := by
      rw [Ne, String.append_right_inj]
      exact fun same => hg (Field.key_injective same)
    have last : ([(name, text)].find? fun e => Text.lowercase e.1 == variableStart ++ g.key) =
        none := by
      simp [h, ne.symm]
    rw [ends, last, Option.or_none, if_neg hg, find?_filter_of_imp, variableText?]
    intro e he
    rw [eq_of_beq he, h]
    exact bne_iff_ne.2 ne

theorem Named.overridden (own : Named (ownNames env))
    (h : Text.lowercase name = variableStart ++ f.key) :
    Named (ownNames (overridden env name text)) := by
  have isOwn : isOwn name = true := (isOwn_iff.2 h).1
  have names : ownNames (Settings.overridden env name text) =
      (ownNames env).filter (fun n => Text.lowercase n != Text.lowercase name) ++ [name] := by
    have last : [name].filter Settings.isOwn = [name] := by simp [isOwn]
    have kept : (env.entries.filter fun e => Text.lowercase e.1 != Text.lowercase name).map (·.1) =
        (env.entries.map (·.1)).filter fun n => Text.lowercase n != Text.lowercase name := by
      rw [List.filter_map]
      rfl
    rw [ownNames, Settings.overridden, List.map_append, List.filter_append, kept, List.filter_comm]
    exact congrArg _ last
  have rest := own.sublist (List.filter_sublist (l := ownNames env)
    (p := fun n => Text.lowercase n != Text.lowercase name))
  rw [names]
  constructor
  · intro key hkey
    obtain hkey | hkey := List.mem_append.1 hkey
    · exact rest.name key hkey
    · rw [List.mem_singleton.1 hkey, ← isName_lowercase, h]
      refine IsName.of_all ?_
      cases f <;> decide +kernel
  · rw [List.map_append, List.nodup_append]
    refine ⟨rest.distinct, List.nodup_singleton _, ?_⟩
    intro a ha b hb same
    obtain ⟨n, hn, rfl⟩ := List.mem_map.1 ha
    rw [List.map_singleton, List.mem_singleton] at hb
    have ne := (List.mem_filter.1 hn).2
    rw [same, hb] at ne
    simp at ne

theorem variableText?_withoutUnknown (g : Field) :
    variableText? (withoutUnknown env) g = variableText? env g := by
  rw [variableText?, withoutUnknown, find?_filter_of_imp, variableText?]
  intro e he
  have known := (isOwn_iff.2 (eq_of_beq he)).2
  simp [known, Field.ofKey?_eq_some_iff.2 rfl]

theorem others_withoutUnknown : others (withoutUnknown env) = others env := by
  rw [others, withoutUnknown, List.filter_filter]
  refine List.filter_congr fun e _ => ?_
  cases isOwn e.1 <;> rfl

theorem fileValue?_filter {entries : List KeyValue} (g : Field) :
    fileValue? (entries.filter fun e => (Field.ofKey? (Text.lowercase e.1)).isSome) g =
      fileValue? entries g := by
  rw [fileValue?, find?_filter_of_imp, fileValue?]
  intro e he
  rw [eq_of_beq he, Field.ofKey?_eq_some_iff.2 rfl]
  rfl

theorem effective_congr {entries entries' : List KeyValue} (base : default env' = default env)
    (texts : variableText? env' f = variableText? env f)
    (values : fileValue? entries' f = fileValue? entries f) :
    effective env' entries' f = effective env entries f := by
  rw [effective, base, texts, values, effective]

end Overriding

variable {env : Environment} {tree : Tree} {path : String} {entries : List KeyValue}

/-- Settings are loaded exactly if each value that counts can be read as what its field needs, and they
are these values. A variable that is set counts for its field whatever a file says for that, and leaves
what counts for the other fields; names of no field make no difference. -/
theorem loadFrom_effective (read : fileEntries? tree path = some entries)
    (file : Named (entries.map (·.1))) (own : Named (ownNames env)) :
    ((∃ s, loadFrom env tree path = .ok s) ↔
        ∀ f : Field, (f.read? (effective env entries f)).isSome) ∧
      (∀ s, loadFrom env tree path = .ok s ↔
        ∀ f : Field, f.read? (effective env entries f) = some (s.value f)) ∧
      (∀ (f : Field) (name text : String), Text.lowercase name = variableStart ++ f.key →
        ∀ tree' path' entries', fileEntries? tree' path' = some entries' →
          Named (entries'.map (·.1)) → (∀ g ≠ f, fileValue? entries' g = fileValue? entries g) →
          ∀ s', loadFrom (overridden env name text) tree' path' = .ok s' ↔
            f.read? (.text text) = some (s'.value f) ∧
              ∀ g : Field, g ≠ f → g.read? (effective env entries g) = some (s'.value g)) ∧
      ∀ tree' path',
        fileEntries? tree' path' =
            some (entries.filter fun e => (Field.ofKey? (Text.lowercase e.1)).isSome) →
          loadFrom (withoutUnknown env) tree' path' = loadFrom env tree path := by
  refine ⟨?_, fun s => ?_, ?_, ?_⟩
  · simp only [loadFrom_eq_ok_iff read file own, exists_settings_iff]
  · rw [loadFrom_eq_ok_iff read file own, settings?_eq_some_iff]
  · intro f name text h tree' path' entries' read' file' rest s'
    rw [loadFrom_eq_ok_iff read' file' (own.overridden h), settings?_eq_some_iff]
    have base : default (overridden env name text) = default env :=
      default_congr (others_overridden (isOwn_iff.2 h).1) rfl
    -- Only `f` has changed: its variable says `text`, and the rest is as it was.
    have self : effective (overridden env name text) entries' f = .text text := by
      simp [effective, variableText?_overridden h]
    have other : ∀ g ≠ f,
        effective (overridden env name text) entries' g = effective env entries g := fun g hg =>
      effective_congr base (by rw [variableText?_overridden h, if_neg hg]) (rest g hg)
    constructor
    · intro all
      exact ⟨self ▸ all f, fun g hg => other g hg ▸ all g⟩
    · rintro ⟨hf, hrest⟩ g
      by_cases hg : g = f
      · subst hg
        rwa [self]
      · rw [other g hg]
        exact hrest g hg
  · intro tree' path' read'
    have file' := file.sublist ((List.filter_sublist (l := entries)
      (p := fun e => (Field.ofKey? (Text.lowercase e.1)).isSome)).map (·.1))
    have own' : Named (ownNames (withoutUnknown env)) :=
      own.sublist ((List.filter_sublist.map _).filter _)
    refine loadFrom_congr read file own read' file' own' (funext fun f => ?_)
    exact effective_congr (default_congr others_withoutUnknown rfl) (variableText?_withoutUnknown f)
      (fileValue?_filter f)

/-- A file with a number for a text, a list for a number, a name of no field and an empty table. -/
def mixedFile : String :=
  "API_base_url = 3\nrequest_timeout_secs = [1]\nother = 2\n[data_dir]\n"

def mixedTree : Tree := ({} : Tree).put ["c.toml"] (.file (Utf8.encode mixedFile))

def mixedEntries : List KeyValue :=
  [("API_base_url", some (.integer 3)), ("request_timeout_secs", some .unusable),
    ("other", some (.integer 2)), ("data_dir", none)]

/-- An account with an empty text for the pictures and a variable for no field. -/
def ownEnvironment : Environment where
  entries := [("Mine_Idler_Other", "x"), ("HOME", "/home/ada"), ("MINE_IDLER_IMAGE_BASE_URL", "")]

theorem loadFrom_effective_timeout :
    fileEntries? mixedTree "/c.toml" = some mixedEntries ∧
      Named (mixedEntries.map (·.1)) ∧ Named (ownNames ownEnvironment) ∧
      loadFrom (overridden ownEnvironment "mine_idler_Request_Timeout_Secs" "7") mixedTree "/c.toml" =
        .ok ⟨"3", "", "/home/ada/.local/share/mine-idler", 7⟩ := by
  have read : fileEntries? mixedTree "/c.toml" = some mixedEntries := by decide +kernel
  have file : Named (mixedEntries.map (·.1)) :=
    ⟨by simp only [mixedEntries, List.map_cons, List.map_nil, List.forall_mem_cons]
        exact ⟨.of_all (by decide +kernel), .of_all (by decide +kernel), .of_all (by decide +kernel),
          .of_all (by decide +kernel), by simp⟩,
      by decide +kernel⟩
  have names : ownNames ownEnvironment = ["Mine_Idler_Other", "MINE_IDLER_IMAGE_BASE_URL"] := by
    decide +kernel
  have own : Named (ownNames ownEnvironment) := by
    rw [names]
    exact ⟨by
        simp only [List.forall_mem_cons]
        exact ⟨.of_all (by decide +kernel), .of_all (by decide +kernel), by simp⟩,
      by decide +kernel⟩
  refine ⟨read, file, own, ?_⟩
  obtain ⟨-, -, raised, -⟩ := loadFrom_effective read file own
  refine (raised .requestTimeout "mine_idler_Request_Timeout_Secs" "7" (by decide +kernel) mixedTree
    "/c.toml" mixedEntries read file (fun _ _ => rfl) _).2 ⟨by decide +kernel, ?_⟩
  intro g hg
  cases g with
  | apiBaseUrl => decide +kernel
  | imageBaseUrl => decide +kernel
  | dataFolder => decide +kernel
  | requestTimeout => exact absurd rfl hg

end Settings
end MiningClient
