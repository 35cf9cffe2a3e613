import MiningClient.Command.Line
import MiningClient.Proofs.Number.Written
import Mathlib.Data.List.Forall2

namespace MiningClient.CommandLine

namespace Value

def kind : Value → Kind
  | flag => .flag
  | text _ => .text
  | unsigned _ => .unsigned
  | natural _ => .natural
  | sortKey _ => .sortKey

def word? : Value → Option String
  | flag => none
  | text s => some s
  | unsigned n => some (Decimal.text n.toNat)
  | natural n => some (Decimal.text n)
  | sortKey k => some k.name

/-- Numbers have at most 64 bits. -/
def Fits : Value → Prop
  | natural n => n < UInt64.size
  | _ => True

end Value

theorem Kind.read_word {value : Value} {word : String} (written : value.word? = some word)
    (fits : value.Fits) : value.kind.read word = .ok value := by
  have digits (n : Nat) : Decimal.IsDigits (Decimal.text n).toList n := by
    rw [Decimal.text, String.toList_ofList]
    exact Decimal.isDigits_digits n
  cases value with
  | flag => cases written
  | text s =>
    cases written
    rfl
  | unsigned n =>
    cases written
    have number := Decimal.signed?_eq_some_iff.2 (.plain (digits n.toNat))
    have small : (0 : Int) ≤ n.toNat ∧ (n.toNat : Int) < UInt32.size :=
      ⟨Int.natCast_nonneg _, Int.ofNat_lt.2 n.toNat_lt_size⟩
    simp only [Value.kind, read, number, if_pos small, Int.toNat_natCast, UInt32.ofNat_toNat]
  | natural n =>
    cases written
    simp only [Value.kind, read, (digits n).unsigned?_eq, if_pos (show n < UInt64.size from fits)]
  | sortKey k =>
    cases written
    simp only [Value.kind, read, SortKey.ofName?_name]

/-- An option with its value, as one or two words of a line. -/
inductive Writes : String × Value → List String → Prop
  | flag (name : String) : Writes (name, .flag) ["--" ++ name]
  | joined (name : String) {value : Value} {word : String} (written : value.word? = some word) :
    Writes (name, value) ["--" ++ name ++ "=" ++ word]
  | apart (name : String) {value : Value} {word : String} (written : value.word? = some word)
    (plain : word.toList.head? ≠ some '-') : Writes (name, value) ["--" ++ name, word]

/-- Options one after another. -/
def WritesAll (settings : List (String × Value)) (words : List String) : Prop :=
  ∃ parts, List.Forall₂ Writes settings parts ∧ parts.flatten = words

/-- The level has the option, and takes such a value for it. -/
structure Level.Takes (level : Level) (x : String × Value) : Prop where
  found : level.options.find? (·.name == x.1) = some ⟨x.1, x.2.kind⟩
  fits : x.2.Fits

/-- No command can be taken for an option, and no name of an option for something else. -/
structure Level.IsPlain (level : Level) : Prop where
  commands : ∀ c ∈ level.commands, c.toList.head? ≠ some '-'
  options : ∀ o ∈ level.options, o.name.toList ≠ [] ∧ '=' ∉ o.name.toList

section Reading
variable {level : Level} {s s' t : State} {x : String × Value} {word : String}

/-- A state is looked at when nothing waits, or when what waits is given a value for the first time. -/
theorem State.resolve_cases (h : s.resolve = .ok t) :
    (s.pending = none ∧ t = s) ∨
      ∃ option word v, s.pending = some ⟨option, some word⟩ ∧ option.kind.read word = .ok v ∧
        (s.given.lookup option.name).isSome = false ∧
        t = { s with given := s.given ++ [(option.name, v)], pending := none } := by
  cases waits : s.pending with
  | none =>
    rw [State.resolve, waits] at h
    cases h
    exact .inl ⟨rfl, rfl⟩
  | some waiting =>
    obtain ⟨option, value⟩ := waiting
    cases value with
    | none =>
      rw [State.resolve, waits] at h
      cases h
    | some word =>
      simp only [State.resolve, waits, State.give] at h
      split at h
      · cases h
      · rename_i fresh
        cases read : option.kind.read word with
        | error e =>
          rw [read] at h
          cases h
        | ok v =>
          rw [read] at h
          cases h
          exact .inr ⟨option, word, v, rfl, read, eq_false_of_ne_true fresh, rfl⟩

theorem State.resolve_settled (settled : s.pending = none) : s.resolve = .ok s := by
  rw [State.resolve, settled]

theorem State.resolve_eq_ok (h : s.resolve = .ok t) :
    s.awaitsValue = false ∧ t.pending = none ∧ t.words = s.words ∧ t.wordsOnly = s.wordsOnly := by
  obtain ⟨settled, rfl⟩ | ⟨option, word, v, waits, -, -, rfl⟩ := State.resolve_cases h
  · exact ⟨by rw [State.awaitsValue, settled], settled, rfl, rfl⟩
  · exact ⟨by rw [State.awaitsValue, waits], rfl, rfl, rfl⟩

/-- What waits does not mind whether there are options after it. -/
theorem State.resolve_wordsOnly (h : s.resolve = .ok t) :
    { s with wordsOnly := true }.resolve = .ok { t with wordsOnly := true } := by
  obtain ⟨settled, rfl⟩ | ⟨option, word, v, waits, read, fresh, rfl⟩ := State.resolve_cases h
  · exact State.resolve_settled settled
  · simp only [State.resolve, waits, State.give, fresh, read]
    rfl

theorem State.with_none (settled : t.pending = none) : { t with pending := none } = t := by
  rw [← settled]

theorem State.give_eq_ok (fresh : t.given.lookup x.1 = none) :
    t.give ⟨x.1, x.2.kind⟩ (.ok x.2) = .ok { t with given := t.given ++ [x] } := by
  rw [State.give, fresh]
  rfl

theorem splitEquals_of_not_mem {name : List Char} (h : '=' ∉ name) : splitEquals name = (name, none) := by
  induction name with
  | nil => rfl
  | cons c name ih =>
    rw [List.mem_cons, not_or] at h
    rw [splitEquals, ih h.2]
    exact Ne.symm h.1

theorem splitEquals_append {name : List Char} (h : '=' ∉ name) (value : List Char) :
    splitEquals (name ++ '=' :: value) = (name, some value) := by
  induction name with
  | nil => rfl
  | cons c name ih =>
    rw [List.mem_cons, not_or] at h
    rw [List.cons_append, splitEquals, ih h.2]
    exact Ne.symm h.1

theorem readLevel_cons {rest : List String}
    (other : (!s.wordsOnly && !s.awaitsValue && level.commands.contains word) = false)
    (taken : takeArgument level s word = .ok s') :
    readLevel level s (word :: rest) = readLevel level s' rest := by
  rw [readLevel, other, taken]
  rfl

theorem Level.IsPlain.not_mem (plain : level.IsPlain) {cs : List Char} (spelled : word.toList = '-' :: cs) :
    level.commands.contains word = false := by
  rw [List.contains_eq_mem, decide_eq_false_iff_not]
  intro command
  exact plain.commands word command (congrArg List.head? spelled)

theorem takeArgument_option {name : List Char} (options : s.wordsOnly = false) (named : name ≠ [])
    (spelled : word.toList = '-' :: '-' :: name) : takeArgument level s word = longOption level s name := by
  obtain ⟨c, rest, rfl⟩ := List.exists_cons_of_ne_nil named
  rw [takeArgument, options, spelled]
  rfl

theorem longOption_flag (found : level.options.find? (·.name == x.1) = some ⟨x.1, .flag⟩)
    (closed : '=' ∉ x.1.toList) (resolved : s.resolve = .ok t) :
    longOption level s x.1.toList = t.give ⟨x.1, .flag⟩ (.ok .flag) := by
  simp only [longOption, splitEquals_of_not_mem closed, String.ofList_toList, found, Kind.takesValue,
    giveFlag, resolved]
  rfl

theorem longOption_joined {kind : Kind} (found : level.options.find? (·.name == x.1) = some ⟨x.1, kind⟩)
    (takes : kind.takesValue = true) (closed : '=' ∉ x.1.toList) (resolved : s.resolve = .ok t) :
    longOption level s (x.1.toList ++ '=' :: word.toList) =
      t.give ⟨x.1, kind⟩ (kind.read word) := by
  simp only [longOption, splitEquals_append closed, String.ofList_toList, found, takes, if_true, resolved]
  rfl

theorem longOption_apart {kind : Kind} (found : level.options.find? (·.name == x.1) = some ⟨x.1, kind⟩)
    (takes : kind.takesValue = true) (closed : '=' ∉ x.1.toList) (resolved : s.resolve = .ok t) :
    longOption level s x.1.toList = .ok { t with pending := some { option := ⟨x.1, kind⟩ } } := by
  simp only [longOption, splitEquals_of_not_mem closed, String.ofList_toList, found, takes, if_true,
    resolved]
  rfl

theorem takeArgument_value {option : OptionSpec} (options : s.wordsOnly = false)
    (pending : s.pending = some ⟨option, none⟩) (plain : word.toList.head? ≠ some '-') :
    takeArgument level s word = .ok { s with pending := some ⟨option, some word⟩ } := by
  cases cs : word.toList with
  | nil => simp [takeArgument, options, cs, pending]
  | cons c rest =>
    have letter : c ≠ '-' := by
      rintro rfl
      exact plain (congrArg List.head? cs)
    simp [takeArgument, options, cs, pending, letter]

theorem Value.takesValue_kind {value : Value} (written : value.word? = some word) :
    value.kind.takesValue = true := by
  cases value <;> first | rfl | cases written

/-- An option comes to the same in each form: it is given its value, at once or when it is looked at. -/
theorem readLevel_writes {words : List String} (plain : level.IsPlain) (takes : level.Takes x)
    (writes : Writes x words) (resolved : s.resolve = .ok t) (options : t.wordsOnly = false)
    (fresh : t.given.lookup x.1 = none) (rest : List String) :
    ∃ s', readLevel level s (words ++ rest) = readLevel level s' rest ∧
      s'.resolve = .ok { t with given := t.given ++ [x] } := by
  obtain ⟨awaits, settled, -, same⟩ := State.resolve_eq_ok resolved
  have given := State.give_eq_ok fresh
  have ready : ({ t with given := t.given ++ [x] } : State).resolve =
      .ok { t with given := t.given ++ [x] } := State.resolve_settled settled
  have options' : s.wordsOnly = false := same ▸ options
  obtain ⟨named, closed⟩ : x.1.toList ≠ [] ∧ '=' ∉ x.1.toList :=
    plain.options _ (List.mem_of_find?_eq_some takes.found)
  -- A word with two dashes is read as an option, on a level with commands as on one without.
  have option {word : String} {s' : State} (name : List Char) (named : name ≠ [])
      (spelled : word.toList = '-' :: '-' :: name) (read : longOption level s name = .ok s')
      (rest : List String) : readLevel level s (word :: rest) = readLevel level s' rest := by
    refine readLevel_cons ?_ ((takeArgument_option options' named spelled).trans read)
    rw [plain.not_mem spelled, Bool.and_false]
  cases writes with
  | flag name =>
    refine ⟨_, option _ named (by simp) ?_ rest, ready⟩
    exact (longOption_flag takes.found closed resolved).trans given
  | @joined name value word written =>
    have valued := Value.takesValue_kind written
    refine ⟨_, option (name.toList ++ '=' :: word.toList) (by simp) (by simp) ?_ rest, ready⟩
    rw [longOption_joined takes.found valued closed resolved, Kind.read_word written takes.fits]
    exact given
  | @apart name value word written noDash =>
    have valued := Value.takesValue_kind written
    let waiting : State := { t with pending := some ⟨⟨name, value.kind⟩, none⟩ }
    let filled : State := { t with pending := some ⟨⟨name, value.kind⟩, some word⟩ }
    have first : readLevel level s (("--" ++ name) :: word :: rest) =
        readLevel level waiting (word :: rest) :=
      option _ named (by simp) (longOption_apart takes.found valued closed resolved) _
    have second : readLevel level waiting (word :: rest) = readLevel level filled rest := by
      refine readLevel_cons ?_ (takeArgument_value options rfl noDash)
      exact Bool.and_eq_false_imp.2 fun h => by simp [waiting, State.awaitsValue] at h
    refine ⟨filled, first.trans second, ?_⟩
    have looked : filled.resolve = t.give ⟨name, value.kind⟩ (value.kind.read word) := by
      rw [← State.with_none settled]
      rfl
    rw [looked, Kind.read_word written takes.fits]
    exact given

theorem lookup_eq_none {given : List (String × Value)} {name : String} (h : name ∉ given.map Prod.fst) :
    given.lookup name = none := by
  rw [List.lookup_eq_none_iff]
  intro p hp
  simp only [bne_iff_ne]
  rintro rfl
  exact h (List.mem_map_of_mem hp)

theorem readLevel_writesAll {xs : List (String × Value)} {words : List String} (plain : level.IsPlain)
    (takes : ∀ x ∈ xs, level.Takes x) (writes : WritesAll xs words) (resolved : s.resolve = .ok t)
    (options : t.wordsOnly = false) (distinct : ((t.given ++ xs).map Prod.fst).Nodup)
    (rest : List String) :
    ∃ s', readLevel level s (words ++ rest) = readLevel level s' rest ∧
      s'.resolve = .ok { t with given := t.given ++ xs } := by
  obtain ⟨parts, each, rfl⟩ := writes
  induction each generalizing s t with
  | nil =>
    refine ⟨s, rfl, ?_⟩
    rw [List.append_nil]
    exact resolved
  | @cons x part xs parts here _ ih =>
    obtain ⟨takesHere, takesRest⟩ := List.forall_mem_cons.1 takes
    have fresh : t.given.lookup x.1 = none := by
      refine lookup_eq_none fun old => ?_
      rw [List.map_append, List.map_cons, List.nodup_append] at distinct
      exact distinct.2.2 x.1 old x.1 (List.mem_cons_self ..) rfl
    obtain ⟨s₁, first, resolved₁⟩ :=
      readLevel_writes plain takesHere here resolved options fresh (parts.flatten ++ rest)
    -- The first one may still wait; what it will have given is there for the others already.
    obtain ⟨s₂, others, resolved₂⟩ := ih takesRest resolved₁ options (by simpa using distinct)
    refine ⟨s₂, ?_, ?_⟩
    · rw [List.flatten_cons, List.append_assoc, first, others]
    · simpa using resolved₂

theorem readLevel_words {words : List String} (resolved : s.resolve = .ok t) (only : t.wordsOnly = true)
    (room : t.words.length + words.length ≤ level.words) :
    ∃ s', readLevel level s words = .ok (s', none) ∧
      s'.resolve = .ok { t with words := t.words ++ words } := by
  induction words generalizing s t with
  | nil =>
    refine ⟨s, rfl, ?_⟩
    rw [List.append_nil]
    exact resolved
  | cons word words ih =>
    obtain ⟨-, settled, ordered, same⟩ := State.resolve_eq_ok resolved
    have only' : s.wordsOnly = true := same ▸ only
    rw [List.length_cons] at room
    have taken : takeArgument level s word = .ok { t with words := t.words ++ [word] } := by
      -- A value that still waits for its end takes no place among the words.
      have free : s.words.length < level.words := by
        rw [← ordered]
        omega
      rw [takeArgument, if_pos only', takeWord, if_pos free, resolved, ordered]
      rfl
    obtain ⟨s', read, resolved'⟩ := ih (s := { t with words := t.words ++ [word] })
      (State.resolve_settled settled) only (by rw [List.length_append]; simp; omega)
    refine ⟨s', ?_, ?_⟩
    · rw [readLevel_cons (by rw [only']; rfl) taken, read]
    · simpa using resolved'

theorem readLevel_dashes {words : List String} (plain : level.IsPlain) (resolved : s.resolve = .ok t)
    (options : t.wordsOnly = false) (room : t.words.length + words.length ≤ level.words) :
    ∃ s', readLevel level s ("--" :: words) = .ok (s', none) ∧
      s'.resolve = .ok { t with words := t.words ++ words, wordsOnly := true } := by
  have options' : s.wordsOnly = false := (State.resolve_eq_ok resolved).2.2.2 ▸ options
  have spelled : "--".toList = '-' :: ['-'] := rfl
  have taken : takeArgument level s "--" = .ok { s with wordsOnly := true } := by
    rw [takeArgument, options']
    rfl
  have first : readLevel level s ("--" :: words) = readLevel level { s with wordsOnly := true } words := by
    refine readLevel_cons ?_ taken
    rw [plain.not_mem spelled, Bool.and_false]
  rw [first]
  exact readLevel_words (State.resolve_wordsOnly resolved) rfl room

end Reading

end MiningClient.CommandLine
