import MiningClient.Proofs.Text.Pieces
import MiningClient.Storage.Tree

namespace MiningClient

namespace Entry

def HasFolder (e : Entry) (names : List String) : Prop := ∃ entries, e.at? names = some (folder entries)

theorem at?_append (e : Entry) (names names' : List String) :
    e.at? (names ++ names') = (e.at? names).bind (·.at? names') := by
  induction names generalizing e with
  | nil => rfl
  | cons name names ih =>
    rw [List.cons_append, at?, at?, Option.bind_assoc]
    exact congrArg _ (funext fun child => ih child)

theorem hasFolder_of_at?_cons {e : Entry} {name : String} {names : List String} {new : Entry}
    (h : e.at? (name :: names) = some new) : ∃ entries, e = folder entries := by
  cases e with
  | file content => cases h
  | folder entries => exact ⟨entries, rfl⟩

/-- The way to a folder goes through folders. -/
theorem HasFolder.of_append {e : Entry} {names names' : List String}
    (h : e.HasFolder (names ++ names')) : e.HasFolder names := by
  cases names' with
  | nil => rwa [List.append_nil] at h
  | cons name names' =>
    obtain ⟨entries, there⟩ := h
    rw [at?_append] at there
    obtain ⟨child, found, inside⟩ := Option.bind_eq_some_iff.1 there
    -- Something is found inside, so it is no file.
    obtain ⟨entries', rfl⟩ := hasFolder_of_at?_cons inside
    exact ⟨entries', found⟩

theorem lookup_filter_of_ne {name other : String} (h : other ≠ name)
    (entries : List (String × Entry)) :
    (entries.filter (·.1 != name)).lookup other = entries.lookup other := by
  induction entries with
  | nil => rfl
  | cons entry entries ih =>
    obtain ⟨key, child⟩ := entry
    -- The entries that are taken out have the other name.
    by_cases same : key = name
    · subst same
      rw [List.filter_cons_of_neg (by simp), ih, List.lookup_cons, beq_eq_false_iff_ne.2 h]
    · rw [List.filter_cons_of_pos (by simpa using same), List.lookup_cons, List.lookup_cons, ih]

theorem lookup_filter_self (name : String) (entries : List (String × Entry)) :
    (entries.filter (·.1 != name)).lookup name = none := by
  rw [List.lookup_eq_none_iff]
  intro entry mem
  have other : entry.1 ≠ name := bne_iff_ne.1 (List.mem_filter.1 mem).2
  exact bne_iff_ne.2 (Ne.symm other)

section Put
variable {e : Entry} {place : List String}

theorem at?_put_cons_self (name : String) (names : List String) (new : Entry) (rest : List String) :
    (e.put (name :: names) new).at? (name :: rest) =
      (((e.inside.lookup name).getD (folder [])).put names new).at? rest := by
  simp [put, at?, inside]

theorem hasFolder_cons_iff {name : String} {names : List String} :
    e.HasFolder (name :: names) ↔ ∃ child, e.inside.lookup name = some child ∧ child.HasFolder names := by
  unfold HasFolder
  simp only [at?, Option.bind_eq_some_iff]
  constructor
  · rintro ⟨entries, child, found, inside⟩
    exact ⟨child, found, entries, inside⟩
  · rintro ⟨child, found, entries, inside⟩
    exact ⟨entries, child, found, inside⟩

theorem at?_put_cons_of_ne {name other : String} (h : other ≠ name) (names : List String)
    (new : Entry) (rest : List String) :
    (e.put (name :: names) new).at? (other :: rest) = e.at? (other :: rest) := by
  rw [put, at?, at?, inside, List.lookup_cons, beq_eq_false_iff_ne.2 h, lookup_filter_of_ne h]

theorem HasFolder.put {names : List String} (h : e.HasFolder names) (apart : ¬place <+: names)
    (new : Entry) : (e.put place new).HasFolder names := by
  induction place generalizing e names with
  | nil => exact absurd List.nil_prefix apart
  | cons name place ih =>
    cases names with
    | nil => exact ⟨_, rfl⟩
    | cons other names =>
      by_cases same : other = name
      · subst same
        obtain ⟨child, found, folder⟩ := hasFolder_cons_iff.1 h
        rw [HasFolder, at?_put_cons_self, found]
        -- At the same name the way goes on below, and so does the place.
        exact ih folder fun above => apart (List.cons_prefix_cons.2 ⟨rfl, above⟩)
      · rw [HasFolder, at?_put_cons_of_ne same]
        exact h

/-- A new folder brings nothing but the folders on the way to it. -/
theorem at?_put_folder {names : List String} {found : Entry}
    (h : (e.put place (folder [])).at? names = some found) :
    e.at? names = some found ∨ names <+: place ∧ ∃ entries, found = folder entries := by
  induction place generalizing e names with
  | nil =>
    cases names with
    | nil => exact .inr ⟨List.prefix_refl _, [], (Option.some.inj h).symm⟩
    | cons name names => cases h
  | cons name place ih =>
    cases names with
    | nil => exact .inr ⟨List.nil_prefix, _, (Option.some.inj h).symm⟩
    | cons other names =>
      by_cases same : other = name
      · subst same
        rw [at?_put_cons_self] at h
        obtain there | ⟨above, entries, rfl⟩ := ih h
        · cases old : e.inside.lookup other with
          | some child =>
            rw [old, Option.getD_some] at there
            exact .inl (by rw [at?, old]; exact there)
          | none =>
            -- an empty folder has nothing in it
            rw [old, Option.getD_none] at there
            cases names with
            | nil =>
              refine .inr ⟨?_, [], (Option.some.inj there).symm⟩
              exact List.cons_prefix_cons.2 ⟨rfl, List.nil_prefix⟩
            | cons => cases there
        · exact .inr ⟨List.cons_prefix_cons.2 ⟨rfl, above⟩, entries, rfl⟩
      · rw [at?_put_cons_of_ne same] at h
        exact .inl h

theorem remove_cons_cons (name next : String) (names : List String) :
    e.remove (name :: next :: names) =
      (e.inside.lookup name).elim e fun child =>
        folder ((name, child.remove (next :: names)) :: e.inside.filter (·.1 != name)) := by
  rw [remove]
  · cases e.inside.lookup name <;> rfl
  · simp

theorem HasFolder.remove {names : List String} (h : e.HasFolder names) (apart : ¬place <+: names) :
    (e.remove place).HasFolder names := by
  induction place generalizing e names with
  | nil => exact absurd List.nil_prefix apart
  | cons name place ih =>
    cases names with
    | nil =>
      cases place with
      | nil => exact ⟨_, rfl⟩
      | cons next place =>
        rw [remove_cons_cons]
        cases e.inside.lookup name with
        | none => exact h
        | some child => exact ⟨_, rfl⟩
    | cons other names =>
      obtain ⟨child, found, folder⟩ := hasFolder_cons_iff.1 h
      by_cases same : other = name
      · subst same
        have apart : ¬place <+: names := fun above => apart (List.cons_prefix_cons.2 ⟨rfl, above⟩)
        cases place with
        | nil => exact absurd List.nil_prefix apart
        | cons next place =>
          rw [remove_cons_cons, found]
          exact hasFolder_cons_iff.2 ⟨_, List.lookup_cons_self, ih folder apart⟩
      -- Another name leads to the same child as before, whatever is put in place of this one.
      · have kept : ∀ child', ((name, child') :: e.inside.filter (·.1 != name)).lookup other =
            some child := by
          intro child'
          rw [List.lookup_cons, beq_eq_false_iff_ne.2 same, lookup_filter_of_ne same, found]
        cases place with
        | nil =>
          refine hasFolder_cons_iff.2 ⟨child, ?_, folder⟩
          exact (lookup_filter_of_ne same e.inside).trans found
        | cons next place =>
          rw [remove_cons_cons]
          cases e.inside.lookup name with
          | none => exact h
          | some old => exact hasFolder_cons_iff.2 ⟨child, kept _, folder⟩

theorem at?_remove (h : place ≠ []) : (e.remove place).at? place = none := by
  induction place generalizing e with
  | nil => exact absurd rfl h
  | cons name place ih =>
    cases place with
    | nil => rw [remove, at?, inside, lookup_filter_self, Option.bind_none]
    | cons next place =>
      rw [remove_cons_cons]
      cases found : e.inside.lookup name with
      | none => rw [Option.elim_none, at?, found, Option.bind_none]
      | some child =>
        rw [Option.elim_some, at?, inside, List.lookup_cons_self, Option.bind_some]
        exact ih (by simp)

end Put
end Entry

namespace Path

/-- The place that a step leads to. -/
def Step.lead (above : List String) : Step → List String
  | up => above.dropLast
  | down name => above ++ [name]

/-- The name of a step is not too long. -/
def Step.Fits : Step → Prop
  | up => True
  | down name => name.utf8ByteSize ≤ maxNameSize

/-- The place that steps lead to. -/
def reach (above : List String) (steps : List Step) : List String := steps.foldl Step.lead above

/-- The places that steps pass. -/
def passed (above : List String) : List Step → List (List String)
  | [] => []
  | step :: rest => above :: passed (step.lead above) rest

theorem passed_append (above : List String) (steps steps' : List Step) :
    passed above (steps ++ steps') = passed above steps ++ passed (reach above steps) steps' := by
  induction steps generalizing above with
  | nil => rfl
  | cons step steps ih => exact congrArg _ (ih _)

/-- The places on a way, with its end. -/
def places (above : List String) (steps : List Step) : List (List String) :=
  passed above steps ++ [reach above steps]

theorem passed_snoc (above : List String) (steps : List Step) (step : Step) :
    passed above (steps ++ [step]) = places above steps := passed_append above steps [step]

theorem places_cons (above : List String) (step : Step) (steps : List Step) :
    places above (step :: steps) = above :: places (step.lead above) steps := rfl

theorem mem_places_self (above : List String) (steps : List Step) : above ∈ places above steps := by
  cases steps <;> simp [places, passed, reach]

section Join

/-- A name that is one step down. -/
structure IsName (name : String) : Prop where
  free : '/' ∉ name.toList
  step : Step.ofPart? name.toList = some (.down name)

theorem IsName.steps {name : String} (h : IsName name) : Path.steps name = [.down name] := by
  have whole : Text.IsSplit '/' name.toList [name.toList] :=
    ⟨by simp, by simpa using h.free, by simp⟩
  rw [Path.steps, Text.isSplit_iff.1 whole, List.filterMap_cons, h.step]
  rfl

theorem IsName.not_absolute {name : String} (h : IsName name) : isAbsolute name = false := by
  refine Bool.eq_false_iff.2 fun absolute => h.free ?_
  exact List.mem_of_mem_head? (eq_of_beq absolute)

/-- The steps to a name in a folder are those to the folder and one more. -/
theorem steps_join (base : String) {name : String} (h : IsName name) :
    steps (join base name) = steps base ++ [.down name] := by
  -- A slash parts the steps, so those of the name come after those of the base.
  have below (cs : List Char) : (Text.splitOn '/' (cs ++ '/' :: name.toList)).filterMap Step.ofPart? =
      (Text.splitOn '/' cs).filterMap Step.ofPart? ++ [.down name] := by
    rw [Text.splitOn_append, List.filterMap_append]
    exact congrArg _ h.steps
  unfold join
  by_cases empty : base = ""
  · subst empty
    rw [if_pos (.inl rfl), h.steps]
    rfl
  · rw [if_neg (by simp [empty, h.not_absolute])]
    split
    · rename_i last
      -- the slash is there already, with nothing behind it
      obtain ⟨front, split⟩ := List.getLast?_eq_some_iff.1 last
      rw [steps, steps, String.toList_append, split, List.append_assoc, List.singleton_append, below,
        Text.splitOn_append, List.filterMap_append]
      congr 1
      exact (List.append_nil _).symm
    · rw [steps, String.toList_append, String.toList_append, List.append_assoc]
      exact below base.toList

theorem utf8ByteSize_le_join (base name : String) :
    isAbsolute name = false → base.utf8ByteSize ≤ (join base name).utf8ByteSize := by
  intro relative
  unfold join
  by_cases empty : base = ""
  · subst empty
    exact Nat.zero_le _
  · rw [if_neg (by simp [empty, relative])]
    split <;> simp only [String.utf8ByteSize_append] <;> omega

theorem hasNul_of_join {base name : String} (relative : isAbsolute name = false)
    (h : hasNul (join base name) = false) : hasNul base = false := by
  unfold join at h
  by_cases empty : base = ""
  · subst empty
    rfl
  · rw [if_neg (by simp [empty, relative])] at h
    split at h <;> simp_all [hasNul]

end Join
end Path

namespace Tree
open MiningClient.Path
variable {t : Tree} {steps : List Step} {above : List String}

def HasFolder (t : Tree) (place : List String) : Prop := t.root.HasFolder place

/-- There is no file at the place. -/
def Free (t : Tree) (place : List String) : Prop := ∀ content, t.at? place ≠ some (.file content)

theorem place_cases (t : Tree) (place : List String) :
    t.at? place = none ∨ (∃ content, t.at? place = some (.file content)) ∨
      ∃ entries, t.at? place = some (.folder entries) := by
  cases there : t.at? place with
  | none => exact .inl rfl
  | some e =>
    cases e with
    | file content => exact .inr (.inl ⟨content, rfl⟩)
    | folder entries => exact .inr (.inr ⟨entries, rfl⟩)

theorem walk_cons_of_folder (here : t.HasFolder above) (step : Step) (fits : step.Fits) :
    t.walk above (step :: steps) = t.walk (step.lead above) steps := by
  obtain ⟨entries, there⟩ := here
  have there : t.at? above = some (.folder entries) := there
  cases step with
  | up => simp [walk, there, Step.lead]
  | down name => simp [walk, there, Step.lead, Nat.not_lt_of_le fits]

/-- Steps get to their place exactly when they pass nothing but folders by names that are not too long. -/
theorem walk_eq_ok_iff {place : List String} :
    t.walk above steps = .ok place ↔
      (∀ p ∈ passed above steps, t.HasFolder p) ∧ (∀ step ∈ steps, step.Fits) ∧
        reach above steps = place := by
  induction steps generalizing above with
  | nil => simp [walk, passed, reach]
  | cons step steps ih =>
    simp only [passed, List.forall_mem_cons]
    constructor
    · intro walked
      have here : t.HasFolder above := by
        obtain none | ⟨content, file⟩ | folder := t.place_cases above
        · simp [walk, none] at walked
        · simp [walk, file] at walked
        · exact folder
      -- A name that is too long is refused before anything is looked up.
      have fits : step.Fits := by
        obtain ⟨entries, there⟩ := here
        have there : t.at? above = some (.folder entries) := there
        cases step with
        | up => trivial
        | down name =>
          refine Nat.le_of_not_lt fun long => ?_
          simp [walk, there, long] at walked
      rw [walk_cons_of_folder here step fits, ih] at walked
      exact ⟨⟨here, walked.1⟩, ⟨fits, walked.2.1⟩, walked.2.2⟩
    · rintro ⟨⟨here, folders⟩, ⟨fits, rest⟩, reached⟩
      rw [walk_cons_of_folder here step fits, ih]
      exact ⟨folders, rest, reached⟩

/-- Where no file is in the way, steps get to their place or find something missing. -/
theorem walk_of_free (free : ∀ p ∈ passed above steps, t.Free p) (fits : ∀ step ∈ steps, step.Fits) :
    t.walk above steps = .ok (reach above steps) ∨ t.walk above steps = .error .notFound := by
  induction steps generalizing above with
  | nil => exact .inl rfl
  | cons step steps ih =>
    obtain ⟨here, free⟩ := List.forall_mem_cons.1 free
    obtain ⟨step_fits, fits⟩ := List.forall_mem_cons.1 fits
    obtain none | ⟨content, file⟩ | folder := t.place_cases above
    · exact .inr (by simp [walk, none])
    · exact absurd file (here content)
    · rw [walk_cons_of_folder folder step step_fits]
      exact ih free fits

theorem locate_eq_ok_iff {path : String} {place : List String} :
    t.locate path = .ok place ↔ hasNul path = false ∧ path.utf8ByteSize ≤ maxSize ∧
      t.walk [] (Path.steps path) = .ok place := by
  unfold locate
  split
  -- The walk is begun only for paths that the system takes at all.
  · rename_i nul
    simp [nul]
  · rename_i noNul
    split
    · rename_i long
      simp [Nat.not_le_of_lt long]
    · rename_i short
      simp [noNul, Nat.le_of_not_lt short]

/-- What changes no folder on the way leaves the place of a path where it is. -/
theorem locate_of_folders {t' : Tree} {path : String} {place : List String}
    (h : t.locate path = .ok place)
    (kept : ∀ p ∈ passed [] (Path.steps path), t.HasFolder p → t'.HasFolder p) :
    t'.locate path = .ok place := by
  rw [locate_eq_ok_iff, walk_eq_ok_iff] at h ⊢
  obtain ⟨noNul, short, folders, rest⟩ := h
  exact ⟨noNul, short, fun p mem => kept p mem (folders p mem), rest⟩

theorem not_above {place p : List String} (h : ¬t.HasFolder place) (folder : t.HasFolder p) :
    ¬place <+: p := by
  rintro ⟨rest, rfl⟩
  exact h (Entry.HasFolder.of_append folder)

theorem not_hasFolder_of_file {place : List String} {content : Bytes}
    (h : t.at? place = some (.file content)) : ¬t.HasFolder place := by
  rintro ⟨entries, folder⟩
  cases h.symm.trans folder

theorem not_hasFolder_of_none {place : List String} (h : t.at? place = none) : ¬t.HasFolder place := by
  rintro ⟨entries, folder⟩
  cases h.symm.trans folder

section Files
variable {path : String} {content : Bytes}

theorem read_eq_ok_iff :
    t.read path = .ok content ↔ ∃ place, t.locate path = .ok place ∧ t.at? place = some (.file content) := by
  unfold read find
  cases t.locate path with
  | error e => simp [Except.map]
  | ok place =>
    -- A place holds nothing, a file or a folder, and only a file is read.
    obtain none | ⟨old, file⟩ | ⟨entries, folder⟩ := t.place_cases place
    · simp [Except.map, none]
    · simp [Except.map, file]
    · simp [Except.map, folder]

theorem find_of_read (h : t.read path = .ok content) : t.find path = .ok (some (.file content)) := by
  obtain ⟨place, located, there⟩ := read_eq_ok_iff.1 h
  rw [find, located]
  exact congrArg Except.ok there

theorem read_eq_notFound_iff :
    t.read path = .error .notFound ↔
      t.locate path = .error .notFound ∨ ∃ place, t.locate path = .ok place ∧ t.at? place = none := by
  unfold read find
  cases t.locate path with
  | error e => simp [Except.map]
  | ok place =>
    obtain none | ⟨old, file⟩ | ⟨entries, folder⟩ := t.place_cases place
    · simp [Except.map, none]
    · simp [Except.map, file]
    · simp [Except.map, folder]

theorem write_eq_ok_iff {t' : Tree} :
    t.write path content = .ok t' ↔
      ∃ place, t.locate path = .ok place ∧ ¬t.HasFolder place ∧ t.put place (.file content) = t' := by
  unfold write
  cases t.locate path with
  | error e => simp
  | ok place =>
    obtain none | ⟨old, file⟩ | ⟨entries, folder⟩ := t.place_cases place
    · simp [none, not_hasFolder_of_none none]
    · simp [file, not_hasFolder_of_file file]
    · simp [folder, show t.HasFolder place from ⟨entries, folder⟩]

theorem delete_eq_ok_iff {t' : Tree} :
    t.delete path = .ok t' ↔
      ∃ place, t.locate path = .ok place ∧ (∃ old, t.at? place = some (.file old)) ∧
        t.remove place = t' := by
  unfold delete
  cases t.locate path with
  | error e => simp
  | ok place =>
    obtain none | ⟨old, file⟩ | ⟨entries, folder⟩ := t.place_cases place
    · simp [none]
    · simp [file]
    · simp [folder]

theorem delete_eq_notFound_iff :
    t.delete path = .error .notFound ↔ t.read path = .error .notFound := by
  rw [read_eq_notFound_iff]
  unfold delete
  cases t.locate path with
  | error e => simp
  | ok place =>
    obtain none | ⟨old, file⟩ | ⟨entries, folder⟩ := t.place_cases place
    · simp [none]
    · simp [file]
    · simp [folder]

/-- What was written is read, and the way there was open. -/
theorem read_write {t' : Tree} (h : t.write path content = .ok t') :
    t'.read path = .ok content ∧ ∀ p ∈ passed [] (Path.steps path), t'.HasFolder p := by
  obtain ⟨place, located, noFolder, rfl⟩ := write_eq_ok_iff.1 h
  have located' : (t.put place (.file content)).locate path = .ok place :=
    locate_of_folders located fun p _ folder => folder.put (not_above noFolder folder) _
  have walked := (locate_eq_ok_iff.1 located').2.2
  exact ⟨read_eq_ok_iff.2 ⟨place, located', Entry.at?_put t.root place _⟩,
    (walk_eq_ok_iff.1 walked).1⟩

theorem delete_of_read (below : Path.steps path ≠ []) (h : t.read path = .ok content) :
    ∃ t', t.delete path = .ok t' ∧ t'.read path = .error .notFound := by
  obtain ⟨place, located, file⟩ := read_eq_ok_iff.1 h
  have noFolder := not_hasFolder_of_file file
  have walked := (walk_eq_ok_iff.1 (locate_eq_ok_iff.1 located).2.2).1
  -- the root is passed, so the file is not the root
  have notRoot : place ≠ [] := by
    rintro rfl
    obtain ⟨step, steps, first⟩ := List.exists_cons_of_ne_nil below
    exact noFolder (walked [] (by rw [first]; exact List.mem_cons_self))
  have located' : (t.remove place).locate path = .ok place :=
    locate_of_folders located fun p _ folder => folder.remove (not_above noFolder folder)
  exact ⟨t.remove place, delete_eq_ok_iff.2 ⟨place, located, ⟨content, file⟩, rfl⟩,
    read_eq_notFound_iff.2 (.inr ⟨place, located', Entry.at?_remove notRoot⟩)⟩

end Files

section Folders

/-- What adding folders comes to: they are there, as is every folder of before, and there are no others
but on the way to them. -/
structure Adds (t : Tree) (places : List (List String)) (t' : Tree) : Prop where
  kept : ∀ p, t.HasFolder p → t'.HasFolder p
  there : ∀ p ∈ places, t'.HasFolder p
  only : ∀ p, t'.HasFolder p → t.HasFolder p ∨ ∃ q ∈ places, p <+: q

namespace Adds
variable {t' t'' : Tree} {places places' : List (List String)}

theorem of_folder {place : List String} (folder : t.HasFolder place) : t.Adds [place] t :=
  ⟨fun _ => id, List.forall_mem_singleton.2 folder, fun _ => .inl⟩

theorem of_put {place : List String} (missing : t.at? place = none) :
    t.Adds [place] (t.put place (.folder [])) where
  kept p folder := folder.put (not_above (not_hasFolder_of_none missing) folder) _
  there := List.forall_mem_singleton.2 ⟨[], Entry.at?_put t.root place _⟩
  only p folder := by
    obtain ⟨entries, found⟩ := folder
    -- What is there now was there before, or is on the way to the new folder.
    obtain old | ⟨above, -⟩ := Entry.at?_put_folder found
    · exact .inl ⟨entries, old⟩
    · exact .inr ⟨place, List.mem_singleton_self _, above⟩

theorem trans (h : t.Adds places t') (h' : t'.Adds places' t'') : t.Adds (places ++ places') t'' where
  kept p folder := h'.kept p (h.kept p folder)
  there := List.forall_mem_append.2 ⟨fun p mem => h'.kept p (h.there p mem), h'.there⟩
  only p folder := by
    obtain before | ⟨q, mem, above⟩ := h'.only p folder
    · obtain before | ⟨q, mem, above⟩ := h.only p before
      · exact .inl before
      · exact .inr ⟨q, List.mem_append_left _ mem, above⟩
    · exact .inr ⟨q, List.mem_append_right _ mem, above⟩

theorem of_mem_iff (h : t.Adds places t') (same : ∀ p, p ∈ places' ↔ p ∈ places) :
    t.Adds places' t' where
  kept := h.kept
  there p mem := h.there p ((same p).1 mem)
  only p folder := by simpa only [same] using h.only p folder

end Adds

theorem Free.put {place p : List String} (h : t.Free p) : (t.put place (.folder [])).Free p := by
  intro content there
  obtain old | ⟨-, entries, folder⟩ := Entry.at?_put_folder there
  · exact h content old
  · cases folder

/-- Adding the missing folders succeeds where no file is in the way. -/
theorem addFolders_of_free (here : t.HasFolder above) (free : ∀ p ∈ places above steps, t.Free p)
    (fits : ∀ step ∈ steps, step.Fits) :
    ∃ t', t.addFolders above steps = (.ok (), t') ∧ t.Adds (places above steps) t' := by
  induction steps generalizing t above with
  | nil => exact ⟨t, rfl, .of_folder here⟩
  | cons step steps ih =>
    rw [places_cons] at free ⊢
    have free := (List.forall_mem_cons.1 free).2
    obtain ⟨step_fits, rest_fits⟩ := List.forall_mem_cons.1 fits
    have self := Adds.of_folder here
    cases step with
    | up =>
      -- One step up from a folder there is a folder.
      have here : t.HasFolder above.dropLast := by
        obtain ⟨rest, whole⟩ := List.dropLast_prefix above
        rw [← whole] at here
        exact Entry.HasFolder.of_append here
      obtain ⟨t', done, adds⟩ := ih here free rest_fits
      exact ⟨t', done, self.trans adds⟩
    | down name =>
      rw [addFolders, if_neg (Nat.not_lt_of_le step_fits)]
      have next := mem_places_self (above ++ [name]) steps
      obtain none | ⟨content, file⟩ | ⟨entries, folder⟩ := t.place_cases (above ++ [name])
      · simp only [none]
        have put := Adds.of_put none
        have free : ∀ p ∈ places (above ++ [name]) steps, (t.put (above ++ [name]) (.folder [])).Free p :=
          fun p mem => (free p mem).put
        obtain ⟨t', done, adds⟩ := ih (put.there _ (List.mem_singleton_self _)) free rest_fits
        refine ⟨t', done, (self.trans (put.trans adds)).of_mem_iff fun p => ?_⟩
        -- the folder that was put is the first on the rest of the way
        show p ∈ above :: places (above ++ [name]) steps ↔ p ∈ above :: (above ++ [name]) :: _
        simp only [List.mem_cons]
        constructor
        · exact fun mem => mem.imp_right .inr
        · rintro (rfl | rfl | mem)
          · exact .inl rfl
          · exact .inr next
          · exact .inr mem
      · exact absurd file (free _ next content)
      · simp only [folder]
        obtain ⟨t', done, adds⟩ := ih ⟨entries, folder⟩ free rest_fits
        exact ⟨t', done, self.trans adds⟩

/-- Nothing bars the way to a name in a folder: no name is too long, and no file is on the way. -/
structure IsOpen (t : Tree) (base name : String) : Prop where
  noNul : hasNul (join base name) = false
  short : (join base name).utf8ByteSize ≤ maxSize
  fits : ∀ step ∈ Path.steps (join base name), step.Fits
  free : ∀ p ∈ passed [] (Path.steps (join base name)), t.Free p
  /-- There is no folder in place of the file, and the way does not lead through it. -/
  ends : ¬t.HasFolder (reach [] (Path.steps (join base name)))
  apart : ∀ p ∈ passed [] (Path.steps (join base name)), ¬reach [] (Path.steps (join base name)) <+: p

theorem makeFolder_of_free {path : String} (noNul : hasNul path = false)
    (short : path.utf8ByteSize ≤ maxSize) (fits : ∀ step ∈ Path.steps path, step.Fits)
    (free : ∀ p ∈ places [] (Path.steps path), t.Free p) :
    ∃ t', t.makeFolder path = (.ok (), t') ∧ t.Adds (places [] (Path.steps path)) t' := by
  have located : t.locate path = t.walk [] (Path.steps path) := by
    rw [locate, if_neg (by simp [noNul]), if_neg (Nat.not_lt_of_le short)]
  -- The root is no file, and it is always there.
  have root : t.HasFolder [] := by
    obtain none | ⟨content, file⟩ | folder := t.place_cases []
    · cases none
    · exact absurd file (free [] (mem_places_self _ _) content)
    · exact folder
  have added := addFolders_of_free root free fits
  have passes : ∀ p ∈ passed [] (Path.steps path), t.Free p := fun p mem =>
    free p (List.mem_append_left _ mem)
  unfold makeFolder find
  rw [located]
  obtain walked | missing := walk_of_free passes fits
  · rw [walked]
    obtain none | ⟨content, file⟩ | folder := t.place_cases (reach [] (Path.steps path))
    · simpa only [Except.map, none] using added
    · exact absurd file (free _ (List.mem_append_right _ (List.mem_singleton_self _)) content)
    · obtain ⟨entries, there⟩ := folder
      refine ⟨t, by simp only [Except.map, there], fun _ => id, ?_, fun _ => .inl⟩
      exact List.forall_mem_append.2 ⟨(walk_eq_ok_iff.1 walked).1,
        List.forall_mem_singleton.2 ⟨entries, there⟩⟩
  · rw [missing]
    simpa only [Except.map] using added

/-- On a way that nothing bars the missing folders are made, and then the file can be written. -/
theorem write_of_isOpen {base name : String} (named : IsName name) (h : t.IsOpen base name)
    (content : Bytes) :
    ∃ t' t'', t.makeFolder base = (.ok (), t') ∧ t'.write (join base name) content = .ok t'' := by
  -- The places passed on the way to the file are those up to the folder.
  have way : passed [] (Path.steps (join base name)) = places [] (Path.steps base) := by
    rw [steps_join base named, passed_snoc]
  have fits : ∀ step ∈ Path.steps base, step.Fits := by
    intro step mem
    refine h.fits step ?_
    rw [steps_join base named]
    exact List.mem_append_left _ mem
  have short := Nat.le_trans (utf8ByteSize_le_join base name named.not_absolute) h.short
  obtain ⟨t', made, adds⟩ := makeFolder_of_free (hasNul_of_join named.not_absolute h.noNul) short fits
    (way ▸ h.free)
  have located : t'.locate (join base name) = .ok (reach [] (Path.steps (join base name))) := by
    refine locate_eq_ok_iff.2 ⟨h.noNul, h.short, walk_eq_ok_iff.2 ⟨?_, h.fits, rfl⟩⟩
    rw [way]
    exact adds.there
  -- The folders that were made are on the way, and the file is at its end.
  have noFolder : ¬t'.HasFolder (reach [] (Path.steps (join base name))) := by
    intro folder
    obtain before | ⟨q, mem, above⟩ := adds.only _ folder
    · exact h.ends before
    · exact h.apart q (way ▸ mem) above
  exact ⟨t', _, made, write_eq_ok_iff.2 ⟨_, located, noFolder, rfl⟩⟩

theorem find_of_read_join {base name : String} (named : IsName name) {content : Bytes}
    (h : t.read (join base name) = .ok content) :
    ∃ entries, t.find base = .ok (some (.folder entries)) := by
  obtain ⟨place, located, -⟩ := read_eq_ok_iff.1 h
  obtain ⟨noNul, short, walked⟩ := locate_eq_ok_iff.1 located
  obtain ⟨folders, fits, -⟩ := walk_eq_ok_iff.1 walked
  rw [steps_join base named] at folders fits
  rw [passed_snoc] at folders
  obtain ⟨passes, ⟨entries, there⟩, -⟩ := List.forall_mem_append.1 folders |>.imp_right
    List.forall_mem_cons.1
  -- The walk to the file passes all that the walk to the folder does.
  have base_located : t.locate base = .ok (reach [] (Path.steps base)) :=
    locate_eq_ok_iff.2 ⟨hasNul_of_join named.not_absolute noNul,
      Nat.le_trans (utf8ByteSize_le_join base name named.not_absolute) short,
      walk_eq_ok_iff.2 ⟨passes, fun step mem => fits step (List.mem_append_left _ mem), rfl⟩⟩
  refine ⟨entries, ?_⟩
  rw [find, base_located]
  exact congrArg Except.ok there

theorem find_of_write {base name : String} (named : IsName name) {content : Bytes} {t' : Tree}
    (h : t.write (join base name) content = .ok t') :
    ∃ entries, t'.find base = .ok (some (.folder entries)) :=
  find_of_read_join named (read_write h).1

/-- What kept the folders from being added is still there: a file in place of one, or a name that is too
long. -/
theorem addFolders_error {t' : Tree} {e : StorageFault} (h : t.addFolders above steps = (.error e, t')) :
    ¬((∀ p ∈ places above steps, t'.HasFolder p) ∧ ∀ step ∈ steps, step.Fits) := by
  rintro ⟨folders, fits⟩
  -- The induction goes on with the tree as it is after each folder, so it ends in the final one.
  induction steps generalizing t above with
  | nil => cases h
  | cons step steps ih =>
    rw [places_cons] at folders
    have folders := (List.forall_mem_cons.1 folders).2
    obtain ⟨step_fits, rest_fits⟩ := List.forall_mem_cons.1 fits
    cases step with
    | up => exact ih h folders rest_fits
    | down name =>
      rw [addFolders, if_neg (Nat.not_lt_of_le step_fits)] at h
      obtain none | ⟨content, file⟩ | ⟨entries, folder⟩ := t.place_cases (above ++ [name])
      · simp only [none] at h
        exact ih h folders rest_fits
      · simp only [file] at h
        cases h
        exact not_hasFolder_of_file file (folders _ (mem_places_self _ _))
      · simp only [folder] at h
        exact ih h folders rest_fits

theorem makeFolder_of_folder {path : String} {entries : List (String × Entry)}
    (h : t.find path = .ok (some (.folder entries))) : t.makeFolder path = (.ok (), t) := by
  simp only [makeFolder, h]

/-- Where a folder cannot be made there is no file to read in it, neither before nor afterwards. -/
theorem not_read_of_makeFolder {base name : String} (named : IsName name) {t' : Tree} {e : StorageFault}
    (h : t.makeFolder base = (.error e, t')) (content : Bytes) :
    t.read (join base name) ≠ .ok content ∧ t'.read (join base name) ≠ .ok content := by
  have before : t.read (join base name) ≠ .ok content := by
    intro read
    obtain ⟨entries, folder⟩ := find_of_read_join named read
    rw [makeFolder_of_folder folder] at h
    cases h
  refine ⟨before, fun read => ?_⟩
  -- Either nothing was tried, or adding the folders failed and left what barred it.
  have tried : t' = t ∨ t.addFolders [] (Path.steps base) = (.error e, t') := by
    unfold makeFolder at h
    split at h
    · cases h
    · exact .inl (Prod.mk.inj h).2.symm
    · exact .inr h
    · exact .inr h
    · exact .inl (Prod.mk.inj h).2.symm
  obtain rfl | failed := tried
  · exact before read
  · obtain ⟨place, located, -⟩ := read_eq_ok_iff.1 read
    obtain ⟨folders, fits, -⟩ := walk_eq_ok_iff.1 (locate_eq_ok_iff.1 located).2.2
    rw [steps_join base named] at folders fits
    rw [passed_snoc] at folders
    exact addFolders_error failed ⟨folders, fun step mem => fits step (List.mem_append_left _ mem)⟩

theorem write_of_read {path : String} {content : Bytes} (h : t.read path = .ok content) (new : Bytes) :
    ∃ t', t.write path new = .ok t' := by
  obtain ⟨place, located, file⟩ := read_eq_ok_iff.1 h
  exact ⟨_, write_eq_ok_iff.2 ⟨place, located, not_hasFolder_of_file file, rfl⟩⟩

end Folders
end Tree
end MiningClient
