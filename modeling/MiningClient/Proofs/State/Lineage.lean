import MiningClient.Proofs.State.Catalog
import MiningClient.State.Lineage

namespace MiningClient

namespace Change

def catalog? : Change → Option (List ItemDescriptor)
  | firstScreen items _ => some items
  | places _ _ => none

def account? : Change → Option UserAccountInfo
  | firstScreen _ account => some account
  | places _ _ => none

def places? (place : Place) : Change → Option (List Location)
  | firstScreen _ _ => none
  | places other locations => if other = place then some locations else none

/-- The kind of places that it sets, or else it sets the first screen. -/
def sets : Change → Option Place
  | firstScreen _ _ => none
  | places place _ => some place

/-- The ids for which there is a warning. -/
def repeated : Change → List UInt32
  | firstScreen items _ => repeats items
  | places _ _ => []

theorem notices_eq (c : Change) : c.notices = c.repeated.map .repeatedItem := by
  cases c with
  | firstScreen items account => rw [notices, GameState.repeatedIds_eq, repeated]
  | places place locations => rfl

section Views
variable (c : Change) (s : GameState)

theorem items_apply : (c.apply s).items = c.catalog?.or s.items := by
  cases c with
  | firstScreen items account => rfl
  | places place locations => cases place <;> rfl

theorem account_apply : (c.apply s).account = c.account?.or s.account := by
  cases c with
  | firstScreen items account => rfl
  | places place locations => cases place <;> rfl

theorem places_apply (place : Place) : (c.apply s).places place = (c.places? place).or (s.places place) := by
  cases c with
  | firstScreen items account => exact s.places_withFirstScreen items account place
  | places other locations =>
    rw [places?]
    split
    · rename_i same
      rw [apply, same, GameState.places_withPlaces_self, Option.some_or]
    · rename_i different
      rw [apply, s.places_withPlaces_of_ne locations (Ne.symm different), Option.none_or]

theorem indexed_apply {s : GameState} (h : s.Indexed) : (c.apply s).Indexed := by
  cases c with
  | firstScreen items account => exact GameState.indexed_withFirstScreen _ items account
  | places place locations => exact h.withPlaces place locations

end Views

/-- What a change of the state leaves alone. -/
structure Leaves (c : Change) (s : GameState) : Prop where
  screen : c.sets ≠ none →
    (c.apply s).items = s.items ∧ (c.apply s).index = s.index ∧ (c.apply s).account = s.account
  places : ∀ place, c.sets ≠ some place → (c.apply s).places place = s.places place
  commutes : ∀ c' : Change, c'.sets ≠ c.sets → c'.apply (c.apply s) = c.apply (c'.apply s)

theorem leaves (c : Change) (s : GameState) : c.Leaves s where
  screen notScreen := by
    cases c with
    | firstScreen items account => exact absurd rfl notScreen
    | places place locations => cases place <;> exact ⟨rfl, rfl, rfl⟩
  places place other := by
    rw [places_apply]
    cases c with
    | firstScreen items account => rfl
    | places place' locations =>
      -- The places of the other kind are another field.
      have different : place' ≠ place := fun same => other (congrArg some same)
      rw [places?, if_neg different, Option.none_or]
  -- What is set by two changes of one kind is what the later one sets, so these cases are left out.
  commutes c' other := by
    cases c with
    | firstScreen items account =>
      cases c' with
      | firstScreen items' account' => exact absurd rfl other
      | places place locations => cases place <;> rfl
    | places place locations =>
      cases c' with
      | firstScreen items account => cases place <;> rfl
      | places place' locations' =>
        cases place <;> cases place' <;> first | rfl | exact absurd rfl other

end Change

namespace GameState

def made (changes : List Change) : GameState := changes.foldl (fun s c => c.apply s) {}

/-- What is so of a state that the changes have made. -/
structure Matches (s : GameState) (changes : List Change) : Prop where
  together : s.items.isSome = s.index.isSome ∧ s.account.isSome = s.index.isSome
  items : s.items = (changes.filterMap Change.catalog?).getLast?
  account : s.account = (changes.filterMap Change.account?).getLast?
  places : ∀ place, s.places place = (changes.filterMap (Change.places? place)).getLast?
  item : ∀ id, s.item? id = lastWithId s.catalog id
  missing : ∀ id, s.item? id = none ↔ id ∉ s.catalog.map (·.id)
  keys : ∀ index, s.index = some index →
    index.keys.Nodup ∧ ∀ id, id ∈ index.keys ↔ id ∈ s.catalog.map (·.id)

theorem made_append_singleton (changes : List Change) (c : Change) :
    made (changes ++ [c]) = c.apply (made changes) := by
  rw [made, List.foldl_append]
  rfl

theorem indexed_made (changes : List Change) : (made changes).Indexed := by
  induction changes using List.reverseRecOn with
  | nil => exact indexed_blank
  | append_singleton changes c ih =>
    rw [made_append_singleton]
    exact c.indexed_apply ih

theorem view_made {β : Type} (view : GameState → Option β) {set : Change → Option β}
    (blank : view {} = none) (apply : ∀ c s, view (c.apply s) = (set c).or (view s))
    (changes : List Change) : view (made changes) = (changes.filterMap set).getLast? := by
  induction changes using List.reverseRecOn with
  | nil => exact blank
  | append_singleton changes c ih =>
    rw [made_append_singleton, apply, ih, List.filterMap_append, List.getLast?_append]
    cases given : set c <;> simp [given]

theorem shown_together (s : GameState) :
    s.items.isSome = s.index.isSome ∧ s.account.isSome = s.index.isSome := by
  unfold items index account
  cases s.firstScreen <;> exact ⟨rfl, rfl⟩

theorem Indexed.keys {s : GameState} (h : s.Indexed) {index : Index} (shown : s.index = some index)
    (id : UInt32) : id ∈ index.keys ↔ id ∈ s.catalog.map (·.id) := by
  obtain ⟨screen, there, rfl⟩ := Option.map_eq_some_iff.1 shown
  have catalog : s.catalog = screen.items := by rw [catalog, items, there]; rfl
  rw [Std.TreeMap.mem_keys, h screen there, Index.mem_enter_iff, catalog]

theorem matches_made (changes : List Change) : (made changes).Matches changes where
  together := (made changes).shown_together
  items := view_made GameState.items rfl Change.items_apply changes
  account := view_made GameState.account rfl Change.account_apply changes
  places place :=
    view_made (·.places place) (places_blank place) (fun c s => c.places_apply s place) changes
  item := (indexed_made changes).item?
  missing id := by rw [(indexed_made changes).item?, lastWithId_eq_none_iff]
  keys index shown := ⟨Std.TreeMap.nodup_keys, (indexed_made changes).keys shown⟩

end GameState

namespace Lineage

/-- The changes that have made each of the states, by number. -/
def paths (steps : List (Nat × Change)) : List (List Change) :=
  steps.foldl (fun paths step => paths ++ (paths[step.1]?.map (· ++ [step.2])).toList) [[]]

theorem states_derive (l : Lineage) (source : Nat) (c : Change) :
    (l.derive source c).states = l.states ++ (l.states[source]?.map c.apply).toList := by
  rw [derive]
  cases l.states[source]? with
  | none => exact (List.append_nil _).symm
  | some s => rfl

theorem run_append_singleton (l : Lineage) (steps : List (Nat × Change)) (step : Nat × Change) :
    l.run (steps ++ [step]) = (l.run steps).derive step.1 step.2 := by
  rw [run, List.foldl_append]
  rfl

theorem states_run (steps : List (Nat × Change)) :
    (run {} steps).states = (paths steps).map GameState.made := by
  -- The last step derives from a state that the earlier ones have made.
  induction steps using List.reverseRecOn with
  | nil => rfl
  | append_singleton steps step ih =>
    have paths : paths (steps ++ [step]) =
        paths steps ++ ((paths steps)[step.1]?.map (· ++ [step.2])).toList := by
      rw [Lineage.paths, List.foldl_append]
      rfl
    rw [run_append_singleton, states_derive, ih, paths, List.map_append, List.getElem?_map]
    congr 1
    cases (Lineage.paths steps)[step.1]? with
    | none => rfl
    | some changes => exact congrArg (fun s => [s]) (GameState.made_append_singleton changes _).symm

/-- A state is what its own changes have made. It matches them, its index matches its catalog, and neither
is changed by what is made of it; and each repetition in a catalog is warned of once. -/
theorem states_match (steps : List (Nat × Change)) :
    (run {} steps).states = (paths steps).map GameState.made ∧
    (∀ changes, (GameState.made changes).Matches changes) ∧
    ∀ source s, (run {} steps).states[source]? = some s → ∀ c : Change,
      c.Leaves s ∧
      ((run {} steps).derive source c).states = (run {} steps).states ++ [c.apply s] ∧
      ((run {} steps).derive source c).log =
        (run {} steps).log ++ c.repeated.map .repeatedItem := by
  -- The first two parts are for all changes. The third is about one more of them.
  refine ⟨states_run steps, GameState.matches_made, ?_⟩
  intro source s there c
  refine ⟨c.leaves s, ?_, ?_⟩
  · rw [states_derive, there]
    rfl
  · rw [derive, there, c.notices_eq]

/-- Of three items with one id the last one is found, and two are warned of. -/
theorem states_match_repeated :
    let catalog : List ItemDescriptor :=
      [{ id := 4, name := "coal" }, { id := 9, name := "iron" }, { id := 4 }, { id := 4, name := "ruby" }]
    let steps := [(0, Change.places .mine [])]
    let s := GameState.made [.places .mine []]
    (run {} steps).states[1]? = some s ∧
      ((run {} steps).derive 1 (.firstScreen catalog {})).log = [.repeatedItem 4, .repeatedItem 4] ∧
      (GameState.made [.places .mine [], .firstScreen catalog {}]).item? 4 =
        some { id := 4, name := "ruby" } := by
  intro catalog steps s
  obtain ⟨-, matching, derived⟩ := states_match steps
  refine ⟨rfl, (derived 1 s rfl (.firstScreen catalog {})).2.2, ?_⟩
  exact (matching [.places .mine [], .firstScreen catalog {}]).item 4

end Lineage
end MiningClient
