import MiningClient.State.GameState
import Mathlib.Data.List.Induction

namespace MiningClient

/-- The last item of the catalog with the id. -/
def lastWithId (catalog : List ItemDescriptor) (id : UInt32) : Option ItemDescriptor :=
  (catalog.filter (·.id == id)).getLast?

theorem lastWithId_cons (item : ItemDescriptor) (catalog : List ItemDescriptor) (id : UInt32) :
    lastWithId (item :: catalog) id =
      (lastWithId catalog id).or (if item.id = id then some item else none) := by
  unfold lastWithId
  by_cases same : item.id = id
  · rw [List.filter_cons_of_pos (by simpa using same), if_pos same, List.getLast?_cons]
    cases (catalog.filter (·.id == id)).getLast? <;> rfl
  · rw [List.filter_cons_of_neg (by simpa using same), if_neg same, Option.or_none]

/-- What is entered over an index counts before what was there. -/
theorem Index.getElem?_enter (index : Index) (catalog : List ItemDescriptor) (id : UInt32) :
    (index.enter catalog).1[id]? = (lastWithId catalog id).or index[id]? := by
  induction catalog generalizing index with
  | nil => rfl
  | cons item catalog ih =>
    have entered : (index.insert item.id item)[id]? =
        (if item.id = id then some item else none).or index[id]? := by
      rw [Std.TreeMap.getElem?_insert]
      -- The item entered first is hidden by those behind it, so it comes last in the `or`.
      by_cases same : item.id = id
      · simp [same]
      · simp [same]
    rw [enter, ih, entered, lastWithId_cons, Option.or_assoc]

theorem lastWithId_eq_none_iff {catalog : List ItemDescriptor} {id : UInt32} :
    lastWithId catalog id = none ↔ id ∉ catalog.map (·.id) := by
  rw [lastWithId, List.getLast?_eq_none_iff, List.filter_eq_nil_iff, List.mem_map]
  simp

/-- The ids of the items that have the id of an item before them. -/
def repeats (catalog : List ItemDescriptor) : List UInt32 :=
  (catalog.zipIdx.filter fun entry => (catalog.take entry.2).any (·.id == entry.1.id)).map (·.1.id)

theorem repeats_append_singleton (catalog : List ItemDescriptor) (item : ItemDescriptor) :
    repeats (catalog ++ [item]) =
      repeats catalog ++ if item.id ∈ catalog.map (·.id) then [item.id] else [] := by
  -- No item but the last looks at the one that is appended.
  have earlier : ∀ p ∈ catalog.zipIdx, ((catalog ++ [item]).take p.2).any (·.id == p.1.id) =
      (catalog.take p.2).any (·.id == p.1.id) := by
    intro p hp
    have inside : p.2 ≤ catalog.length := by
      have := (List.mem_zipIdx hp).2.1
      omega
    rw [List.take_append_of_le_length inside]
  have last : ((catalog ++ [item]).take catalog.length).any (·.id == item.id) =
      decide (item.id ∈ catalog.map (·.id)) := by
    rw [List.take_left, Bool.eq_iff_iff, List.any_eq_true, decide_eq_true_eq, List.mem_map]
    simp only [beq_iff_eq]
  unfold repeats
  rw [List.zipIdx_append, List.filter_append, List.map_append, List.filter_congr earlier,
    List.zipIdx_singleton, Nat.zero_add, List.filter_cons, last, List.filter_nil]
  congr 1
  by_cases there : item.id ∈ catalog.map (·.id)
  · rw [if_pos there, if_pos (decide_eq_true there)]
    rfl
  · rw [if_neg there, if_neg (by simpa using there)]
    rfl

namespace Index

theorem enter_cons (index : Index) (item : ItemDescriptor) (catalog : List ItemDescriptor) :
    enter index (item :: catalog) = ((enter (index.insert item.id item) catalog).1,
      if index.contains item.id then item.id :: (enter (index.insert item.id item) catalog).2
      else (enter (index.insert item.id item) catalog).2) := rfl

theorem enter_append_singleton (index : Index) (catalog : List ItemDescriptor) (item : ItemDescriptor) :
    enter index (catalog ++ [item]) =
      ((enter index catalog).1.insert item.id item, (enter index catalog).2 ++
        if (enter index catalog).1.contains item.id then [item.id] else []) := by
  -- The fold starts at the front, so the index is generalized.
  induction catalog generalizing index with
  | nil => rfl
  | cons first catalog ih =>
    rw [List.cons_append, enter_cons, enter_cons, ih]
    cases index.contains first.id <;> rfl

theorem mem_enter_iff {catalog : List ItemDescriptor} {id : UInt32} :
    id ∈ (enter ∅ catalog).1 ↔ id ∈ catalog.map (·.id) := by
  have found : (enter ∅ catalog).1[id]? = lastWithId catalog id := by
    rw [getElem?_enter, Std.TreeMap.getElem?_emptyc, Option.or_none]
  rw [Std.TreeMap.mem_iff_isSome_getElem?, found, ← Option.ne_none_iff_isSome, Ne,
    lastWithId_eq_none_iff, Decidable.not_not]

end Index

/-- Each item that is found to be there already is a repetition, and no other. -/
theorem GameState.repeatedIds_eq (catalog : List ItemDescriptor) :
    repeatedIds catalog = repeats catalog := by
  -- From the end, as each item is entered over all that are before it.
  induction catalog using List.reverseRecOn with
  | nil => rfl
  | append_singleton catalog item ih =>
    rw [repeats_append_singleton, ← ih, repeatedIds, repeatedIds, Index.enter_append_singleton]
    simp only [Std.TreeMap.contains_iff_mem, Index.mem_enter_iff]

namespace GameState

/-- The ids go with the items that are shown. -/
def Indexed (s : GameState) : Prop :=
  ∀ screen, s.firstScreen = some screen → screen.index = (Index.enter ∅ screen.items).1

def catalog (s : GameState) : List ItemDescriptor := s.items.getD []

theorem Indexed.item? {s : GameState} (h : s.Indexed) (id : UInt32) :
    s.item? id = lastWithId s.catalog id := by
  unfold GameState.item? catalog GameState.index items
  cases shown : s.firstScreen with
  | none => rfl
  | some screen =>
    have entered := Index.getElem?_enter ∅ screen.items id
    rw [← h screen shown] at entered
    simpa using entered

theorem indexed_blank : Indexed {} := nofun

theorem indexed_withFirstScreen (s : GameState) (items : List ItemDescriptor)
    (account : UserAccountInfo) : (s.withFirstScreen items account).Indexed := by
  rintro screen ⟨⟩
  rfl

theorem Indexed.withPlaces {s : GameState} (h : s.Indexed) (place : Place)
    (locations : List Location) : (s.withPlaces place locations).Indexed := by
  unfold Indexed
  rw [firstScreen_withPlaces]
  exact h

end GameState

end MiningClient
