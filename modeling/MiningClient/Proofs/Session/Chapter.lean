import Mathlib.Data.List.Chain
import Mathlib.Data.List.Perm.Subperm
import MiningClient.Session.Trace

namespace MiningClient

/-- The status of a load that ended so. -/
def LoadStatus.ofReply : Session.PlacesReply → LoadStatus
  | .ok _ => .loaded
  | .error _ => .failed

/-- The second state has one kind of places more than the first. All else is the same. -/
def GameState.Gains (s s' : GameState) : Prop :=
  ∃ place, s.places place = none ∧ (s'.places place).isSome ∧
    (∀ other, other ≠ place → s'.places other = s.places other) ∧ s'.firstScreen = s.firstScreen

/-- One of the two loads was pending in the first value and has ended in the second. -/
def Loads.Settles (l l' : Loads) : Prop :=
  ∃ place, l.status place = .pending ∧ (l'.status place = .loaded ∨ l'.status place = .failed) ∧
    ∀ other, other ≠ place → l'.status other = l.status other

theorem GameState.gains_withPlaces {s : GameState} {place : Place} (missing : s.places place = none)
    (locations : List Location) : s.Gains (s.withPlaces place locations) := by
  refine ⟨place, missing, ?_, fun other hne => places_withPlaces_of_ne s locations hne, ?_⟩
  · rw [places_withPlaces_self]
    rfl
  · exact firstScreen_withPlaces s place locations

theorem Loads.settles_mark {l : Loads} {place : Place} (pending : l.status place = .pending)
    (reply : Session.PlacesReply) : l.Settles (l.mark place (.ofReply reply)) := by
  refine ⟨place, pending, ?_, fun other hne => status_mark_of_ne l _ hne⟩
  rw [status_mark_self]
  cases reply with
  | ok locations => exact .inl rfl
  | error e => exact .inr rfl

namespace Session

inductive Chapter
  | blank
  | opened (items : List ItemDescriptor) (account : UserAccountInfo)
    (settled : List (Place × PlacesReply))

namespace Chapter

def merged (settled : List (Place × PlacesReply)) : List (Place × List Location) :=
  settled.filterMap fun x => x.2.toOption.map (x.1, ·)

/-- The first screen with no places. -/
def opening (items : List ItemDescriptor) (account : UserAccountInfo) : GameState where
  firstScreen := some ⟨items, (Index.enter ∅ items).1, account⟩

/-- The states that are published, from the empty one on. -/
def states : Chapter → List GameState
  | blank => [{}]
  | opened items account settled =>
    {} :: (merged settled).scanl (fun s x => s.withPlaces x.1 x.2) (opening items account)

def readies : Chapter → List Bool
  | blank => [false]
  | opened _ _ _ => [false, true]

def loads : Chapter → List Loads
  | blank => [{}]
  | opened _ _ settled => settled.scanl (fun l x => l.mark x.1 (.ofReply x.2)) {}

def state : Chapter → GameState
  | blank => {}
  | opened items account settled =>
    (merged settled).foldl (fun s x => s.withPlaces x.1 x.2) (opening items account)

def load : Chapter → Loads
  | blank => {}
  | opened _ _ settled => settled.foldl (fun l x => l.mark x.1 (.ofReply x.2)) {}

section Settling
variable (items : List ItemDescriptor) (account : UserAccountInfo)
  (settled : List (Place × PlacesReply)) (place : Place)

theorem merged_append (reply : PlacesReply) :
    merged (settled ++ [(place, reply)]) = merged settled ++ merged [(place, reply)] :=
  List.filterMap_append

theorem states_settle_ok (locations : List Location) :
    (opened items account (settled ++ [(place, .ok locations)])).states =
      (opened items account settled).states ++
        [(opened items account settled).state.withPlaces place locations] := by
  have hm := merged_append settled place (.ok locations)
  rw [states, hm, List.scanl_append]
  rfl

theorem states_settle_error (e : Error) :
    (opened items account (settled ++ [(place, .error e)])).states =
      (opened items account settled).states := by
  have hm := merged_append settled place (.error e)
  rw [states, hm, show merged [(place, .error e)] = [] from rfl, List.append_nil]
  rfl

theorem state_settle_ok (locations : List Location) :
    (opened items account (settled ++ [(place, .ok locations)])).state =
      (opened items account settled).state.withPlaces place locations := by
  have hm := merged_append settled place (.ok locations)
  rw [state, hm, List.foldl_append]
  rfl

theorem state_settle_error (e : Error) :
    (opened items account (settled ++ [(place, .error e)])).state =
      (opened items account settled).state := by
  have hm := merged_append settled place (.error e)
  rw [state, hm, show merged [(place, .error e)] = [] from rfl, List.append_nil]
  rfl

theorem loads_settle (reply : PlacesReply) :
    (opened items account (settled ++ [(place, reply)])).loads =
      (opened items account settled).loads ++
        [(opened items account settled).load.mark place (.ofReply reply)] := by
  rw [loads, List.scanl_append]
  rfl

theorem load_settle (reply : PlacesReply) :
    (opened items account (settled ++ [(place, reply)])).load =
      (opened items account settled).load.mark place (.ofReply reply) := by
  rw [load, List.foldl_append]
  rfl

end Settling

theorem pending_foldl {place : Place} (settled : List (Place × PlacesReply)) (l : Loads)
    (h : (settled.foldl (fun l x => l.mark x.1 (.ofReply x.2)) l).status place = .pending) :
    l.status place = .pending ∧ place ∉ settled.map Prod.fst := by
  induction settled generalizing l with
  | nil => exact ⟨h, List.not_mem_nil⟩
  | cons x settled ih =>
    obtain ⟨hl, hn⟩ := ih (l.mark x.1 (.ofReply x.2)) h
    -- No reply marks a load as pending.
    have hx : place ≠ x.1 := by
      rintro rfl
      rw [Loads.status_mark_self] at hl
      cases hr : x.2 <;> rw [hr] at hl <;> cases hl
    rw [Loads.status_mark_of_ne _ _ hx] at hl
    refine ⟨hl, ?_⟩
    intro hmem
    rcases List.mem_cons.mp hmem with he | he
    · exact hx he
    · exact hn he

theorem merged_sublist (settled : List (Place × PlacesReply)) :
    (merged settled).map Prod.fst |>.Sublist (settled.map Prod.fst) := by
  induction settled with
  | nil => exact List.Sublist.refl _
  | cons x settled ih =>
    rcases x with ⟨place, _ | locations⟩
    · exact ih.cons place
    · exact ih.cons_cons place

/-- Entries with keys that differ are worked in one after another. Each finds its key free. -/
theorem isChain_scanl {α β γ : Type} {f : α → β × γ → α} {F : α → β → Prop}
    {R : α → α → Prop} (hR : ∀ a x, F a x.1 → R a (f a x))
    (hF : ∀ a x b, b ≠ x.1 → F a b → F (f a x) b) (xs : List (β × γ)) (a : α)
    (hn : (xs.map Prod.fst).Nodup) (ha : ∀ x ∈ xs, F a x.1) : (xs.scanl f a).IsChain R := by
  induction xs generalizing a with
  | nil => exact List.isChain_singleton a
  | cons x xs ih =>
    obtain ⟨hx, hn⟩ := List.nodup_cons.mp hn
    have hrest : (xs.scanl f (f a x)).IsChain R := by
      apply ih _ hn
      intro y hy
      -- The keys differ, so the step that takes `x` in leaves the key of `y` free.
      have hne : y.1 ≠ x.1 := by
        intro he
        exact hx (he ▸ List.mem_map_of_mem hy)
      exact hF a x y.1 hne (ha y (List.mem_cons_of_mem _ hy))
    rw [List.scanl_cons]
    apply hrest.cons
    intro b hb
    rw [List.head?_scanl] at hb
    cases hb
    exact hR a x (ha x List.mem_cons_self)

variable {items : List ItemDescriptor} {account : UserAccountInfo}
  {settled : List (Place × PlacesReply)}

theorem places_opening (place : Place) : (opening items account).places place = none := by
  cases place <;> rfl

theorem gains_states (hn : (settled.map Prod.fst).Nodup) :
    (opened items account settled).states.tail.IsChain GameState.Gains := by
  change ((merged settled).scanl _ _).IsChain GameState.Gains
  apply isChain_scanl (F := fun s place => s.places place = none)
  · intro s x hs
    exact GameState.gains_withPlaces hs x.2
  · intro s x place hne hs
    rw [GameState.places_withPlaces_of_ne _ _ hne]
    exact hs
  · exact hn.sublist (merged_sublist settled)
  · intro x _
    exact places_opening x.1

theorem settles_loads (hn : (settled.map Prod.fst).Nodup) :
    (opened items account settled).loads.IsChain Loads.Settles := by
  change (settled.scanl _ _).IsChain Loads.Settles
  apply isChain_scanl (F := fun l place => l.status place = .pending)
  · intro l x hl
    exact Loads.settles_mark hl x.2
  · intro l x place hne hl
    rw [Loads.status_mark_of_ne _ _ hne]
    exact hl
  · exact hn
  · intro x _
    exact Loads.status_blank x.1

/-- The catalog and the account of the first screen, if there came one. -/
def screen? : Chapter → Option (List ItemDescriptor × UserAccountInfo)
  | blank => none
  | opened items account _ => some (items, account)

/-- How the values of a chapter follow each other. -/
structure Orderly (c : Chapter) : Prop where
  states : c.states.tail.IsChain GameState.Gains
  loads : c.loads.IsChain Loads.Settles
  screen : ∀ s ∈ c.states.tail.head?,
    (∃ items account, c.screen? = some (items, account) ∧ s.items = some items ∧
      s.account = some account) ∧ ∀ place, s.places place = none
  states_length : c.states.length ≤ 4
  loads_length : c.loads.length ≤ 3

theorem orderly_blank : blank.Orderly := by
  refine ⟨List.isChain_nil, List.isChain_singleton _, ?_, ?_, ?_⟩
  · intro s hs
    cases hs
  · decide
  · decide

theorem orderly_opened (hn : (settled.map Prod.fst).Nodup) :
    (opened items account settled).Orderly := by
  -- There are two kinds of places, and each has ended once at most.
  have hlen : settled.length ≤ 2 := by
    have hsub : settled.map Prod.fst ⊆ [.mine, .gamble] := by
      intro place _
      cases place <;> simp
    have hle := (List.subperm_of_subset hn hsub).length_le
    rwa [List.length_map] at hle
  have hmerged : (merged settled).length ≤ 2 := (List.length_filterMap_le _ _).trans hlen
  refine ⟨gains_states hn, settles_loads hn, ?_, ?_, ?_⟩
  · intro s hs
    rw [states, List.tail_cons, List.head?_scanl] at hs
    cases hs
    exact ⟨⟨items, account, rfl, rfl, rfl⟩, places_opening⟩
  -- The empty state, the first screen, and a state for each kind of places.
  · rw [states, List.length_cons, List.length_scanl]
    omega
  · rw [loads, List.length_scanl]
    omega

end Chapter
end Session
end MiningClient
