import MiningClient.Proofs.App.Expecting
import MiningClient.Proofs.Session.Merging

namespace MiningClient
open Session

namespace Supply
variable (s : Supply) (place : Place)

def shown : Option (List Location) := (s.ending place).bind Except.toOption

def status : LoadStatus := (s.ending place).elim .pending .ofReply

/-- What is logged about the end of a load. -/
def warnings : List Notice :=
  s.notices (.places place) ++
    match s.ending place with
    | some (.error e) => [.reported ⟨Report.loading place, e⟩]
    | _ => []

end Supply

namespace App
variable {σ : Type}

/-- How far the load of some places is. -/
inductive Stage
  | waiting
  | asked (due : Nat)
  /-- It has asked and is never answered. -/
  | lost
  | settled

namespace Stage

def due? : Stage → Option Nat
  | asked due => some due
  | _ => none

def isGoing : Stage → Bool
  | settled => false
  | _ => true

def isStarted : Stage → Bool
  | waiting => false
  | _ => true

def isReady (now : Nat) : Stage → Bool
  | waiting => true
  | asked due => due ≤ now
  | lost | settled => false

@[simp] theorem isGoing_waiting : waiting.isGoing = true := rfl

@[simp] theorem isGoing_asked (due : Nat) : (asked due).isGoing = true := rfl

@[simp] theorem isGoing_lost : lost.isGoing = true := rfl

@[simp] theorem isGoing_settled : settled.isGoing = false := rfl

def isAhead (now : Nat) : Stage → Bool
  | asked due => now < due
  | _ => false

/-- How far a load is that has just asked. -/
def ofAnswer (now : Nat) : Option (Nat × Fetched) → Stage
  | none => lost
  | some (0, _) => settled
  | some (delay + 1, _) => asked (now + (delay + 1))

end Stage

/-- When the answers to both loads arrive. -/
def dues (stage : Place → Stage) : Arrivals
  | .places place => (stage place).due?
  | _ => none

theorem dues_eq_some_iff {stage : Place → Stage} {endpoint : Endpoint} {t : Nat} :
    dues stage endpoint = some t ↔ ∃ place, endpoint = .places place ∧ stage place = .asked t := by
  cases endpoint with
  | items | account => simp [dues]
  | places place => cases hs : stage place <;> simp [dues, Stage.due?, hs]

theorem dues_update (stage : Place → Stage) (place : Place) (s : Stage) :
    dues (Function.update stage place s) = Function.update (dues stage) (.places place) s.due? := by
  funext endpoint
  cases endpoint with
  | items | account => rw [Function.update_of_ne (by simp)]; rfl
  | places other =>
    by_cases h : other = place
    · rw [h, Function.update_self, dues, Function.update_self]
    · rw [Function.update_of_ne (by simpa using h), dues, Function.update_of_ne h, dues]

/-- A session that shows its first screen and the places whose loads have settled. -/
structure Showing (s : Supply) (w₀ : App σ) (catalog : List ItemDescriptor) (account : UserAccountInfo)
    (stage : Place → Stage) (m : Machine σ) : Prop where
  credentials : m.credentials = w₀.machine.credentials
  generation : m.core.generation = w₀.machine.core.generation
  phase : m.core.phase = .ready
  ready : m.core.ready.value = true
  screen : m.core.state.value.firstScreen =
    (GameState.withFirstScreen {} catalog account).firstScreen
  places : ∀ place, m.core.state.value.places place =
    if (stage place).isGoing then none else s.shown place
  status : ∀ place, m.core.loads.value.status place =
    if (stage place).isGoing then .pending else s.status place
  loads : ∀ l, l ∈ m.loads ↔ l.run = w₀.machine.nextTask ∧
    l.generation = w₀.machine.core.generation ∧ (stage l.place).isGoing = true ∧
    l.started = (stage l.place).isStarted

namespace Showing
variable {s : Supply} {w₀ : App σ} {catalog : List ItemDescriptor} {account : UserAccountInfo}
  {stage : Place → Stage} {m : Machine σ} {place : Place}

/-- The load of a kind of places, as it stands. -/
def load (w₀ : App σ) (stage : Place → Stage) (place : Place) : Load :=
  ⟨w₀.machine.nextTask, place, w₀.machine.core.generation, (stage place).isStarted⟩

theorem load_mem (h : Showing s w₀ catalog account stage m) (going : (stage place).isGoing = true) :
    load w₀ stage place ∈ m.loads := (h.loads _).2 ⟨rfl, rfl, going, rfl⟩

theorem find?_load (h : Showing s w₀ catalog account stage m) (going : (stage place).isGoing = true) :
    m.loads.find? (Machine.isLoad w₀.machine.nextTask place) = some (load w₀ stage place) := by
  cases hf : m.loads.find? (Machine.isLoad w₀.machine.nextTask place) with
  | none =>
    have := List.find?_eq_none.1 hf _ (h.load_mem going)
    simp [load, Machine.isLoad] at this
  | some l =>
    obtain ⟨run, rfl⟩ := Machine.isLoad_iff.1 (List.find?_some hf)
    obtain ⟨-, generation, -, started⟩ := (h.loads l).1 (List.mem_of_find?_eq_some hf)
    cases l
    -- All four fields of a load are given by the stage.
    simp_all [load]

/-- To those who only watch it is no matter. -/
theorem still (h : Showing s w₀ catalog account stage m) {m' : Machine σ} (still : Machine.Still m m')
    (credentials : m'.credentials = m.credentials) : Showing s w₀ catalog account stage m' where
  credentials := credentials.trans h.credentials
  generation := still.generation.trans h.generation
  phase := still.phase.trans h.phase
  ready := still.ready.trans h.ready
  screen := still.state ▸ h.screen
  places := still.state ▸ h.places
  status := still.loaded ▸ h.status
  loads := still.loads ▸ h.loads

theorem asked (h : Showing s w₀ catalog account stage m) (waits : stage place = .waiting)
    {next : Stage} (going : next.isGoing = true) (started : next.isStarted = true) :
    Showing s w₀ catalog account (Function.update stage place next)
      (m.withLoadStarted w₀.machine.nextTask place) := by
  have same : ∀ p, (Function.update stage place next p).isGoing = (stage p).isGoing := by
    intro p
    by_cases hp : p = place
    · rw [hp, Function.update_self, waits, going]
      rfl
    · rw [Function.update_of_ne hp]
  refine ⟨h.credentials, h.generation, h.phase, h.ready, h.screen, ?_, ?_, ?_⟩
  · intro p
    rw [same]
    exact h.places p
  · intro p
    rw [same]
    exact h.status p
  · intro l
    rw [same]
    show l ∈ m.loads.map _ ↔ _
    rw [List.mem_map]
    constructor
    · rintro ⟨l, mem, rfl⟩
      obtain ⟨run, generation, goes, began⟩ := (h.loads l).1 mem
      split
      · rename_i isLoad
        obtain ⟨-, hp⟩ := Machine.isLoad_iff.1 isLoad
        exact ⟨run, generation, goes, by rw [hp, Function.update_self, started]⟩
      · rename_i other
        have hp : l.place ≠ place := fun hp => other (Machine.isLoad_iff.2 ⟨run, hp⟩)
        exact ⟨run, generation, goes, by rw [Function.update_of_ne hp, began]⟩
    · rintro ⟨run, generation, goes, began⟩
      by_cases hp : l.place = place
      · -- It comes from the load of the same places, which had not started.
        have isLoad : Machine.isLoad w₀.machine.nextTask place (load w₀ stage place) = true :=
          Machine.isLoad_iff.2 ⟨rfl, rfl⟩
        rw [hp, Function.update_self, started] at began
        refine ⟨_, h.load_mem (hp ▸ goes), ?_⟩
        rw [if_pos isLoad]
        cases l
        simp_all [load, Stage.isStarted]
      · rw [Function.update_of_ne hp] at began
        refine ⟨l, (h.loads l).2 ⟨run, generation, goes, began⟩, ?_⟩
        rw [if_neg fun isLoad => hp (Machine.isLoad_iff.1 isLoad).2]

theorem settled (h : Showing s w₀ catalog account stage m) (going : (stage place).isGoing = true)
    {reply : PlacesReply} (ends : s.ending place = some reply) :
    Showing s w₀ catalog account (Function.update stage place .settled)
      { m.withoutLoad w₀.machine.nextTask place with core := m.core.settled place reply } := by
  have free : m.core.state.value.places place = none := by rw [h.places, if_pos going]
  refine ⟨h.credentials, (Core.generation_settled _ _).trans h.generation,
    (Core.phase_settled _ _).trans h.phase, ?_, (Core.firstScreen_settled _ _).trans h.screen,
    ?_, ?_, ?_⟩
  -- Neither end of a load touches the readiness.
  · cases reply <;> exact h.ready
  · intro p
    by_cases hp : p = place
    · rw [hp, Function.update_self, Supply.shown, ends]
      exact Core.places_settled_self _ _ free
    · rw [Function.update_of_ne hp]
      exact (Core.places_settled_of_ne _ _ hp).trans (h.places p)
  · intro p
    by_cases hp : p = place
    · rw [hp, Function.update_self, Supply.status, ends]
      exact Core.status_settled_self _ _
    · rw [Function.update_of_ne hp]
      exact (Core.status_settled_of_ne _ _ hp).trans (h.status p)
  · intro l
    show l ∈ m.loads.filter _ ↔ _
    rw [List.mem_filter, h.loads]
    by_cases hp : l.place = place
    · rw [hp, Function.update_self]
      constructor
      · rintro ⟨⟨run, -⟩, other⟩
        rw [Machine.isLoad_iff.2 ⟨run, hp⟩] at other
        cases other
      · rintro ⟨-, -, ⟨⟩, -⟩
    · have other : Machine.isLoad w₀.machine.nextTask place l = false :=
        Bool.eq_false_iff.2 fun isLoad => hp (Machine.isLoad_iff.1 isLoad).2
      rw [Function.update_of_ne hp, other, and_iff_left (by rfl)]

theorem pollLoad_none (h : Showing s w₀ catalog account stage m) (waits : stage place = .waiting) :
    m.pollLoad w₀.machine.nextTask place none =
      (m.withLoadStarted w₀.machine.nextTask place, [.fetched (.places place)]) := by
  have going : (stage place).isGoing = true := by
    rw [waits]
    rfl
  have poll := m.pollLoad_cases w₀.machine.nextTask place none
  generalize m.pollLoad w₀.machine.nextTask place none = r at poll
  cases poll with
  | gone _ none =>
    have other := none _ (h.load_mem going)
    simp [load, Machine.isLoad] at other
  | waiting l found =>
    rw [h.find?_load going] at found
    cases found
    rw [Machine.firstFetch, load, waits]
    rfl

theorem pollLoad_some (h : Showing s w₀ catalog account stage m) (going : (stage place).isGoing = true)
    (reply : PlacesReply) :
    ∃ fetches,
      m.pollLoad w₀.machine.nextTask place (some reply) =
        ({ m.withoutLoad w₀.machine.nextTask place with core := m.core.settled place reply },
          fetches ++ Machine.loadNotices place reply) ∧
      ∀ x ∈ fetches, ∃ endpoint, x = .fetched endpoint := by
  have poll := m.pollLoad_cases w₀.machine.nextTask place (some reply)
  generalize m.pollLoad w₀.machine.nextTask place (some reply) = r at poll
  cases poll with
  | gone _ none =>
    have other := none _ (h.load_mem going)
    simp [load, Machine.isLoad] at other
  | dropped l found _ past =>
    rw [h.find?_load going] at found
    cases found
    -- A load of an earlier generation would be dropped, but this one is of the present.
    exact absurd h.generation past
  | settled l found _ now =>
    refine ⟨_, rfl, fun x hx => ?_⟩
    unfold Machine.firstFetch at hx
    split at hx
    · cases hx
    · exact ⟨_, List.mem_singleton.1 hx⟩

theorem isSettled_iff (h : Showing s w₀ catalog account stage m)
    (answered : ∀ place, stage place = .settled → s.ending place ≠ none) :
    m.core.loads.value.isSettled = true ↔ ∀ place, stage place = .settled := by
  -- Place by place, since the two statuses are looked at in turn.
  have settled : ∀ place, (m.core.loads.value.status place).isSettled = true ↔
      stage place = .settled := by
    intro place
    rw [h.status]
    cases hs : stage place with
    | waiting | asked | lost => simp [LoadStatus.isSettled]
    | settled =>
      obtain ⟨reply, ends⟩ := Option.ne_none_iff_exists'.1 (answered place hs)
      rw [Supply.status, ends]
      cases reply <;> simp [LoadStatus.isSettled, LoadStatus.ofReply]
  show (_ && _) = true ↔ _
  rw [Bool.and_eq_true]
  constructor
  · rintro ⟨mine, gamble⟩ place
    cases place with
    | mine => exact (settled .mine).1 mine
    | gamble => exact (settled .gamble).1 gamble
  · exact fun all => ⟨(settled .mine).2 (all .mine), (settled .gamble).2 (all .gamble)⟩

end Showing
end App
end MiningClient
