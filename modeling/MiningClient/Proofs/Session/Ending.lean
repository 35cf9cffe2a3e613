import MiningClient.Proofs.Session.Tasks

namespace MiningClient.Session

def Event.isStart : Event → Bool
  | start _ _ => true
  | _ => false

namespace Machine
variable {σ : Type}

/-- Nothing is published, and nothing that goes on is of the present generation. -/
structure IsOver (m : Machine σ) : Prop where
  phase : m.core.phase = .uninitialized
  state : m.core.state.value = {}
  ready : m.core.ready.value = false
  pending : ∀ place, m.core.loads.value.status place = .pending
  runs : ∀ r ∈ m.runs, r.generation < m.core.generation
  loads : ∀ l ∈ m.loads, l.generation < m.core.generation

namespace IsOver
variable {m : Machine σ}

theorem of_sound (h : m.Sound) : IsOver { m with core := m.core.reset } where
  phase := rfl
  state := rfl
  ready := rfl
  pending := Loads.status_blank
  runs r hr := Nat.lt_succ_of_le (h.runs_past r hr)
  loads l hl := Nat.lt_succ_of_le (h.loads_past l hl)

theorem withCredentials (h : m.IsOver) (credentials : Credentials σ) :
    IsOver { m with credentials } :=
  ⟨h.phase, h.state, h.ready, h.pending, h.runs, h.loads⟩

theorem still {m' : Machine σ} (h : m.IsOver) (s : Still m m') : m'.IsOver where
  phase := s.phase.trans h.phase
  state := s.state.trans h.state
  ready := s.ready.trans h.ready
  pending := by
    rw [s.loaded]
    exact h.pending
  runs := by
    rw [s.runs, s.generation]
    exact h.runs
  loads := by
    rw [s.loads, s.generation]
    exact h.loads

theorem withTasks (h : m.IsOver) {runs : List Run} {loads : List Load}
    (past : ∀ r ∈ runs, r.generation < m.core.generation)
    (past' : ∀ l ∈ loads, l.generation < m.core.generation) : IsOver { m with runs, loads } :=
  ⟨h.phase, h.state, h.ready, h.pending, past, past'⟩

theorem withoutRun (h : m.IsOver) (id : Nat) : (m.withoutRun id).IsOver :=
  h.withTasks (fun r hr => h.runs r (List.mem_filter.1 hr).1) h.loads

theorem advanced (h : m.IsOver) {run : Run} (past : run.generation < m.core.generation)
    {i : Option ItemsReply} {a : Option AccountReply} {r : Machine σ × List Effect}
    (advance : Advance m run i a r) : r.1.IsOver := by
  cases advance with
  | waiting run' goes =>
    refine h.withTasks (fun x hx => ?_) h.loads
    -- A run that waits on keeps its generation.
    rcases List.mem_append.1 hx with old | new
    · exact h.runs x old
    · rw [List.mem_singleton.1 new, goes.generation]
      exact past
  | failed e =>
    have same : m.core.fail run.generation e = m.core := if_neg (Nat.ne_of_gt past)
    rw [same]
    exact h
  | discarded => exact h
  | opened _ _ _ now => exact absurd now (Nat.ne_of_gt past)

theorem loaded (h : m.IsOver) {run : Nat} {place : Place} {reply : Option PlacesReply}
    {r : Machine σ × List Effect} (load : PollLoad m run place reply r) : r.1.IsOver := by
  cases load with
  | gone => exact h
  | waiting =>
    refine h.withTasks h.runs fun l hl => ?_
    obtain ⟨l', hl', rfl⟩ := List.mem_map.1 hl
    have past := h.loads l' hl'
    -- To mark a load as begun leaves its generation.
    split <;> exact past
  | dropped => exact h.withTasks h.runs fun l hl => h.loads l (List.mem_filter.1 hl).1
  | settled l found _ now =>
    exact absurd now (Nat.ne_of_gt (h.loads l (List.mem_of_find?_eq_some found)))

variable [Slot σ]

theorem reset (h : m.IsOver) : m.reset.2.IsOver where
  phase := rfl
  state := rfl
  ready := rfl
  pending := Loads.status_blank
  runs r hr := Nat.lt_succ_of_lt (h.runs r hr)
  loads l hl := Nat.lt_succ_of_lt (h.loads l hl)

theorem step (h : m.IsOver) {e : Event} (other : e.isStart = false) : (m.step e).1.IsOver := by
  have hc := m.step_cases e
  generalize m.step e = r at hc
  cases hc with
  | quiet _ still => exact h.still still
  | answered | begun => cases other
  | missed => exact h
  | polled _ _ run member _ advance =>
    exact (h.withoutRun run.id).advanced (h.runs run member) advance
  | load _ _ _ load => exact h.loaded load
  | reset => exact h.reset

end IsOver

/-- The call begins a run of its own: it asks for the items, and if it returns at once then because
it has failed or published the first screen. -/
structure Begins [Slot σ] (m : Machine σ) (i : Option ItemsReply) (a : Option AccountReply) :
    Prop where
  begins : Moment.begins m.nextTask ⟨m, .start i a⟩ = true
  asks : .fetched .items ∈ (m.step (.start i a)).2
  returns : ∀ id outcome, .finished id (.run (.ok outcome)) ∈ (m.step (.start i a)).2 →
    id = m.nextTask ∧ outcome = .initialized

theorem begins_of_mayBegin [Slot σ] {m : Machine σ} (h : m.core.mayBegin = true)
    (i : Option ItemsReply) (a : Option AccountReply) : m.Begins i a := by
  have hc := m.step_cases (.start i a)
  refine ⟨by simp [Moment.begins, h], ?_, ?_⟩
  · generalize m.step (.start i a) = r at hc
    cases hc with
    | quiet quiet => cases quiet
    | answered _ _ _ _ busy =>
      rw [h] at busy
      cases busy
    | begun => exact List.mem_append_left _ (List.mem_cons_self ..)
  · generalize m.step (.start i a) = r at hc
    intro id outcome returned
    cases hc with
    | quiet quiet => cases quiet
    | answered _ _ _ _ busy =>
      rw [h] at busy
      cases busy
    | begun _ _ _ _ advance =>
      -- What is asked for at once is no return.
      rcases List.mem_append.1 returned with asked | returned
      · rcases fetched_of_asked asked with fetched | fetched <;> cases fetched
      · cases advance with
        | waiting => cases returned
        | failed => simp at returned
        | discarded _ _ _ past => exact absurd rfl past
        | opened => simpa [newRun] using returned

theorem IsOver.begins [Slot σ] {m : Machine σ} (h : m.IsOver) (i : Option ItemsReply)
    (a : Option AccountReply) : m.Begins i a := by
  apply begins_of_mayBegin
  rw [Core.mayBegin_iff, h.phase]
  exact ⟨Phase.noConfusion, Phase.noConfusion⟩

end Machine
end MiningClient.Session
