import MiningClient.Proofs.Session.Steps
import MiningClient.Proofs.State.Catalog

namespace MiningClient.Session.Machine
variable {σ : Type} {m : Machine σ}

theorem Advance.indexed {run : Run} {i : Option ItemsReply} {a : Option AccountReply}
    {r : Machine σ × List Effect} (h : m.core.state.value.Indexed) (step : Advance m run i a r) :
    r.1.core.state.value.Indexed := by
  cases step with
  | waiting | discarded => exact h
  | failed e =>
    show (m.core.fail run.generation e).state.value.Indexed
    unfold Core.fail
    -- A failure writes the phase alone.
    split <;> exact h
  | opened items account => exact GameState.indexed_withFirstScreen _ items account

theorem PollLoad.indexed {run : Nat} {place : Place} {reply : Option PlacesReply}
    {r : Machine σ × List Effect} (h : m.core.state.value.Indexed)
    (step : PollLoad m run place reply r) : r.1.core.state.value.Indexed := by
  cases step with
  | gone | waiting | dropped => exact h
  | settled l found result now =>
    cases result with
    | ok locations => exact h.withPlaces place locations
    | error e => exact h

theorem indexed_step [Slot σ] (m : Machine σ) (e : Event) (h : m.core.state.value.Indexed) :
    (m.step e).1.core.state.value.Indexed := by
  have stepped := m.step_cases e
  generalize m.step e = r at stepped
  cases stepped with
  | quiet _ still =>
    rw [still.state]
    exact h
  | answered | missed => exact h
  | begun i a free closed advance =>
    have begun : m.begun.core.state.value.Indexed := h
    -- The new run changes no cell before its first poll.
    have advanced := Advance.indexed begun advance
    exact advanced
  | polled i a run member found advance =>
    have without : (m.withoutRun run.id).core.state.value.Indexed := h
    exact Advance.indexed without advance
  | load run place reply load => exact PollLoad.indexed h load
  | reset => exact GameState.indexed_blank

end MiningClient.Session.Machine
