import MiningClient.Proofs.Session.Steps
import MiningClient.Proofs.State.Following

namespace MiningClient.Session

namespace Machine
variable {σ : Type}

/-- A new machine with one follower of each observable. -/
def followed [Slot σ] (credentials : Credentials σ) : Machine σ :=
  (fresh credentials).after [.follow .state, .follow .ready, .follow .loads]

/-- The first followers are still there, and have been given these values. -/
structure Heard (m : Machine σ) (states : List GameState) (readies : List Bool)
    (loads : List Loads) : Prop where
  state : m.core.state.Follows 0 states
  ready : m.core.ready.Follows 0 readies
  loads : m.core.loads.Follows 0 loads
  waiters : ∀ w ∈ m.waiters, w.subscription ≠ 0

theorem followed_heard [Slot σ] (credentials : Credentials σ) :
    (followed credentials).Heard [{}] [false] [{}] where
  state := Observable.follows_subscribe rfl
  ready := Observable.follows_subscribe rfl
  loads := Observable.follows_subscribe rfl
  waiters := by
    intro w hw
    cases hw

namespace Heard
variable {m : Machine σ} {states : List GameState} {readies : List Bool} {loads : List Loads}

theorem of_feeds {m' : Machine σ} (h : m.Heard states readies loads)
    (hs : m'.core.state = m.core.state) (hr : m'.core.ready = m.core.ready)
    (hl : m'.core.loads = m.core.loads) (hw : m'.waiters = m.waiters) :
    m'.Heard states readies loads where
  state := hs ▸ h.state
  ready := hr ▸ h.ready
  loads := hl ▸ h.loads
  waiters := hw ▸ h.waiters

theorem of_waiters {waiters : List Waiter} (h : m.Heard states readies loads)
    (hw : ∀ w ∈ waiters, w ∈ m.waiters) : Heard { m with waiters } states readies loads where
  state := h.state
  ready := h.ready
  loads := h.loads
  waiters := by
    intro w hmem
    exact h.waiters w (hw w hmem)

theorem without (h : m.Heard states readies loads) (p : Waiter → Bool) :
    Heard { m with waiters := m.waiters.filter p } states readies loads := by
  apply h.of_waiters
  intro w hw
  exact (List.mem_filter.mp hw).1

theorem found {id : Nat} {w : Waiter} (h : m.Heard states readies loads)
    (hf : m.waiters.find? (·.id == id) = some w) : 0 ≠ w.subscription := by
  have hw := List.mem_of_find?_eq_some hf
  exact (h.waiters w hw).symm

theorem subscribe (h : m.Heard states readies loads) (feed : Core.Feed) :
    Heard { m with core := (m.core.subscribe feed).2 } states readies loads ∧
      (m.core.subscribe feed).1 ≠ 0 := by
  -- The number 0 is taken, so the next one is another.
  cases feed with
  | state => exact ⟨⟨h.state.subscribe, h.ready, h.loads, h.waiters⟩, Nat.ne_of_gt h.state.known⟩
  | ready => exact ⟨⟨h.state, h.ready.subscribe, h.loads, h.waiters⟩, Nat.ne_of_gt h.ready.known⟩
  | loads => exact ⟨⟨h.state, h.ready, h.loads.subscribe, h.waiters⟩, Nat.ne_of_gt h.loads.known⟩

theorem unsubscribe (h : m.Heard states readies loads) {id : Nat} (hid : 0 ≠ id)
    (feed : Core.Feed) : Heard { m with core := m.core.unsubscribe id feed } states readies loads := by
  cases feed with
  | state => exact ⟨h.state.unsubscribe hid, h.ready, h.loads, h.waiters⟩
  | ready => exact ⟨h.state, h.ready.unsubscribe hid, h.loads, h.waiters⟩
  | loads => exact ⟨h.state, h.ready, h.loads.unsubscribe hid, h.waiters⟩

theorem joined (h : m.Heard states readies loads) (awaited : Awaited) :
    (m.joined awaited).Heard states readies loads := by
  obtain ⟨hs, hne⟩ := h.subscribe awaited.feed
  refine ⟨hs.state, hs.ready, hs.loads, ?_⟩
  intro w hw
  rcases List.mem_append.mp hw with hw | hw
  · exact h.waiters w hw
  · rw [List.mem_singleton.mp hw]
    exact hne

theorem pollWaiter (h : m.Heard states readies loads) (id : Nat) :
    (m.pollWaiter id).1.Heard states readies loads := by
  have hc := m.pollWaiter_cases id
  generalize m.pollWaiter id = r at hc
  cases hc with
  | gone => exact h
  | opened w found =>
    -- The waiter leaves a place that is not the first.
    have hf := h.without (·.id != id)
    exact ⟨hf.state, hf.ready.unsubscribe (h.found found), hf.loads, hf.waiters⟩
  | closed w found =>
    exact ⟨h.state, h.ready.setQueue (h.found found) [], h.loads, h.waiters⟩
  | settled w found =>
    have hf := h.without (·.id != id)
    exact ⟨hf.state, hf.ready, hf.loads.unsubscribe (h.found found), hf.waiters⟩
  | unsettled w found =>
    exact ⟨h.state, h.ready, h.loads.setQueue (h.found found) [], h.waiters⟩

theorem dropWaiter (h : m.Heard states readies loads) (id : Nat) :
    (m.dropWaiter id).Heard states readies loads := by
  unfold Machine.dropWaiter
  cases hf : m.waiters.find? (·.id == id) with
  | none => exact h
  | some w =>
    have hu := h.unsubscribe (h.found hf) w.awaited.feed
    exact hu.without (·.id != id)

theorem leave (h : m.Heard states readies loads) (feed : Core.Feed) {id : Nat} (hid : 0 ≠ id) :
    (m.leave feed id).Heard states readies loads := by
  unfold Machine.leave
  split
  · exact h
  · exact h.unsubscribe hid feed

theorem quiet_step [Slot σ] (h : m.Heard states readies loads) {e : Event} (hq : e.isQuiet)
    (stays : ∀ feed, e ≠ .leave feed 0) : (m.step e).1.Heard states readies loads := by
  cases e with
  | start | pollRun | pollLoad | reset => cases hq
  | await awaited => exact (h.joined awaited).pollWaiter m.nextTask
  | pollWaiter id => exact h.pollWaiter id
  | dropWaiter id => exact h.dropWaiter id
  | follow feed => exact (h.subscribe feed).1
  | leave feed id =>
    apply h.leave feed
    intro hid
    -- Only the first follower itself could give up the first place.
    exact stays feed (by rw [hid])

theorem shown (h : m.Heard states readies loads) (items : List ItemDescriptor)
    (account : UserAccountInfo) :
    Heard { m with core := m.core.shown items account }
      (states ++ [m.core.state.value.withFirstScreen items account]) (readies ++ [true]) loads where
  state := h.state.publish _
  ready := h.ready.publish true
  loads := h.loads
  waiters := h.waiters

theorem settled_ok (h : m.Heard states readies loads) (place : Place) (locations : List Location) :
    Heard { m with core := m.core.settled place (.ok locations) }
      (states ++ [m.core.state.value.withPlaces place locations]) readies
      (loads ++ [m.core.loads.value.mark place .loaded]) where
  state := h.state.publish _
  ready := h.ready
  loads := h.loads.publish _
  waiters := h.waiters

theorem settled_error (h : m.Heard states readies loads) (place : Place) (e : Error) :
    Heard { m with core := m.core.settled place (.error e) } states readies
      (loads ++ [m.core.loads.value.mark place .failed]) where
  state := h.state
  ready := h.ready
  loads := h.loads.publish _
  waiters := h.waiters

theorem reset [Slot σ] (h : m.Heard states readies loads) :
    m.reset.2.Heard (states ++ [({} : GameState)]) (readies ++ [false]) (loads ++ [({} : Loads)]) where
  state := h.state.publish {}
  ready := h.ready.publish false
  loads := h.loads.publish {}
  waiters := h.waiters

end Heard
end Machine
end MiningClient.Session
