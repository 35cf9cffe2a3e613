import MiningClient.Proofs.Session.Waiting

namespace MiningClient.Session.Machine
variable {σ : Type}

/-- The task waits for the loads, and has them in hand if they are settled. -/
def Watches (m : Machine σ) (id : Nat) : Prop :=
  ∃ (subscription : Nat) (kept : List Loads), m.Attends id subscription .locations kept ∧
    kept.find? Loads.isSettled =
      if m.core.loads.value.isSettled then some m.core.loads.value else none

variable {m : Machine σ} {id : Nat}

theorem Watches.withLoadStarted (h : m.Watches id) (run : Nat) (place : Place) :
    (m.withLoadStarted run place).Watches id := by
  obtain ⟨subscription, kept, attends, inHand⟩ := h
  exact ⟨subscription, kept, ⟨attends.found, attends.known, attends.alone, attends.follows⟩, inHand⟩

theorem loads_settled (c : Core) (place : Place) (reply : PlacesReply) :
    (c.settled place reply).loads = c.loads.publish (c.loads.value.mark place (.ofReply reply)) := by
  cases reply <;> rfl

theorem Watches.settled (h : m.Watches id) (run : Nat) {place : Place}
    (pending : m.core.loads.value.status place = .pending) (reply : PlacesReply) :
    Watches { m.withoutLoad run place with core := m.core.settled place reply } id := by
  obtain ⟨subscription, kept, attends, inHand⟩ := h
  let loads := m.core.loads.value.mark place (.ofReply reply)
  have follows : (m.core.settled place reply).loads.Follows subscription (kept ++ [loads]) := by
    rw [loads_settled]
    exact attends.follows.publish loads
  have unsettled : m.core.loads.value.isSettled = false := by
    cases place with
    | mine =>
      have pending : m.core.loads.value.mine = .pending := pending
      simp [Loads.isSettled, LoadStatus.isSettled, pending]
    | gamble =>
      have pending : m.core.loads.value.gamble = .pending := pending
      simp [Loads.isSettled, LoadStatus.isSettled, pending]
  refine ⟨subscription, kept ++ [loads], ⟨attends.found, attends.known, attends.alone, follows⟩, ?_⟩
  have value : (m.core.settled place reply).loads.value = loads := by
    rw [loads_settled]
    rfl
  -- The unsettled value was in hand before, so the value looked for can only be the new one.
  rw [unsettled] at inHand
  rw [List.find?_append, inHand, value]
  cases settled : loads.isSettled with
  | true => exact List.find?_cons_of_pos settled
  | false => exact List.find?_cons_of_neg (Bool.eq_false_iff.1 settled)

theorem Watches.poll (h : m.Watches id) :
    (m.core.loads.value.isSettled = true →
      (m.pollWaiter id).2 = [.finished id (.locations m.core.loads.value)]) ∧
    (m.core.loads.value.isSettled = false →
      (m.pollWaiter id).2 = [] ∧ (m.pollWaiter id).1.Watches id) := by
  obtain ⟨subscription, kept, attends, inHand⟩ := h
  have still := (m.pollWaiter_still id).1
  have polled := attends.polled
  generalize m.pollWaiter id = r at polled still
  cases polled with
  | returned v first =>
    -- The value in hand is the one in the cell, or there is none.
    have first : kept.find? Loads.isSettled = some v := first
    rw [inHand] at first
    cases settled : m.core.loads.value.isSettled with
    | true =>
      rw [settled] at first
      cases first
      exact ⟨fun _ => rfl, nofun⟩
    | false =>
      rw [settled] at first
      cases first
  | stayed none attends =>
    have none : kept.find? Loads.isSettled = .none := none
    rw [inHand] at none
    cases settled : m.core.loads.value.isSettled with
    | true =>
      rw [settled] at none
      cases none
    | false =>
      refine ⟨nofun, fun _ => ⟨rfl, subscription, [], attends, ?_⟩⟩
      rw [still.loaded, settled]
      rfl

theorem Numbered.await_watches (h : m.Numbered) (unsettled : m.core.loads.value.isSettled = false) :
    (m.await .locations).2 = [] ∧ (m.await .locations).1.Watches m.nextTask := by
  have joined : (m.joined .locations).Watches m.nextTask := by
    refine ⟨_, _, h.attends .locations, ?_⟩
    have same : (m.joined .locations).core.loads.value = m.core.loads.value :=
      (m.joined_still .locations).loaded
    rw [same, unsettled]
    exact List.find?_cons_of_neg (Bool.eq_false_iff.1 unsettled)
  exact joined.poll.2 unsettled

end MiningClient.Session.Machine
