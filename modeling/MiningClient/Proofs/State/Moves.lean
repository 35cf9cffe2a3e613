import MiningClient.Proofs.State.Following
import MiningClient.State.Shared

namespace MiningClient

section Live
variable {α : Type} {o : Observable α} {id : Nat}

theorem Observable.Follows.isLive {kept : List α} (h : o.Follows id kept) : o.isLive id = true := by
  rw [Observable.isLive, List.any_eq_true]
  exact ⟨_, List.mem_of_find?_eq_some h.found, by simp⟩

theorem Observable.exists_of_isLive (h : o.isLive id = true) :
    ∃ s ∈ o.subscriptions, s.id = id ∧ s.live = true := by
  rw [Observable.isLive, List.any_eq_true] at h
  obtain ⟨s, hs, h⟩ := h
  rw [Bool.and_eq_true, beq_iff_eq] at h
  exact ⟨s, hs, h⟩

theorem Observable.Known.isLive (h : o.Known) (new : o.nextId ≤ id) : o.isLive id = false := by
  rw [← Bool.not_eq_true]
  intro live
  obtain ⟨s, hs, rfl, -⟩ := exists_of_isLive live
  exact absurd (h s hs) (Nat.not_lt_of_le new)

theorem Observable.ne_of_isLive {id' : Nat} (live : o.isLive id' = true) (dead : o.isLive id = false) :
    id' ≠ id := by
  rintro rfl
  rw [live] at dead
  cases dead

end Live

namespace Shared
variable {α : Type}

abbrev cloning (m n : Nat) : Entry α := (.handle m .clone, .opened n)
abbrev closing (n : Nat) : Entry α := (.handle n .close, .done)
abbrev subscribing (n id : Nat) : Entry α := (.handle n .subscribe, .subscribed id)
abbrev dropping (id : Nat) : Entry α := (.subscription id .unsubscribe, .done)

/-- The value that an entry publishes, when `last` is what was published before. -/
def published? (last : α) : Entry α → Option α
  | (.handle _ (.set a), .done) => some a
  | (.handle _ (.update f), .done) => some (f last)
  | (.handle _ (.updateIf f), .published true) => f last
  | _ => none

def Output.given? : Output α → Option α
  | .tried a => a
  | .received (.value a) => some a
  | _ => none

/-- The value that an entry gives to the subscription. -/
def received? (id : Nat) : Entry α → Option α
  | (.subscription id' _, out) => if id' = id then out.given? else none
  | (.handle _ _, _) => none

/-- An output of what changes nothing. -/
def Output.IsSilent : Output α → Prop
  | .refused | .value _ | .published false | .counted _ | .tried none => True
  | .received .pending | .received .closed => True
  | _ => False

/-- All that an action can do. -/
inductive Move (s : Shared α) : Action α → Output α → Shared α → Prop
  | silent (a : Action α) (out : Output α) (silent : out.IsSilent) : Move s a out s
  | published (n : Nat) (use : HandleUse α) (out : Output α) (v : α)
    (publishes : published? s.cell.value (.handle n use, out) = some v) :
    Move s (.handle n use) out { s with cell := s.cell.publish v }
  | subscribed (n : Nat) :
    Move s (.handle n .subscribe) (.subscribed s.cell.nextId) { s with cell := s.cell.subscribe.2 }
  | cloned (n : Nat) :
    Move s (.handle n .clone) (.opened s.nextHandle)
      { cell := s.cell.addHandle
        handles := s.handles ++ [s.nextHandle]
        nextHandle := s.nextHandle + 1 }
  | closed (n : Nat) (there : n ∈ s.handles) :
    Move s (.handle n .close) .done
      { s with cell := s.cell.dropHandle, handles := s.handles.erase n }
  | received (id : Nat) (use : SubscriptionUse) (out : Output α) (v : α) (rest : List α)
    (live : s.cell.isLive id = true) (gives : out.given? = some v)
    (queued : s.cell.queue id = v :: rest) :
    Move s (.subscription id use) out { s with cell := s.cell.setQueue id rest }
  | dropped (id : Nat) (live : s.cell.isLive id = true) :
    Move s (.subscription id .unsubscribe) .done { s with cell := s.cell.unsubscribe id }

theorem onHandle_moves (s : Shared α) {n : Nat} (there : n ∈ s.handles) (use : HandleUse α) :
    Move s (.handle n use) (s.onHandle n use).1 (s.onHandle n use).2 := by
  cases use with
  | get => exact .silent _ _ trivial
  | set a => exact .published n _ _ a rfl
  | update f => exact .published n _ _ (f s.cell.value) rfl
  | updateIf f =>
    rw [onHandle, Observable.updateIf]
    cases hf : f s.cell.value with
    | none => exact .silent _ _ trivial
    | some v => exact .published n _ _ v hf
  | subscribe => exact .subscribed n
  | count => exact .silent _ _ trivial
  | clone => exact .cloned n
  | close => exact .closed n there

theorem receive_cons {o : Observable α} {id : Nat} {v : α} {rest : List α}
    (h : o.queue id = v :: rest) : o.receive id = (.value v, o.setQueue id rest) := by
  rw [Observable.receive, Observable.tryReceive, h]

theorem receive_nil {o : Observable α} {id : Nat} (h : o.queue id = []) :
    o.receive id = (if o.handles = 0 then .closed else .pending, o) := by
  rw [Observable.receive, Observable.tryReceive, h]

theorem onSubscription_moves (s : Shared α) {id : Nat} (live : s.cell.isLive id = true)
    (use : SubscriptionUse) :
    Move s (.subscription id use) (s.onSubscription id use).1 (s.onSubscription id use).2 := by
  -- `receive` and `next` are one thing here.
  have receives (use : SubscriptionUse) : Move s (.subscription id use)
      (.received (s.cell.receive id).1) { s with cell := (s.cell.receive id).2 } := by
    cases hq : s.cell.queue id with
    | nil =>
      rw [receive_nil hq]
      split <;> exact .silent _ _ trivial
    | cons v rest =>
      rw [receive_cons hq]
      exact .received id _ _ v rest live rfl hq
  cases use with
  | tryReceive =>
    rw [onSubscription, Observable.tryReceive]
    cases hq : s.cell.queue id with
    | nil => exact .silent _ _ trivial
    | cons v rest => exact .received id _ _ v rest live rfl hq
  | receive => exact receives .receive
  | next => exact receives .next
  | unsubscribe => exact .dropped id live

theorem step_moves (s : Shared α) (a : Action α) : Move s a (s.step a).1 (s.step a).2 := by
  cases a with
  | handle n use =>
    rw [step]
    by_cases there : n ∈ s.handles
    · rw [if_pos there]
      exact s.onHandle_moves there use
    · rw [if_neg there]
      -- What is not there cannot be used.
      exact .silent _ _ trivial
  | subscription id use =>
    rw [step]
    by_cases live : s.cell.isLive id = true
    · rw [if_pos live]
      exact s.onSubscription_moves live use
    · rw [if_neg live]
      exact .silent _ _ trivial

section Entries
variable {a : Action α} {out : Output α} {last v : α} {id n : Nat}

theorem published?_of_silent (h : out.IsSilent) : published? last (a, out) = none := by
  unfold published?
  split
  case h_4 => rfl
  all_goals
    rename_i heq
    cases heq
    cases h

theorem given?_of_silent (h : out.IsSilent) : out.given? = none := by
  unfold Output.given?
  split
  · rename_i a
    cases a with
    | none => rfl
    | some a => cases h
  · cases h
  · rfl

theorem received?_of_silent (h : out.IsSilent) : received? id (a, out) = none := by
  unfold received?
  split
  · rename_i heq
    cases heq
    split
    · exact given?_of_silent h
    · rfl
  · rfl

theorem ne_of_published? {use : HandleUse α} (h : published? last (.handle n use, out) = some v) :
    (∀ m n', (.handle n use, out) ≠ cloning m n') ∧ (∀ n', (.handle n use, out) ≠ closing n') ∧
      ∀ m id, (.handle n use, out) ≠ subscribing m id := by
  refine ⟨?_, ?_, ?_⟩ <;> intros <;> rintro he <;> cases he <;> cases h

end Entries
end Shared
end MiningClient
