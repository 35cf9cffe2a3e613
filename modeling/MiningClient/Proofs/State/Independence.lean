import MiningClient.Proofs.State.Moves

namespace MiningClient

namespace Observable
variable {α : Type}

/-- The observable as if the subscription had never been. -/
def without (o : Observable α) (id : Nat) : Observable α :=
  { o with subscriptions := o.subscriptions.filter (·.id != id) }

theorem filter_id_map {ss : List (Subscription α)} (f : Subscription α → Subscription α)
    (numbers : ∀ t, (f t).id = t.id) (id : Nat) :
    (ss.map f).filter (·.id != id) = (ss.filter (·.id != id)).map f := by
  rw [List.filter_map]
  congr 2
  funext t
  rw [Function.comp_apply, numbers]

section Without
variable {o : Observable α} {id other : Nat}

theorem without_without (o : Observable α) (id : Nat) : (o.without id).without id = o.without id := by
  simp only [without, List.filter_filter, Bool.and_self]

theorem without_of_comm {g : Observable α → Observable α}
    (h : ∀ o : Observable α, (g o).without id = g (o.without id)) (o : Observable α) :
    (g o).without id = (g (o.without id)).without id := by
  rw [h, h, without_without]

theorem without_publish (o : Observable α) (id : Nat) (a : α) :
    (o.publish a).without id = ((o.without id).publish a).without id := by
  refine without_of_comm (g := (·.publish a)) (fun o => ?_) o
  -- To prune the dropped and to take one away are filters, and these commute.
  have swapped : (o.subscriptions.filter (·.live)).filter (·.id != id) =
      (o.subscriptions.filter (·.id != id)).filter (·.live) := by
    rw [List.filter_filter, List.filter_filter]
    exact List.filter_congr fun t _ => Bool.and_comm _ _
  refine congrArg (fun ss => { o with value := a, subscriptions := ss }) ?_
  exact (filter_id_map (fun t => { t with queue := t.queue ++ [a] }) (fun _ => rfl) id).trans
    (congrArg _ swapped)

theorem without_subscribe (o : Observable α) (id : Nat) :
    o.subscribe.2.without id = (o.without id).subscribe.2.without id := by
  simp only [without, subscribe, List.filter_append, List.filter_filter, Bool.and_self]

theorem without_unsubscribe (o : Observable α) (id other : Nat) :
    (o.unsubscribe other).without id = ((o.without id).unsubscribe other).without id :=
  without_of_comm (g := (·.unsubscribe other)) (fun o => congrArg
    (fun ss => { o with subscriptions := ss }) (filter_id_map _ (fun t => by split <;> rfl) id)) o

theorem without_setQueue (o : Observable α) (id other : Nat) (q : List α) :
    (o.setQueue other q).without id = ((o.without id).setQueue other q).without id :=
  without_of_comm (g := (·.setQueue other q)) (fun o => congrArg
    (fun ss => { o with subscriptions := ss }) (filter_id_map _ (fun t => by split <;> rfl) id)) o

theorem filter_map_of_only {ss : List (Subscription α)} {f : Subscription α → Subscription α}
    (numbers : ∀ t, (f t).id = t.id) (only : ∀ t, t.id ≠ id → f t = t) :
    (ss.map f).filter (·.id != id) = ss.filter (·.id != id) := by
  rw [filter_id_map f numbers]
  refine (List.map_congr_left fun t ht => ?_).trans (List.map_id _)
  exact only t (by simpa using (List.mem_filter.1 ht).2)

theorem without_unsubscribe_self : (o.unsubscribe id).without id = o.without id :=
  congrArg (fun ss => { o with subscriptions := ss })
    (filter_map_of_only (fun t => by split <;> rfl) fun _ h => if_neg h)

theorem without_setQueue_self (q : List α) : (o.setQueue id q).without id = o.without id :=
  congrArg (fun ss => { o with subscriptions := ss })
    (filter_map_of_only (fun t => by split <;> rfl) fun _ h => if_neg h)

theorem queue_without (h : other ≠ id) : (o.without id).queue other = o.queue other := by
  have same : ((o.subscriptions.filter (·.id != id)).find? (·.id == other)) =
      o.subscriptions.find? (·.id == other) := by
    rw [List.find?_filter]
    congr 1
    funext t
    by_cases ht : t.id = other
    · simp [ht, h]
    · simp [ht]
  rw [queue, without, same, queue]

theorem isLive_without (h : other ≠ id) : (o.without id).isLive other = o.isLive other := by
  rw [isLive, without, List.any_filter, isLive]
  congr 1
  funext t
  by_cases ht : t.id = other
  · simp [ht, h]
  · simp [ht]

theorem isLive_without_self : (o.without id).isLive id = false := by
  rw [isLive, without, List.any_filter, List.any_eq_false]
  intro t _
  by_cases ht : t.id = id <;> simp [ht]

theorem tryReceive_without (h : other ≠ id) :
    ((o.without id).tryReceive other).1 = (o.tryReceive other).1 := by
  rw [tryReceive, tryReceive, queue_without h]
  cases o.queue other <;> rfl

theorem without_tryReceive (h : other ≠ id) :
    (o.tryReceive other).2.without id = ((o.without id).tryReceive other).2.without id := by
  rw [tryReceive, tryReceive, queue_without h]
  cases o.queue other with
  | nil => exact (o.without_without id).symm
  | cons v rest => exact o.without_setQueue id other rest

theorem without_tryReceive_self : (o.tryReceive id).2.without id = o.without id := by
  rw [tryReceive]
  cases o.queue id with
  | nil => rfl
  | cons v rest => exact without_setQueue_self rest

theorem receive_eq (o : Observable α) (id : Nat) :
    o.receive id =
      ((o.tryReceive id).1.elim (if o.handles = 0 then .closed else .pending) .value,
        (o.tryReceive id).2) := by
  rw [receive, tryReceive]
  cases o.queue id <;> rfl

end Without
end Observable

namespace Shared
variable {α : Type}

def without (s : Shared α) (id : Nat) : Shared α := { s with cell := s.cell.without id }

section Apart
variable {s s' : Shared α} {id other : Nat}

theorem without_eq (cell : s.cell.without id = s'.cell.without id) (handles : s.handles = s'.handles)
    (next : s.nextHandle = s'.nextHandle) : s.without id = s'.without id := by
  rw [without, without, cell, handles, next]

theorem without_without (s : Shared α) (id : Nat) : (s.without id).without id = s.without id :=
  without_eq (s.cell.without_without id) rfl rfl

theorem without_onHandle (s : Shared α) (id n : Nat) (use : HandleUse α) :
    (s.onHandle n use).2.without id = ((s.without id).onHandle n use).2.without id := by
  cases use with
  | get | count => exact (s.without_without id).symm
  | set a => exact without_eq (s.cell.without_publish id a) rfl rfl
  | update f => exact without_eq (s.cell.without_publish id (f s.cell.value)) rfl rfl
  | updateIf f =>
    -- The function looks at the value alone, and that has no subscriptions.
    have value : (s.without id).cell.value = s.cell.value := rfl
    simp only [onHandle, Observable.updateIf, value]
    cases f s.cell.value with
    | none => exact (s.without_without id).symm
    | some v => exact without_eq (s.cell.without_publish id v) rfl rfl
  | subscribe => exact without_eq (s.cell.without_subscribe id) rfl rfl
  | clone | close => exact without_eq (Observable.without_of_comm (fun _ => rfl) s.cell) rfl rfl

theorem without_onSubscription_self (s : Shared α) (id : Nat) (use : SubscriptionUse) :
    (s.onSubscription id use).2.without id = s.without id := by
  cases use with
  | unsubscribe => exact without_eq Observable.without_unsubscribe_self rfl rfl
  | tryReceive => exact without_eq Observable.without_tryReceive_self rfl rfl
  | receive | next =>
    rw [onSubscription, Observable.receive_eq]
    exact without_eq Observable.without_tryReceive_self rfl rfl

theorem without_onSubscription (s : Shared α) (h : other ≠ id) (use : SubscriptionUse) :
    (s.onSubscription other use).2.without id =
      ((s.without id).onSubscription other use).2.without id := by
  cases use with
  | unsubscribe => exact without_eq (s.cell.without_unsubscribe id other) rfl rfl
  | tryReceive => exact without_eq (Observable.without_tryReceive h) rfl rfl
  | receive | next =>
    -- To receive changes what to try changes. They differ in the output only.
    rw [onSubscription, onSubscription, Observable.receive_eq, Observable.receive_eq]
    exact without_eq (Observable.without_tryReceive h) rfl rfl

theorem onSubscription_without (s : Shared α) (h : other ≠ id) (use : SubscriptionUse) :
    ((s.without id).onSubscription other use).1 = (s.onSubscription other use).1 := by
  have tried : ((s.without id).cell.tryReceive other).1 = (s.cell.tryReceive other).1 :=
    Observable.tryReceive_without h
  cases use with
  | unsubscribe => rfl
  | tryReceive => exact congrArg Output.tried tried
  | receive | next =>
    rw [onSubscription, onSubscription, Observable.receive_eq, Observable.receive_eq, tried]
    rfl

theorem without_step (s : Shared α) (id : Nat) (a : Action α) :
    (s.step a).2.without id = ((s.without id).step a).2.without id := by
  have still := (s.without_without id).symm
  cases a with
  | handle n use =>
    by_cases there : n ∈ s.handles
    · have there' : n ∈ (s.without id).handles := there
      rw [step, step, if_pos there, if_pos there']
      exact s.without_onHandle id n use
    · have there' : n ∉ (s.without id).handles := there
      rw [step, step, if_neg there, if_neg there']
      exact still
  | subscription other use =>
    by_cases same : other = id
    · subst same
      -- A subscription that never was is not live, so nothing happens there.
      have gone : (s.without other).cell.isLive other = false := Observable.isLive_without_self
      rw [step, step, gone]
      split
      · exact (s.without_onSubscription_self other use).trans still
      · exact still
    · have live : (s.without id).cell.isLive other = s.cell.isLive other :=
        Observable.isLive_without same
      rw [step, step, live]
      split
      · exact s.without_onSubscription same use
      · exact still

theorem step_without (s : Shared α) (h : other ≠ id) (use : SubscriptionUse) :
    ((s.without id).step (.subscription other use)).1 = (s.step (.subscription other use)).1 := by
  have live : (s.without id).cell.isLive other = s.cell.isLive other := Observable.isLive_without h
  rw [step, step, live]
  split
  · exact s.onSubscription_without h use
  · rfl

theorem without_drop (s : Shared α) (id : Nat) :
    (s.step (.subscription id .unsubscribe)).2.without id = s.without id := by
  rw [step]
  split
  · exact s.without_onSubscription_self id .unsubscribe
  · rfl

/-- What the entry gives to the subscription, and how it was asked for. -/
def given? (id : Nat) : Entry α → Option (SubscriptionUse × Output α)
  | (.subscription other use, out) => if other = id then some (use, out) else none
  | (.handle _ _, _) => none

def given (id : Nat) (log : List (Entry α)) : List (SubscriptionUse × Output α) :=
  log.filterMap (given? id)

theorem given_cons (id : Nat) (e : Entry α) (log : List (Entry α)) :
    given id (e :: log) = (given? id e).toList ++ given id log := by
  rw [given, List.filterMap_cons]
  cases given? id e <;> rfl

theorem given_append (id : Nat) (log later : List (Entry α)) :
    given id (log ++ later) = given id log ++ given id later := List.filterMap_append

theorem given?_step (ne : other ≠ id) (h : s.without id = s'.without id) (a : Action α) :
    given? other (a, (s.step a).1) = given? other (a, (s'.step a).1) := by
  cases a with
  | handle n use => rfl
  | subscription k use =>
    simp only [given?]
    split
    · rename_i mine
      rw [← s.step_without (mine ▸ ne), h, s'.step_without (mine ▸ ne)]
    · rfl

/-- Where two differ in one subscription, the same is given to each other one. -/
theorem given_run (ne : other ≠ id) (actions : List (Action α)) (h : s.without id = s'.without id) :
    given other (s.run actions).1 = given other (s'.run actions).1 ∧
      (s.run actions).2.without id = (s'.run actions).2.without id := by
  induction actions generalizing s s' with
  | nil => exact ⟨rfl, h⟩
  | cons a actions ih =>
    -- The two differ after the step as before it, but in no more than the one subscription.
    have next : (s.step a).2.without id = (s'.step a).2.without id := by
      rw [without_step, h, ← without_step]
    obtain ⟨same, last⟩ := ih next
    refine ⟨?_, last⟩
    rw [run, run, given_cons, given_cons, given?_step ne h]
    exact congrArg _ same

end Apart

end Shared
end MiningClient
