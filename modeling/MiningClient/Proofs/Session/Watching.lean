import MiningClient.Proofs.Session.Hearing
import MiningClient.Proofs.Session.Returning

namespace MiningClient.Session

namespace Awaited

/-- The values among which one is waited for. -/
def Value : Awaited → Type
  | ready => Bool
  | locations => Loads

instance : (awaited : Awaited) → DecidableEq awaited.Value
  | ready => inferInstanceAs (DecidableEq Bool)
  | locations => inferInstanceAs (DecidableEq Loads)

def cell : (awaited : Awaited) → Core → Observable awaited.Value
  | ready, c => c.ready
  | locations, c => c.loads

def withCell : (awaited : Awaited) → Core → Observable awaited.Value → Core
  | ready, c, o => { c with ready := o }
  | locations, c, o => { c with loads := o }

def wants : (awaited : Awaited) → awaited.Value → Bool
  | ready, v => v
  | locations, v => Loads.isSettled v

def ending : (awaited : Awaited) → awaited.Value → Ending
  | ready, _ => .ready
  | locations, v => .locations v

theorem cell_withCell (awaited : Awaited) (c : Core) (o : Observable awaited.Value) :
    awaited.cell (awaited.withCell c o) = o := by
  cases awaited <;> rfl

theorem cell_withCell_of_ne {awaited other : Awaited} (h : awaited ≠ other) (c : Core)
    (o : Observable other.Value) : awaited.cell (other.withCell c o) = awaited.cell c := by
  cases awaited <;> cases other <;> first | rfl | exact absurd rfl h

theorem cell_subscribe (awaited : Awaited) (c : Core) (feed : Core.Feed) :
    awaited.cell (c.subscribe feed).2 =
      if feed = awaited.feed then (awaited.cell c).subscribe.2 else awaited.cell c := by
  cases awaited <;> cases feed <;> rfl

theorem cell_unsubscribe (awaited : Awaited) (c : Core) (id : Nat) (feed : Core.Feed) :
    awaited.cell (c.unsubscribe id feed) =
      if feed = awaited.feed then (awaited.cell c).unsubscribe id else awaited.cell c := by
  cases awaited <;> cases feed <;> rfl

theorem subscribe_feed (awaited : Awaited) (c : Core) :
    (c.subscribe awaited.feed).1 = (awaited.cell c).nextId := by
  cases awaited <;> rfl

theorem feed_injective : Function.Injective feed := by
  intro awaited other h
  cases awaited <;> cases other <;> first | rfl | cases h

end Awaited

/-- The values that a moment publishes for those who wait. A reset publishes the value there is at
first, another step what it leaves in the cell if that is new. -/
def Moment.published {σ : Type} [Slot σ] (awaited : Awaited) (t : Moment σ) : List awaited.Value :=
  if t.isReset ∨ (awaited.cell t.next.core).value ≠ (awaited.cell t.machine.core).value then
    [(awaited.cell t.next.core).value]
  else []

namespace Machine
variable {σ : Type}

section Watchers

/-- What a poll of a waiting task comes to, whatever it waits for. -/
inductive Looks (m : Machine σ) (id : Nat) : Machine σ × List Effect → Prop
  | gone (none : m.waiters.find? (·.id == id) = none) : Looks m id (m, [])
  | returned (w : Waiter) (found : m.waiters.find? (·.id == id) = some w) (v : w.awaited.Value)
      (seen : ((w.awaited.cell m.core).queue w.subscription).find? w.awaited.wants = some v) :
    Looks m id
      ({ m with
          core := w.awaited.withCell m.core ((w.awaited.cell m.core).unsubscribe w.subscription)
          waiters := m.waiters.filter (·.id != id) }, [.finished id (w.awaited.ending v)])
  | stayed (w : Waiter) (found : m.waiters.find? (·.id == id) = some w)
      (unseen : ((w.awaited.cell m.core).queue w.subscription).find? w.awaited.wants = none) :
    Looks m id
      ({ m with
          core := w.awaited.withCell m.core
            ((w.awaited.cell m.core).setQueue w.subscription []) }, [])

theorem pollWaiter_looks (m : Machine σ) (id : Nat) : Looks m id (m.pollWaiter id) := by
  -- One machine step tells the two kinds of tasks apart. Here they become one.
  have hready : (fun ready : Bool => ready == true) = Awaited.ready.wants := by
    funext ready
    cases ready <;> rfl
  have hc := m.pollWaiter_cases id
  generalize m.pollWaiter id = r at hc
  cases hc with
  | gone none => exact .gone none
  | opened w found awaits seen =>
    obtain ⟨_, subscription, awaited⟩ := w
    obtain rfl : awaited = .ready := awaits
    exact .returned _ found true (hready ▸ seen)
  | closed w found awaits unseen =>
    obtain ⟨_, subscription, awaited⟩ := w
    obtain rfl : awaited = .ready := awaits
    exact .stayed _ found (hready ▸ unseen)
  | settled w found awaits loads seen =>
    obtain ⟨_, subscription, awaited⟩ := w
    obtain rfl : awaited = .locations := awaits
    exact .returned _ found loads seen
  | unsettled w found awaits unseen =>
    obtain ⟨_, subscription, awaited⟩ := w
    obtain rfl : awaited = .locations := awaits
    exact .stayed _ found unseen

theorem Looks.finished {m : Machine σ} {id other : Nat} {ending : Ending}
    {r : Machine σ × List Effect} (h : Looks m id r) (hx : .finished other ending ∈ r.2) :
    other = id := by
  cases h with
  | gone | stayed => cases hx
  | returned =>
    cases List.mem_singleton.mp hx
    rfl

/-- The task `id` waits, and has these values in hand. Nobody else has its place among the followers. -/
structure Attends (m : Machine σ) (id subscription : Nat) (awaited : Awaited)
    (kept : List awaited.Value) : Prop where
  found : m.waiters.find? (·.id == id) = some ⟨id, subscription, awaited⟩
  known : id < m.nextTask
  alone : ∀ w ∈ m.waiters, w.awaited = awaited → w.subscription = subscription → w.id = id
  follows : (awaited.cell m.core).Follows subscription kept

theorem find?_without (ws : List Waiter) {id other : Nat} (h : id ≠ other) :
    (ws.filter (·.id != other)).find? (·.id == id) = ws.find? (·.id == id) := by
  rw [List.find?_filter]
  congr 1
  funext w
  by_cases hw : w.id = id
  · simp [hw, h]
  · simp [hw]

namespace Attends
variable {m : Machine σ} {id subscription : Nat} {awaited : Awaited} {kept : List awaited.Value}

theorem member (h : m.Attends id subscription awaited kept) :
    ⟨id, subscription, awaited⟩ ∈ m.waiters :=
  List.mem_of_find?_eq_some h.found

theorem without (h : m.Attends id subscription awaited kept) {other : Nat} (hne : id ≠ other) :
    Attends { m with waiters := m.waiters.filter (·.id != other) } id subscription awaited kept where
  found := (find?_without m.waiters hne).trans h.found
  known := h.known
  alone w hw := h.alone w (List.mem_filter.mp hw).1
  follows := h.follows

theorem other (h : m.Attends id subscription awaited kept) {id' : Nat} {w : Waiter}
    (hf : m.waiters.find? (·.id == id') = some w) (hne : id ≠ id') (hw : w.awaited = awaited) :
    subscription ≠ w.subscription := by
  intro hsame
  have hid : w.id = id' := by simpa using List.find?_some hf
  exact hne ((h.alone w (List.mem_of_find?_eq_some hf) hw hsame.symm).symm.trans hid)

theorem withCell (h : m.Attends id subscription awaited kept) {other : Awaited}
    (f : (α : Type) → Observable α → Observable α)
    (hf : other = awaited → (f _ (awaited.cell m.core)).Follows subscription kept) :
    Attends { m with core := other.withCell m.core (f _ (other.cell m.core)) } id subscription
      awaited kept := by
  refine ⟨h.found, h.known, h.alone, ?_⟩
  -- Only the cell in which the task has its place could matter.
  by_cases hsame : other = awaited
  · subst hsame
    rw [Awaited.cell_withCell]
    exact hf rfl
  · rw [Awaited.cell_withCell_of_ne (Ne.symm hsame)]
    exact h.follows

theorem pollOther (h : m.Attends id subscription awaited kept) {other : Nat} (hne : id ≠ other) :
    (m.pollWaiter other).1.Attends id subscription awaited kept := by
  have hc := m.pollWaiter_looks other
  generalize m.pollWaiter other = r at hc
  cases hc with
  | gone => exact h
  | returned w found =>
    refine (h.without hne).withCell (fun _ o => o.unsubscribe w.subscription) fun hsame => ?_
    exact h.follows.unsubscribe (h.other found hne hsame)
  | stayed w found =>
    refine h.withCell (fun _ o => o.setQueue w.subscription []) fun hsame => ?_
    exact h.follows.setQueue (h.other found hne hsame) []

theorem unsubscribe (h : m.Attends id subscription awaited kept) {feed : Core.Feed} {other : Nat}
    (hne : feed = awaited.feed → subscription ≠ other) :
    Attends { m with core := m.core.unsubscribe other feed } id subscription awaited kept := by
  refine ⟨h.found, h.known, h.alone, ?_⟩
  rw [Awaited.cell_unsubscribe]
  split
  · exact h.follows.unsubscribe (hne ‹_›)
  · exact h.follows

theorem dropOther (h : m.Attends id subscription awaited kept) {other : Nat} (hne : id ≠ other) :
    (m.dropWaiter other).Attends id subscription awaited kept := by
  unfold Machine.dropWaiter
  cases hf : m.waiters.find? (·.id == other) with
  | none => exact h
  | some w =>
    have hu := h.unsubscribe fun hfeed => h.other hf hne (Awaited.feed_injective hfeed)
    exact hu.without hne

theorem leave (h : m.Attends id subscription awaited kept) (feed : Core.Feed) (other : Nat) :
    (m.leave feed other).Attends id subscription awaited kept := by
  unfold Machine.leave
  split
  · exact h
  · rename_i hwatched
    refine h.unsubscribe ?_
    rintro rfl rfl
    -- A place that a waiting task has cannot be given up in another way.
    refine hwatched (List.any_eq_true.mpr ⟨_, h.member, ?_⟩)
    simp

theorem subscribe (h : m.Attends id subscription awaited kept) (feed : Core.Feed) :
    Attends { m with core := (m.core.subscribe feed).2 } id subscription awaited kept := by
  refine ⟨h.found, h.known, h.alone, ?_⟩
  rw [Awaited.cell_subscribe]
  split
  · exact h.follows.subscribe
  · exact h.follows

theorem joined (h : m.Attends id subscription awaited kept) (other : Awaited) :
    (m.joined other).Attends id subscription awaited kept := by
  have hs := h.subscribe other.feed
  refine ⟨?_, Nat.lt_succ_of_lt h.known, ?_, hs.follows⟩
  · change List.find? _ (m.waiters ++ _) = _
    rw [List.find?_append, h.found]
    rfl
  · intro w hw hawaited hsubscription
    rcases List.mem_append.mp hw with hw | hw
    · exact h.alone w hw hawaited hsubscription
    · -- The newcomer has a number of its own.
      obtain rfl := List.mem_singleton.mp hw
      obtain rfl : other = awaited := hawaited
      have hnext : (other.cell m.core).nextId = subscription :=
        (other.subscribe_feed m.core).symm.trans hsubscription
      exact absurd h.follows.known (hnext ▸ Nat.lt_irrefl _)

theorem quiet_step [Slot σ] (h : m.Attends id subscription awaited kept) {e : Event}
    (hq : e.isQuiet) (hpoll : e ≠ .pollWaiter id) (hdrop : e ≠ .dropWaiter id) :
    (m.step e).1.Attends id subscription awaited kept := by
  cases e with
  | start | pollRun | pollLoad | reset => cases hq
  | await other => exact (h.joined other).pollOther (Nat.ne_of_lt h.known)
  | pollWaiter other => exact h.pollOther fun hid => hpoll (by rw [hid])
  | dropWaiter other => exact h.dropOther fun hid => hdrop (by rw [hid])
  | follow feed => exact h.subscribe feed
  | leave feed other => exact h.leave feed other

/-- What its own poll comes to. -/
inductive Polled (m : Machine σ) (id subscription : Nat) (awaited : Awaited)
    (kept : List awaited.Value) : Machine σ × List Effect → Prop
  | returned (v : awaited.Value) (first : kept.find? awaited.wants = some v) {m' : Machine σ}
    (gone : ∀ w ∈ m'.waiters, w.id ≠ id) :
    Polled m id subscription awaited kept (m', [.finished id (awaited.ending v)])
  | stayed (none : kept.find? awaited.wants = none) {m' : Machine σ}
    (attends : m'.Attends id subscription awaited []) :
    Polled m id subscription awaited kept (m', [])

theorem polled (h : m.Attends id subscription awaited kept) :
    Polled m id subscription awaited kept (m.pollWaiter id) := by
  have hc := m.pollWaiter_looks id
  have hqueue := h.follows.queue_eq
  generalize m.pollWaiter id = r at hc
  cases hc with
  | gone none =>
    rw [h.found] at none
    cases none
  | returned w found v seen =>
    -- The waiter that the poll finds is the one known from `h`.
    obtain rfl := Option.some.inj (h.found.symm.trans found)
    rw [hqueue] at seen
    refine .returned v seen fun w' hw' => ?_
    simpa using (List.mem_filter.mp hw').2
  | stayed w found unseen =>
    obtain rfl := Option.some.inj (h.found.symm.trans found)
    rw [hqueue] at unseen
    refine .stayed unseen ⟨h.found, h.known, h.alone, ?_⟩
    rw [Awaited.cell_withCell]
    exact h.follows.setQueue_self []

theorem effects_poll (h : m.Attends id subscription awaited kept) :
    (m.pollWaiter id).2 =
      ((kept.find? awaited.wants).map fun v => Effect.finished id (awaited.ending v)).toList := by
  have hpolled := h.polled
  generalize m.pollWaiter id = r at hpolled
  cases hpolled with
  | returned v first => rw [first]; rfl
  | stayed none => rw [none]; rfl

end Attends

end Watchers

/-- A step that leaves a cell as it is, or publishes a new value in it. -/
inductive Writes {α : Type} (o : Observable α) : Observable α → Prop
  | nothing : Writes o o
  | value (v : α) (new : v ≠ o.value) : Writes o (o.publish v)

theorem Advance.writes {m : Machine σ} {run : Run} (h : (m.withRun run).Sound)
    {i : Option ItemsReply} {a : Option AccountReply} {r : Machine σ × List Effect}
    (ha : Advance m run i a r) (awaited : Awaited) :
    Writes (awaited.cell m.core) (awaited.cell r.1.core) ∧ r.1.waiters = m.waiters := by
  cases ha with
  | waiting | discarded => exact ⟨.nothing, rfl⟩
  | failed e =>
    refine ⟨?_, rfl⟩
    -- A failure writes the phase, which is no cell.
    have hsame : awaited.cell (m.core.fail run.generation e) = awaited.cell m.core := by
      unfold Core.fail
      cases awaited <;> split <;> rfl
    exact hsame ▸ .nothing
  | opened items account _ now =>
    refine ⟨?_, rfl⟩
    cases awaited with
    | ready =>
      -- Until now the phase was that of an initialization.
      refine .value true fun hready => ?_
      have hphase : m.core.phase = .ready := h.coherent.ready.mp hready.symm
      rw [(h.alone now).1] at hphase
      cases hphase
    | locations => exact .nothing

theorem PollLoad.writes {m : Machine σ} (hs : m.Sound) {run : Nat} {place : Place}
    {reply : Option PlacesReply} {r : Machine σ × List Effect} (h : PollLoad m run place reply r)
    (awaited : Awaited) :
    Writes (awaited.cell m.core) (awaited.cell r.1.core) ∧ r.1.waiters = m.waiters := by
  cases h with
  | gone | waiting | dropped => exact ⟨.nothing, rfl⟩
  | settled l found result now =>
    refine ⟨?_, rfl⟩
    cases awaited with
    | ready => cases result <;> exact .nothing
    | locations =>
      -- The load that ends now was pending.
      obtain ⟨hl, -, rfl, -⟩ := hs.loadFound found
      have hpending := (hs.loads_pending l hl now.symm).2
      have hsettled : (m.core.settled l.place result).loads =
          m.core.loads.publish (m.core.loads.value.mark l.place (.ofReply result)) := by
        cases result <;> rfl
      change Writes m.core.loads (m.core.settled l.place result).loads
      rw [hsettled]
      refine .value _ fun hsame => ?_
      have hstatus := congrArg (·.status l.place) hsame
      simp only [Loads.status_mark_self, hpending] at hstatus
      cases result <;> cases hstatus

variable [Slot σ] {m : Machine σ}

theorem Sound.writes (hs : m.Sound) {e : Event} (hq : e.isQuiet = false) (he : e ≠ .reset)
    (awaited : Awaited) :
    Writes (awaited.cell m.core) (awaited.cell (m.step e).1.core) ∧
      (m.step e).1.waiters = m.waiters := by
  have hc := m.step_cases e
  generalize m.step e = r at hc
  cases hc with
  | quiet quiet =>
    rw [hq] at quiet
    cases quiet
  | answered | missed => exact ⟨.nothing, rfl⟩
  | begun i a free closed advance =>
    have hw := advance.writes (hs.begun free closed) awaited
    cases awaited <;> exact hw
  | polled i a run _ found advance => exact advance.writes (hs.resumed found) awaited
  | load run place reply load => exact load.writes hs awaited
  | reset => exact absurd rfl he

theorem published_still {e : Event} (he : e ≠ .reset) {awaited : Awaited}
    (h : (awaited.cell (m.step e).1.core).value = (awaited.cell m.core).value) :
    Moment.published awaited ⟨m, e⟩ = [] := by
  refine if_neg (not_or.mpr ⟨?_, not_not.mpr h⟩)
  rw [isReset_eq_false he]
  exact Bool.false_ne_true

theorem published_quiet {e : Event} (hq : e.isQuiet) (awaited : Awaited) :
    Moment.published awaited ⟨m, e⟩ = [] := by
  have still := (m.quiet_step hq).1
  refine published_still ?_ ?_
  · rintro rfl
    cases hq
  · cases awaited
    · exact still.ready
    · exact still.loaded

theorem Attends.step (hs : m.Sound) {id subscription : Nat} {awaited : Awaited}
    {kept : List awaited.Value} (h : m.Attends id subscription awaited kept) {e : Event}
    (hpoll : e ≠ .pollWaiter id) (hdrop : e ≠ .dropWaiter id) :
    (m.step e).1.Attends id subscription awaited (kept ++ Moment.published awaited ⟨m, e⟩) := by
  have hknown : id < (m.step e).1.nextTask :=
    Nat.lt_of_lt_of_le h.known (m.step_grown e).nextTask
  cases hq : e.isQuiet with
  | true =>
    rw [published_quiet hq, List.append_nil]
    exact h.quiet_step hq hpoll hdrop
  | false =>
    by_cases he : e = .reset
    · subst he
      refine ⟨h.found, hknown, h.alone, ?_⟩
      -- A reset publishes the value even if it is the same.
      have hpublished : Moment.published awaited ⟨m, .reset⟩ =
          [(awaited.cell (m.step .reset).1.core).value] := if_pos (.inl rfl)
      rw [hpublished]
      cases awaited <;> exact h.follows.publish _
    -- Any other step publishes a value that is new, or nothing.
    · obtain ⟨hwrites, hwaiters⟩ := hs.writes hq he awaited
      refine ⟨hwaiters ▸ h.found, hknown, hwaiters ▸ h.alone, ?_⟩
      generalize ho : awaited.cell (m.step e).1.core = o at hwrites
      cases hwrites with
      | nothing =>
        rw [published_still he (congrArg Observable.value ho), List.append_nil]
        exact h.follows
      | value v new =>
        have hpublished : Moment.published awaited ⟨m, e⟩ = [v] := by
          have hvalue : (awaited.cell (Moment.next ⟨m, e⟩).core).value = v :=
            congrArg Observable.value ho
          rw [Moment.published, hvalue]
          exact if_pos (.inr new)
        rw [hpublished]
        exact h.follows.publish v

end Machine
end MiningClient.Session
