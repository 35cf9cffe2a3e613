import MiningClient.Session.Trace

namespace MiningClient.Session

section Poll
variable {α : Type}

theorem error_of_held (held : Option α) (reply : Option (Except Error α)) (e : Error) :
    (if held.isSome then none else errorOf? reply) = some e ↔
      (held.map Except.ok).or reply = some (.error e) := by
  rcases held with _ | a
  · rcases reply with _ | (d | a) <;> simp [errorOf?]
  · simp

theorem value_of_held (held : Option α) (reply : Option (Except Error α))
    (h : (if held.isSome then none else errorOf? reply) = none) :
    (held.or (valueOf? reply)).map Except.ok = (held.map Except.ok).or reply := by
  rcases held with _ | a
  · rcases reply with _ | (d | a)
    · rfl
    · simp [errorOf?] at h
    · rfl
  · rfl

end Poll

namespace Run

/-- The answers that a run has, as the replies they came with. -/
def heldItems (run : Run) : Option ItemsReply := run.items.map .ok

def heldAccount (run : Run) : Option AccountReply := run.account.map .ok

variable {run run' : Run} {i : Option ItemsReply} {a : Option AccountReply}

theorem poll_failed {e : Error} (h : run.poll i a = .failed e) :
    run.heldItems.or i = some (.error e) ∨ run.heldAccount.or a = some (.error e) := by
  unfold poll at h
  simp only at h
  split at h
  · rename_i d hd
    cases h
    rw [heldItems, heldAccount, ← error_of_held, ← error_of_held]
    -- Which of the two sides is looked at first changes nothing about whose error it is.
    split at hd
    · exact (Option.or_eq_some_iff.mp hd).elim .inr fun h => .inl h.2
    · exact (Option.or_eq_some_iff.mp hd).elim .inl fun h => .inr h.2
  · split at h <;> cases h

theorem poll_taken (h : ∀ e, run.poll i a ≠ .failed e) :
    (run.items.or (valueOf? i)).map .ok = run.heldItems.or i ∧
      (run.account.or (valueOf? a)).map .ok = run.heldAccount.or a := by
  -- No side has an error that the poll could have failed with.
  have he : (if run.items.isSome then none else errorOf? i) = none ∧
      (if run.account.isSome then none else errorOf? a) = none := by
    unfold poll at h
    simp only at h
    split at h
    · rename_i d _
      exact absurd rfl (h d)
    · rename_i hd
      split at hd
      · exact (Option.or_eq_none_iff.mp hd).symm
      · exact Option.or_eq_none_iff.mp hd
  exact ⟨value_of_held _ _ he.1, value_of_held _ _ he.2⟩

theorem poll_complete {items : List ItemDescriptor} {account : UserAccountInfo}
    (h : run.poll i a = .complete items account) :
    run.heldItems.or i = some (.ok items) ∧ run.heldAccount.or a = some (.ok account) := by
  -- A complete poll is none that failed, so what it has is what was held or came.
  have ht := poll_taken fun e he => Progress.noConfusion (h.symm.trans he)
  unfold poll at h
  simp only at h
  split at h
  · cases h
  · split at h
    · rename_i hi ha
      cases h
      rw [hi, ha] at ht
      exact ⟨ht.1.symm, ht.2.symm⟩
    · cases h

/-- A run that waits keeps what it has taken, and something is missing. -/
structure Goes (run run' : Run) (i : Option ItemsReply) (a : Option AccountReply) : Prop where
  id : run'.id = run.id
  generation : run'.generation = run.generation
  items : run'.heldItems = run.heldItems.or i
  account : run'.heldAccount = run.heldAccount.or a
  missing : run'.items = none ∨ run'.account = none

theorem poll_waiting (h : run.poll i a = .waiting run') : Goes run run' i a := by
  have ht := poll_taken fun e he => Progress.noConfusion (h.symm.trans he)
  unfold poll at h
  simp only at h
  split at h
  · cases h
  · split at h
    · cases h
    · rename_i hno
      cases h
      refine ⟨rfl, rfl, ht.1, ht.2, ?_⟩
      -- With both answers the run would be complete.
      rcases hi : run.items.or (valueOf? i) with _ | items
      · exact .inl rfl
      · rcases ha : run.account.or (valueOf? a) with _ | account
        · exact .inr rfl
        · exact (hno items account hi ha).elim

end Run

namespace Core

theorem mayBegin_iff (c : Core) :
    c.mayBegin = true ↔ c.phase ≠ .initializing ∧ c.phase ≠ .ready := by
  unfold mayBegin tryBegin
  cases c.phase <;> simp [Except.toBool]

def shown (c : Core) (items : List ItemDescriptor) (account : UserAccountInfo) : Core :=
  { c with
    phase := .ready
    state := c.state.update (·.withFirstScreen items account)
    ready := c.ready.publish true }

def settled (c : Core) (place : Place) : PlacesReply → Core
  | .ok locations =>
    { c with
      state := c.state.update (·.withPlaces place locations)
      loads := c.loads.update (·.mark place .loaded) }
  | .error _ => { c with loads := c.loads.update (·.mark place .failed) }

theorem publish?_eq (c : Core) (g : Nat) (items : List ItemDescriptor) (account : UserAccountInfo) :
    c.publish? g items account = if c.generation = g then some (c.shown items account) else none :=
  rfl

theorem settle?_eq (c : Core) (g : Nat) (place : Place) (result : PlacesReply) :
    c.settle? g place result = if c.generation = g then some (c.settled place result) else none := by
  unfold settle?
  cases result <;> rfl

end Core

namespace Machine
variable {σ : Type}

def withRun (m : Machine σ) (run : Run) : Machine σ := { m with runs := m.runs ++ [run] }

/-- The loads of a run that has published the first screen. -/
def loadsOf (run : Run) : List Load :=
  [{ run := run.id, place := .mine, generation := run.generation },
   { run := run.id, place := .gamble, generation := run.generation }]

def opened (m : Machine σ) (run : Run) (items : List ItemDescriptor) (account : UserAccountInfo) :
    Machine σ :=
  { m with core := m.core.shown items account, loads := m.loads ++ loadsOf run }

/-- What a step of a run comes to. -/
inductive Advance (m : Machine σ) (run : Run) (i : Option ItemsReply) (a : Option AccountReply) :
    Machine σ × List Effect → Prop
  | waiting (run' : Run) (goes : run.Goes run' i a) : Advance m run i a (m.withRun run', [])
  | failed (e : Error) (poll : run.poll i a = .failed e) :
    Advance m run i a ({ m with core := m.core.fail run.generation e },
      [.noticed (.reported ⟨Report.startup, e⟩), .finished run.id (.run (.error e))])
  | discarded (items : List ItemDescriptor) (account : UserAccountInfo)
      (poll : run.poll i a = .complete items account) (past : m.core.generation ≠ run.generation) :
    Advance m run i a (m, [.finished run.id (.run (.ok .discarded))])
  | opened (items : List ItemDescriptor) (account : UserAccountInfo)
      (poll : run.poll i a = .complete items account) (now : m.core.generation = run.generation) :
    Advance m run i a (m.opened run items account,
      (GameState.repeatedIds items).map (fun id => .noticed (.repeatedItem id)) ++
        [.finished run.id (.run (.ok .initialized))])

theorem advance_cases (m : Machine σ) (run : Run) (i : Option ItemsReply)
    (a : Option AccountReply) : Advance m run i a (m.advance run i a) := by
  unfold advance
  cases hp : run.poll i a with
  | waiting run' => exact .waiting run' (Run.poll_waiting hp)
  | failed e => exact .failed e hp
  | complete items account =>
    simp only [Core.publish?_eq]
    by_cases hg : m.core.generation = run.generation
    · rw [if_pos hg]
      exact .opened items account hp hg
    · rw [if_neg hg]
      exact .discarded items account hp hg

theorem Advance.credentials {m : Machine σ} {run : Run} {i : Option ItemsReply}
    {a : Option AccountReply} {r : Machine σ × List Effect} (h : Advance m run i a r) :
    r.1.credentials = m.credentials := by
  cases h <;> rfl

/-- The run that a call for initialization begins. -/
def newRun (m : Machine σ) : Run := { id := m.nextTask, generation := m.core.generation }

/-- The machine that a call for initialization has begun a run in, which is not among its runs. -/
def begun (m : Machine σ) : Machine σ :=
  { m with core := { m.core with phase := .initializing }, nextTask := m.nextTask + 1 }

def withoutRun (m : Machine σ) (id : Nat) : Machine σ :=
  { m with runs := m.runs.filter (·.id != id) }

theorem mem_withoutRun {m : Machine σ} {id : Nat} {run : Run} :
    run ∈ (m.withoutRun id).runs ↔ run ∈ m.runs ∧ run.id ≠ id := by
  simp only [withoutRun, List.mem_filter, bne_iff_ne]

/-- The account reply that a call takes: none when it does not ask for the account. -/
def askedAccount (i : Option ItemsReply) (a : Option AccountReply) : Option AccountReply :=
  if (errorOf? i).isNone then a else none

def askedFetches (i : Option ItemsReply) : List Effect :=
  .fetched .items :: if (errorOf? i).isNone then [.fetched .account] else []

theorem fetched_of_asked {i : Option ItemsReply} {x : Effect} (h : x ∈ askedFetches i) :
    x = .fetched .items ∨ x = .fetched .account := by
  rcases List.mem_cons.mp h with rfl | h
  · exact .inl rfl
  · split at h
    · exact .inr (List.mem_singleton.mp h)
    · cases h

theorem start_initializing {m : Machine σ} (h : m.core.phase = .initializing)
    (i : Option ItemsReply) (a : Option AccountReply) :
    m.start i a = ({ m with nextTask := m.nextTask + 1 },
      [.finished m.nextTask (.run (.ok .alreadyInProgress))]) := by
  simp only [start, Core.tryBegin, h]

theorem start_ready {m : Machine σ} (h : m.core.phase = .ready)
    (i : Option ItemsReply) (a : Option AccountReply) :
    m.start i a = ({ m with nextTask := m.nextTask + 1 },
      [.finished m.nextTask (.run (.ok .alreadyReady))]) := by
  simp only [start, Core.tryBegin, h]

theorem start_begins {m : Machine σ} (hi : m.core.phase ≠ .initializing)
    (hr : m.core.phase ≠ .ready) (i : Option ItemsReply) (a : Option AccountReply) :
    m.start i a = ((m.begun.advance m.newRun i (askedAccount i a)).1,
      askedFetches i ++ (m.begun.advance m.newRun i (askedAccount i a)).2) := by
  -- A phase that is neither of the two lets the call begin, whether or not another has failed before.
  have hb : m.core.tryBegin = .ok { m.core with phase := .initializing } := by
    unfold Core.tryBegin
    split
    · contradiction
    · contradiction
    · rfl
  simp only [start, hb]
  rfl

theorem pollRun_of_none {m : Machine σ} {id : Nat} (h : m.runs.find? (·.id == id) = none)
    (i : Option ItemsReply) (a : Option AccountReply) : m.pollRun id i a = (m, []) := by
  simp only [pollRun, h]

theorem pollRun_of_some {m : Machine σ} {id : Nat} {run : Run}
    (h : m.runs.find? (·.id == id) = some run) (i : Option ItemsReply) (a : Option AccountReply) :
    m.pollRun id i a = (m.withoutRun id).advance run i a := by
  simp only [pollRun, h, withoutRun]

def withoutLoad (m : Machine σ) (run : Nat) (place : Place) : Machine σ :=
  { m with loads := m.loads.filter fun l => !isLoad run place l }

def withLoadStarted (m : Machine σ) (run : Nat) (place : Place) : Machine σ :=
  { m with loads := m.loads.map fun l => if isLoad run place l then { l with started := true } else l }

theorem isLoad_iff {run : Nat} {place : Place} {l : Load} :
    isLoad run place l = true ↔ l.run = run ∧ l.place = place := by
  simp [isLoad]

section Others
variable {run : Nat} {place : Place} {ls : List Load}

theorem filter_others (h : ∀ l ∈ ls, isLoad run place l = false) :
    (ls.filter fun l => !isLoad run place l) = ls := by
  apply List.filter_eq_self.mpr
  intro l hl
  rw [h l hl]
  rfl

theorem map_others (h : ∀ l ∈ ls, isLoad run place l = false) :
    (ls.map fun l => if isLoad run place l then { l with started := true } else l) = ls := by
  refine (List.map_congr_left ?_).trans (List.map_id ls)
  intro l hl
  rw [h l hl]
  rfl

end Others

/-- The fetch that a load begins when it goes on for the first time. -/
def firstFetch (l : Load) (place : Place) : List Effect :=
  if l.started then [] else [.fetched (.places place)]

def loadNotices (place : Place) : PlacesReply → List Effect
  | .ok _ => []
  | .error e => [.noticed (.reported ⟨Report.loading place, e⟩)]

/-- What a step of a load comes to. -/
inductive PollLoad (m : Machine σ) (run : Nat) (place : Place) :
    Option PlacesReply → Machine σ × List Effect → Prop
  | gone (reply : Option PlacesReply) (none : ∀ l ∈ m.loads, isLoad run place l = false) :
    PollLoad m run place reply (m, [])
  | waiting (l : Load) (found : m.loads.find? (isLoad run place) = some l) :
    PollLoad m run place none (m.withLoadStarted run place, firstFetch l place)
  | dropped (l : Load) (found : m.loads.find? (isLoad run place) = some l) (result : PlacesReply)
      (past : m.core.generation ≠ l.generation) :
    PollLoad m run place (some result) (m.withoutLoad run place, firstFetch l place)
  | settled (l : Load) (found : m.loads.find? (isLoad run place) = some l) (result : PlacesReply)
      (now : m.core.generation = l.generation) :
    PollLoad m run place (some result)
      ({ m.withoutLoad run place with core := m.core.settled place result },
        firstFetch l place ++ loadNotices place result)

theorem pollLoad_cases (m : Machine σ) (run : Nat) (place : Place) (reply : Option PlacesReply) :
    PollLoad m run place reply (m.pollLoad run place reply) := by
  unfold pollLoad
  cases hf : m.loads.find? (isLoad run place) with
  | none =>
    exact .gone reply fun l hl => Bool.eq_false_iff.mpr (List.find?_eq_none.mp hf l hl)
  | some l =>
    cases reply with
    | none => exact .waiting l hf
    | some result =>
      simp only [Core.settle?_eq]
      by_cases hg : m.core.generation = l.generation
      · rw [if_pos hg]
        exact .settled l hf result hg
      · rw [if_neg hg]
        exact .dropped l hf result hg

theorem PollLoad.credentials {m : Machine σ} {run : Nat} {place : Place}
    {reply : Option PlacesReply} {r : Machine σ × List Effect} (h : PollLoad m run place reply r) :
    r.1.credentials = m.credentials := by
  cases h <;> rfl

/-- The machine `m'` differs from `m` only in who follows and who waits. -/
structure Still (m m' : Machine σ) : Prop where
  phase : m'.core.phase = m.core.phase
  generation : m'.core.generation = m.core.generation
  state : m'.core.state.value = m.core.state.value
  ready : m'.core.ready.value = m.core.ready.value
  loaded : m'.core.loads.value = m.core.loads.value
  runs : m'.runs = m.runs
  loads : m'.loads = m.loads
  nextTask : m.nextTask ≤ m'.nextTask

theorem Still.trans {a b c : Machine σ} (h : Still a b) (h' : Still b c) : Still a c where
  phase := h'.phase.trans h.phase
  generation := h'.generation.trans h.generation
  state := h'.state.trans h.state
  ready := h'.ready.trans h.ready
  loaded := h'.loaded.trans h.loaded
  runs := h'.runs.trans h.runs
  loads := h'.loads.trans h.loads
  nextTask := Nat.le_trans h.nextTask h'.nextTask

theorem still_refl (m : Machine σ) : Still m m := ⟨rfl, rfl, rfl, rfl, rfl, rfl, rfl, Nat.le_refl _⟩

theorem still_subscribe (m : Machine σ) (feed : Core.Feed) :
    Still m { m with core := (m.core.subscribe feed).2 } := by
  cases feed <;> exact ⟨rfl, rfl, rfl, rfl, rfl, rfl, rfl, Nat.le_refl _⟩

theorem still_unsubscribe (m : Machine σ) (feed : Core.Feed) (id : Nat) :
    Still m { m with core := m.core.unsubscribe id feed } := by
  cases feed <;> exact ⟨rfl, rfl, rfl, rfl, rfl, rfl, rfl, Nat.le_refl _⟩

inductive PollWaiter (m : Machine σ) (id : Nat) : Machine σ × List Effect → Prop
  | gone (none : m.waiters.find? (·.id == id) = none) : PollWaiter m id (m, [])
  | opened (w : Waiter) (found : m.waiters.find? (·.id == id) = some w) (awaits : w.awaited = .ready)
      (seen : (m.core.ready.queue w.subscription).find? (· == true) = some true) :
    PollWaiter m id
      ({ m with
          core := { m.core with ready := m.core.ready.unsubscribe w.subscription }
          waiters := m.waiters.filter (·.id != id) }, [.finished id .ready])
  | closed (w : Waiter) (found : m.waiters.find? (·.id == id) = some w) (awaits : w.awaited = .ready)
      (unseen : (m.core.ready.queue w.subscription).find? (· == true) = none) :
    PollWaiter m id
      ({ m with core := { m.core with ready := m.core.ready.setQueue w.subscription [] } }, [])
  | settled (w : Waiter) (found : m.waiters.find? (·.id == id) = some w)
      (awaits : w.awaited = .locations) (loads : Loads)
      (seen : (m.core.loads.queue w.subscription).find? Loads.isSettled = some loads) :
    PollWaiter m id
      ({ m with
          core := { m.core with loads := m.core.loads.unsubscribe w.subscription }
          waiters := m.waiters.filter (·.id != id) }, [.finished id (.locations loads)])
  | unsettled (w : Waiter) (found : m.waiters.find? (·.id == id) = some w)
      (awaits : w.awaited = .locations)
      (unseen : (m.core.loads.queue w.subscription).find? Loads.isSettled = none) :
    PollWaiter m id
      ({ m with core := { m.core with loads := m.core.loads.setQueue w.subscription [] } }, [])

theorem pollWaiter_cases (m : Machine σ) (id : Nat) : PollWaiter m id (m.pollWaiter id) := by
  unfold pollWaiter seek
  cases hf : m.waiters.find? (·.id == id) with
  | none => exact .gone hf
  | some w =>
    cases hw : w.awaited with
    | ready =>
      cases hq : (m.core.ready.queue w.subscription).find? (· == true) with
      | none =>
        simp only [hw, hq]
        exact .closed w hf hw hq
      | some ready =>
        -- The value that is sought for readiness is `true` itself.
        have hr : ready = true := by simpa using List.find?_some hq
        subst hr
        simp only [hw, hq]
        exact .opened w hf hw hq
    | locations =>
      cases hq : (m.core.loads.queue w.subscription).find? Loads.isSettled with
      | none =>
        simp only [hw, hq]
        exact .unsettled w hf hw hq
      | some loads =>
        simp only [hw, hq]
        exact .settled w hf hw loads hq

theorem PollWaiter.credentials {m : Machine σ} {id : Nat} {r : Machine σ × List Effect}
    (h : PollWaiter m id r) : r.1.credentials = m.credentials := by
  cases h <;> rfl

/-- An effect that only tells a waiting task its value. -/
def IsWaking (x : Effect) : Prop :=
  ∃ id, x = .finished id .ready ∨ ∃ l, x = .finished id (.locations l)

theorem pollWaiter_still (m : Machine σ) (id : Nat) :
    Still m (m.pollWaiter id).1 ∧ ∀ x ∈ (m.pollWaiter id).2, IsWaking x := by
  have h := pollWaiter_cases m id
  -- Whatever the look comes to, only waiters and followers differ, and only this task is told.
  generalize m.pollWaiter id = r at h
  cases h with
  | gone => exact ⟨still_refl m, by simp⟩
  | opened =>
    refine ⟨⟨rfl, rfl, rfl, rfl, rfl, rfl, rfl, Nat.le_refl _⟩, ?_⟩
    intro x hx
    exact ⟨id, .inl (List.mem_singleton.mp hx)⟩
  | closed => exact ⟨⟨rfl, rfl, rfl, rfl, rfl, rfl, rfl, Nat.le_refl _⟩, by simp⟩
  | settled _ _ _ loads =>
    refine ⟨⟨rfl, rfl, rfl, rfl, rfl, rfl, rfl, Nat.le_refl _⟩, ?_⟩
    intro x hx
    exact ⟨id, .inr ⟨loads, List.mem_singleton.mp hx⟩⟩
  | unsettled => exact ⟨⟨rfl, rfl, rfl, rfl, rfl, rfl, rfl, Nat.le_refl _⟩, by simp⟩

def joined (m : Machine σ) (awaited : Awaited) : Machine σ :=
  { m with
    core := (m.core.subscribe awaited.feed).2
    waiters := m.waiters ++ [⟨m.nextTask, (m.core.subscribe awaited.feed).1, awaited⟩]
    nextTask := m.nextTask + 1 }

theorem joined_still (m : Machine σ) (awaited : Awaited) : Still m (m.joined awaited) := by
  have h := still_subscribe m awaited.feed
  exact ⟨h.phase, h.generation, h.state, h.ready, h.loaded, rfl, rfl, Nat.le_succ _⟩

theorem await_still (m : Machine σ) (awaited : Awaited) :
    Still m (m.await awaited).1 ∧ ∀ x ∈ (m.await awaited).2, IsWaking x := by
  obtain ⟨hs, he⟩ := pollWaiter_still (m.joined awaited) m.nextTask
  exact ⟨(m.joined_still awaited).trans hs, he⟩

theorem dropWaiter_still (m : Machine σ) (id : Nat) : Still m (m.dropWaiter id) := by
  unfold dropWaiter
  cases m.waiters.find? (·.id == id) with
  | none => exact still_refl m
  | some w =>
    have h := still_unsubscribe m w.awaited.feed w.subscription
    exact ⟨h.phase, h.generation, h.state, h.ready, h.loaded, rfl, rfl, Nat.le_refl _⟩

theorem leave_still (m : Machine σ) (feed : Core.Feed) (id : Nat) : Still m (m.leave feed id) := by
  unfold leave
  split
  · exact still_refl m
  · exact still_unsubscribe m feed id

end Machine

/-- The events of those who only watch. -/
def Event.isQuiet : Event → Bool
  | await _ | pollWaiter _ | dropWaiter _ | follow _ | leave _ _ => true
  | _ => false

namespace Machine
variable {σ : Type} [Slot σ]

theorem quiet_step (m : Machine σ) {e : Event} (h : e.isQuiet) :
    Still m (m.step e).1 ∧ ∀ x ∈ (m.step e).2, IsWaking x := by
  cases e with
  | start | pollRun | pollLoad | reset => cases h
  | await awaited => exact await_still m awaited
  | pollWaiter id => exact pollWaiter_still m id
  | dropWaiter id => exact ⟨dropWaiter_still m id, by simp [step]⟩
  | follow feed => exact ⟨still_subscribe m feed, by simp [step]⟩
  | leave feed id => exact ⟨leave_still m feed id, by simp [step]⟩

theorem credentials_quiet (m : Machine σ) {e : Event} (h : e.isQuiet) :
    (m.step e).1.credentials = m.credentials := by
  cases e with
  | start | pollRun | pollLoad | reset => cases h
  | await awaited => exact (pollWaiter_cases (m.joined awaited) m.nextTask).credentials
  | pollWaiter id => exact (pollWaiter_cases m id).credentials
  | dropWaiter id =>
    show (m.dropWaiter id).credentials = _
    unfold dropWaiter
    split <;> rfl
  | follow feed => rfl
  | leave feed id =>
    show (m.leave feed id).credentials = _
    unfold leave
    split <;> rfl

/-- All that a step can come to. -/
inductive Step (m : Machine σ) : Event → Machine σ × List Effect → Prop
  | quiet {e : Event} {r : Machine σ × List Effect} (quiet : e.isQuiet) (still : Still m r.1)
      (waking : ∀ x ∈ r.2, IsWaking x) : Step m e r
  | answered (i : Option ItemsReply) (a : Option AccountReply) (outcome : Outcome)
      (no : outcome = .alreadyInProgress ∨ outcome = .alreadyReady)
      (busy : m.core.mayBegin = false) :
    Step m (.start i a) ({ m with nextTask := m.nextTask + 1 },
      [.finished m.nextTask (.run (.ok outcome))])
  | begun (i : Option ItemsReply) (a : Option AccountReply) (free : m.core.phase ≠ .initializing)
      (closed : m.core.phase ≠ .ready) {r : Machine σ × List Effect}
      (advance : Advance m.begun m.newRun i (askedAccount i a) r) :
    Step m (.start i a) (r.1, askedFetches i ++ r.2)
  | missed (id : Nat) (i : Option ItemsReply) (a : Option AccountReply)
      (none : m.runs.find? (·.id == id) = none) : Step m (.pollRun id i a) (m, [])
  | polled (i : Option ItemsReply) (a : Option AccountReply) (run : Run) (member : run ∈ m.runs)
      (found : m.runs.find? (·.id == run.id) = some run) {r : Machine σ × List Effect}
      (advance : Advance (m.withoutRun run.id) run i a r) : Step m (.pollRun run.id i a) r
  | load (run : Nat) (place : Place) (reply : Option PlacesReply) {r : Machine σ × List Effect}
      (load : PollLoad m run place reply r) : Step m (.pollLoad run place reply) r
  | reset : Step m .reset (m.reset.2, [])

theorem step_cases (m : Machine σ) (e : Event) : Step m e (m.step e) := by
  -- Those who only watch are dealt with together, the others by what the event is for.
  by_cases hq : e.isQuiet
  · exact .quiet hq (m.quiet_step hq).1 (m.quiet_step hq).2
  · cases e with
    | start i a =>
      change Step m _ (m.start i a)
      -- A call that finds another going on or done is answered without a run.
      by_cases hi : m.core.phase = .initializing
      · have hb : m.core.mayBegin = false := by simp [← Bool.not_eq_true, Core.mayBegin_iff, hi]
        rw [start_initializing hi]
        exact .answered i a _ (.inl rfl) hb
      · by_cases hr : m.core.phase = .ready
        · have hb : m.core.mayBegin = false := by simp [← Bool.not_eq_true, Core.mayBegin_iff, hr]
          rw [start_ready hr]
          exact .answered i a _ (.inr rfl) hb
        · rw [start_begins hi hr]
          exact .begun i a hi hr (advance_cases _ _ _ _)
    | pollRun id i a =>
      change Step m _ (m.pollRun id i a)
      cases hf : m.runs.find? (·.id == id) with
      | none =>
        rw [pollRun_of_none hf]
        exact .missed id i a hf
      | some run =>
        have hid : run.id = id := by simpa using List.find?_some hf
        subst hid
        rw [pollRun_of_some hf]
        exact .polled i a run (List.mem_of_find?_eq_some hf) hf (advance_cases _ _ _ _)
    | pollLoad run place reply => exact .load run place reply (pollLoad_cases m run place reply)
    | reset => exact .reset
    | await | pollWaiter | dropWaiter | follow | leave => exact absurd rfl hq

theorem credentials_step (m : Machine σ) {e : Event} (h : e ≠ .reset) :
    (m.step e).1.credentials = m.credentials := by
  have hc := m.step_cases e
  generalize hr : m.step e = r at hc
  cases hc with
  | quiet quiet => exact hr ▸ m.credentials_quiet quiet
  | answered => rfl
  | begun _ _ _ _ advance => exact advance.credentials
  | missed => rfl
  | polled _ _ _ _ _ advance => exact advance.credentials
  | load _ _ _ load => exact load.credentials
  | reset => exact absurd rfl h

end Machine
end MiningClient.Session
