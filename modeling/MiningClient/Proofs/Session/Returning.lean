import MiningClient.Proofs.Session.Lately

namespace MiningClient.Session

section Replies
variable {σ : Type}

/-- The reply to the item fetch of a call: the first that comes among these moments. -/
def itemsFor (id : Nat) (ts : List (Moment σ)) : Option ItemsReply :=
  ts.findSome? (Moment.itemsReply? id)

def accountFor (id : Nat) (ts : List (Moment σ)) : Option AccountReply :=
  ts.findSome? (Moment.accountReply? id)

theorem itemsFor_append (id : Nat) (ts ts' : List (Moment σ)) :
    itemsFor id (ts ++ ts') = (itemsFor id ts).or (itemsFor id ts') :=
  List.findSome?_append

theorem accountFor_append (id : Nat) (ts ts' : List (Moment σ)) :
    accountFor id (ts ++ ts') = (accountFor id ts).or (accountFor id ts') :=
  List.findSome?_append

theorem itemsFor_singleton (id : Nat) (t : Moment σ) : itemsFor id [t] = t.itemsReply? id :=
  List.findSome?_singleton

theorem accountFor_singleton (id : Nat) (t : Moment σ) : accountFor id [t] = t.accountReply? id :=
  List.findSome?_singleton

end Replies

namespace Run
variable (run : Run)

theorem heldItems_ne (e : Error) : run.heldItems ≠ some (.error e) := by
  rw [heldItems]
  cases run.items <;> simp

theorem heldAccount_ne (e : Error) : run.heldAccount ≠ some (.error e) := by
  rw [heldAccount]
  cases run.account <;> simp

end Run

/-- The step publishes nothing, starts no load and asks for no places. -/
structure Moment.Silent {σ : Type} [Slot σ] (t : Moment σ) : Prop where
  state : t.next.core.state = t.machine.core.state
  ready : t.next.core.ready = t.machine.core.ready
  loaded : t.next.core.loads = t.machine.core.loads
  loads : t.next.loads = t.machine.loads
  unasked : ∀ place, .fetched (.places place) ∉ t.effects

namespace Machine
variable {σ : Type} [Slot σ]

theorem after_append (m : Machine σ) (es es' : List Event) :
    m.after (es ++ es') = (m.after es).after es' :=
  List.foldl_append

theorem trace_append (m : Machine σ) (es es' : List Event) :
    m.trace (es ++ es') = m.trace es ++ (m.after es).trace es' := by
  induction es generalizing m with
  | nil => rfl
  | cons e es ih => rw [List.cons_append, trace, ih, trace, after_cons, List.cons_append]

theorem effects_append (m : Machine σ) (es es' : List Event) :
    m.effects (es ++ es') = m.effects es ++ (m.after es).effects es' := by
  rw [effects, trace_append, List.flatMap_append]
  rfl

theorem after_snoc (m : Machine σ) (es : List Event) (e : Event) :
    m.after (es ++ [e]) = ((m.after es).step e).1 :=
  m.after_append es [e]

theorem effects_snoc (m : Machine σ) (es : List Event) (e : Event) :
    m.effects (es ++ [e]) = m.effects es ++ ((m.after es).step e).2 := by
  rw [effects_append, effects_cons, effects_nil, List.append_nil]

theorem mem_trace {m : Machine σ} {es : List Event} {t : Moment σ} (h : t ∈ m.trace es) :
    ∃ before e rest, es = before ++ e :: rest ∧ t = ⟨m.after before, e⟩ := by
  induction es generalizing m with
  | nil => cases h
  | cons e es ih =>
    rcases List.mem_cons.mp h with rfl | h
    · exact ⟨[], e, es, rfl, rfl⟩
    · obtain ⟨before, e', rest, rfl, rfl⟩ := ih h
      exact ⟨e :: before, e', rest, rfl, rfl⟩

/-- A step that goes on with a run, which is not among the runs of `m₀`. -/
structure Resumes (m : Machine σ) (e : Event) (m₀ : Machine σ) (run : Run) (i : Option ItemsReply)
    (a : Option AccountReply) : Prop where
  sound : (m₀.withRun run).Sound
  generation : m₀.core.generation = m.core.generation
  state : m₀.core.state = m.core.state
  ready : m₀.core.ready = m.core.ready
  loaded : m₀.core.loads = m.core.loads
  loads : m₀.loads = m.loads
  items : Moment.itemsReply? run.id ⟨m, e⟩ = i
  account : Moment.accountReply? run.id ⟨m, e⟩ = a
  next : (m.step e).1 = (m₀.advance run i a).1
  effects : ∃ asked, (∀ x ∈ asked, x = .fetched .items ∨ x = .fetched .account) ∧
    (m.step e).2 = asked ++ (m₀.advance run i a).2

variable {m : Machine σ}

theorem Sound.resumes_start (hs : m.Sound) (free : m.core.phase ≠ .initializing)
    (closed : m.core.phase ≠ .ready) (i : Option ItemsReply) (a : Option AccountReply) :
    m.Resumes (.start i a) m.begun m.newRun i (askedAccount i a) := by
  have hstep : m.step (.start i a) = _ := start_begins free closed i a
  -- The moment is the beginning of this call, so its replies are the ones the event brings.
  have hbegins : Moment.begins m.newRun.id ⟨m, .start i a⟩ = true :=
    (m.begins_start i a _).mpr ⟨rfl, m.core.mayBegin_iff.mpr ⟨free, closed⟩⟩
  refine ⟨hs.begun free closed, rfl, rfl, rfl, rfl, rfl, ?_, ?_, by rw [hstep], askedFetches i,
    fun _ => fetched_of_asked, by rw [hstep]⟩
  · exact if_pos hbegins
  · simp only [Moment.accountReply?, hbegins, Bool.true_and, askedAccount]

theorem Sound.resumes_poll (hs : m.Sound) {run : Run} (hr : run ∈ m.runs) (i : Option ItemsReply)
    (a : Option AccountReply) :
    m.Resumes (.pollRun run.id i a) (m.withoutRun run.id) run i a := by
  have hf := hs.find_run hr
  have hstep : m.step (.pollRun run.id i a) = _ := pollRun_of_some hf i a
  obtain ⟨hi, ha⟩ := poll_brings hr i a
  exact ⟨hs.resumed hf, rfl, rfl, rfl, rfl, rfl, hi, ha, by rw [hstep], [], by simp, by rw [hstep]; rfl⟩

theorem Sound.resumes (hs : m.Sound) {e : Event} {id : Nat}
    (h : Moment.begins id ⟨m, e⟩ = true ∨ Moment.polls id ⟨m, e⟩ = true) :
    ∃ m₀ run i a, run.id = id ∧ m.Resumes e m₀ run i a := by
  -- A moment of a call is its beginning or a poll of its run.
  cases e with
  | start i a =>
    rcases h with h | h
    · obtain ⟨rfl, hm⟩ := (m.begins_start i a id).mp h
      obtain ⟨free, closed⟩ := m.core.mayBegin_iff.mp hm
      exact ⟨_, _, _, _, rfl, hs.resumes_start free closed i a⟩
    · cases h
  | pollRun id' i a =>
    rcases h with h | h
    · cases h
    · rw [Moment.polls, Bool.and_eq_true, beq_iff_eq, List.any_eq_true] at h
      obtain ⟨rfl, run, hr, hid⟩ := h
      obtain rfl := eq_of_beq hid
      exact ⟨_, run, _, _, rfl, hs.resumes_poll hr i a⟩
  | _ => rcases h with h | h <;> cases h

section Advance
omit [Slot σ]

theorem advance_failed {run : Run} {i : Option ItemsReply} {a : Option AccountReply} {d : Error}
    (h : run.poll i a = .failed d) :
    m.advance run i a = ({ m with core := m.core.fail run.generation d },
      [.noticed (.reported ⟨Report.startup, d⟩), .finished run.id (.run (.error d))]) := by
  simp only [advance, h]

theorem advance_opened {run : Run} {i : Option ItemsReply} {a : Option AccountReply}
    {items : List ItemDescriptor} {account : UserAccountInfo}
    (h : run.poll i a = .complete items account) (hg : m.core.generation = run.generation) :
    m.advance run i a = (m.opened run items account,
      (GameState.repeatedIds items).map (fun id => .noticed (.repeatedItem id)) ++
        [.finished run.id (.run (.ok .initialized))]) := by
  simp only [advance, h, Core.publish?_eq, if_pos hg]
  rfl

theorem Advance.cells {run : Run} {i : Option ItemsReply} {a : Option AccountReply}
    {r : Machine σ × List Effect} (h : Advance m run i a r)
    (hno : .finished run.id (.run (.ok .initialized)) ∉ r.2) :
    r.1.core.state = m.core.state ∧ r.1.core.ready = m.core.ready ∧
      r.1.core.loads = m.core.loads ∧ r.1.loads = m.loads := by
  cases h with
  | waiting | discarded => exact ⟨rfl, rfl, rfl, rfl⟩
  | failed d =>
    unfold Core.fail
    split <;> exact ⟨rfl, rfl, rfl, rfl⟩
  | opened => exact absurd (List.mem_append_right _ (List.mem_singleton.mpr rfl)) hno

end Advance

namespace Resumes
variable {e : Event} {m₀ : Machine σ} {run : Run} {i : Option ItemsReply} {a : Option AccountReply}

theorem mem_finished (h : m.Resumes e m₀ run i a) {id : Nat} {ending : Ending} :
    .finished id ending ∈ (m.step e).2 ↔ .finished id ending ∈ (m₀.advance run i a).2 := by
  obtain ⟨asked, hasked, heffects⟩ := h.effects
  -- What the call asks for at its beginning tells no ending.
  have hno : .finished id ending ∉ asked := by
    intro hx
    rcases hasked _ hx with he | he <;> cases he
  rw [heffects, List.mem_append, or_iff_right hno]

theorem silent (h : m.Resumes e m₀ run i a)
    (hno : .finished run.id (.run (.ok .initialized)) ∉ (m.step e).2) :
    Moment.Silent ⟨m, e⟩ := by
  -- A call asks for items and account alone, and its run for nothing.
  have hunasked : ∀ place, .fetched (.places place) ∉ (m.step e).2 := by
    intro place hx
    obtain ⟨asked, hasked, heffects⟩ := h.effects
    rw [heffects] at hx
    rcases List.mem_append.mp hx with hx | hx
    · rcases hasked _ hx with he | he <;> cases he
    · have hnone := (advance_cases m₀ run i a).fetches
      have hmem := List.mem_filterMap.mpr ⟨_, hx, (rfl : Effect.fetch? (.fetched (.places place)) = _)⟩
      rw [hnone] at hmem
      cases hmem
  -- Without the first screen the run writes no cell.
  rw [h.mem_finished] at hno
  obtain ⟨hs, hr, hl, ht⟩ := (advance_cases m₀ run i a).cells hno
  rw [← h.next] at hs hr hl ht
  exact ⟨hs.trans h.state, hr.trans h.ready, hl.trans h.loaded, ht.trans h.loads, hunasked⟩

theorem failed (h : m.Resumes e m₀ run i a) {d : Error} (poll : run.poll i a = .failed d) :
    (∀ result, .finished run.id (.run result) ∈ (m.step e).2 ↔ result = .error d) ∧
      (m.step e).1.core = m₀.core.fail run.generation d := by
  refine ⟨fun result => ?_, ?_⟩
  · rw [h.mem_finished, advance_failed poll]
    simp
  · rw [h.next, advance_failed poll]

theorem opened (h : m.Resumes e m₀ run i a) {items : List ItemDescriptor} {account : UserAccountInfo}
    (poll : run.poll i a = .complete items account) (now : m.core.generation = run.generation) :
    (∀ result, .finished run.id (.run result) ∈ (m.step e).2 ↔ result = .ok .initialized) ∧
      (m.step e).1.core = m₀.core.shown items account := by
  have hadvance := advance_opened poll (h.generation.trans now)
  refine ⟨fun result => ?_, ?_⟩
  · rw [h.mem_finished, hadvance]
    simp
  · rw [h.next, hadvance]
    rfl

end Resumes

/-- The run of the call that begins in `m`, waiting behind these events. It holds what has come. -/
structure Waits (m : Machine σ) (es : List Event) (run : Run) : Prop where
  member : run ∈ (m.after es).runs
  id : run.id = m.nextTask
  generation : run.generation = m.core.generation
  items : run.heldItems = itemsFor m.nextTask (m.trace es)
  account : run.heldAccount = accountFor m.nextTask (m.trace es)

/-- The step `e` behind the events `wait` ends the call that begins in `m`. -/
structure Ends (m : Machine σ) (wait : List Event) (e : Event) (m₀ : Machine σ) (run : Run)
    (i : Option ItemsReply) (a : Option AccountReply) : Prop where
  resumes : (m.after wait).Resumes e m₀ run i a
  id : run.id = m.nextTask
  generation : run.generation = m.core.generation
  items : run.heldItems = itemsFor m.nextTask (m.trace wait)
  account : run.heldAccount = accountFor m.nextTask (m.trace wait)
  ends : ∀ run', run.poll i a ≠ .waiting run'

section Replies
variable {wait : List Event} {e : Event} {run : Run}

theorem itemsFor_snoc (hi : run.heldItems = itemsFor m.nextTask (m.trace wait)) (e : Event) :
    itemsFor m.nextTask (m.trace (wait ++ [e])) =
      run.heldItems.or (Moment.itemsReply? m.nextTask ⟨m.after wait, e⟩) := by
  rw [trace_append, itemsFor_append, ← hi]
  exact congrArg _ (itemsFor_singleton _ _)

theorem accountFor_snoc (ha : run.heldAccount = accountFor m.nextTask (m.trace wait)) (e : Event) :
    accountFor m.nextTask (m.trace (wait ++ [e])) =
      run.heldAccount.or (Moment.accountReply? m.nextTask ⟨m.after wait, e⟩) := by
  rw [trace_append, accountFor_append, ← ha]
  exact congrArg _ (accountFor_singleton _ _)

end Replies

theorem Resumes.waits_or_ends {wait : List Event} {e : Event} {m₀ : Machine σ} {run : Run}
    {i : Option ItemsReply} {a : Option AccountReply} (h : (m.after wait).Resumes e m₀ run i a)
    (id : run.id = m.nextTask) (generation : run.generation = m.core.generation)
    (items : run.heldItems = itemsFor m.nextTask (m.trace wait))
    (account : run.heldAccount = accountFor m.nextTask (m.trace wait)) :
    (∃ run', m.Waits (wait ++ [e]) run') ∨ m.Ends wait e m₀ run i a := by
  -- A poll that waits leaves the run holding all that has come so far.
  by_cases hp : ∃ run', run.poll i a = .waiting run'
  · obtain ⟨run', hp⟩ := hp
    have goes := Run.poll_waiting hp
    refine .inl ⟨run', ?_, goes.id.trans id, goes.generation.trans generation, ?_, ?_⟩
    · rw [after_snoc, h.next]
      simp only [advance, hp]
      exact List.mem_append_right _ (List.mem_singleton.mpr rfl)
    · rw [goes.items, itemsFor_snoc items, ← id, h.items]
    · rw [goes.account, accountFor_snoc account, ← id, h.account]
  · exact .inr ⟨h, id, generation, items, account, fun run' hw => hp ⟨run', hw⟩⟩

theorem Waits.step (hs : m.Sound) {es : List Event} {run : Run} (h : m.Waits es run) (e : Event) :
    (∃ run', m.Waits (es ++ [e]) run') ∨ ∃ m₀ i a, m.Ends es e m₀ run i a := by
  have hs' := hs.after es
  -- Only a poll of the run changes what it holds.
  by_cases he : ∃ i a, e = .pollRun run.id i a
  · obtain ⟨i, a, rfl⟩ := he
    rcases (hs'.resumes_poll h.member i a).waits_or_ends h.id h.generation h.items h.account with
      hw | hend
    · exact .inl hw
    · exact .inr ⟨_, i, a, hend⟩
  · -- Whatever else happens brings the call nothing.
    have hno : ∀ i a, e ≠ .pollRun run.id i a := fun i a hx => he ⟨i, a, hx⟩
    obtain ⟨hi, ha⟩ := brings_none (Nat.ne_of_lt (hs'.runs_known run h.member)) hno
    rw [h.id] at hi ha
    refine .inl ⟨run, ?_, h.id, h.generation, ?_, ?_⟩
    · rw [after_snoc]
      exact (m.after es).run_kept h.member hno
    · rw [itemsFor_snoc h.items, hi, Option.or_none]
    · rw [accountFor_snoc h.account, ha, Option.or_none]

/-- A call waits through all that happens, or one of the steps ends it. -/
theorem Sound.waits_or_ends (hs : m.Sound) (free : m.core.phase ≠ .initializing)
    (closed : m.core.phase ≠ .ready) (i : Option ItemsReply) (a : Option AccountReply)
    (es : List Event) :
    (∃ run, m.Waits (.start i a :: es) run) ∨ ∃ wait e rest m₀ run i' a',
      .start i a :: es = wait ++ e :: rest ∧ m.Ends wait e m₀ run i' a' := by
  -- The induction adds an event at the end: once the call has ended, nothing later counts.
  induction es using List.reverseRecOn with
  | nil =>
    have hr : (m.after []).Resumes (.start i a) m.begun m.newRun i (askedAccount i a) :=
      hs.resumes_start free closed i a
    rcases hr.waits_or_ends rfl rfl rfl rfl with hw | h
    · exact .inl hw
    · exact .inr ⟨[], _, [], _, _, _, _, rfl, h⟩
  | append_singleton es e ih =>
    rcases ih with ⟨run, hw⟩ | ⟨wait, e', rest, m₀, run, i', a', hsplit, h⟩
    · rcases hw.step hs e with hw | ⟨m₀, i', a', h⟩
      · exact .inl hw
      · exact .inr ⟨.start i a :: es, e, [], m₀, run, i', a', rfl, h⟩
    · refine .inr ⟨wait, e', rest ++ [e], m₀, run, i', a', ?_, h⟩
      rw [← List.cons_append, hsplit, List.append_assoc, List.cons_append]

namespace Ends
variable {wait : List Event} {e : Event} {m₀ : Machine σ} {run : Run} {i : Option ItemsReply}
  {a : Option AccountReply}

theorem itemsFor_eq (h : m.Ends wait e m₀ run i a) :
    itemsFor m.nextTask (m.trace (wait ++ [e])) = run.heldItems.or i := by
  rw [itemsFor_snoc h.items, ← h.id, h.resumes.items]

theorem accountFor_eq (h : m.Ends wait e m₀ run i a) :
    accountFor m.nextTask (m.trace (wait ++ [e])) = run.heldAccount.or a := by
  rw [accountFor_snoc h.account, ← h.id, h.resumes.account]

theorem itemsFor_of_some (h : m.Ends wait e m₀ run i a) {reply : ItemsReply}
    (hi : run.heldItems.or i = some reply) (rest : List Event) :
    itemsFor m.nextTask (m.trace (wait ++ e :: rest)) = some reply := by
  rw [List.append_cons, trace_append, itemsFor_append, h.itemsFor_eq, hi, Option.some_or]

theorem accountFor_of_some (h : m.Ends wait e m₀ run i a) {reply : AccountReply}
    (ha : run.heldAccount.or a = some reply) (rest : List Event) :
    accountFor m.nextTask (m.trace (wait ++ e :: rest)) = some reply := by
  rw [List.append_cons, trace_append, accountFor_append, h.accountFor_eq, ha, Option.some_or]

end Ends

end Machine
end MiningClient.Session
