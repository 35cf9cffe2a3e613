import MiningClient.Proofs.Session.Invariant

namespace MiningClient.Session.Machine
variable {σ : Type}

/-- What a step of a run does to the tasks. -/
structure AdvanceTasks (m : Machine σ) (run : Run) (i : Option ItemsReply)
    (a : Option AccountReply) (r : Machine σ × List Effect) : Prop where
  generation : r.1.core.generation = m.core.generation
  nextTask : r.1.nextTask = m.nextTask
  runs : ∀ x ∈ r.1.runs, x ∈ m.runs ∨ run.Goes x i a
  kept : ∀ x ∈ m.runs, x ∈ r.1.runs
  loads : ∀ l ∈ r.1.loads, l ∈ m.loads ∨
    l.run = run.id ∧ l.generation = run.generation ∧ m.core.generation = run.generation
  returned : ∀ id result, .finished id (.run result) ∈ r.2 → id = run.id

theorem Advance.tasks {m : Machine σ} {run : Run} {i : Option ItemsReply}
    {a : Option AccountReply} {r : Machine σ × List Effect} (h : Advance m run i a r) :
    AdvanceTasks m run i a r := by
  cases h with
  | waiting run' goes =>
    refine ⟨rfl, rfl, fun x hx => ?_, fun x hx => List.mem_append_left _ hx,
      fun l hl => .inl hl, by simp⟩
    rcases List.mem_append.mp hx with hx | hx
    · exact .inl hx
    · rw [List.mem_singleton.mp hx]
      exact .inr goes
  | failed e =>
    refine ⟨?_, rfl, fun x hx => .inl hx, fun x hx => hx, fun l hl => .inl hl, by simp⟩
    change (m.core.fail _ _).generation = _
    unfold Core.fail
    split <;> rfl
  | discarded =>
    exact ⟨rfl, rfl, fun x hx => .inl hx, fun x hx => hx, fun l hl => .inl hl, by simp⟩
  | opened items account _ now =>
    refine ⟨rfl, rfl, fun x hx => .inl hx, fun x hx => hx, fun l hl => ?_, by simp⟩
    rcases List.mem_append.mp hl with hl | hl
    · exact .inl hl
    · simp only [loadsOf, List.mem_cons, List.not_mem_nil, or_false] at hl
      rcases hl with rfl | rfl <;> exact .inr ⟨rfl, rfl, now⟩

structure LoadTasks (m : Machine σ) (r : Machine σ × List Effect) : Prop where
  generation : r.1.core.generation = m.core.generation
  nextTask : r.1.nextTask = m.nextTask
  runs : r.1.runs = m.runs
  loads : ∀ l ∈ r.1.loads, ∃ l' ∈ m.loads, l.key = l'.key ∧ l.generation = l'.generation
  returned : ∀ id result, .finished id (.run result) ∉ r.2

theorem not_returned_firstFetch (l : Load) (place : Place) (id : Nat)
    (result : Except Error Outcome) : .finished id (.run result) ∉ firstFetch l place := by
  unfold firstFetch
  split <;> simp

theorem PollLoad.tasks {m : Machine σ} {run : Nat} {place : Place} {reply : Option PlacesReply}
    {r : Machine σ × List Effect} (h : PollLoad m run place reply r) : LoadTasks m r := by
  have hdrop : ∀ l ∈ (m.withoutLoad run place).loads,
      ∃ l' ∈ m.loads, l.key = l'.key ∧ l.generation = l'.generation :=
    fun l h => ⟨l, (List.mem_filter.mp h).1, rfl, rfl⟩
  cases h with
  | gone => exact ⟨rfl, rfl, rfl, fun l h => ⟨l, h, rfl, rfl⟩, by simp⟩
  | waiting l =>
    refine ⟨rfl, rfl, rfl, fun l hl => ?_, not_returned_firstFetch l place⟩
    obtain ⟨l', hl', rfl⟩ := List.mem_map.mp hl
    exact ⟨l', hl', by split <;> exact ⟨rfl, rfl⟩⟩
  | dropped l => exact ⟨rfl, rfl, rfl, hdrop, not_returned_firstFetch l place⟩
  | settled l _ result =>
    refine ⟨by cases result <;> rfl, rfl, rfl, hdrop, fun id result' h => ?_⟩
    rcases List.mem_append.mp h with h | h
    · exact not_returned_firstFetch l place id result' h
    · cases result <;> simp [loadNotices] at h

/-- How the tasks of a machine come from those of an earlier one. -/
structure Grown (m m' : Machine σ) : Prop where
  generation : m.core.generation ≤ m'.core.generation
  nextTask : m.nextTask ≤ m'.nextTask
  runs : ∀ r ∈ m'.runs, r.id = m.nextTask ∨ ∃ r' ∈ m.runs, r.id = r'.id ∧ r.generation = r'.generation
  loads : ∀ l ∈ m'.loads, l.run = m.nextTask ∨
    (∃ l' ∈ m.loads, l.run = l'.run ∧ l.generation = l'.generation) ∨
    ∃ r ∈ m.runs, l.run = r.id ∧ l.generation = r.generation ∧ r.generation = m.core.generation

theorem Grown.of_same {m m' : Machine σ} (hg : m.core.generation ≤ m'.core.generation)
    (hn : m.nextTask ≤ m'.nextTask) (hr : m'.runs = m.runs) (hl : m'.loads = m.loads) :
    Grown m m' where
  generation := hg
  nextTask := hn
  runs r h := .inr ⟨r, hr ▸ h, rfl, rfl⟩
  loads l h := .inr (.inl ⟨l, hl ▸ h, rfl, rfl⟩)

variable [Slot σ]

theorem step_grown (m : Machine σ) (e : Event) : Grown m (m.step e).1 := by
  have hc := m.step_cases e
  generalize m.step e = r at hc
  cases hc with
  | quiet _ still =>
    exact .of_same (Nat.le_of_eq still.generation.symm) still.nextTask still.runs still.loads
  | answered => exact .of_same (Nat.le_refl _) (Nat.le_succ _) rfl rfl
  | begun _ _ _ _ advance =>
    -- The only new number is that of the run which begins, and its loads have it too.
    have ht := advance.tasks
    refine ⟨Nat.le_of_eq ht.generation.symm, ?_, fun r hr => ?_, fun l hl => ?_⟩
    · rw [ht.nextTask]
      exact Nat.le_succ _
    · rcases ht.runs r hr with h | goes
      · exact .inr ⟨r, h, rfl, rfl⟩
      · exact .inl goes.id
    · rcases ht.loads l hl with h | ⟨h, -, -⟩
      · exact .inr (.inl ⟨l, h, rfl, rfl⟩)
      · exact .inl h
  | missed => exact .of_same (Nat.le_refl _) (Nat.le_refl _) rfl rfl
  | polled _ _ run member _ advance =>
    have ht := advance.tasks
    refine ⟨Nat.le_of_eq ht.generation.symm, Nat.le_of_eq ht.nextTask.symm, fun r hr => ?_,
      fun l hl => ?_⟩
    · rcases ht.runs r hr with h | goes
      · exact .inr ⟨r, (mem_withoutRun.mp h).1, rfl, rfl⟩
      · exact .inr ⟨run, member, goes.id, goes.generation⟩
    · rcases ht.loads l hl with h | ⟨hid, hg, hnow⟩
      · exact .inr (.inl ⟨l, h, rfl, rfl⟩)
      · exact .inr (.inr ⟨run, member, hid, hg, hnow.symm⟩)
  | load _ _ _ load =>
    have ht := load.tasks
    refine ⟨Nat.le_of_eq ht.generation.symm, Nat.le_of_eq ht.nextTask.symm,
      fun r hr => .inr ⟨r, ht.runs ▸ hr, rfl, rfl⟩, fun l hl => ?_⟩
    obtain ⟨l', hl', hk, hg⟩ := ht.loads l hl
    exact .inr (.inl ⟨l', hl', congrArg Prod.fst hk, hg⟩)
  | reset => exact .of_same (Nat.le_succ _) (Nat.le_refl _) rfl rfl

theorem generation_step (m : Machine σ) {e : Event} (h : e ≠ .reset) :
    (m.step e).1.core.generation = m.core.generation := by
  have hc := m.step_cases e
  generalize m.step e = r at hc
  cases hc with
  | quiet _ still => exact still.generation
  | answered => rfl
  | begun _ _ _ _ advance => exact advance.tasks.generation
  | missed => rfl
  | polled _ _ _ _ _ advance => exact advance.tasks.generation
  | load _ _ _ load => exact load.tasks.generation
  | reset => exact absurd rfl h

theorem run_kept (m : Machine σ) {e : Event} {run : Run} (hr : run ∈ m.runs)
    (h : ∀ i a, e ≠ .pollRun run.id i a) : run ∈ (m.step e).1.runs := by
  have hc := m.step_cases e
  generalize m.step e = r at hc
  cases hc with
  | quiet _ still => exact still.runs ▸ hr
  | answered => exact hr
  | begun _ _ _ _ advance => exact advance.tasks.kept run hr
  | missed => exact hr
  | polled i a _ _ _ advance =>
    -- A poll of another number takes this run neither away nor up.
    refine advance.tasks.kept run (mem_withoutRun.mpr ⟨hr, ?_⟩)
    exact fun he => h i a (by rw [he])
  | load _ _ _ load => exact load.tasks.runs ▸ hr
  | reset => exact hr

omit [Slot σ] in
theorem brings_none {m : Machine σ} {id : Nat} {e : Event} (hid : id ≠ m.nextTask)
    (he : ∀ i a, e ≠ .pollRun id i a) :
    Moment.itemsReply? id ⟨m, e⟩ = none ∧ Moment.accountReply? id ⟨m, e⟩ = none := by
  -- Only a call that begins now brings anything without a poll, and its number is new.
  have hne : (id == m.nextTask) = false := beq_false_of_ne hid
  cases e with
  | start i a => simp [Moment.itemsReply?, Moment.accountReply?, Moment.begins, hne]
  | pollRun run i a =>
    have hrun : (id == run) = false := beq_false_of_ne fun h => he i a (by rw [h])
    simp [Moment.itemsReply?, Moment.accountReply?, Moment.polls, hrun]
  | pollLoad | reset | await | pollWaiter | dropWaiter | follow | leave => exact ⟨rfl, rfl⟩

omit [Slot σ] in
theorem poll_brings {m : Machine σ} {run : Run} (hr : run ∈ m.runs) (i : Option ItemsReply)
    (a : Option AccountReply) :
    Moment.itemsReply? run.id ⟨m, .pollRun run.id i a⟩ = i ∧
      Moment.accountReply? run.id ⟨m, .pollRun run.id i a⟩ = a := by
  have hp : Moment.polls run.id ⟨m, .pollRun run.id i a⟩ = true := by
    simp only [Moment.polls, beq_self_eq_true, Bool.true_and]
    exact List.any_eq_true.mpr ⟨run, hr, beq_self_eq_true _⟩
  exact ⟨if_pos hp, if_pos hp⟩

/-- A call returns in the step that begins it, or when it is polled. -/
theorem returned_from (m : Machine σ) {e : Event} {id : Nat} {result : Except Error Outcome}
    (h : .finished id (.run result) ∈ (m.step e).2) :
    (∃ i a, e = .start i a ∧ id = m.nextTask) ∨
      ∃ i a, e = .pollRun id i a ∧ ∃ run ∈ m.runs, run.id = id := by
  have hc := m.step_cases e
  generalize m.step e = r at hc h
  cases hc with
  | quiet _ _ waking =>
    -- A waking tells a value, not an outcome.
    obtain ⟨_, hx | ⟨_, hx⟩⟩ := waking _ h <;> cases hx
  | answered i a =>
    cases List.mem_singleton.mp h
    exact .inl ⟨i, a, rfl, rfl⟩
  | begun i a _ _ advance =>
    refine .inl ⟨i, a, rfl, ?_⟩
    rcases List.mem_append.mp h with h | h
    · rcases fetched_of_asked h with h | h <;> cases h
    · exact advance.tasks.returned id result h
  | missed => cases h
  | polled i a run member _ advance =>
    have hid := advance.tasks.returned id result h
    exact .inr ⟨i, a, by rw [hid], run, member, hid.symm⟩
  | load _ _ _ load => exact absurd h (load.tasks.returned id result)
  | reset => cases h

theorem none_returned {m : Machine σ} {id : Nat} (hk : id < m.nextTask)
    (hn : ∀ run ∈ m.runs, run.id ≠ id) (es : List Event) (result : Except Error Outcome) :
    .finished id (.run result) ∉ m.effects es := by
  -- Numbers only grow, and a run that is gone does not come back.
  induction es generalizing m with
  | nil => exact List.not_mem_nil
  | cons e es ih =>
    rw [effects_cons, List.mem_append, not_or]
    constructor
    · intro h
      rcases m.returned_from h with ⟨_, _, _, he⟩ | ⟨_, _, _, run, hr, he⟩
      · omega
      · exact hn run hr he
    · have hg := m.step_grown e
      refine ih (Nat.lt_of_lt_of_le hk hg.nextTask) fun run hr he => ?_
      rcases hg.runs run hr with h | ⟨r', hr', hid, -⟩
      · omega
      · exact hn r' hr' (hid.symm.trans he)

end MiningClient.Session.Machine
