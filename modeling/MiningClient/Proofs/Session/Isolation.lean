import MiningClient.Proofs.Session.Stale

namespace MiningClient.Session

namespace Run
variable {σ : Type}

/-- The reply to the item fetch of a run: the one it holds, or else the first that comes. -/
def itemsReply? (run : Run) (ts : List (Moment σ)) : Option ItemsReply :=
  run.heldItems.or (ts.findSome? (Moment.itemsReply? run.id))

def accountReply? (run : Run) (ts : List (Moment σ)) : Option AccountReply :=
  run.heldAccount.or (ts.findSome? (Moment.accountReply? run.id))

/-- How a run returns whose first screen is not wanted: discarded once both fetches have succeeded,
and with the error of a fetch once one has failed. -/
structure ReturnsUnwanted (run : Run) (items : Option ItemsReply) (account : Option AccountReply)
    (effects : List Effect) : Prop where
  discarded : .finished run.id (.run (.ok .discarded)) ∈ effects ↔
    (∃ is, items = some (.ok is)) ∧ ∃ a, account = some (.ok a)
  failed : (∃ e, .finished run.id (.run (.error e)) ∈ effects) ↔
    ∃ e, items = some (.error e) ∨ account = some (.error e)
  own : ∀ e, .finished run.id (.run (.error e)) ∈ effects →
    items = some (.error e) ∨ account = some (.error e)
  only : ∀ outcome, .finished run.id (.run (.ok outcome)) ∈ effects → outcome = .discarded

namespace ReturnsUnwanted
variable {run : Run} {items : Option ItemsReply} {account : Option AccountReply}
  {effects : List Effect}

theorem of_missing (h : run.items = none ∨ run.account = none) :
    run.ReturnsUnwanted run.heldItems run.heldAccount [] := by
  have hno : ∀ result, Effect.finished run.id (.run result) ∉ [] := fun _ => List.not_mem_nil
  -- What a run holds are values, never errors.
  have herror : ∀ e, ¬(run.heldItems = some (.error e) ∨ run.heldAccount = some (.error e)) := by
    rintro e (he | he)
    · obtain ⟨_, _, hx⟩ := Option.map_eq_some_iff.mp he
      cases hx
    · obtain ⟨_, _, hx⟩ := Option.map_eq_some_iff.mp he
      cases hx
  refine ⟨⟨fun hx => absurd hx (hno _), ?_⟩, ⟨fun ⟨_, hx⟩ => absurd hx (hno _), ?_⟩,
    fun _ hx => absurd hx (hno _), fun _ hx => absurd hx (hno _)⟩
  · rintro ⟨⟨is, hi⟩, a, ha⟩
    rcases h with hm | hm
    · simp [heldItems, hm] at hi
    · simp [heldAccount, hm] at ha
  · rintro ⟨e, he⟩
    exact absurd he (herror e)

theorem of_error {e : Error} (h : items = some (.error e) ∨ account = some (.error e))
    (hr : ∀ result, .finished run.id (.run result) ∈ effects ↔ result = .error e) :
    run.ReturnsUnwanted items account effects where
  discarded := by
    rw [hr]
    refine ⟨fun hx => (by cases hx), ?_⟩
    rintro ⟨⟨is, hi⟩, a, ha⟩
    rcases h with h | h
    · rw [hi] at h
      cases h
    · rw [ha] at h
      cases h
  failed := ⟨fun _ => ⟨e, h⟩, fun _ => ⟨e, (hr _).mpr rfl⟩⟩
  own e' he := by
    cases (hr _).mp he
    exact h
  only outcome ho := by cases (hr _).mp ho

theorem of_discarded {i : List ItemDescriptor} {a : UserAccountInfo} (hi : items = some (.ok i))
    (ha : account = some (.ok a))
    (hr : ∀ result, .finished run.id (.run result) ∈ effects ↔ result = .ok .discarded) :
    run.ReturnsUnwanted items account effects where
  discarded := ⟨fun _ => ⟨⟨i, hi⟩, a, ha⟩, fun _ => (hr _).mpr rfl⟩
  failed := by
    refine ⟨fun ⟨e, he⟩ => (by cases (hr _).mp he), ?_⟩
    rintro ⟨e, he | he⟩
    · rw [hi] at he
      cases he
    · rw [ha] at he
      cases he
  own e he := by cases (hr _).mp he
  only outcome ho := by
    cases (hr _).mp ho
    rfl

theorem skip {before : List Effect} (h : run.ReturnsUnwanted items account effects)
    (hno : ∀ result, .finished run.id (.run result) ∉ before) :
    run.ReturnsUnwanted items account (before ++ effects) := by
  -- Only what ends this run counts.
  have hm : ∀ result, .finished run.id (.run result) ∈ before ++ effects ↔
      .finished run.id (.run result) ∈ effects := by
    intro result
    rw [List.mem_append, or_iff_right (hno result)]
  refine ⟨?_, ?_, ?_, ?_⟩ <;> simp only [hm]
  · exact h.discarded
  · exact h.failed
  · exact h.own
  · exact h.only

end ReturnsUnwanted

theorem findSome?_cons_or {α β : Type} (f : α → Option β) (a : α) (l : List α) :
    (a :: l).findSome? f = (f a).or (l.findSome? f) := by
  cases hf : f a with
  | none => rw [List.findSome?_cons_of_isNone (by simp [hf]), Option.none_or]
  | some b => rw [List.findSome?_cons_of_isSome (by simp [hf]), hf, Option.some_or]

theorem itemsReply?_cons (run : Run) (t : Moment σ) (ts : List (Moment σ)) :
    run.itemsReply? (t :: ts) =
      (run.heldItems.or (t.itemsReply? run.id)).or (ts.findSome? (Moment.itemsReply? run.id)) := by
  rw [itemsReply?, findSome?_cons_or, Option.or_assoc]

theorem accountReply?_cons (run : Run) (t : Moment σ) (ts : List (Moment σ)) :
    run.accountReply? (t :: ts) =
      (run.heldAccount.or (t.accountReply? run.id)).or
        (ts.findSome? (Moment.accountReply? run.id)) := by
  rw [accountReply?, findSome?_cons_or, Option.or_assoc]

end Run

namespace Machine
variable {σ : Type} [Slot σ] {n : Nat} {m : Machine σ}

theorem Over.not_returned (h : m.Over n) {id : Nat} (hold : id < n) {e : Event}
    (he : ∀ i a, e ≠ .pollRun id i a) (result : Except Error Outcome) :
    .finished id (.run result) ∉ (m.step e).2 := by
  intro hr
  have hknown := h.known
  rcases m.returned_from hr with ⟨_, _, _, hid⟩ | ⟨i, a, hp, _⟩
  · omega
  · exact he i a hp

theorem returns_once {id : Nat} (hid : id < m.nextTask) (hgone : ∀ r ∈ m.runs, r.id ≠ id)
    {now : List Effect} {x : Except Error Outcome}
    (hnow : ∀ result, .finished id (.run result) ∈ now ↔ result = x) (es : List Event)
    (result : Except Error Outcome) :
    .finished id (.run result) ∈ now ++ m.effects es ↔ result = x := by
  rw [List.mem_append, or_iff_left (none_returned hid hgone es result)]
  exact hnow result

/-- A run of a generation that is over returns by what its own fetches bring. -/
theorem Over.returns (hs : m.Sound) (h : m.Over n) {run : Run} (hr : run ∈ m.runs)
    (hold : run.id < n) (es : List Event) :
    run.ReturnsUnwanted (run.itemsReply? (m.trace es)) (run.accountReply? (m.trace es))
      (m.effects es) := by
  -- The run changes from poll to poll, so the induction is for any run with what it holds by now.
  induction es generalizing m run with
  | nil =>
    have hi : run.itemsReply? (m.trace []) = run.heldItems := Option.or_none
    have ha : run.accountReply? (m.trace []) = run.heldAccount := Option.or_none
    rw [hi, ha]
    exact .of_missing (hs.runs_missing run hr)
  | cons e es ih =>
    -- Only a poll of this run can end it or bring it something.
    by_cases hp : ∃ i a, e = .pollRun run.id i a
    · obtain ⟨i, a, rfl⟩ := hp
      have hstep : m.step (.pollRun run.id i a) = (m.withoutRun run.id).advance run i a :=
        pollRun_of_some (hs.find_run hr) i a
      have hs' := hs.step (.pollRun run.id i a)
      have h' := h.step (.pollRun run.id i a)
      have hover : m.core.generation ≠ run.generation := Nat.ne_of_gt (h.runs run hr hold)
      obtain ⟨hi, ha⟩ := poll_brings hr i a
      have hknown : run.id < m.nextTask := Nat.lt_of_lt_of_le hold h.known
      have hgone : ∀ r ∈ (m.withoutRun run.id).runs, r.id ≠ run.id := fun r hr =>
        (mem_withoutRun.mp hr).2
      rw [effects_cons, trace, Run.itemsReply?_cons, Run.accountReply?_cons, hi, ha]
      have hc := advance_cases (m.withoutRun run.id) run i a
      rw [hstep] at hs' h' ⊢
      generalize (m.withoutRun run.id).advance run i a = r at hc hs' h'
      cases hc with
      | waiting run' goes =>
        -- What it has taken it holds from now on, so the rest is told by the run that goes on.
        have hrun : run' ∈ ((m.withoutRun run.id).withRun run').runs :=
          List.mem_append_right _ (List.mem_singleton.mpr rfl)
        have hrest := ih hs' h' hrun (goes.id ▸ hold)
        rw [Run.itemsReply?, Run.accountReply?, goes.items, goes.account, goes.id] at hrest
        exact ⟨goes.id ▸ hrest.discarded, goes.id ▸ hrest.failed, goes.id ▸ hrest.own,
          goes.id ▸ hrest.only⟩
      | failed e poll =>
        -- Once ended it is gone for good, and its number is never given again.
        refine .of_error (e := e) ?_ ?_
        · rcases Run.poll_failed poll with hx | hx
          · exact .inl (by rw [hx, Option.some_or])
          · exact .inr (by rw [hx, Option.some_or])
        · intro result
          refine returns_once ?_ ?_ ?_ es result
          · exact hknown
          · exact hgone
          · simp
      | discarded items account poll =>
        obtain ⟨hx, hy⟩ := Run.poll_complete poll
        refine .of_discarded (i := items) (a := account) ?_ ?_ ?_
        · rw [hx, Option.some_or]
        · rw [hy, Option.some_or]
        · intro result
          refine returns_once ?_ ?_ ?_ es result
          · exact hknown
          · exact hgone
          · simp
      | opened _ _ _ now => exact absurd now hover
    · have he : ∀ i a, e ≠ .pollRun run.id i a := fun i a hx => hp ⟨i, a, hx⟩
      have hne : run.id ≠ m.nextTask := Nat.ne_of_lt (Nat.lt_of_lt_of_le hold h.known)
      obtain ⟨hi, ha⟩ := brings_none hne he
      have hrest := ih (hs.step e) (h.step e) (m.run_kept hr he) hold
      rw [effects_cons, trace, Run.itemsReply?_cons, Run.accountReply?_cons, hi, ha,
        Option.or_none, Option.or_none]
      exact hrest.skip (h.not_returned hold he)

theorem Over.no_load (h : m.Over n) {id : Nat} (hold : id < n)
    (hl : ∀ l ∈ m.loads, l.run ≠ id) (es : List Event) : ∀ l ∈ (m.after es).loads, l.run ≠ id := by
  have hkeep : (m.after es).Over n ∧ ∀ l ∈ (m.after es).loads, l.run ≠ id := by
    refine after_keeps (P := fun m => m.Over n ∧ ∀ l ∈ m.loads, l.run ≠ id) ?_ ⟨h, hl⟩ es
    rintro m e ⟨h, hl⟩
    -- A new load would come from a run of the present generation.
    refine ⟨h.step e, fun l hmem hid => ?_⟩
    have hknown := h.known
    rcases (m.step_grown e).loads l hmem with hn | ⟨l', hl', hrun, -⟩ | ⟨r, hr, hrun, -, hg⟩
    · omega
    · exact hl l' hl' (hrun.symm.trans hid)
    · have := h.runs r hr (by omega)
      omega
  exact hkeep.2

/-- Nothing from before a reset comes through it. With `m` the machine at any reset of any run, the
tasks with numbers below `m.nextTask` are those begun before the reset. Their polls after it leave the
whole core as it is, with the queues of all followers; two continuations that differ only in what
these polls bring show the same; and a call for initialization that is going on at the reset starts
no load, and returns by what its own fetches bring. -/
theorem reset_isolates (credentials : Credentials σ) (before : List Event) :
    let m := (fresh credentials).after before
    (∀ after e, e.isOld m.nextTask →
      ((m.reset.2.after after).step e).1.core = (m.reset.2.after after).core) ∧
    (∀ after after', List.Forall₂ (Event.SameBut m.nextTask) after after' →
      (m.reset.2.after after).core = (m.reset.2.after after').core) ∧
    ∀ run ∈ m.runs, ∀ after,
      (∀ l ∈ (m.reset.2.after after).loads, l.run ≠ run.id) ∧
      run.ReturnsUnwanted (run.itemsReply? (m.reset.2.trace after))
        (run.accountReply? (m.reset.2.trace after)) (m.reset.2.effects after) := by
  intro m
  have hs : m.Sound := sound_after credentials before
  refine ⟨fun after e he => (hs.reset_over.after after).core_step he,
    fun after after' h => hs.reset_over.core_after h, fun run hr after => ⟨?_, ?_⟩⟩
  · have hl : ∀ l ∈ m.reset.2.loads, l.run ≠ run.id := fun l hl he =>
      (hs.loads_known l hl).2 run hr he.symm
    exact hs.reset_over.no_load (hs.runs_known run hr) hl after
  · exact hs.reset_over.returns hs.reset hr (hs.runs_known run hr) after

end Machine
end MiningClient.Session
