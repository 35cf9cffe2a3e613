import MiningClient.Proofs.Session.Tasks

namespace MiningClient.Session

/-- The call of this number returns. -/
def Returned (id : Nat) (effects : List Effect) : Prop :=
  ∃ result, .finished id (.run result) ∈ effects

theorem not_returned_nil (id : Nat) : ¬Returned id [] := by
  rintro ⟨_, h⟩
  cases h

theorem returned_append {id : Nat} {before after : List Effect} :
    Returned id (before ++ after) ↔ Returned id before ∨ Returned id after := by
  simp only [Returned, List.mem_append, exists_or]

theorem mem_opened {id : Nat} {effects : List Effect} :
    id ∈ effects.filterMap Effect.opened? ↔
      .finished id (.run (.ok .initialized)) ∈ effects := by
  constructor
  · intro h
    obtain ⟨x, hx, hid⟩ := List.mem_filterMap.mp h
    unfold Effect.opened? at hid
    split at hid
    · cases hid
      exact hx
    · cases hid
  · intro h
    exact List.mem_filterMap.mpr ⟨_, h, rfl⟩

namespace Machine
variable {σ : Type}

theorem not_returned_of_waking {effects : List Effect} (h : ∀ x ∈ effects, IsWaking x) (id : Nat) :
    ¬Returned id effects := by
  rintro ⟨result, hx⟩
  obtain ⟨_, hw | ⟨_, hw⟩⟩ := h _ hx <;> cases hw

theorem not_returned_asked (i : Option ItemsReply) (id : Nat) : ¬Returned id (askedFetches i) := by
  rintro ⟨result, hx⟩
  rcases fetched_of_asked hx with hx | hx <;> cases hx

theorem begins_eq_false (m : Machine σ) {e : Event} (he : ∀ i a, e ≠ .start i a) (id : Nat) :
    Moment.begins id ⟨m, e⟩ = false := by
  cases e with
  | start i a => exact absurd rfl (he i a)
  | _ => rfl

theorem begins_start (m : Machine σ) (i : Option ItemsReply) (a : Option AccountReply) (id : Nat) :
    Moment.begins id ⟨m, .start i a⟩ = true ↔ id = m.nextTask ∧ m.core.mayBegin = true := by
  rw [Moment.begins, Bool.and_eq_true, beq_iff_eq]

theorem Advance.calls {m : Machine σ} {run : Run} {i : Option ItemsReply} {a : Option AccountReply}
    {r : Machine σ × List Effect} (h : Advance m run i a r) (hn : ∀ x ∈ m.runs, x.id ≠ run.id)
    (id : Nat) :
    (∃ x ∈ r.1.runs, x.id = id) ↔
      ((∃ x ∈ m.runs, x.id = id) ∨ id = run.id) ∧ ¬Returned id r.2 := by
  -- Three of the four ways end the call, and for them it is the same argument.
  have hended : ∀ effects, (Returned id effects ↔ id = run.id) →
      ((∃ x ∈ m.runs, x.id = id) ↔
        ((∃ x ∈ m.runs, x.id = id) ∨ id = run.id) ∧ ¬Returned id effects) := by
    intro effects hr
    rw [hr]
    constructor
    · rintro ⟨x, hx, rfl⟩
      exact ⟨.inl ⟨x, hx, rfl⟩, hn x hx⟩
    · rintro ⟨hx | hx, hne⟩
      · exact hx
      · exact absurd hx hne
  cases h with
  | waiting run' goes =>
    have hno := not_returned_nil id
    constructor
    · rintro ⟨x, hx, rfl⟩
      refine ⟨?_, hno⟩
      rcases List.mem_append.mp hx with hx | hx
      · exact .inl ⟨x, hx, rfl⟩
      · rw [List.mem_singleton.mp hx]
        exact .inr goes.id
    · rintro ⟨⟨x, hx, rfl⟩ | rfl, -⟩
      · exact ⟨x, List.mem_append_left _ hx, rfl⟩
      · exact ⟨run', List.mem_append_right _ (List.mem_singleton.mpr rfl), goes.id⟩
  | failed e => exact hended _ (by simp [Returned])
  | discarded => exact hended _ (by simp [Returned])
  | opened => exact hended _ (by simp [Returned])

theorem unfinished_withoutRun {m : Machine σ} {run : Run} (member : run ∈ m.runs) {id : Nat} :
    ((∃ x ∈ (m.withoutRun run.id).runs, x.id = id) ∨ id = run.id) ↔ ∃ x ∈ m.runs, x.id = id := by
  constructor
  · rintro (⟨x, hx, rfl⟩ | rfl)
    · exact ⟨x, (mem_withoutRun.mp hx).1, rfl⟩
    · exact ⟨run, member, rfl⟩
  -- The polled run is out of the runs, and its number stands for it.
  · rintro ⟨x, hx, rfl⟩
    by_cases hid : x.id = run.id
    · exact .inr hid
    · exact .inl ⟨x, mem_withoutRun.mpr ⟨hx, hid⟩, rfl⟩

variable [Slot σ]

theorem nextTask_start (m : Machine σ) (i : Option ItemsReply) (a : Option AccountReply) :
    (m.step (.start i a)).1.nextTask = m.nextTask + 1 := by
  have hc := m.step_cases (.start i a)
  generalize m.step (.start i a) = r at hc
  cases hc with
  | quiet hq => cases hq
  | answered => rfl
  | begun _ _ _ _ advance => exact advance.tasks.nextTask

/-- After a step a call is unfinished if it was, or has just begun, and does not return now. -/
theorem step_calls {m : Machine σ} (hs : m.Sound) (e : Event) (id : Nat) :
    (∃ r ∈ (m.step e).1.runs, r.id = id) ↔
      ((∃ r ∈ m.runs, r.id = id) ∨ Moment.begins id ⟨m, e⟩ = true) ∧
        ¬Returned id (m.step e).2 := by
  have hknown : (∃ r ∈ m.runs, r.id = id) → id < m.nextTask := by
    rintro ⟨r, hr, rfl⟩
    exact hs.runs_known r hr
  -- A step that neither begins a call nor returns from one leaves the unfinished ones.
  have hsame : ∀ r : Machine σ × List Effect, r.1.runs = m.runs →
      Moment.begins id ⟨m, e⟩ = false → ¬Returned id r.2 →
      ((∃ x ∈ r.1.runs, x.id = id) ↔
        ((∃ x ∈ m.runs, x.id = id) ∨ Moment.begins id ⟨m, e⟩ = true) ∧ ¬Returned id r.2) := by
    intro r hr hb hno
    simp only [hr, hb, hno, not_false_eq_true, and_true, Bool.false_eq_true, or_false]
  have hc := m.step_cases e
  generalize m.step e = r at hc
  cases hc with
  | quiet hq still waking =>
    apply hsame _ still.runs
    · apply begins_eq_false
      rintro i a rfl
      cases hq
    · exact not_returned_of_waking waking id
  | answered i a outcome no busy =>
    have hb : Moment.begins id ⟨m, .start i a⟩ = false := by
      rw [← Bool.not_eq_true, begins_start, busy]
      simp
    have hr : Returned id [.finished m.nextTask (.run (.ok outcome))] ↔ id = m.nextTask := by
      simp [Returned]
    rw [hb, hr]
    constructor
    · intro h
      exact ⟨.inl h, Nat.ne_of_lt (hknown h)⟩
    · rintro ⟨h | h, -⟩
      · exact h
      · cases h
  | begun i a free closed advance =>
    have hb : Moment.begins id ⟨m, .start i a⟩ = true ↔ id = m.nextTask := by
      rw [begins_start, Core.mayBegin_iff]
      exact and_iff_left ⟨free, closed⟩
    -- The new number is none of those before it, so this call is not unfinished already.
    have hcalls := advance.calls (fun x hx => Nat.ne_of_lt (hs.runs_known x hx)) id
    rw [hb, returned_append, or_iff_right (not_returned_asked i id)]
    exact hcalls
  | missed id' i a none => exact hsame _ rfl rfl (not_returned_nil id)
  | polled i a run member _ advance =>
    have hb : Moment.begins id ⟨m, .pollRun run.id i a⟩ = false := rfl
    have hne : ∀ x ∈ (m.withoutRun run.id).runs, x.id ≠ run.id := fun x hx =>
      (mem_withoutRun.mp hx).2
    rw [advance.calls hne id, unfinished_withoutRun member, hb]
    simp only [Bool.false_eq_true, or_false]
  | load run place reply load =>
    apply hsame _ load.tasks.runs rfl
    rintro ⟨result, hx⟩
    exact load.tasks.returned id result hx
  | reset => exact hsame _ rfl rfl (not_returned_nil id)

theorem returned_known {m : Machine σ} (hs : m.Sound) {e : Event} {id : Nat}
    (h : Returned id (m.step e).2) : id < (m.step e).1.nextTask := by
  obtain ⟨result, hx⟩ := h
  rcases m.returned_from hx with ⟨i, a, rfl, hid⟩ | ⟨_, _, -, run, hr, rfl⟩
  · have := m.nextTask_start i a
    omega
  · have := hs.runs_known run hr
    have := (m.step_grown e).nextTask
    omega

theorem begins_late {m : Machine σ} (es : List Event) {id : Nat} :
    ∀ t ∈ m.trace es, t.begins id → m.nextTask ≤ id := by
  induction es generalizing m with
  | nil =>
    intro t ht
    cases ht
  | cons e es ih =>
    intro t ht hb
    -- A call that begins takes the next number, and numbers only grow.
    rcases List.mem_cons.mp ht with rfl | ht
    · cases e with
      | start i a => exact Nat.le_of_eq ((m.begins_start i a id).mp hb).1.symm
      | _ => cases hb
    · exact Nat.le_trans (m.step_grown e).nextTask (ih t ht hb)

theorem after_calls {m : Machine σ} (hs : m.Sound) (es : List Event) (id : Nat) :
    (∃ r ∈ (m.after es).runs, r.id = id) ↔
      ((∃ r ∈ m.runs, r.id = id) ∨ ∃ t ∈ m.trace es, t.begins id) ∧
        ¬Returned id (m.effects es) := by
  induction es generalizing m with
  | nil =>
    have hno := not_returned_nil id
    simp [trace, hno]
  | cons e es ih =>
    -- What begins later has a later number, so it does not return now.
    have hlate : (∃ t ∈ (m.step e).1.trace es, t.begins id) → ¬Returned id (m.step e).2 := by
      rintro ⟨t, ht, hb⟩ hr
      have := begins_late es t ht hb
      have := returned_known hs hr
      omega
    have hfirst : (∃ t ∈ m.trace (e :: es), t.begins id) ↔
        Moment.begins id ⟨m, e⟩ = true ∨ ∃ t ∈ (m.step e).1.trace es, t.begins id := by
      simp only [trace, List.mem_cons, exists_eq_or_imp]
    rw [after_cons, ih (hs.step e), step_calls hs e id, effects_cons, returned_append, hfirst,
      not_or]
    -- Each of the three ways to be unfinished at the end is followed through the first step.
    constructor
    · rintro ⟨⟨h | h, hno⟩ | h, hrest⟩
      · exact ⟨.inl h, hno, hrest⟩
      · exact ⟨.inr (.inl h), hno, hrest⟩
      · exact ⟨.inr (.inr h), hlate h, hrest⟩
    · rintro ⟨h | h | h, hno, hrest⟩
      · exact ⟨.inl ⟨.inl h, hno⟩, hrest⟩
      · exact ⟨.inl ⟨.inr h, hno⟩, hrest⟩
      · exact ⟨.inr h, hrest⟩

end Machine
end MiningClient.Session
