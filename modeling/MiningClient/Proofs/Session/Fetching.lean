import MiningClient.Proofs.Session.Tasks

namespace MiningClient.Session

section Fetched
variable {σ : Type}

/-- A run that begins among these moments, and the first replies that its fetches bring there. -/
structure Fetched (span : List (Moment σ)) (id : Nat) (items : Option ItemsReply)
    (account : Option AccountReply) : Prop where
  begun : ∃ t ∈ span, t.begins id
  items : span.findSome? (Moment.itemsReply? id) = items
  account : span.findSome? (Moment.accountReply? id) = account

theorem Fetched.snoc {span : List (Moment σ)} {id : Nat} {items : Option ItemsReply}
    {account : Option AccountReply} (h : Fetched span id items account) (t : Moment σ) :
    Fetched (span ++ [t]) id (items.or (t.itemsReply? id)) (account.or (t.accountReply? id)) := by
  obtain ⟨⟨b, hb, hbegins⟩, hi, ha⟩ := h
  refine ⟨⟨b, List.mem_append_left _ hb, hbegins⟩, ?_, ?_⟩
  · rw [List.findSome?_append, hi, List.findSome?_singleton]
  · rw [List.findSome?_append, ha, List.findSome?_singleton]

end Fetched

namespace Machine
variable {σ : Type}

/-- The moments `span` since the last reset tell what the unfinished runs hold. -/
structure Recorded (m : Machine σ) (span : List (Moment σ)) : Prop where
  runs : ∀ r ∈ m.runs, r.generation = m.core.generation →
    Fetched span r.id r.heldItems r.heldAccount
  ahead : ∀ id, m.nextTask ≤ id → ∀ t ∈ span,
    t.itemsReply? id = none ∧ t.accountReply? id = none

namespace Recorded
variable {m : Machine σ} {span : List (Moment σ)}

theorem begun (h : m.Recorded span) (free : m.core.phase ≠ .initializing)
    (closed : m.core.phase ≠ .ready) (i : Option ItemsReply) (a : Option AccountReply) :
    Fetched (span ++ [⟨m, .start i a⟩]) m.nextTask i (askedAccount i a) := by
  have hm : m.core.mayBegin = true := m.core.mayBegin_iff.mpr ⟨free, closed⟩
  have hb : Moment.begins m.nextTask ⟨m, .start i a⟩ = true := by
    simp only [Moment.begins, beq_self_eq_true, hm, Bool.and_self]
  -- Nothing has come yet for a number that is given only now.
  have hahead := h.ahead m.nextTask (Nat.le_refl _)
  have hi : span.findSome? (Moment.itemsReply? m.nextTask) = none :=
    List.findSome?_eq_none_iff.mpr fun t ht => (hahead t ht).1
  have ha : span.findSome? (Moment.accountReply? m.nextTask) = none :=
    List.findSome?_eq_none_iff.mpr fun t ht => (hahead t ht).2
  refine ⟨⟨_, List.mem_append_right _ (List.mem_singleton.mpr rfl), hb⟩, ?_, ?_⟩
  · rw [List.findSome?_append, hi, List.findSome?_singleton, Option.none_or]
    exact if_pos hb
  · rw [List.findSome?_append, ha, List.findSome?_singleton, Option.none_or]
    simp only [Moment.accountReply?, hb, Bool.true_and, askedAccount]

theorem polled (h : m.Recorded span) {run : Run} (hr : run ∈ m.runs)
    (hg : run.generation = m.core.generation) (i : Option ItemsReply) (a : Option AccountReply) :
    Fetched (span ++ [⟨m, .pollRun run.id i a⟩]) run.id (run.heldItems.or i)
      (run.heldAccount.or a) := by
  have hs := (h.runs run hr hg).snoc ⟨m, .pollRun run.id i a⟩
  obtain ⟨hi, ha⟩ := poll_brings hr i a
  rw [hi, ha] at hs
  exact hs

theorem kept (hs : m.Sound) (h : m.Recorded span) {r : Run} (hr : r ∈ m.runs)
    (hg : r.generation = m.core.generation) {e : Event} (he : ∀ i a, e ≠ .pollRun r.id i a) :
    Fetched (span ++ [⟨m, e⟩]) r.id r.heldItems r.heldAccount := by
  have hf := (h.runs r hr hg).snoc ⟨m, e⟩
  have hne : r.id ≠ m.nextTask := Nat.ne_of_lt (hs.runs_known r hr)
  obtain ⟨hi, ha⟩ := brings_none hne he
  rw [hi, ha, Option.or_none, Option.or_none] at hf
  exact hf

variable [Slot σ]

theorem ahead_step (hs : m.Sound) {e : Event} {id : Nat} (hid : (m.step e).1.nextTask ≤ id) :
    Moment.itemsReply? id ⟨m, e⟩ = none ∧ Moment.accountReply? id ⟨m, e⟩ = none := by
  have hle := (m.step_grown e).nextTask
  cases e with
  | start i a =>
    have hnext : (m.step (.start i a)).1.nextTask = m.nextTask + 1 := by
      have hc := m.step_cases (.start i a)
      generalize m.step (.start i a) = r at hc
      cases hc with
      | quiet hq => cases hq
      | answered => rfl
      | begun _ _ _ _ advance => exact advance.tasks.nextTask
    apply brings_none
    · omega
    · intro _ _ hx
      cases hx
  | pollRun run i a =>
    -- The run that is polled has a number already.
    have hp : Moment.polls id ⟨m, .pollRun run i a⟩ = false := by
      simp only [Moment.polls, Bool.and_eq_false_iff]
      right
      apply List.any_eq_false.mpr
      intro r hr
      have := hs.runs_known r hr
      simp only [beq_iff_eq]
      omega
    simp only [Moment.itemsReply?, Moment.accountReply?, hp, Bool.false_eq_true, if_false,
      and_self]
  | pollLoad | reset | await | pollWaiter | dropWaiter | follow | leave => exact ⟨rfl, rfl⟩

theorem step (hs : m.Sound) (h : m.Recorded span) {e : Event} (he : e ≠ .reset) :
    (m.step e).1.Recorded (span ++ [⟨m, e⟩]) where
  -- By the invariant for the moments before, and by the numbering for the last.
  ahead id hid t ht := by
    rcases List.mem_append.mp ht with ht | ht
    · exact h.ahead id (Nat.le_trans (m.step_grown e).nextTask hid) t ht
    · rw [List.mem_singleton.mp ht]
      exact ahead_step hs hid
  runs r hr hg := by
    rw [m.generation_step he] at hg
    have hc := m.step_cases e
    generalize m.step e = s at hc hr
    cases hc with
    | quiet hq still =>
      refine h.kept hs (still.runs ▸ hr) hg ?_
      rintro _ _ rfl
      cases hq
    | answered =>
      refine h.kept hs hr hg ?_
      intro _ _ hx
      cases hx
    | begun i a free closed advance =>
      -- A run in the new list is an old one, or the one that the call has just begun.
      rcases advance.tasks.runs r hr with hold | goes
      · refine h.kept hs hold hg ?_
        intro _ _ hx
        cases hx
      · have hf := h.begun free closed i a
        rw [goes.id, goes.items, goes.account]
        exact hf
    | missed id i a none =>
      refine h.kept hs hr hg ?_
      intro _ _ hx
      cases hx
      exact List.find?_eq_none.mp none r hr (beq_self_eq_true r.id)
    | polled i a run member _ advance =>
      rcases advance.tasks.runs r hr with hold | goes
      · obtain ⟨hold, hne⟩ := mem_withoutRun.mp hold
        refine h.kept hs hold hg ?_
        intro _ _ hx
        injection hx with hid
        -- The other runs have other numbers, so the poll is none of theirs.
        exact hne hid.symm
      · have hf := h.polled member (goes.generation ▸ hg) i a
        rw [goes.id, goes.items, goes.account]
        exact hf
    | load _ _ _ load =>
      refine h.kept hs (load.tasks.runs ▸ hr) hg ?_
      intro _ _ hx
      cases hx
    | reset => exact absurd rfl he

theorem reset (hs : m.Sound) : m.reset.2.Recorded [] where
  runs r hr hg := by
    have hle := hs.runs_past r hr
    have hg : r.generation = m.core.generation + 1 := hg
    omega
  ahead _ _ t ht := by cases ht

end Recorded
end Machine
end MiningClient.Session
