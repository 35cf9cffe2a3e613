import MiningClient.Proofs.Session.Returning

namespace MiningClient.Session.Machine
variable {σ : Type} [Slot σ] {m : Machine σ}

theorem generation_after (m : Machine σ) (es : List Event) :
    m.core.generation ≤ (m.after es).core.generation ∧
      ((m.after es).core.generation = m.core.generation ↔ .reset ∉ es) := by
  induction es generalizing m with
  | nil => simp
  | cons e es ih =>
    obtain ⟨hle, hiff⟩ := ih (m.step e).1
    rw [after_cons, List.mem_cons, not_or]
    -- A reset adds one for good, and nothing else changes the generation.
    by_cases he : e = .reset
    · subst he
      have hg : (m.step .reset).1.core.generation = m.core.generation + 1 := rfl
      rw [hg] at hle
      refine ⟨by omega, ?_⟩
      constructor
      · intro h
        omega
      · rintro ⟨h, -⟩
        exact absurd rfl h
    · rw [m.generation_step he] at hle hiff
      exact ⟨hle, hiff.trans (and_iff_right (Ne.symm he)).symm⟩

theorem Done.not_returned {id : Nat} (h : m.Done (.run id)) (es : List Event) :
    ¬Returned id (m.effects es) := by
  rintro ⟨result, hx⟩
  exact none_returned h.1 h.2 es result hx

theorem done_of_returned_after (hs : m.Sound) {id : Nat} {es : List Event}
    (h : Returned id (m.effects es)) : (m.after es).Done (.run id) := by
  induction es generalizing m with
  | nil => exact absurd h (not_returned_nil id)
  | cons e es ih =>
    rw [effects_cons, returned_append] at h
    rcases h with h | h
    · exact (done_of_returned hs h).after (hs.step e) es
    · exact ih (hs.step e) h

theorem returned_iff (hs : m.Sound) {id : Nat} {wait : List Event} {e : Event}
    {result : Except Error Outcome}
    (hr : .finished id (.run result) ∈ ((m.after wait).step e).2) (rest : List Event)
    (result' : Except Error Outcome) :
    .finished id (.run result') ∈ m.effects (wait ++ e :: rest) ↔
      .finished id (.run result') ∈ ((m.after wait).step e).2 := by
  -- A call that had returned before would be done, and so it would be if it returned now.
  have hbefore : .finished id (.run result') ∉ m.effects wait := by
    intro hx
    refine (done_of_returned_after hs ⟨_, hx⟩).not_returned [e] ⟨result, ?_⟩
    rw [effects_cons, effects_nil, List.append_nil]
    exact hr
  have hlater : .finished id (.run result') ∉ ((m.after wait).step e).1.effects rest := by
    intro hx
    exact (done_of_returned (hs.after wait) ⟨_, hr⟩).not_returned rest ⟨_, hx⟩
  rw [effects_append, effects_cons, List.mem_append, List.mem_append, or_iff_right hbefore,
    or_iff_left hlater]

/-- A failed call stays so until there is a reset or another call. -/
theorem Sound.failed_step (hs : m.Sound) {message : String} (hp : m.core.phase = .failed message)
    {e : Event} (hreset : e ≠ .reset) (hstart : ∀ i a, e ≠ .start i a) :
    (m.step e).1.core.phase = .failed message := by
  have hc := m.step_cases e
  generalize m.step e = r at hc
  cases hc with
  | quiet _ still => exact still.phase.trans hp
  | answered i a | begun i a => exact absurd rfl (hstart i a)
  | missed => exact hp
  | polled i a run _ found advance =>
    -- While the phase is not that of an initialization, no run is of the present generation.
    have hover : (m.withoutRun run.id).core.generation ≠ run.generation := by
      intro now
      have hi : m.core.phase = .initializing := ((hs.resumed found).alone now).1
      rw [hp] at hi
      cases hi
    rw [advance.core_of_over hover]
    exact hp
  | load _ _ _ load => exact load.opened.2.trans hp
  | reset => exact absurd rfl hreset

theorem Sound.failed_after (hs : m.Sound) {message : String} (hp : m.core.phase = .failed message)
    {es : List Event} (hreset : .reset ∉ es) (hstart : ∀ i a, .start i a ∉ es) :
    (m.after es).core.phase = .failed message := by
  induction es generalizing m with
  | nil => exact hp
  | cons e es ih =>
    obtain ⟨he, hreset⟩ := not_or.mp (List.mem_cons.not.mp hreset)
    have hstarts : ∀ i a, e ≠ .start i a := by
      rintro i a rfl
      exact hstart i a List.mem_cons_self
    refine ih (hs.step e) (hs.failed_step hp (Ne.symm he) hstarts) hreset ?_
    intro i a hmem
    exact hstart i a (List.mem_cons_of_mem _ hmem)

/-- What the call that begins in `m` comes to, by what its own two fetches bring. -/
inductive Concludes (m : Machine σ) (es : List Event) : Prop
  | pending (missing : itemsFor m.nextTask (m.trace es) = none ∨
      accountFor m.nextTask (m.trace es) = none)
    (well : ∀ d, itemsFor m.nextTask (m.trace es) ≠ some (.error d) ∧
      accountFor m.nextTask (m.trace es) ≠ some (.error d))
    (returned : ¬Returned m.nextTask (m.effects es))
  | failed (d : Error) (cause : itemsFor m.nextTask (m.trace es) = some (.error d) ∨
      accountFor m.nextTask (m.trace es) = some (.error d))
    (returned : ∀ result, .finished m.nextTask (.run result) ∈ m.effects es ↔ result = .error d)
  | opened (items : List ItemDescriptor) (account : UserAccountInfo)
    (hasItems : itemsFor m.nextTask (m.trace es) = some (.ok items))
    (hasAccount : accountFor m.nextTask (m.trace es) = some (.ok account))
    (returned : ∀ result,
      .finished m.nextTask (.run result) ∈ m.effects es ↔ result = .ok .initialized)
    (shown : ∃ wait e rest, es = wait ++ e :: rest ∧
      .finished m.nextTask (.run (.ok .initialized)) ∈ ((m.after wait).step e).2 ∧
      ((m.after wait).step e).1.core.ready.value = true ∧
      ((m.after wait).step e).1.core.state.value = GameState.withFirstScreen {} items account)

theorem Waits.concludes (hs : m.Sound) {es : List Event} {run : Run} (h : m.Waits es run) :
    m.Concludes es := by
  -- It is still among the runs, so it has not returned, and something is missing.
  refine .pending ?_ ?_ ?_
  · rw [← h.items, ← h.account]
    rcases (hs.after es).runs_missing run h.member with hm | hm
    · exact .inl (by rw [Run.heldItems, hm]; rfl)
    · exact .inr (by rw [Run.heldAccount, hm]; rfl)
  · intro d
    rw [← h.items, ← h.account]
    exact ⟨run.heldItems_ne d, run.heldAccount_ne d⟩
  · intro hreturned
    exact (done_of_returned_after hs hreturned).2 run h.member h.id

theorem Ends.failed_returned (hs : m.Sound) {wait : List Event} {e : Event} {m₀ : Machine σ}
    {run : Run} {i : Option ItemsReply} {a : Option AccountReply} (h : m.Ends wait e m₀ run i a)
    {d : Error} (hp : run.poll i a = .failed d) :
    (∀ result, .finished m.nextTask (.run result) ∈ ((m.after wait).step e).2 ↔
      result = .error d) ∧
    ∀ rest result, .finished m.nextTask (.run result) ∈ m.effects (wait ++ e :: rest) ↔
      result = .error d := by
  have hreturned := (h.resumes.failed hp).1
  rw [h.id] at hreturned
  exact ⟨hreturned, fun rest result =>
    (returned_iff hs ((hreturned _).mpr rfl) rest result).trans (hreturned result)⟩

theorem Ends.concludes (hs : m.Sound) {wait rest : List Event} {e : Event} {m₀ : Machine σ}
    {run : Run} {i : Option ItemsReply} {a : Option AccountReply} (h : m.Ends wait e m₀ run i a)
    (hreset : .reset ∉ wait) : m.Concludes (wait ++ e :: rest) := by
  cases hp : run.poll i a with
  | waiting run' => exact absurd hp (h.ends run')
  | failed d =>
    refine .failed d ?_ ((h.failed_returned hs hp).2 rest)
    rcases Run.poll_failed hp with hx | hx
    · exact .inl (h.itemsFor_of_some hx rest)
    · exact .inr (h.accountFor_of_some hx rest)
  | complete items account =>
    -- Without a reset the run is of the present generation when its answers are there.
    have now : (m.after wait).core.generation = run.generation :=
      ((m.generation_after wait).2.mpr hreset).trans h.generation.symm
    obtain ⟨hreturned, hcore⟩ := h.resumes.opened hp now
    rw [h.id] at hreturned
    obtain ⟨hi, ha⟩ := Run.poll_complete hp
    refine .opened items account (h.itemsFor_of_some hi rest) (h.accountFor_of_some ha rest)
      (fun result => ?_) ⟨wait, e, rest, rfl, (hreturned _).mpr rfl, ?_, ?_⟩
    · rw [returned_iff hs ((hreturned _).mpr rfl), hreturned]
    · rw [hcore]
      rfl
    · -- Nothing has been published since the last reset.
      have hphase := (h.resumes.sound.alone (h.resumes.generation.trans now)).1
      have hblank : m₀.core.state.value = {} :=
        (h.resumes.sound.coherent.blank (by
          change m₀.core.phase ≠ .ready
          rw [hphase]
          exact Phase.noConfusion)).1
      rw [hcore]
      change m₀.core.state.value.withFirstScreen items account = _
      rw [hblank]

theorem Sound.concludes (hs : m.Sound) (free : m.core.phase ≠ .initializing)
    (closed : m.core.phase ≠ .ready) (i : Option ItemsReply) (a : Option AccountReply)
    {es : List Event} (hreset : .reset ∉ es) : m.Concludes (.start i a :: es) := by
  rcases hs.waits_or_ends free closed i a es with ⟨run, h⟩ | ⟨wait, e, rest, _, _, _, _, split, h⟩
  · exact h.concludes hs
  · rw [split]
    -- The end of the call is among the events, so a reset before it would be one of them.
    refine h.concludes hs fun hmem => ?_
    have hwhole : Event.reset ∈ Event.start i a :: es := by
      rw [split]
      exact List.mem_append_left _ hmem
    rcases List.mem_cons.mp hwhole with hx | hx
    · cases hx
    · exact hreset hx

/-- The next call after a failed one: it makes both fetches anew, and goes by what they bring. -/
structure Retries (m : Machine σ) (message : String) : Prop where
  phase : m.core.phase = .failed message
  asks : ∀ i a, (m.step (.start i a)).2.filterMap Effect.fetch? =
    .items :: if (errorOf? i).isNone then [.account] else []
  concludes : ∀ i a es, .reset ∉ es → m.Concludes (.start i a :: es)

theorem Sound.retries (hs : m.Sound) {message : String} (hp : m.core.phase = .failed message) :
    m.Retries message := by
  have free : m.core.phase ≠ .initializing := by
    rw [hp]
    exact Phase.noConfusion
  have closed : m.core.phase ≠ .ready := by
    rw [hp]
    exact Phase.noConfusion
  refine ⟨hp, fun i a => ?_, fun i a es hreset => hs.concludes free closed i a hreset⟩
  change (m.start i a).2.filterMap Effect.fetch? = _
  rw [start_begins free closed, List.filterMap_append, (advance_cases _ _ _ _).fetches,
    List.append_nil, fetches_asked]

/-- The call that begins in `m` fails with `d` in the step `e`, behind the events `wait`. -/
structure FailedCall (m : Machine σ) (wait : List Event) (e : Event) (d : Error) : Prop where
  cause : itemsFor m.nextTask (m.trace (wait ++ [e])) = some (.error d) ∨
    accountFor m.nextTask (m.trace (wait ++ [e])) = some (.error d)
  prompt : ∀ d', itemsFor m.nextTask (m.trace wait) ≠ some (.error d') ∧
    accountFor m.nextTask (m.trace wait) ≠ some (.error d')
  returned : ∀ result,
    .finished m.nextTask (.run result) ∈ ((m.after wait).step e).2 ↔ result = .error d
  once : ∀ rest result,
    .finished m.nextTask (.run result) ∈ m.effects (wait ++ e :: rest) ↔ result = .error d
  silent : ∀ rest, ∀ t ∈ m.trace (wait ++ e :: rest),
    t.begins m.nextTask ∨ t.polls m.nextTask → t.Silent
  phase : .reset ∉ wait → ((m.after wait).step e).1.core.phase = .failed d.text
  overtaken : ∀ before e' after, wait ++ [e] = before ++ e' :: after → .reset ∈ before →
    (∃ i a, e' = .pollRun m.nextTask i a) → ((m.after before).step e').1.core = (m.after before).core
  late : ∀ rest i a, (m.after (wait ++ e :: rest)).step (.pollRun m.nextTask i a) =
    (m.after (wait ++ e :: rest), [])
  retry : .reset ∉ wait → ∀ rest, .reset ∉ rest → (∀ i a, .start i a ∉ rest) →
    (m.after (wait ++ e :: rest)).Retries d.text

theorem core_of_overtaken (hs : m.Sound) {i : Option ItemsReply} {a : Option AccountReply}
    {es : List Event} (hreset : .reset ∈ es) (i' : Option ItemsReply) (a' : Option AccountReply) :
    let m' := m.after (.start i a :: es)
    (m'.step (.pollRun m.nextTask i' a')).1.core = m'.core := by
  intro m'
  obtain ⟨before, after, rfl⟩ := List.append_of_mem hreset
  have hs' : (m.after (.start i a :: before)).Sound := hs.after _
  have hover := hs'.reset_over.after after
  have hm' : m' = (m.after (.start i a :: before)).reset.2.after after :=
    m.after_append (.start i a :: before) (.reset :: after)
  rw [← hm'] at hover
  refine hover.core_step (decide_eq_true ?_)
  -- The number of the call is below all that are given after the reset.
  have hgrown : ((m.step (.start i a)).1.after before).nextTask ≥ (m.step (.start i a)).1.nextTask :=
    after_keeps (P := fun n => n.nextTask ≥ (m.step (.start i a)).1.nextTask)
      (fun n e hn => Nat.le_trans hn (n.step_grown e).nextTask) (Nat.le_refl _) before
  rw [nextTask_start] at hgrown
  exact hgrown

theorem Ends.failed_phase {wait : List Event} {e : Event} {m₀ : Machine σ} {run : Run}
    {i : Option ItemsReply} {a : Option AccountReply} (h : m.Ends wait e m₀ run i a) {d : Error}
    (hp : run.poll i a = .failed d) (hreset : .reset ∉ wait) :
    ((m.after wait).step e).1.core.phase = .failed d.text := by
  have now : m₀.core.generation = run.generation :=
    h.resumes.generation.trans (((m.generation_after wait).2.mpr hreset).trans h.generation.symm)
  rw [(h.resumes.failed hp).2, Core.fail, if_pos now]

theorem Ends.failedCall (hs : m.Sound) {i : Option ItemsReply} {a : Option AccountReply}
    {es wait rest : List Event} {e : Event} {m₀ : Machine σ} {run : Run} {i' : Option ItemsReply}
    {a' : Option AccountReply} (split : .start i a :: es = wait ++ e :: rest)
    (h : m.Ends wait e m₀ run i' a') {d : Error} (hp : run.poll i' a' = .failed d) :
    m.FailedCall wait e d := by
  obtain ⟨hreturned, honce⟩ := h.failed_returned hs hp
  have hdone : ∀ rest, (m.after (wait ++ e :: rest)).Done (.run m.nextTask) := fun rest =>
    done_of_returned_after hs ⟨_, (honce rest _).mpr rfl⟩
  refine ⟨?cause, ?prompt, hreturned, honce, ?silent, h.failed_phase hp, ?overtaken, ?late, ?retry⟩
  case cause =>
    rw [h.itemsFor_eq, h.accountFor_eq]
    exact Run.poll_failed hp
  case prompt =>
    intro d'
    rw [← h.items, ← h.account]
    exact ⟨run.heldItems_ne d', run.heldAccount_ne d'⟩
  case silent =>
    intro rest t ht hof
    obtain ⟨before, e', after, hsplit, rfl⟩ := mem_trace ht
    obtain ⟨m₁, run', i₁, a₁, hid, hresumes⟩ := (hs.after before).resumes hof
    -- The call returns with the failure alone, so no step of it returns with the first screen.
    refine hresumes.silent fun hx => ?_
    have hmem : .finished m.nextTask (.run (.ok .initialized)) ∈ m.effects (wait ++ e :: rest) :=
      List.mem_flatMap.mpr ⟨_, ht, hid ▸ hx⟩
    cases (honce rest _).mp hmem
  case overtaken =>
    rintro (_ | ⟨e₀, before⟩) e' after hsplit hreset ⟨i₁, a₁, rfl⟩
    · cases hreset
    · -- The first of the events is the call itself.
      have hhead : .start i a :: es = e₀ :: (before ++ .pollRun m.nextTask i₁ a₁ :: (after ++ rest)) := by
        rw [split, List.append_cons, hsplit, List.append_assoc]
        rfl
      obtain ⟨rfl, -⟩ := List.cons.inj hhead
      rcases List.mem_cons.mp hreset with hx | hx
      · cases hx
      · exact core_of_overtaken hs hx i₁ a₁
  case late =>
    intro rest i a
    -- A call that has returned is not among the runs any more.
    refine pollRun_of_none (List.find?_eq_none.mpr fun r hr => ?_) i a
    rw [beq_iff_eq]
    exact (hdone rest).2 r hr
  case retry =>
    intro hreset rest hrest hstarts
    rw [after_append, after_cons]
    have hs' := (hs.after wait).step e
    exact (hs'.after rest).retries (hs'.failed_after (h.failed_phase hp hreset) hrest hstarts)

/-- A call begins from a phase that allows one, and a failure comes for a fetch of its: the first
that comes makes it return, and beside the phase there is no trace of it. -/
theorem failed_call_retried (credentials : Credentials σ) (before : List Event)
    (i : Option ItemsReply) (a : Option AccountReply) (es : List Event) (failure : Error) :
    let m := (fresh credentials).after before
    m.core.mayBegin = true →
    itemsFor m.nextTask (m.trace (.start i a :: es)) = some (.error failure) ∨
      accountFor m.nextTask (m.trace (.start i a :: es)) = some (.error failure) →
    ∃ wait e rest d, .start i a :: es = wait ++ e :: rest ∧ m.FailedCall wait e d := by
  intro m may hfailure
  have hs : m.Sound := sound_after credentials before
  obtain ⟨free, closed⟩ := m.core.mayBegin_iff.mp may
  rcases hs.waits_or_ends free closed i a es with
    ⟨run, h⟩ | ⟨wait, e, rest, m₀, run, i', a', split, h⟩
  · -- A call that still waits holds no failure.
    rw [← h.items, ← h.account] at hfailure
    rcases hfailure with hx | hx
    · exact absurd hx (run.heldItems_ne failure)
    · exact absurd hx (run.heldAccount_ne failure)
  -- The end is no success, since one of the fetches has failed.
  · cases hp : run.poll i' a' with
    | waiting run' => exact absurd hp (h.ends run')
    | failed d => exact ⟨wait, e, rest, d, split, h.failedCall hs split hp⟩
    | complete items account =>
      obtain ⟨hi, ha⟩ := Run.poll_complete hp
      rw [split, h.itemsFor_of_some hi rest, h.accountFor_of_some ha rest] at hfailure
      rcases hfailure with hx | hx <;> cases hx

/-- The account cannot be had while the items are still out; the items come too late. -/
def accountRefused : List Event :=
  [.start none none, .pollRun 0 none (some (.error .unauthenticated)), .pollRun 0 (some (.ok [])) none]

theorem failed_call_retried_account :
    let m := fresh ({ slot := ⟨none⟩ } : Credentials MemorySlot)
    m.core.mayBegin = true ∧
      accountFor m.nextTask (m.trace accountRefused) = some (.error .unauthenticated) ∧
      ∃ wait e rest d, accountRefused = wait ++ e :: rest ∧ m.FailedCall wait e d := by
  intro m
  have may : m.core.mayBegin = true := rfl
  have hfailure : accountFor m.nextTask (m.trace accountRefused) = some (.error .unauthenticated) := rfl
  exact ⟨may, hfailure, failed_call_retried _ [] none none _ .unauthenticated may (.inr hfailure)⟩

end MiningClient.Session.Machine
