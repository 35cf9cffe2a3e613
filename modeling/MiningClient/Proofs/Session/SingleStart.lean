import MiningClient.Proofs.Session.Opening

namespace MiningClient.Session.Machine
variable {σ : Type} [Slot σ]

theorem opened_length_le {m : Machine σ} (hs : m.Sound) (es : List Event) (h : .reset ∉ es) :
    ((m.effects es).filterMap Effect.opened?).length ≤ if m.core.phase = .ready then 0 else 1 := by
  -- The bound is on what may still be published, which a ready phase rules out.
  induction es generalizing m with
  | nil => exact Nat.zero_le _
  | cons e es ih =>
    obtain ⟨he, hes⟩ := not_or.mp (List.mem_cons.not.mp h)
    have hrest := ih (hs.step e) hes
    rw [effects_cons, List.filterMap_append, List.length_append]
    rcases step_opens hs e with ⟨opened, -, -, stays⟩ | ⟨id, opened, -, -, closed, ready⟩
    · rw [opened, List.length_nil, Nat.zero_add]
      by_cases hp : m.core.phase = .ready
      · rw [if_pos (stays (Ne.symm he) hp)] at hrest
        rw [if_pos hp]
        exact hrest
      · rw [if_neg hp]
        exact Nat.le_trans hrest (by split <;> omega)
    -- The step that publishes leaves the phase ready, so the rest publishes nothing.
    · rw [if_pos ready] at hrest
      rw [opened, if_neg closed, List.length_singleton]
      omega

theorem opened_nodup {m : Machine σ} (hs : m.Sound) (es : List Event) :
    ((m.effects es).filterMap Effect.opened?).Nodup := by
  induction es generalizing m with
  | nil => exact List.nodup_nil
  | cons e es ih =>
    have hrest := ih (hs.step e)
    rw [effects_cons, List.filterMap_append]
    rcases step_opens hs e with ⟨opened, -, -, -⟩ | ⟨id, opened, -, -, -, -⟩
    · rw [opened]
      exact hrest
    · have hnow : Returned id (m.step e).2 := by
        refine ⟨_, mem_opened.mp ?_⟩
        rw [opened]
        exact List.mem_singleton.mpr rfl
      -- The call is not among the unfinished ones any more, so it does not return later.
      have hgone : ∀ run ∈ (m.step e).1.runs, run.id ≠ id := by
        intro run hr hid
        exact ((step_calls hs e id).mp ⟨run, hr, hid⟩).2 hnow
      have hlater : id ∉ ((m.step e).1.effects es).filterMap Effect.opened? := by
        intro hmem
        exact none_returned (returned_known hs hnow) hgone es _ (mem_opened.mp hmem)
      rw [opened]
      exact List.nodup_cons.mpr ⟨hlater, hrest⟩

/-- The loads that a run starts are two for each call that publishes the first screen. -/
theorem started_eq {m : Machine σ} (hs : m.Sound) (es : List Event) :
    (m.trace es).flatMap Moment.started =
      ((m.effects es).filterMap Effect.opened?).flatMap bothLoads := by
  induction es generalizing m with
  | nil => rfl
  | cons e es ih =>
    rw [trace, List.flatMap_cons, ih (hs.step e), effects_cons, List.filterMap_append,
      List.flatMap_append]
    -- The rest agrees by induction, so the first step is all that is to be compared.
    congr 1
    change Load.newKeys m.loads (m.step e).1.loads = _
    rcases step_opens hs e with ⟨opened, started, -, -⟩ | ⟨id, opened, started, -, -, -⟩
    · rw [opened, started]
      rfl
    · rw [opened, started, List.flatMap_singleton]

theorem asked_eq {m : Machine σ} (hs : m.Sound) (es : List Event) (place : Place) :
    ((m.effects es).filterMap Effect.fetch?).count (.places place) + (m.after es).unasked place =
      m.unasked place + ((m.effects es).filterMap Effect.opened?).length := by
  induction es generalizing m with
  | nil => exact Nat.zero_add _
  | cons e es ih =>
    -- Each step moves as much from unasked to asked as it asks for, and adds one for a publication.
    have hrest := ih (hs.step e)
    rw [effects_cons, after_cons, List.filterMap_append, List.filterMap_append, List.count_append,
      List.length_append]
    rcases step_opens hs e with ⟨opened, -, asks, -⟩ | ⟨id, opened, -, asks, -, -⟩
    · have hnow := asks place
      rw [opened, List.length_nil]
      omega
    · have hnow := asks place
      rw [opened, List.length_singleton]
      omega

/-- What holds of calls for initialization in a state of a session. -/
structure SingleStart (m : Machine σ) : Prop where
  current : m.current = if m.core.phase = .initializing then 1 else 0
  inProgress : m.core.phase = .initializing → ∀ i a, m.step (.start i a) =
    ({ m with nextTask := m.nextTask + 1 },
      [.finished m.nextTask (.run (.ok .alreadyInProgress))])
  ready : m.core.phase = .ready → ∀ i a, m.step (.start i a) =
    ({ m with nextTask := m.nextTask + 1 }, [.finished m.nextTask (.run (.ok .alreadyReady))])
  begins : m.core.phase ≠ .initializing → m.core.phase ≠ .ready → ∀ i a,
    (m.step (.start i a)).2.filterMap Effect.fetch? =
      .items :: if (errorOf? i).isNone then [.account] else []
  others : ∀ e, (∀ i a, e ≠ .start i a) →
    ∀ x ∈ (m.step e).2.filterMap Effect.fetch?, ∃ place, x = .places place
  once : ∀ es, .reset ∉ es → ((m.effects es).filterMap Effect.opened?).length ≤ 1

/-- What the calls and the loads of a whole run add up to. -/
structure Accounts (m : Machine σ) (es : List Event) : Prop where
  unfinished : ∀ id, (∃ r ∈ (m.after es).runs, r.id = id) ↔
    (∃ t ∈ m.trace es, t.begins id) ∧ ¬Returned id (m.effects es)
  opened : ((m.effects es).filterMap Effect.opened?).Nodup
  started : (m.trace es).flatMap Moment.started =
    ((m.effects es).filterMap Effect.opened?).flatMap bothLoads
  asked : ∀ place,
    ((m.effects es).filterMap Effect.fetch?).count (.places place) + (m.after es).unasked place =
      ((m.effects es).filterMap Effect.opened?).length

/-- In every state that a session reaches, one initialization at most is going on for the present
generation. Calls that come in its way or too late do nothing; the others fetch once. One call between
two resets publishes the first screen, and it alone starts loads, one of each kind of places. -/
theorem single_start (credentials : Credentials σ) (es : List Event) :
    ((fresh credentials).after es).SingleStart ∧ (fresh credentials).Accounts es := by
  have hfresh : (fresh credentials).Sound := .fresh credentials
  have hs := hfresh.after es
  constructor
  · refine ⟨hs.runs_single, fun hp i a => start_initializing hp i a,
      fun hp i a => start_ready hp i a, ?_, fun e he => fetches_places he, ?_⟩
    · intro hi hr i a
      change (Machine.start _ i a).2.filterMap Effect.fetch? = _
      rw [start_begins hi hr, List.filterMap_append, (advance_cases _ _ _ _).fetches,
        List.append_nil, fetches_asked]
    · intro rest hrest
      have hle := opened_length_le hs rest hrest
      exact Nat.le_trans hle (by split <;> omega)
  · refine ⟨?_, opened_nodup hfresh es, started_eq hfresh es, ?_⟩
    · intro id
      rw [after_calls hfresh es id]
      simp [fresh]
    · intro place
      rw [asked_eq hfresh es place]
      exact Nat.zero_add _

end MiningClient.Session.Machine
