import MiningClient.Proofs.Session.Chapter
import MiningClient.Proofs.Session.Fetching
import MiningClient.Proofs.Session.Hearing

namespace MiningClient.Session

section Tells
variable {σ : Type}

/-- What a chapter says has happened among these moments. Its items and its account are those that one
run has fetched which began there; then each kind of places has come to its end at most once. -/
inductive Chapter.Tells (span : List (Moment σ)) : Chapter → Prop
  | blank : Tells span .blank
  | opened (id : Nat) (items : List ItemDescriptor) (account : UserAccountInfo)
      (settled : List (Place × PlacesReply))
      (fetched : Fetched span id (some (.ok items)) (some (.ok account)))
      (once : (settled.map Prod.fst).Nodup)
      (came : ∀ x ∈ settled, ∃ t ∈ span, ∃ run, t.event = .pollLoad run x.1 (some x.2)) :
    Tells span (.opened items account settled)

theorem Chapter.Tells.snoc {span : List (Moment σ)} {c : Chapter} (h : c.Tells span)
    (t : Moment σ) : c.Tells (span ++ [t]) := by
  cases h with
  | blank => exact .blank
  | opened id items account settled fetched once came =>
    refine .opened id items account settled (fetched.snoc t) once ?_
    intro x hx
    obtain ⟨b, hb, hbrings⟩ := came x hx
    exact ⟨b, List.mem_append_left _ hb, hbrings⟩

theorem Chapter.Tells.orderly {span : List (Moment σ)} {c : Chapter} (h : c.Tells span) :
    c.Orderly := by
  cases h with
  | blank => exact orderly_blank
  | opened _ _ _ _ _ once => exact orderly_opened once

end Tells

namespace Machine
variable {σ : Type}

/-- The followers have heard the chapters `told`. They are in chapter `c`, which tells of the moments
`span` and of the values in the cells. -/
structure Story (m : Machine σ) (told : List Chapter) (c : Chapter) (span : List (Moment σ)) :
    Prop where
  heard : m.Heard (told.flatMap Chapter.states ++ c.states)
    (told.flatMap Chapter.readies ++ c.readies) (told.flatMap Chapter.loads ++ c.loads)
  tells : c.Tells span
  blank : c = .blank ↔ m.core.phase ≠ .ready
  state : m.core.state.value = c.state
  loads : m.core.loads.value = c.load

namespace Story
variable {m m' : Machine σ} {told : List Chapter} {c : Chapter} {span : List (Moment σ)}

theorem silent (h : m.Story told c span)
    (hh : m'.Heard (told.flatMap Chapter.states ++ c.states)
      (told.flatMap Chapter.readies ++ c.readies) (told.flatMap Chapter.loads ++ c.loads))
    (hp : m'.core.phase = .ready ↔ m.core.phase = .ready)
    (hs : m'.core.state.value = m.core.state.value)
    (hl : m'.core.loads.value = m.core.loads.value) : m'.Story told c span where
  heard := hh
  tells := h.tells
  blank := by
    rw [ne_eq, hp]
    exact h.blank
  state := hs.trans h.state
  loads := hl.trans h.loads

theorem aside (h : m.Story told c span) {phase : Phase}
    (hp : phase = .ready ↔ m.core.phase = .ready) (runs : List Run) (loads : List Load)
    (nextTask : Nat) :
    Story { m with core := { m.core with phase }, runs, loads, nextTask } told c span :=
  h.silent (h.heard.of_feeds rfl rfl rfl rfl) hp rfl rfl

theorem failed {run : Run} (h : m.Story told c span) (hs : (m.withRun run).Sound) (e : Error) :
    Story { m with core := m.core.fail run.generation e } told c span := by
  unfold Core.fail
  split
  · rename_i hg
    obtain ⟨hp, -⟩ := hs.alone hg
    refine h.aside ?_ m.runs m.loads m.nextTask
    -- The phase of the run was that of an initialization, and becomes that of a failure.
    rw [hp]
    constructor <;> (intro hx; cases hx)
  · exact h

theorem opened {run : Run} (h : m.Story told c span) (hs : (m.withRun run).Sound)
    (hg : m.core.generation = run.generation) {items : List ItemDescriptor}
    {account : UserAccountInfo}
    (hf : Fetched span run.id (some (.ok items)) (some (.ok account))) :
    (m.opened run items account).Story told (.opened items account []) span := by
  obtain ⟨hp, -⟩ := hs.alone hg
  -- Until now the phase was not ready, so nothing has been published in this chapter.
  have hb : c = .blank := by
    apply h.blank.mpr
    rw [hp]
    exact Phase.noConfusion
  subst hb
  have hstate : m.core.state.value = {} := h.state
  have hheard := h.heard.shown items account
  rw [hstate, List.append_assoc, List.append_assoc] at hheard
  refine ⟨hheard.of_feeds rfl rfl rfl rfl, ?_, ?_, ?_, h.loads⟩
  · exact .opened run.id items account [] hf List.nodup_nil (by simp)
  · constructor
    · intro hx
      cases hx
    · intro hx
      exact absurd rfl hx
  · change m.core.state.value.withFirstScreen items account = _
    rw [hstate]
    rfl

theorem advanced {run : Run} {i : Option ItemsReply} {a : Option AccountReply}
    {r : Machine σ × List Effect} (h : m.Story told c span) (hs : (m.withRun run).Sound)
    (hf : m.core.generation = run.generation →
      Fetched span run.id (run.heldItems.or i) (run.heldAccount.or a))
    (ha : Advance m run i a r) : ∃ c, r.1.Story told c span := by
  cases ha with
  | waiting run' => exact ⟨c, h.aside Iff.rfl (m.runs ++ [run']) m.loads m.nextTask⟩
  | failed e => exact ⟨c, h.failed hs e⟩
  | discarded => exact ⟨c, h⟩
  | opened items account poll now =>
    obtain ⟨hi, ha⟩ := Run.poll_complete poll
    have hf := hf now
    rw [hi, ha] at hf
    exact ⟨_, h.opened hs now hf⟩

theorem settled (h : m.Story told c span) {place : Place} (hp : m.core.phase = .ready)
    (hl : m.core.loads.value.status place = .pending) {reply : PlacesReply}
    (hcame : ∃ t ∈ span, ∃ run, t.event = .pollLoad run place (some reply)) (loads : List Load) :
    ∃ c, Story { m with core := m.core.settled place reply, loads } told c span := by
  obtain ⟨heard, tells, blank, state, hloads⟩ := h
  cases tells with
  | blank => exact absurd hp (blank.mp rfl)
  | opened id items account settled fetched once came =>
    -- The load was pending, so its places have not come to their end before.
    have hnew : place ∉ settled.map Prod.fst := by
      rw [hloads] at hl
      exact (Chapter.pending_foldl settled {} hl).2
    refine ⟨.opened items account (settled ++ [(place, reply)]), ?_, ?_, ?_, ?_, ?_⟩
    -- Only places that came publish a state. The end of a load is published in either case.
    · rw [Chapter.loads_settle, ← hloads]
      cases reply with
      | ok locations =>
        have hs := heard.settled_ok place locations
        rw [List.append_assoc, List.append_assoc] at hs
        rw [Chapter.states_settle_ok, ← state]
        exact hs.of_feeds rfl rfl rfl rfl
      | error e =>
        have hs := heard.settled_error place e
        rw [List.append_assoc] at hs
        rw [Chapter.states_settle_error]
        exact hs.of_feeds rfl rfl rfl rfl
    · refine .opened id items account _ fetched ?_ ?_
      · rw [List.map_append]
        exact once.append (List.nodup_singleton place) (by simpa using hnew)
      · intro x hx
        rcases List.mem_append.mp hx with hx | hx
        · exact came x hx
        · rw [List.mem_singleton.mp hx]
          exact hcame
    · have hphase : (m.core.settled place reply).phase = m.core.phase := by cases reply <;> rfl
      change _ ↔ (m.core.settled place reply).phase ≠ .ready
      rw [hphase]
      constructor
      · intro hx
        cases hx
      · intro hx
        exact absurd hp hx
    · cases reply with
      | ok locations =>
        rw [Chapter.state_settle_ok, ← state]
        rfl
      | error e =>
        rw [Chapter.state_settle_error, ← state]
        rfl
    · rw [Chapter.load_settle, ← hloads]
      cases reply <;> rfl

theorem snoc (h : m.Story told c span) (t : Moment σ) : m.Story told c (span ++ [t]) :=
  ⟨h.heard, h.tells.snoc t, h.blank, h.state, h.loads⟩

variable [Slot σ]

theorem step (hs : m.Sound) (hr : m.Recorded span) (h : m.Story told c span) {e : Event}
    (he : e ≠ .reset) (stays : ∀ feed, e ≠ .leave feed 0) :
    ∃ c, (m.step e).1.Story told c (span ++ [⟨m, e⟩]) := by
  have h := h.snoc ⟨m, e⟩
  -- Those who watch publish nothing. Of the others, a run may open the chapter and a load may add to
  -- it.
  by_cases hq : e.isQuiet
  · obtain ⟨still, -⟩ := m.quiet_step hq
    have hh := h.heard.quiet_step hq stays
    exact ⟨c, h.silent hh (by rw [still.phase]) still.state still.loaded⟩
  · have hc := m.step_cases e
    generalize m.step e = r at hc
    cases hc with
    | quiet hq' => exact absurd hq' hq
    | answered => exact ⟨c, h.aside Iff.rfl m.runs m.loads (m.nextTask + 1)⟩
    | begun i a free closed advance =>
      have hb : m.begun.Story told c (span ++ [⟨m, .start i a⟩]) := by
        refine h.aside ?_ m.runs m.loads (m.nextTask + 1)
        constructor
        · intro hx
          cases hx
        · intro hx
          exact absurd hx closed
      have hf := hr.begun free closed i a
      have hx := hb.advanced (hs.begun free closed) (fun _ => hf) advance
      exact hx
    | missed => exact ⟨c, h⟩
    | polled i a run member found advance =>
      have hw : (m.withoutRun run.id).Story told c (span ++ [⟨m, .pollRun run.id i a⟩]) :=
        h.aside Iff.rfl _ m.loads m.nextTask
      refine hw.advanced (hs.resumed found) ?_ advance
      intro hg
      -- What the run holds and what the poll brings is what its fetches brought since the reset.
      exact hr.polled member hg.symm i a
    | load run place reply load =>
      cases load with
      | gone => exact ⟨c, h⟩
      | waiting => exact ⟨c, h.aside Iff.rfl m.runs _ m.nextTask⟩
      | dropped => exact ⟨c, h.aside Iff.rfl m.runs _ m.nextTask⟩
      | settled l found result now =>
        obtain ⟨hl, -, rfl, -⟩ := hs.loadFound found
        obtain ⟨hp, hpend⟩ := hs.loads_pending l hl now.symm
        have hcame : ∃ t ∈ span ++ [⟨m, .pollLoad run l.place (some result)⟩],
            ∃ run, t.event = .pollLoad run l.place (some result) :=
          ⟨_, List.mem_append_right _ (List.mem_singleton.mpr rfl), run, rfl⟩
        exact h.settled hp hpend hcame _
    | reset => exact absurd rfl he

theorem reset (h : m.Story told c span) : m.reset.2.Story (told ++ [c]) .blank [] := by
  have hh := h.heard.reset
  refine ⟨?_, .blank, ?_, rfl, rfl⟩
  · simp only [List.flatMap_append, List.flatMap_singleton]
    exact hh
  · constructor
    · intro _ hx
      cases hx
    · intro _
      rfl

end Story

variable [Slot σ]

/-- With the machine in chapter `c`, the rest of a run tells the rest of `c` and the chapters after. -/
theorem Story.after {m : Machine σ} {told : List Chapter} {c : Chapter} {span : List (Moment σ)}
    (h : m.Story told c span) (hs : m.Sound) (hr : m.Recorded span)
    (hspan : ∀ t ∈ span, t.isReset = false) (es : List Event)
    (stays : ∀ feed, .leave feed 0 ∉ es) :
    ∃ chapters, List.Forall₂ Chapter.Tells ((span ++ m.trace es).splitOnP Moment.isReset) chapters ∧
      (m.after es).Heard ((told ++ chapters).flatMap Chapter.states)
        ((told ++ chapters).flatMap Chapter.readies) ((told ++ chapters).flatMap Chapter.loads) := by
  -- The chapter and its moments grow with every event, until a reset begins the next one.
  induction es generalizing m told c span with
  | nil =>
    refine ⟨[c], ?_, ?_⟩
    · rw [trace, List.append_nil, List.splitOnP_eq_singleton hspan]
      exact .cons h.tells .nil
    · simp only [List.flatMap_append, List.flatMap_singleton]
      exact h.heard
  | cons e es ih =>
    have hstays : ∀ feed, .leave feed 0 ∉ es := by
      intro feed hmem
      exact stays feed (List.mem_cons_of_mem _ hmem)
    by_cases he : e = .reset
    · subst he
      obtain ⟨chapters, htells, hheard⟩ :=
        ih h.reset hs.reset (.reset hs) (by simp) hstays
      refine ⟨c :: chapters, ?_, ?_⟩
      · rw [trace, List.splitOnP_append_cons_of_forall_mem hspan _ rfl]
        exact .cons h.tells htells
      · rw [List.append_assoc] at hheard
        exact hheard
    · have hstep := h.step hs hr he (by
        rintro feed rfl
        exact stays feed List.mem_cons_self)
      obtain ⟨c', h'⟩ := hstep
      have hspan' : ∀ t ∈ span ++ [⟨m, e⟩], t.isReset = false := by
        intro t ht
        rcases List.mem_append.mp ht with ht | ht
        · exact hspan t ht
        · rw [List.mem_singleton.mp ht]
          cases e <;> first | rfl | exact absurd rfl he
      have hrest := ih h' (hs.step e) (hr.step hs he) hspan' hstays
      rw [List.append_assoc] at hrest
      exact hrest

/-- What the first followers of each observable have been given by the end of a run: the chapters of
its sessions, which the resets divide. -/
structure History (m : Machine σ) (es : List Event) (chapters : List Chapter) : Prop where
  sessions : List.Forall₂ (fun span c => c.Tells span ∧ c.Orderly)
    ((m.trace es).splitOnP Moment.isReset) chapters
  states : (m.after es).core.state.queue 0 = chapters.flatMap Chapter.states
  readies : (m.after es).core.ready.queue 0 = chapters.flatMap Chapter.readies
  loads : (m.after es).core.loads.queue 0 = chapters.flatMap Chapter.loads

/-- Whatever happens, those who follow a session from the start and stay are given one chapter after
another, and nothing else. -/
theorem published_history (credentials : Credentials σ) (es : List Event)
    (stays : ∀ feed, .leave feed 0 ∉ es) :
    ∃ chapters, History (followed credentials) es chapters := by
  have hs : (followed credentials).Sound := (Sound.fresh credentials).after _
  have hr : (followed credentials).Recorded [] := by
    refine ⟨?_, ?_⟩
    · intro r hr
      cases hr
    · intro id _ t ht
      cases ht
  have hstory : (followed credentials).Story [] .blank [] :=
    ⟨followed_heard credentials, .blank, by simp [followed, fresh, step, follow, Core.subscribe],
      rfl, rfl⟩
  -- The three queues are read off the cells of the first followers.
  obtain ⟨chapters, htells, hheard⟩ := hstory.after hs hr (by simp) es stays
  refine ⟨chapters, ?_, hheard.state.queue_eq, hheard.ready.queue_eq, hheard.loads.queue_eq⟩
  apply htells.imp
  intro span c h
  exact ⟨h, h.orderly⟩

/-- A session that is opened, gets its mines, and is reset. -/
def visit : List Event :=
  [.start (some (.ok [])) (some (.ok {})), .pollLoad 0 .mine (some (.ok [])), .reset]

theorem published_history_visit :
    let credentials : Credentials MemorySlot := { slot := ⟨none⟩ }
    (∀ feed, Event.leave feed 0 ∉ visit) ∧
      ∃ chapters, History (followed credentials) visit chapters := by
  intro credentials
  have hstays : ∀ feed, Event.leave feed 0 ∉ visit := by
    intro feed
    simp [visit]
  exact ⟨hstays, published_history credentials visit hstays⟩

end Machine
end MiningClient.Session
