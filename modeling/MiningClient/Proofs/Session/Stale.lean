import MiningClient.Proofs.Session.Tasks

namespace MiningClient.Session

/-- A poll of a task with a number below `n`. -/
def Event.isOld (n : Nat) : Event → Bool
  | pollRun id _ _ => id < n
  | pollLoad run _ _ => run < n
  | _ => false

/-- The same event, or two polls of one task with a number below `n`, whatever they bring. -/
inductive Event.SameBut (n : Nat) : Event → Event → Prop
  | same (e : Event) : SameBut n e e
  | run (id : Nat) (old : id < n) (i i' : Option ItemsReply) (a a' : Option AccountReply) :
    SameBut n (.pollRun id i a) (.pollRun id i' a')
  | load (run : Nat) (old : run < n) (place : Place) (reply reply' : Option PlacesReply) :
    SameBut n (.pollLoad run place reply) (.pollLoad run place reply')

namespace Machine
variable {σ : Type}

/-- The tasks with numbers below `n` are of generations that are over. -/
structure Over (n : Nat) (m : Machine σ) : Prop where
  known : n ≤ m.nextTask
  runs : ∀ r ∈ m.runs, r.id < n → r.generation < m.core.generation
  loads : ∀ l ∈ m.loads, l.run < n → l.generation < m.core.generation

variable [Slot σ] {n : Nat} {m : Machine σ}

theorem Sound.reset_over (h : m.Sound) : m.reset.2.Over m.nextTask where
  known := Nat.le_refl _
  runs r hr _ := Nat.lt_succ_of_le (h.runs_past r hr)
  loads l hl _ := Nat.lt_succ_of_le (h.loads_past l hl)

theorem Over.step (h : m.Over n) (e : Event) : (m.step e).1.Over n := by
  -- What is not new has kept its number and its generation, and the generation of the machine only
  -- grows.
  have hg := m.step_grown e
  have hknown := h.known
  refine ⟨Nat.le_trans hknown hg.nextTask, fun r hr hlt => ?_, fun l hl hlt => ?_⟩
  · rcases hg.runs r hr with hid | ⟨r', hr', hid, hgen⟩
    · omega
    · have := h.runs r' hr' (hid ▸ hlt)
      have := hg.generation
      omega
  · rcases hg.loads l hl with hid | ⟨l', hl', hid, hgen⟩ | ⟨r, hr, hid, hgen, -⟩
    · omega
    · have := h.loads l' hl' (hid ▸ hlt)
      have := hg.generation
      omega
    · have := h.runs r hr (hid ▸ hlt)
      have := hg.generation
      omega

theorem Over.after (h : m.Over n) (es : List Event) : (m.after es).Over n :=
  after_keeps (fun _ e h => h.step e) h es

omit [Slot σ] in
theorem Advance.core_of_over {run : Run} {i : Option ItemsReply} {a : Option AccountReply}
    {r : Machine σ × List Effect} (h : Advance m run i a r)
    (hg : m.core.generation ≠ run.generation) : r.1.core = m.core := by
  cases h with
  | waiting => rfl
  | failed => exact if_neg hg
  | discarded => rfl
  | opened _ _ _ now => exact absurd now hg

omit [Slot σ] in
theorem PollLoad.core_of_over {run : Nat} {place : Place} {reply : Option PlacesReply}
    {r : Machine σ × List Effect} (h : PollLoad m run place reply r)
    (hg : ∀ l ∈ m.loads, l.run = run → m.core.generation ≠ l.generation) : r.1.core = m.core := by
  cases h with
  | gone => rfl
  | waiting => rfl
  | dropped => rfl
  | settled l found _ now =>
    have hl := isLoad_iff.mp (List.find?_some found)
    exact absurd now (hg l (List.mem_of_find?_eq_some found) hl.1)

theorem Over.core_step (h : m.Over n) {e : Event} (he : e.isOld n) :
    (m.step e).1.core = m.core := by
  have hc := m.step_cases e
  generalize m.step e = r at hc
  cases hc with
  | quiet hq => cases e <;> first | cases he | cases hq
  | answered | begun | reset => cases he
  | missed => rfl
  | polled _ _ run member _ advance =>
    have hlt := h.runs run member (of_decide_eq_true he)
    exact advance.core_of_over (Nat.ne_of_gt hlt)
  | load run _ _ load =>
    refine load.core_of_over fun l hl hrun => ?_
    exact Nat.ne_of_gt (h.loads l hl (hrun ▸ of_decide_eq_true he))

/-- The machine that has forgotten the tasks with numbers below `n`. -/
def since (n : Nat) (m : Machine σ) : Machine σ :=
  { m with
    runs := m.runs.filter fun r => decide (n ≤ r.id)
    loads := m.loads.filter fun l => decide (n ≤ l.run) }

section Forgetting
omit [Slot σ]

theorem since_withRun_old {run : Run} (h : run.id < n) : (m.withRun run).since n = m.since n := by
  simp [since, withRun, List.filter_append, Nat.not_le.mpr h]

theorem since_withRun {run : Run} (h : n ≤ run.id) :
    (m.withRun run).since n = (m.since n).withRun run := by
  simp [since, withRun, List.filter_append, h]

theorem since_withoutRun (id : Nat) : (m.withoutRun id).since n = (m.since n).withoutRun id := by
  simp only [since, withoutRun, List.filter_comm]

theorem since_withoutLoad (run : Nat) (place : Place) :
    (m.withoutLoad run place).since n = (m.since n).withoutLoad run place := by
  simp only [since, withoutLoad, List.filter_comm]

theorem since_withLoadStarted (run : Nat) (place : Place) :
    (m.withLoadStarted run place).since n = (m.since n).withLoadStarted run place := by
  have hf : ((fun l : Load => decide (n ≤ l.run)) ∘ fun l =>
      if isLoad run place l then { l with started := true } else l) = fun l => decide (n ≤ l.run) := by
    funext l
    simp only [Function.comp_apply]
    split <;> rfl
  simp only [since, withLoadStarted, List.filter_map, hf]

theorem withoutRun_since {id : Nat} (h : id < n) : (m.since n).withoutRun id = m.since n := by
  have hf : (m.since n).runs.filter (·.id != id) = (m.since n).runs := by
    refine List.filter_eq_self.mpr fun r hr => bne_iff_ne.mpr ?_
    have := of_decide_eq_true (List.mem_filter.mp hr).2
    omega
  simp only [withoutRun, hf]

theorem isLoad_since {run : Nat} (h : run < n) (place : Place) :
    ∀ l ∈ (m.since n).loads, isLoad run place l = false := by
  intro l hl
  have hle := of_decide_eq_true (List.mem_filter.mp hl).2
  have hne : l.run ≠ run := by omega
  simp [isLoad, hne]

theorem withoutLoad_since {run : Nat} (h : run < n) (place : Place) :
    (m.since n).withoutLoad run place = m.since n := by
  simp only [withoutLoad, filter_others (isLoad_since h place)]

theorem withLoadStarted_since {run : Nat} (h : run < n) (place : Place) :
    (m.since n).withLoadStarted run place = m.since n := by
  simp only [withLoadStarted, map_others (isLoad_since h place)]

theorem since_opened {run : Run} (h : n ≤ run.id) (items : List ItemDescriptor)
    (account : UserAccountInfo) :
    (m.opened run items account).since n = (m.since n).opened run items account := by
  simp [since, opened, loadsOf, List.filter_append, h]

theorem since_advance {run : Run} (h : n ≤ run.id) (i : Option ItemsReply)
    (a : Option AccountReply) :
    (m.since n).advance run i a = ((m.advance run i a).1.since n, (m.advance run i a).2) := by
  -- The core stays when tasks are forgotten, and the run in hand is not one of them.
  have hc : (m.since n).core = m.core := rfl
  unfold advance
  cases hp : run.poll i a with
  | waiting run' =>
    have hid : n ≤ run'.id := (Run.poll_waiting hp).id ▸ h
    exact Prod.ext (since_withRun hid).symm rfl
  | failed e => rfl
  | complete items account =>
    simp only [Core.publish?_eq, hc]
    by_cases hg : m.core.generation = run.generation
    · rw [if_pos hg]
      exact Prod.ext (since_opened h items account).symm rfl
    · rw [if_neg hg]

theorem find?_run_since {id : Nat} (h : n ≤ id) :
    (m.since n).runs.find? (·.id == id) = m.runs.find? (·.id == id) := by
  rw [since, List.find?_filter]
  congr 1
  funext r
  by_cases hr : r.id = id
  · simp [hr, h]
  · simp [hr]

theorem find?_load_since {run : Nat} (h : n ≤ run) (place : Place) :
    (m.since n).loads.find? (isLoad run place) = m.loads.find? (isLoad run place) := by
  rw [since, List.find?_filter]
  congr 1
  funext l
  by_cases hl : l.run = run
  · have hd : decide (n ≤ l.run) = true := decide_eq_true (hl ▸ h)
    simp [hd]
  · have hf : isLoad run place l = false := by simp [isLoad, hl]
    simp [hf]

theorem since_start (h : n ≤ m.nextTask) (i : Option ItemsReply) (a : Option AccountReply) :
    (m.since n).start i a = ((m.start i a).1.since n, (m.start i a).2) := by
  by_cases hi : m.core.phase = .initializing
  · rw [start_initializing hi, start_initializing (m := m.since n) hi]
    rfl
  · by_cases hr : m.core.phase = .ready
    · rw [start_ready hr, start_ready (m := m.since n) hr]
      rfl
    -- The run that begins has the next number, so it is not forgotten.
    · have ha : (m.since n).begun.advance (m.since n).newRun i (askedAccount i a) = _ :=
        since_advance (m := m.begun) h i (askedAccount i a)
      rw [start_begins hi hr, start_begins (m := m.since n) hi hr, ha]
      rfl

theorem since_pollRun {id : Nat} (h : n ≤ id) (i : Option ItemsReply) (a : Option AccountReply) :
    (m.since n).pollRun id i a = ((m.pollRun id i a).1.since n, (m.pollRun id i a).2) := by
  -- The search finds the same run, since only others are forgotten.
  have hs := find?_run_since (m := m) h
  cases hf : m.runs.find? (·.id == id) with
  | none => rw [pollRun_of_none hf, pollRun_of_none (hs.trans hf)]
  | some run =>
    have hid : run.id = id := by simpa using List.find?_some hf
    rw [pollRun_of_some hf, pollRun_of_some (hs.trans hf), ← since_withoutRun]
    exact since_advance (hid ▸ h) i a

theorem since_pollLoad {run : Nat} (h : n ≤ run) (place : Place) (reply : Option PlacesReply) :
    (m.since n).pollLoad run place reply =
      ((m.pollLoad run place reply).1.since n, (m.pollLoad run place reply).2) := by
  have hs := find?_load_since (m := m) h place
  have hw := since_withLoadStarted (m := m) (n := n) run place
  have hd := since_withoutLoad (m := m) (n := n) run place
  unfold pollLoad
  rw [hs]
  cases m.loads.find? (isLoad run place) with
  | none => rfl
  | some l =>
    cases reply with
    | none => exact Prod.ext hw.symm rfl
    | some result =>
      have hc : (m.since n).core = m.core := rfl
      simp only [Core.settle?_eq, hc]
      by_cases hg : m.core.generation = l.generation
      · rw [if_pos hg]
        refine Prod.ext ?_ rfl
        exact congrArg (fun m' => { m' with core := m.core.settled place result }) hd.symm
      · rw [if_neg hg]
        exact Prod.ext hd.symm rfl

theorem since_pollWaiter (id : Nat) :
    (m.since n).pollWaiter id = ((m.pollWaiter id).1.since n, (m.pollWaiter id).2) := by
  have hw : (m.since n).waiters = m.waiters := rfl
  have hc : (m.since n).core = m.core := rfl
  unfold pollWaiter
  rw [hw, hc]
  cases m.waiters.find? (·.id == id) with
  | none => rfl
  | some w =>
    cases hw : w.awaited with
    | ready =>
      simp only [hw]
      rcases seek m.core.ready w.subscription (· == true) with ⟨_ | a, ready⟩ <;> rfl
    | locations =>
      simp only [hw]
      rcases seek m.core.loads w.subscription Loads.isSettled with ⟨_ | a, loads⟩ <;> rfl

theorem since_dropWaiter (id : Nat) : (m.since n).dropWaiter id = (m.dropWaiter id).since n := by
  have hw : (m.since n).waiters = m.waiters := rfl
  unfold dropWaiter
  rw [hw]
  cases m.waiters.find? (·.id == id) <;> rfl

theorem since_leave (feed : Core.Feed) (id : Nat) :
    (m.since n).leave feed id = (m.leave feed id).since n := by
  -- Whether a follower is watched by a waiting task has nothing to do with runs and loads.
  have hw : (m.since n).isWatched feed id = m.isWatched feed id := rfl
  unfold leave
  rw [hw]
  split <;> rfl

end Forgetting

theorem since_step (h : n ≤ m.nextTask) {e : Event} (he : e.isOld n = false) :
    (m.since n).step e = ((m.step e).1.since n, (m.step e).2) := by
  -- Only polls look for a task; the other events do not see what is forgotten.
  cases e with
  | start i a => exact since_start h i a
  | pollRun id i a => exact since_pollRun (by simpa [Event.isOld] using he) i a
  | pollLoad run place reply => exact since_pollLoad (by simpa [Event.isOld] using he) place reply
  | reset => rfl
  | await awaited => exact since_pollWaiter (m := m.joined awaited) m.nextTask
  | pollWaiter id => exact since_pollWaiter id
  | dropWaiter id => exact Prod.ext (since_dropWaiter id) rfl
  | follow feed => rfl
  | leave feed id => exact Prod.ext (since_leave feed id) rfl

theorem Over.since_step (h : m.Over n) {e : Event} (he : e.isOld n) :
    (m.step e).1.since n = m.since n := by
  have hc := m.step_cases e
  generalize m.step e = r at hc
  cases hc with
  | quiet hq => cases e <;> first | cases he | cases hq
  | answered | begun | reset => cases he
  | missed => rfl
  | polled _ _ run member _ advance =>
    have hold : run.id < n := of_decide_eq_true he
    have hgone : (m.withoutRun run.id).since n = m.since n :=
      (since_withoutRun run.id).trans (withoutRun_since hold)
    have hover : m.core.generation ≠ run.generation := Nat.ne_of_gt (h.runs run member hold)
    -- It goes on among the forgotten or ends, and either way the core stays.
    cases advance with
    | waiting run' goes => exact (since_withRun_old (goes.id ▸ hold)).trans hgone
    | failed e =>
      have hf : m.core.fail run.generation e = m.core := if_neg hover
      change Machine.since n { m.withoutRun run.id with core := m.core.fail run.generation e } = _
      rw [hf]
      exact hgone
    | discarded => exact hgone
    | opened _ _ _ now => exact absurd now hover
  | load run place reply load =>
    have hold : run < n := of_decide_eq_true he
    cases load with
    | gone => rfl
    | waiting => exact (since_withLoadStarted run place).trans (withLoadStarted_since hold place)
    | dropped => exact (since_withoutLoad run place).trans (withoutLoad_since hold place)
    | settled l found _ now =>
      have hl := isLoad_iff.mp (List.find?_some found)
      have hlt := h.loads l (List.mem_of_find?_eq_some found) (hl.1 ▸ hold)
      exact absurd now (Nat.ne_of_gt hlt)

/-- A run goes as it would without the polls of the tasks that are over. -/
theorem Over.since_after (h : m.Over n) (es : List Event) :
    (m.after es).since n = (m.since n).after (es.filter fun e => !e.isOld n) := by
  -- Old polls drop out on the right, and all other events commute with forgetting.
  induction es generalizing m with
  | nil => rfl
  | cons e es ih =>
    rw [after_cons, ih (h.step e)]
    cases he : e.isOld n with
    | true => rw [h.since_step he, List.filter_cons_of_neg (by simp [he])]
    | false =>
      rw [List.filter_cons_of_pos (by simp [he]), after_cons, Machine.since_step h.known he]

theorem Over.core_after (h : m.Over n) {es es' : List Event}
    (hs : List.Forall₂ (Event.SameBut n) es es') : (m.after es).core = (m.after es').core := by
  have hf : (es.filter fun e => !e.isOld n) = es'.filter fun e => !e.isOld n := by
    induction hs with
    | nil => rfl
    | cons he _ ih =>
      cases he with
      | same e => rw [List.filter_cons, List.filter_cons, ih]
      | run id old =>
        have ho : ∀ i a, (Event.pollRun id i a).isOld n = true := fun _ _ => decide_eq_true old
        rw [List.filter_cons_of_neg (by simp [ho]), List.filter_cons_of_neg (by simp [ho]), ih]
      | load run old =>
        have ho : ∀ p r, (Event.pollLoad run p r).isOld n = true := fun _ _ => decide_eq_true old
        rw [List.filter_cons_of_neg (by simp [ho]), List.filter_cons_of_neg (by simp [ho]), ih]
  -- What is left of both runs is the same, and forgetting tasks leaves the core.
  have hsame : (m.after es).since n = (m.after es').since n := by
    rw [h.since_after es, h.since_after es', hf]
  change ((m.after es).since n).core = ((m.after es').since n).core
  rw [hsame]

end Machine
end MiningClient.Session
