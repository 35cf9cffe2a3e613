import Mathlib.Data.List.Nodup
import Mathlib.Data.List.Pairwise
import MiningClient.Proofs.Session.Coherence

namespace MiningClient.Session

/-- Two loads are for different places, or of different runs and generations. -/
def Load.Apart (l l' : Load) : Prop :=
  l.place = l'.place → l.generation ≠ l'.generation ∧ l.run ≠ l'.run

namespace Machine
variable {σ : Type}

/-- How many unfinished initializations are of the present generation. -/
def current (m : Machine σ) : Nat := m.runs.countP (·.generation == m.core.generation)

/-- What every step keeps. Of all unfinished tasks only those of the present generation can write. Of
that generation there is at most one initialization, it is there exactly while the phase says so, and
its loads, one for each kind of places, come after it. -/
structure Sound (m : Machine σ) : Prop where
  coherent : m.core.Coherent
  runs_nodup : (m.runs.map (·.id)).Nodup
  runs_known : ∀ r ∈ m.runs, r.id < m.nextTask
  runs_past : ∀ r ∈ m.runs, r.generation ≤ m.core.generation
  runs_missing : ∀ r ∈ m.runs, r.items = none ∨ r.account = none
  runs_single : m.current = if m.core.phase = .initializing then 1 else 0
  loads_known : ∀ l ∈ m.loads, l.run < m.nextTask ∧ ∀ r ∈ m.runs, r.id ≠ l.run
  loads_past : ∀ l ∈ m.loads, l.generation ≤ m.core.generation
  loads_pending : ∀ l ∈ m.loads, l.generation = m.core.generation →
    m.core.phase = .ready ∧ m.core.loads.value.status l.place = .pending
  loads_apart : m.loads.Pairwise Load.Apart

namespace Sound
variable {m : Machine σ}

theorem fresh (credentials : Credentials σ) : (Machine.fresh credentials).Sound where
  coherent := by
    refine ⟨?_, ?_, fun _ => ⟨rfl, rfl⟩, ?_⟩ <;> simp [Machine.fresh]
  runs_nodup := List.nodup_nil
  runs_known := by simp [Machine.fresh]
  runs_past := by simp [Machine.fresh]
  runs_missing := by simp [Machine.fresh]
  runs_single := rfl
  loads_known := by simp [Machine.fresh]
  loads_past := by simp [Machine.fresh]
  loads_pending := by simp [Machine.fresh]
  loads_apart := List.Pairwise.nil

theorem still {m' : Machine σ} (h : m.Sound) (s : Still m m') : m'.Sound where
  coherent := by
    refine ⟨?_, ?_, ?_, ?_⟩
    · rw [s.ready, s.phase]; exact h.coherent.ready
    · rw [s.state, s.phase]; exact h.coherent.loaded
    · rw [s.state, s.phase, s.loaded]; exact h.coherent.blank
    · rw [s.state, s.loaded]; exact h.coherent.merged
  runs_nodup := by rw [s.runs]; exact h.runs_nodup
  runs_known r hr := Nat.lt_of_lt_of_le (h.runs_known r (s.runs ▸ hr)) s.nextTask
  runs_past := by rw [s.runs, s.generation]; exact h.runs_past
  runs_missing := by rw [s.runs]; exact h.runs_missing
  runs_single := by rw [current, s.runs, s.generation, s.phase]; exact h.runs_single
  loads_known l hl := by
    obtain ⟨hk, hr⟩ := h.loads_known l (s.loads ▸ hl)
    exact ⟨Nat.lt_of_lt_of_le hk s.nextTask, by rw [s.runs]; exact hr⟩
  loads_past := by rw [s.loads, s.generation]; exact h.loads_past
  loads_pending := by rw [s.loads, s.generation, s.phase, s.loaded]; exact h.loads_pending
  loads_apart := by rw [s.loads]; exact h.loads_apart

theorem perm (h : m.Sound) {runs : List Run} (hp : runs.Perm m.runs) :
    Sound { m with runs } where
  coherent := h.coherent
  runs_nodup := (hp.map _).nodup_iff.mpr h.runs_nodup
  runs_known r hr := h.runs_known r (hp.subset hr)
  runs_past r hr := h.runs_past r (hp.subset hr)
  runs_missing r hr := h.runs_missing r (hp.subset hr)
  runs_single := (hp.countP_eq _).trans h.runs_single
  loads_known l hl := ⟨(h.loads_known l hl).1, fun r hr => (h.loads_known l hl).2 r (hp.subset hr)⟩
  loads_past := h.loads_past
  loads_pending := h.loads_pending
  loads_apart := h.loads_apart

theorem find_run (h : m.Sound) {run : Run} (hr : run ∈ m.runs) :
    m.runs.find? (·.id == run.id) = some run := by
  cases hf : m.runs.find? (·.id == run.id) with
  | none => exact absurd (beq_self_eq_true run.id) (List.find?_eq_none.mp hf run hr)
  | some other =>
    have hid : other.id = run.id := by simpa using List.find?_some hf
    rw [List.inj_on_of_nodup_map h.runs_nodup (List.mem_of_find?_eq_some hf) hr hid]

theorem withoutRun_perm (h : m.Sound) {id : Nat} {run : Run}
    (hf : m.runs.find? (·.id == id) = some run) :
    ((m.withoutRun id).withRun run).runs.Perm m.runs := by
  obtain ⟨hid, before, rest, heq, hbefore⟩ := List.find?_eq_some_iff_append.mp hf
  have hid : run.id = id := by simpa using hid
  -- No other run has this number, so the filter takes away this one alone.
  have hrest : ∀ r ∈ rest, (r.id != id) = true := by
    intro r hr
    have hn := h.runs_nodup
    rw [heq, List.map_append, List.map_cons] at hn
    have hn := (List.nodup_cons.mp (List.nodup_append.mp hn).2.1).1
    simp only [bne_iff_ne, ne_eq]
    intro he
    exact hn (by rw [hid, ← he]; exact List.mem_map_of_mem hr)
  have hfilter : m.runs.filter (·.id != id) = before ++ rest := by
    rw [heq, List.filter_append, List.filter_cons_of_neg (by simp [hid]),
      List.filter_eq_self.mpr hrest, List.filter_eq_self.mpr]
    intro r hr
    simpa using hbefore r hr
  change (m.runs.filter (·.id != id) ++ [run]).Perm m.runs
  rw [hfilter, heq]
  exact (List.perm_append_singleton run _).trans List.perm_middle.symm

theorem resumed (h : m.Sound) {id : Nat} {run : Run}
    (hf : m.runs.find? (·.id == id) = some run) : ((m.withoutRun id).withRun run).Sound :=
  h.perm (h.withoutRun_perm hf)

theorem forall_withRun {run : Run} {P : Run → Prop} (h : ∀ r ∈ m.runs, P r) (hr : P run) :
    ∀ r ∈ (m.withRun run).runs, P r := by
  intro r hmem
  rcases List.mem_append.mp hmem with hmem | hmem
  · exact h r hmem
  · rw [List.mem_singleton.mp hmem]
    exact hr

theorem waits {run run' : Run} {i : Option ItemsReply} {a : Option AccountReply}
    (h : (m.withRun run).Sound) (g : run.Goes run' i a) : (m.withRun run').Sound where
  coherent := h.coherent
  runs_nodup := by simpa [withRun, g.id] using h.runs_nodup
  runs_known := by simpa [withRun, or_imp, forall_and, g.id] using h.runs_known
  runs_past := by simpa [withRun, or_imp, forall_and, g.generation] using h.runs_past
  runs_missing := by
    apply forall_withRun
    · intro r hr
      exact h.runs_missing r (List.mem_append_left _ hr)
    · exact g.missing
  -- The run counts as before, since it keeps its generation.
  runs_single := by
    have hc : (m.withRun run').current = (m.withRun run).current := by
      simp [current, withRun, List.countP_append, g.generation]
    exact hc.trans h.runs_single
  loads_known l hl := by
    simpa [withRun, or_imp, forall_and, g.id] using h.loads_known l hl
  loads_past := h.loads_past
  loads_pending := h.loads_pending
  loads_apart := h.loads_apart

theorem alone {run : Run} (h : (m.withRun run).Sound) (hg : m.core.generation = run.generation) :
    m.core.phase = .initializing ∧ m.current = 0 := by
  -- The run is counted itself, and the phase allows one.
  have hc : (m.withRun run).current = m.current + 1 := by
    simp [current, withRun, List.countP_append, hg]
  have hs : m.current + 1 = if m.core.phase = .initializing then 1 else 0 :=
    hc.symm.trans h.runs_single
  by_cases hp : m.core.phase = .initializing
  · rw [if_pos hp] at hs
    exact ⟨hp, by omega⟩
  · rw [if_neg hp] at hs
    omega

theorem current_of_over {run : Run} (hg : m.core.generation ≠ run.generation) :
    (m.withRun run).current = m.current := by
  have hf : (run.generation == m.core.generation) = false := beq_false_of_ne (Ne.symm hg)
  simp only [current, withRun, List.countP_append, List.countP_singleton, hf, Bool.false_eq_true,
    if_false, Nat.add_zero]

/-- A run that is not among the runs any more is not missed, if the core takes its end well. -/
theorem ended {run : Run} (h : (m.withRun run).Sound) {core : Core} (hc : core.Coherent)
    (hg : core.generation = m.core.generation)
    (hn : m.current = if core.phase = .initializing then 1 else 0)
    (hl : ∀ l ∈ m.loads, l.generation = m.core.generation →
      core.phase = .ready ∧ core.loads.value.status l.place = .pending) :
    Sound { m with core } := by
  -- Every fact about runs is asked for fewer of them.
  have hold : ∀ r ∈ m.runs, r ∈ (m.withRun run).runs := by
    intro r hr
    exact List.mem_append_left _ hr
  have hids : (m.runs.map (·.id)).Nodup := by
    have hids := h.runs_nodup
    rw [withRun, List.map_append] at hids
    exact (List.nodup_append.mp hids).1
  refine ⟨hc, hids, ?_, ?_, ?_, ?_, ?_, ?_, ?_, h.loads_apart⟩
  · intro r hr
    exact h.runs_known r (hold r hr)
  · rw [hg]
    intro r hr
    exact h.runs_past r (hold r hr)
  · intro r hr
    exact h.runs_missing r (hold r hr)
  · rw [current, hg]
    exact hn
  · intro l hl
    obtain ⟨hk, hr⟩ := h.loads_known l hl
    exact ⟨hk, fun r hmem => hr r (hold r hmem)⟩
  · rw [hg]
    exact h.loads_past
  · rw [hg]
    exact hl

theorem discarded {run : Run} (h : (m.withRun run).Sound) (hg : m.core.generation ≠ run.generation) :
    m.Sound := by
  have hn := (current_of_over hg).symm.trans h.runs_single
  exact h.ended h.coherent rfl hn h.loads_pending

theorem failed {run : Run} (h : (m.withRun run).Sound) (e : Error) :
    Sound { m with core := m.core.fail run.generation e } := by
  -- A run that is overtaken fails without a trace; one of this generation was the only one.
  by_cases hg : m.core.generation = run.generation
  · obtain ⟨hp, hc⟩ := h.alone hg
    have hn : m.core.phase ≠ .ready := by rw [hp]; exact Phase.noConfusion
    have hf : m.core.fail run.generation e = { m.core with phase := .failed e.text } := if_pos hg
    have hcore : Core.Coherent { m.core with phase := .failed e.text } :=
      h.coherent.withPhase hn Phase.noConfusion
    rw [hf]
    refine h.ended hcore rfl hc ?_
    intro l hl hlg
    exact absurd (h.loads_pending l hl hlg).1 hn
  · have hf : m.core.fail run.generation e = m.core := if_neg hg
    rw [hf]
    exact h.discarded hg

/-- The loads of a run that is not among the runs any more, when there are no others of its
generation. -/
theorem withLoads {run : Run} (h : m.Sound) (hknown : run.id < m.nextTask)
    (hgone : ∀ r ∈ m.runs, r.id ≠ run.id) (hg : m.core.generation = run.generation)
    (hfirst : ∀ l ∈ m.loads, l.generation ≠ m.core.generation ∧ l.run ≠ run.id)
    (hp : m.core.phase = .ready) (hl : ∀ place, m.core.loads.value.status place = .pending) :
    Sound { m with loads := m.loads ++ loadsOf run } := by
  have hnew : ∀ l ∈ loadsOf run, l.run = run.id ∧ l.generation = m.core.generation := by
    intro l hl
    simp only [loadsOf, List.mem_cons, List.not_mem_nil, or_false] at hl
    rcases hl with rfl | rfl <;> exact ⟨rfl, hg.symm⟩
  refine ⟨h.coherent, h.runs_nodup, h.runs_known, h.runs_past, h.runs_missing, h.runs_single,
    ?_, ?_, ?_, ?_⟩
  · intro l hl
    rcases List.mem_append.mp hl with hl | hl
    · exact h.loads_known l hl
    · rw [(hnew l hl).1]
      exact ⟨hknown, hgone⟩
  · intro l hl
    rcases List.mem_append.mp hl with hl | hl
    · exact h.loads_past l hl
    · exact Nat.le_of_eq (hnew l hl).2
  · intro l _ _
    exact ⟨hp, hl l.place⟩
  -- The two new loads are for different places, and every older one is of another run and generation.
  · refine List.pairwise_append.mpr ⟨h.loads_apart, ?_, ?_⟩
    · exact List.pairwise_pair.mpr fun he => Place.noConfusion he
    · intro l hl l' hl' _
      rw [(hnew l' hl').1, (hnew l' hl').2]
      exact hfirst l hl

theorem opened {run : Run} (h : (m.withRun run).Sound) (hg : m.core.generation = run.generation)
    (items : List ItemDescriptor) (account : UserAccountInfo) :
    (m.opened run items account).Sound := by
  obtain ⟨hp, hc⟩ := h.alone hg
  have hn : m.core.phase ≠ .ready := by rw [hp]; exact Phase.noConfusion
  have hrun : run ∈ (m.withRun run).runs := List.mem_append_right _ (List.mem_singleton.mpr rfl)
  -- While a run of this generation was going on, no load of it was.
  have hnone : ∀ l ∈ m.loads, l.generation ≠ m.core.generation := by
    intro l hl hlg
    exact hn (h.loads_pending l hl hlg).1
  have hended : Sound { m with core := m.core.shown items account } := by
    apply h.ended (h.coherent.shown items account) rfl hc
    intro l hl hlg
    exact absurd hlg (hnone l hl)
  -- The run has ended by now, and its loads come to a blank record of loads.
  refine hended.withLoads (h.runs_known run hrun) ?_ hg ?_ rfl ?_
  · intro r hr he
    have hids := h.runs_nodup
    rw [withRun, List.map_append] at hids
    exact (List.nodup_append.mp hids).2.2 r.id (List.mem_map_of_mem hr) run.id (by simp) he
  · intro l hl
    exact ⟨hnone l hl, fun he => (h.loads_known l hl).2 run hrun he.symm⟩
  · intro place
    have hb : m.core.loads.value = {} := (h.coherent.blank hn).2
    change m.core.loads.value.status place = .pending
    rw [hb, Loads.status_blank]

theorem advanced {run : Run} {i : Option ItemsReply} {a : Option AccountReply}
    {r : Machine σ × List Effect} (h : (m.withRun run).Sound) (ha : Advance m run i a r) :
    r.1.Sound := by
  cases ha with
  | waiting run' goes => exact h.waits goes
  | failed e => exact h.failed e
  | discarded _ _ _ past => exact h.discarded past
  | opened items account _ now => exact h.opened now items account

theorem begun (h : m.Sound) (hi : m.core.phase ≠ .initializing) (hr : m.core.phase ≠ .ready) :
    (m.begun.withRun m.newRun).Sound := by
  have hc : m.current = 0 := by rw [h.runs_single, if_neg hi]
  refine ⟨h.coherent.withPhase hr Phase.noConfusion, ?_, ?_, ?_, ?_, ?_, ?_, h.loads_past, ?_,
    h.loads_apart⟩
  · change ((m.runs ++ [m.newRun]).map (·.id)).Nodup
    rw [List.map_append]
    refine List.nodup_append.mpr ⟨h.runs_nodup, List.nodup_singleton _, ?_⟩
    -- Every older number is below the one that is given now.
    intro id hid other hother he
    obtain ⟨r, hr, rfl⟩ := List.mem_map.mp hid
    have hlt := h.runs_known r hr
    rw [he, List.mem_singleton.mp hother] at hlt
    exact Nat.lt_irrefl _ hlt
  · apply forall_withRun
    · intro r hr
      exact Nat.lt_succ_of_lt (h.runs_known r hr)
    · exact Nat.lt_succ_self _
  · exact forall_withRun h.runs_past (Nat.le_refl _)
  · exact forall_withRun h.runs_missing (.inl rfl)
  · change (m.runs ++ [m.newRun]).countP (·.generation == m.core.generation) = 1
    have hz : m.runs.countP (·.generation == m.core.generation) = 0 := hc
    rw [List.countP_append, hz]
    simp [newRun]
  · intro l hl
    obtain ⟨hk, hn⟩ := h.loads_known l hl
    exact ⟨Nat.lt_succ_of_lt hk, forall_withRun hn (Nat.ne_of_gt hk)⟩
  · intro l hl hlg
    exact absurd (h.loads_pending l hl hlg).1 hr

theorem withLoadStarted (h : m.Sound) (run : Nat) (place : Place) :
    (m.withLoadStarted run place).Sound := by
  -- The mark is all that changes, and nothing asks for it.
  have hsame : ∀ l ∈ (m.withLoadStarted run place).loads, ∃ l' ∈ m.loads,
      l.run = l'.run ∧ l.place = l'.place ∧ l.generation = l'.generation := by
    intro l hl
    obtain ⟨l', hl', rfl⟩ := List.mem_map.mp hl
    refine ⟨l', hl', ?_⟩
    split <;> exact ⟨rfl, rfl, rfl⟩
  refine ⟨h.coherent, h.runs_nodup, h.runs_known, h.runs_past, h.runs_missing, h.runs_single,
    ?_, ?_, ?_, ?_⟩
  · intro l hl
    obtain ⟨l', hl', hr, -, -⟩ := hsame l hl
    rw [hr]
    exact h.loads_known l' hl'
  · intro l hl
    obtain ⟨l', hl', -, -, hg⟩ := hsame l hl
    rw [hg]
    exact h.loads_past l' hl'
  · intro l hl hlg
    obtain ⟨l', hl', -, hp, hg⟩ := hsame l hl
    rw [hp]
    exact h.loads_pending l' hl' (hg ▸ hlg)
  · refine List.pairwise_map.mpr (h.loads_apart.imp ?_)
    intro l l' hl
    unfold Load.Apart
    split <;> split <;> exact hl

theorem withoutLoad (h : m.Sound) (run : Nat) (place : Place) : (m.withoutLoad run place).Sound where
  coherent := h.coherent
  runs_nodup := h.runs_nodup
  runs_known := h.runs_known
  runs_past := h.runs_past
  runs_missing := h.runs_missing
  runs_single := h.runs_single
  loads_known l hl := h.loads_known l (List.mem_filter.mp hl).1
  loads_past l hl := h.loads_past l (List.mem_filter.mp hl).1
  loads_pending l hl := h.loads_pending l (List.mem_filter.mp hl).1
  loads_apart := h.loads_apart.filter _

/-- A load found by its key, and that no other load of its generation is for its place. -/
theorem loadFound (h : m.Sound) {run : Nat} {place : Place} {l : Load}
    (hf : m.loads.find? (isLoad run place) = some l) :
    l ∈ m.loads ∧ l.run = run ∧ l.place = place ∧
      ∀ l' ∈ (m.withoutLoad run place).loads, l'.generation = l.generation → l'.place ≠ place := by
  have hl := List.mem_of_find?_eq_some hf
  have hk := isLoad_iff.mp (List.find?_some hf)
  refine ⟨hl, hk.1, hk.2, ?_⟩
  intro l' hl' hg hp
  obtain ⟨hm, hn⟩ := List.mem_filter.mp hl'
  have hne : l ≠ l' := by
    rintro rfl
    simp [isLoad, hk.1, hk.2] at hn
  -- Loads for the same places are of different generations.
  have : Std.Symm Load.Apart := ⟨fun _ _ h he => ⟨(h he.symm).1.symm, (h he.symm).2.symm⟩⟩
  exact ((h.loads_apart.forall hl hm hne) (hk.2.trans hp.symm)).1 hg.symm

theorem settled (h : m.Sound) {run : Nat} {place : Place} {l : Load}
    (hf : m.loads.find? (isLoad run place) = some l) (hg : m.core.generation = l.generation)
    (result : PlacesReply) :
    Sound { m.withoutLoad run place with core := m.core.settled place result } := by
  obtain ⟨hl, -, rfl, hother⟩ := h.loadFound hf
  obtain ⟨hp, hs⟩ := h.loads_pending l hl hg.symm
  have hcore : (m.core.settled l.place result).phase = m.core.phase ∧
      (m.core.settled l.place result).generation = m.core.generation := by
    cases result <;> exact ⟨rfl, rfl⟩
  have hw := h.withoutLoad run l.place
  refine ⟨h.coherent.settled hp hs result, hw.runs_nodup, hw.runs_known, ?_, hw.runs_missing, ?_,
    hw.loads_known, ?_, ?_, hw.loads_apart⟩
  · rw [hcore.2]
    exact hw.runs_past
  · rw [current, hcore.1, hcore.2]
    exact hw.runs_single
  · rw [hcore.2]
    exact hw.loads_past
  · rw [hcore.1, hcore.2]
    intro l' hl' hlg
    refine ⟨hp, ?_⟩
    have hne := hother l' hl' (hlg.trans hg)
    -- The other load is for other places, and the mark leaves it pending.
    have hmark : ∀ s, (m.core.loads.value.mark l.place s).status l'.place = .pending := by
      intro s
      rw [Loads.status_mark_of_ne _ _ hne]
      exact (hw.loads_pending l' hl' hlg).2
    cases result <;> exact hmark _

theorem reset [Slot σ] (h : m.Sound) : m.reset.2.Sound := by
  -- Whatever goes on is of an earlier generation now.
  have hruns : ∀ r ∈ m.runs, r.generation ≠ m.core.generation + 1 := fun r hr =>
    Nat.ne_of_lt (Nat.lt_succ_of_le (h.runs_past r hr))
  have hloads : ∀ l ∈ m.loads, l.generation ≠ m.core.generation + 1 := fun l hl =>
    Nat.ne_of_lt (Nat.lt_succ_of_le (h.loads_past l hl))
  refine ⟨.reset m.core, h.runs_nodup, h.runs_known, fun r hr => Nat.le_succ_of_le (h.runs_past r hr),
    h.runs_missing, ?_, h.loads_known, fun l hl => Nat.le_succ_of_le (h.loads_past l hl),
    fun l hl hlg => absurd hlg (hloads l hl), h.loads_apart⟩
  refine List.countP_eq_zero.mpr ?_
  intro r hr
  exact fun he => hruns r hr (beq_iff_eq.mp he)

theorem step [Slot σ] (h : m.Sound) (e : Event) : (m.step e).1.Sound := by
  -- A run in hand is not among the runs, so it is first put there, where the invariant counts it.
  have hc := m.step_cases e
  generalize m.step e = r at hc
  cases hc with
  | quiet _ still => exact h.still still
  | answered => exact h.still ⟨rfl, rfl, rfl, rfl, rfl, rfl, rfl, Nat.le_succ _⟩
  | begun _ _ free closed advance =>
    have hs := (h.begun free closed).advanced advance
    exact hs
  | missed => exact h
  | polled _ _ _ _ found advance => exact (h.resumed found).advanced advance
  | load run place reply load =>
    cases load with
    | gone => exact h
    | waiting => exact h.withLoadStarted run place
    | dropped => exact h.withoutLoad run place
    | settled l found result now => exact h.settled found now result
  | reset => exact h.reset

theorem after [Slot σ] (h : m.Sound) (es : List Event) : (m.after es).Sound :=
  after_keeps (fun _ e h => h.step e) h es

end Sound

variable [Slot σ]

theorem sound_after (credentials : Credentials σ) (es : List Event) :
    ((fresh credentials).after es).Sound := (Sound.fresh credentials).after es

/-- In every state that a session reaches the first screen is there and its followers know, or there
is nothing at all; and then a kind of places is there exactly when its load says so. -/
theorem open_or_blank (credentials : Credentials σ) (es : List Event) :
    let c := ((fresh credentials).after es).core
    Xor c.IsOpen c.IsBlank ∧ (c.IsOpen →
      (c.state.value.mine.isSome ↔ c.loads.value.mine = .loaded) ∧
      (c.state.value.gamble.isSome ↔ c.loads.value.gamble = .loaded)) :=
  (sound_after credentials es).coherent.shape

end Machine
end MiningClient.Session
