import Mathlib.Data.List.DropRight
import MiningClient.Proofs.Session.Merging
import MiningClient.Session.Task

namespace MiningClient.Session

section Lately
variable {σ : Type}

/-- The moments since the last reset. -/
def lately (ts : List (Moment σ)) : List (Moment σ) := ts.rtakeWhile fun t => !t.isReset

theorem lately_snoc (ts : List (Moment σ)) {t : Moment σ} (h : t.isReset = false) :
    lately (ts ++ [t]) = lately ts ++ [t] :=
  List.rtakeWhile_concat_pos _ _ _ (by simp [h])

theorem lately_reset (ts : List (Moment σ)) {t : Moment σ} (h : t.isReset = true) :
    lately (ts ++ [t]) = [] :=
  List.rtakeWhile_concat_neg _ _ _ (by simp [h])

theorem isReset_eq_false {m : Machine σ} {e : Event} (h : e ≠ .reset) :
    Moment.isReset ⟨m, e⟩ = false := by
  cases e <;> first | rfl | exact absurd rfl h

variable [Slot σ]

def loadsLately (ts : List (Moment σ)) : List (Nat × Place) := (lately ts).flatMap Moment.started

theorem loadsLately_snoc (ts : List (Moment σ)) {t : Moment σ} (h : t.isReset = false) :
    loadsLately (ts ++ [t]) = loadsLately ts ++ t.started := by
  rw [loadsLately, lately_snoc ts h, List.flatMap_append, List.flatMap_singleton]
  rfl

theorem loadsLately_reset (ts : List (Moment σ)) {t : Moment σ} (h : t.isReset = true) :
    loadsLately (ts ++ [t]) = [] := by
  rw [loadsLately, lately_reset ts h]
  rfl

end Lately

namespace Machine
variable {σ : Type} [Slot σ] {m : Machine σ}

theorem mem_started {e : Event} {l : Load} (hl : l ∈ (m.step e).1.loads)
    (hn : ∀ l' ∈ m.loads, l'.run ≠ l.run) : l.key ∈ Moment.started ⟨m, e⟩ := by
  refine List.mem_filter.mpr ⟨List.mem_map_of_mem hl, ?_⟩
  have hnot : l.key ∉ m.loads.map Load.key := by
    intro hmem
    obtain ⟨l', hl', hkey⟩ := List.mem_map.mp hmem
    exact hn l' hl' (congrArg Prod.fst hkey)
  simp [hnot]

/-- A load that a step has started, for a run of the present generation. -/
structure Starts (m : Machine σ) (e : Event) (l : Load) : Prop where
  started : l.key ∈ Moment.started ⟨m, e⟩
  generation : l.generation = m.core.generation
  run : l.run = m.nextTask ∨ ∃ r ∈ m.runs, r.id = l.run

theorem Sound.load_origin (hs : m.Sound) (e : Event) {l : Load} (hl : l ∈ (m.step e).1.loads) :
    (∃ l' ∈ m.loads, l.key = l'.key ∧ l.generation = l'.generation) ∨ m.Starts e l := by
  have hstarted := mem_started hl
  have hc := m.step_cases e
  generalize m.step e = r at hc hl
  cases hc with
  | quiet _ still => exact .inl ⟨l, still.loads ▸ hl, rfl, rfl⟩
  | answered | missed | reset => exact .inl ⟨l, hl, rfl, rfl⟩
  | begun i a _ _ advance =>
    rcases advance.tasks.loads l hl with hold | ⟨hrun, hg, -⟩
    · exact .inl ⟨l, hold, rfl, rfl⟩
    -- The run has just got its number, and no load has it yet.
    · refine .inr ⟨hstarted fun l' hl' => ?_, hg, .inl hrun⟩
      rw [hrun]
      exact Nat.ne_of_lt (hs.loads_known l' hl').1
  | polled i a run member _ advance =>
    rcases advance.tasks.loads l hl with hold | ⟨hrun, hg, now⟩
    · exact .inl ⟨l, hold, rfl, rfl⟩
    -- A run that still goes on has no loads.
    · refine .inr ⟨hstarted fun l' hl' => ?_, hg.trans now.symm, .inr ⟨run, member, hrun.symm⟩⟩
      rw [hrun]
      exact ((hs.loads_known l' hl').2 run member).symm
  | load _ _ _ load => exact .inl (load.tasks.loads l hl)

/-- A task that has been numbered and is not going on. Its number is not given again. -/
def Done (m : Machine σ) : Task → Prop
  | .run id => id < m.nextTask ∧ ∀ r ∈ m.runs, r.id ≠ id
  | .load run place =>
    (run < m.nextTask ∧ ∀ r ∈ m.runs, r.id ≠ run) ∧ ∀ l ∈ m.loads, l.key ≠ (run, place)

theorem Done.run_step {id : Nat} (h : m.Done (.run id)) (e : Event) :
    (m.step e).1.Done (.run id) := by
  obtain ⟨hk, hn⟩ := h
  have hg := m.step_grown e
  refine ⟨Nat.lt_of_lt_of_le hk hg.nextTask, fun r hr he => ?_⟩
  rcases hg.runs r hr with hnew | ⟨r', hr', hid, -⟩
  · omega
  · exact hn r' hr' (hid.symm.trans he)

theorem Done.step (hs : m.Sound) {task : Task} (h : m.Done task) (e : Event) :
    (m.step e).1.Done task := by
  cases task with
  | run id => exact run_step h e
  | load run place =>
    obtain ⟨hrun, hno⟩ := h
    refine ⟨run_step hrun e, fun l hl hkey => ?_⟩
    have hid : l.run = run := congrArg Prod.fst hkey
    -- A load that is there afterwards was there before or is of a run that still went on.
    rcases hs.load_origin e hl with ⟨l', hl', hsame, -⟩ | ⟨-, -, hnew | ⟨r, hr, hold⟩⟩
    · exact hno l' hl' (hsame.symm.trans hkey)
    · have := hrun.1
      omega
    · exact hrun.2 r hr (hold.trans hid)

theorem Done.after (hs : m.Sound) {task : Task} (h : m.Done task) (es : List Event) :
    (m.after es).Done task := by
  induction es generalizing m with
  | nil => exact h
  | cons e es ih => exact ih (hs.step e) (h.step hs e)

theorem done_of_returned (hs : m.Sound) {e : Event} {id : Nat} (h : Returned id (m.step e).2) :
    (m.step e).1.Done (.run id) :=
  ⟨returned_known hs h, fun r hr hid => ((step_calls hs e id).mp ⟨r, hr, hid⟩).2 h⟩

/-- A step leaves the statuses of the loads, or it takes the end of one that is of the present
generation. -/
inductive Marks (m : Machine σ) (e : Event) (loads : Loads) : Prop
  | none (same : loads = m.core.loads.value)
  | one (l : Load) (member : l ∈ m.loads) (now : l.generation = m.core.generation)
    (reply : PlacesReply) (event : e = .pollLoad l.run l.place (some reply))
    (marked : loads = m.core.loads.value.mark l.place (.ofReply reply))

omit [Slot σ] in
theorem Advance.loads_value {run : Run} {i : Option ItemsReply} {a : Option AccountReply}
    {r : Machine σ × List Effect} (h : Advance m run i a r) :
    r.1.core.loads.value = m.core.loads.value := by
  cases h with
  | waiting | discarded | opened => rfl
  | failed e =>
    change (m.core.fail run.generation e).loads.value = _
    unfold Core.fail
    split <;> rfl

theorem Sound.marks (hs : m.Sound) {e : Event} (he : e ≠ .reset) :
    Marks m e (m.step e).1.core.loads.value := by
  have hc := m.step_cases e
  generalize m.step e = r at hc
  cases hc with
  | quiet _ still => exact .none still.loaded
  | answered | missed => exact .none rfl
  | begun _ _ _ _ advance => exact .none advance.loads_value
  | polled _ _ _ _ _ advance => exact .none advance.loads_value
  | load run place reply load =>
    cases load with
    | gone | waiting | dropped => exact .none rfl
    | settled l found result now =>
      obtain ⟨hl, rfl, rfl, -⟩ := hs.loadFound found
      exact .one l hl now.symm result rfl (by cases result <;> rfl)
  | reset => exact absurd rfl he

/-- A load that was started since the last reset has got this reply since then. -/
structure Brings (ts : List (Moment σ)) (run : Nat) (place : Place) (reply : PlacesReply) : Prop where
  started : (run, place) ∈ loadsLately ts
  replied : ∃ t ∈ lately ts, t.event = .pollLoad run place (some reply) ∧
    t.machine.isGoing (.load run place) = true

theorem Brings.snoc {ts : List (Moment σ)} {run : Nat} {place : Place} {reply : PlacesReply}
    (h : Brings ts run place reply) {t : Moment σ} (ht : t.isReset = false) :
    Brings (ts ++ [t]) run place reply := by
  obtain ⟨hstarted, t', ht', hreply⟩ := h
  refine ⟨?_, t', ?_, hreply⟩
  · rw [loadsLately_snoc ts ht]
    exact List.mem_append_left _ hstarted
  · rw [lately_snoc ts ht]
    exact List.mem_append_left _ ht'

/-- The moments so far tell of the loads of the present generation. -/
structure Remembers (m : Machine σ) (ts : List (Moment σ)) : Prop where
  current : ∀ l ∈ m.loads, l.generation = m.core.generation ↔ l.key ∈ loadsLately ts
  single : loadsLately ts = [] ∨ m.core.phase = .ready ∧ ∃ id, loadsLately ts = bothLoads id
  settled : ∀ place, m.core.loads.value.status place ≠ .pending →
    ∃ run reply, Brings ts run place reply ∧
      m.core.loads.value.status place = .ofReply reply

namespace Remembers
variable {ts : List (Moment σ)}

theorem fresh (credentials : Credentials σ) : (Machine.fresh credentials).Remembers [] where
  current l hl := by cases hl
  single := .inl rfl
  settled place h := absurd (Loads.status_blank place) h

theorem reset (hs : m.Sound) (ts : List (Moment σ)) :
    m.reset.2.Remembers (ts ++ [⟨m, .reset⟩]) where
  current l hl := by
    -- Every load is of an earlier generation now, and the moments start anew.
    have hpast : l.generation ≤ m.core.generation := hs.loads_past l hl
    rw [loadsLately_reset ts rfl]
    constructor
    · intro hg
      have hg : l.generation = m.core.generation + 1 := hg
      omega
    · intro hmem
      cases hmem
  single := .inl (loadsLately_reset ts rfl)
  settled place h := absurd (Loads.status_blank place) h

theorem current_step (hs : m.Sound) (h : m.Remembers ts) {e : Event} (he : e ≠ .reset) :
    ∀ l ∈ (m.step e).1.loads, l.generation = (m.step e).1.core.generation ↔
      l.key ∈ loadsLately (ts ++ [⟨m, e⟩]) := by
  intro l hl
  rw [m.generation_step he, loadsLately_snoc ts (isReset_eq_false he), List.mem_append]
  rcases hs.load_origin e hl with ⟨l', hl', hkey, hg⟩ | ⟨hnew, hg, -⟩
  · -- A load that was there before is none of those that are started now.
    have hold : l.key ∉ Moment.started ⟨m, e⟩ := by
      intro hmem
      have hnot := (List.mem_filter.mp hmem).2
      rw [hkey] at hnot
      simp [List.mem_map_of_mem hl'] at hnot
    rw [or_iff_left hold, hkey, hg]
    exact h.current l' hl'
  · exact ⟨fun _ => .inr hnew, fun _ => hg⟩

theorem single_step (hs : m.Sound) (h : m.Remembers ts) {e : Event} (he : e ≠ .reset) :
    loadsLately (ts ++ [⟨m, e⟩]) = [] ∨
      (m.step e).1.core.phase = .ready ∧ ∃ id, loadsLately (ts ++ [⟨m, e⟩]) = bothLoads id := by
  rw [loadsLately_snoc ts (isReset_eq_false he)]
  -- The loads of a session come with its first screen, which comes once.
  rcases step_opens hs e with ⟨-, started, -, stays⟩ | ⟨id, -, started, -, closed, ready⟩
  · have hs : Moment.started ⟨m, e⟩ = [] := started
    rw [hs, List.append_nil]
    rcases h.single with hnone | ⟨hp, hone⟩
    · exact .inl hnone
    · exact .inr ⟨stays he hp, hone⟩
  · have hs : Moment.started ⟨m, e⟩ = bothLoads id := started
    rcases h.single with hnone | ⟨hp, -⟩
    · exact .inr ⟨ready, id, by rw [hnone, hs, List.nil_append]⟩
    · exact absurd hp closed

theorem settled_step (hs : m.Sound) (h : m.Remembers ts) {e : Event} (he : e ≠ .reset)
    (place : Place) (hp : (m.step e).1.core.loads.value.status place ≠ .pending) :
    ∃ run reply, Brings (ts ++ [⟨m, e⟩]) run place reply ∧
      (m.step e).1.core.loads.value.status place = .ofReply reply := by
  have hreset : Moment.isReset ⟨m, e⟩ = false := isReset_eq_false he
  -- What has ended before has still ended so, and a load that ends now is one of this session.
  have hold : (m.step e).1.core.loads.value.status place = m.core.loads.value.status place →
      ∃ run reply, Brings (ts ++ [⟨m, e⟩]) run place reply ∧
        (m.step e).1.core.loads.value.status place = .ofReply reply := by
    intro hsame
    rw [hsame] at hp ⊢
    obtain ⟨run, reply, hbrings, hstatus⟩ := h.settled place hp
    exact ⟨run, reply, hbrings.snoc hreset, hstatus⟩
  cases hs.marks he with
  | none same => exact hold (by rw [same])
  | one l member now reply event marked =>
    by_cases hplace : place = l.place
    · subst hplace
      refine ⟨l.run, reply, ⟨?_, ⟨m, e⟩, ?_, event, ?_⟩, by rw [marked, Loads.status_mark_self]⟩
      · rw [loadsLately_snoc ts hreset]
        exact List.mem_append_left _ ((h.current l member).mp now)
      · rw [lately_snoc ts hreset]
        exact List.mem_append_right _ (List.mem_singleton.mpr rfl)
      · exact List.any_eq_true.mpr ⟨l, member, isLoad_iff.mpr ⟨rfl, rfl⟩⟩
    · exact hold (by rw [marked, Loads.status_mark_of_ne _ _ hplace])

theorem step (hs : m.Sound) (h : m.Remembers ts) (e : Event) :
    (m.step e).1.Remembers (ts ++ [⟨m, e⟩]) := by
  -- A reset forgets all; any other step adds to what is remembered.
  by_cases he : e = .reset
  · subst he
    exact reset hs ts
  · exact ⟨h.current_step hs he, h.single_step hs he, h.settled_step hs he⟩

theorem after (hs : m.Sound) (h : m.Remembers ts) (es : List Event) :
    (m.after es).Remembers (ts ++ m.trace es) := by
  induction es generalizing m ts with
  | nil =>
    rw [trace, List.append_nil]
    exact h
  | cons e es ih =>
    have hrest := ih (hs.step e) (h.step hs e)
    rw [List.append_assoc] at hrest
    exact hrest

theorem one_run (h : m.Remembers ts) {run run' : Nat} {place place' : Place}
    (hr : (run, place) ∈ loadsLately ts) (hr' : (run', place') ∈ loadsLately ts) : run = run' := by
  rcases h.single with hnone | ⟨-, id, hone⟩
  · rw [hnone] at hr
    cases hr
  -- All loads of a session are the two of one run.
  · have hid : ∀ k ∈ bothLoads id, k.1 = id := by
      intro k hk
      simp only [bothLoads, List.mem_cons, List.not_mem_nil, or_false] at hk
      rcases hk with rfl | rfl <;> rfl
    rw [hone] at hr hr'
    exact (hid _ hr).trans (hid _ hr').symm

end Remembers

end Machine
end MiningClient.Session
