import MiningClient.Proofs.Session.Lately

namespace MiningClient

def Report.isOfLoad (place : Place) (report : Report) : Bool :=
  report.context == Report.loading place

def Report.isOfLoads (report : Report) : Bool :=
  report.isOfLoad .mine || report.isOfLoad .gamble

theorem Report.count_loads (reports : List Report) :
    reports.countP Report.isOfLoads =
      reports.countP (Report.isOfLoad .mine) + reports.countP (Report.isOfLoad .gamble) := by
  -- No report is of loads of both kinds.
  have hone : ∀ report : Report, report.isOfLoad .mine = true → report.isOfLoad .gamble = false := by
    intro report hm
    have hcontext : report.context = Report.loading .mine := eq_of_beq hm
    rw [Report.isOfLoad, hcontext]
    rfl
  induction reports with
  | nil => rfl
  | cons report reports ih =>
    rw [List.countP_cons, List.countP_cons, List.countP_cons, ih, Report.isOfLoads]
    cases hm : report.isOfLoad .mine with
    | true =>
      rw [hone report hm]
      simp only [Bool.or_false, if_true, Bool.false_eq_true, if_false]
      omega
    | false =>
      simp only [Bool.false_or, Bool.false_eq_true, if_false]
      omega

/-- How many of the loads of these places are marked as failed. -/
def Loads.failures (l : Loads) (place : Place) : Nat := if l.status place = .failed then 1 else 0

namespace Session

/-- A task that has failed, with its error. -/
abbrev Failure := Task × Error

namespace Effect

/-- The report that an effect hands over. -/
def report? : Effect → Option Report
  | noticed (.reported report) => some report
  | _ => none

/-- The call that returns with an error. -/
def failure? : Effect → Option Failure
  | finished id (.run (.error e)) => some (.run id, e)
  | _ => none

end Effect

/-- What is reported of a task that has failed. -/
def Failure.report : Failure → Report
  | (.run _, e) => ⟨Report.startup, e⟩
  | (.load _ place, e) => ⟨Report.loading place, e⟩

theorem isOfLoad_run (place : Place) (id : Nat) (e : Error) :
    (Failure.report (.run id, e)).isOfLoad place = false := by
  cases place <;> rfl

section Failures
variable {σ : Type}

/-- The load whose fetch the moment fails, when it is one of the session and has not ended. -/
def Moment.lost? (session : List (Nat × Place)) (t : Moment σ) : Option Failure :=
  match t.event with
  | .pollLoad run place (some (.error e)) =>
    if (run, place) ∈ session ∧ t.machine.isGoing (.load run place) then
      some (.load run place, e)
    else none
  | _ => none

theorem Moment.lost?_eq_some {session : List (Nat × Place)} {t : Moment σ} {task : Task} {e : Error} :
    t.lost? session = some (task, e) ↔ ∃ run place, task = .load run place ∧
      t.event = .pollLoad run place (some (.error e)) ∧ (run, place) ∈ session ∧
      t.machine.isGoing (.load run place) = true := by
  unfold lost?
  split
  · rename_i run place e' hevent
    rw [hevent]
    split
    · rename_i h
      constructor
      · rintro ⟨rfl⟩
        exact ⟨run, place, rfl, rfl, h.1, h.2⟩
      · rintro ⟨_, _, rfl, he, -⟩
        cases he
        rfl
    · rename_i h
      refine ⟨fun hx => (by cases hx), ?_⟩
      rintro ⟨_, _, -, he, hmem, hgoing⟩
      cases he
      exact absurd ⟨hmem, hgoing⟩ h
  · rename_i hno
    refine ⟨fun hx => (by cases hx), ?_⟩
    rintro ⟨run, place, -, he, -⟩
    exact absurd he (hno run place e)

variable [Slot σ]

/-- The tasks that fail at a moment, where `earlier` are the moments before it. -/
def Moment.failures (earlier : List (Moment σ)) (t : Moment σ) : List Failure :=
  t.effects.filterMap Effect.failure? ++ (t.lost? (loadsLately earlier)).toList

/-- The tasks that fail, in their order. -/
def failures (earlier : List (Moment σ)) : List (Moment σ) → List Failure
  | [] => []
  | t :: ts => t.failures earlier ++ failures (earlier ++ [t]) ts

theorem mem_failures {earlier ts : List (Moment σ)} {x : Failure} :
    x ∈ failures earlier ts ↔
      ∃ before t after, ts = before ++ t :: after ∧ x ∈ t.failures (earlier ++ before) := by
  -- The moments before the one in question come to those that were there at first.
  induction ts generalizing earlier with
  | nil => simp [failures]
  | cons t ts ih =>
    rw [failures, List.mem_append, ih]
    constructor
    · rintro (h | ⟨before, u, after, rfl, h⟩)
      · exact ⟨[], t, ts, rfl, by rwa [List.append_nil]⟩
      · exact ⟨t :: before, u, after, rfl, by rwa [List.append_cons]⟩
    · rintro ⟨_ | ⟨v, before⟩, u, after, hsplit, h⟩
      · cases hsplit
        exact .inl (by rwa [List.append_nil] at h)
      · cases hsplit
        exact .inr ⟨before, u, after, rfl, by rwa [List.append_cons] at h⟩

theorem mem_failure? {effects : List Effect} {task : Task} {e : Error} :
    (task, e) ∈ effects.filterMap Effect.failure? ↔
      ∃ id, task = .run id ∧ .finished id (.run (.error e)) ∈ effects := by
  constructor
  · intro h
    obtain ⟨x, hx, hf⟩ := List.mem_filterMap.mp h
    unfold Effect.failure? at hf
    split at hf
    · cases hf
      exact ⟨_, rfl, hx⟩
    · cases hf
  · rintro ⟨id, rfl, h⟩
    exact List.mem_filterMap.mpr ⟨_, h, rfl⟩

end Failures

namespace Machine
variable {σ : Type}

theorem filterMap_asked {α : Type} (f : Effect → Option α) (hf : ∀ x, f (.fetched x) = none)
    (i : Option ItemsReply) : (askedFetches i).filterMap f = [] := by
  unfold askedFetches
  split <;> simp [hf]

theorem filterMap_first {α : Type} (f : Effect → Option α) (hf : ∀ x, f (.fetched x) = none)
    (l : Load) (place : Place) : (firstFetch l place).filterMap f = [] := by
  unfold firstFetch
  split <;> simp [hf]

theorem reports_repeated (ids : List UInt32) :
    (ids.map fun id => Effect.noticed (.repeatedItem id)).filterMap Effect.report? = [] := by
  rw [List.filterMap_map]
  exact List.filterMap_eq_nil_iff.mpr fun _ _ => rfl

/-- What the tasks that have failed and the reports have to do with each other: there is none of either,
or there is one, and it is reported. -/
inductive ReportsEach (failures : List Failure) (reports : List Report) : Prop
  | none (failures : failures = []) (reports : reports = [])
  | one (failure : Failure) (failures : failures = [failure])
    (reports : reports = [Failure.report failure])

theorem Advance.reports {m : Machine σ} {run : Run} {i : Option ItemsReply}
    {a : Option AccountReply} {r : Machine σ × List Effect} (h : Advance m run i a r) :
    ReportsEach (r.2.filterMap Effect.failure?) (r.2.filterMap Effect.report?) := by
  cases h with
  | waiting | discarded => exact .none rfl rfl
  | failed e => exact .one (.run run.id, e) rfl rfl
  | opened items account =>
    refine .none ?_ ?_
    · rw [List.filterMap_append, filterMap_repeated _ fun _ => rfl]
      rfl
    · rw [List.filterMap_append, reports_repeated]
      rfl

theorem PollLoad.failures {m : Machine σ} {run : Nat} {place : Place} {reply : Option PlacesReply}
    {r : Machine σ × List Effect} (h : PollLoad m run place reply r) :
    r.2.filterMap Effect.failure? = [] := by
  cases h with
  | gone => rfl
  | waiting l => exact filterMap_first _ (fun _ => rfl) l place
  | dropped l => exact filterMap_first _ (fun _ => rfl) l place
  | settled l found result =>
    rw [List.filterMap_append, filterMap_first _ fun _ => rfl]
    cases result <;> rfl

theorem PollLoad.ended {m : Machine σ} {run : Nat} {place : Place} {reply : PlacesReply}
    {r : Machine σ × List Effect} (h : PollLoad m run place (some reply) r) :
    ∀ l ∈ r.1.loads, l.key ≠ (run, place) := by
  -- The key of a load is its run and its places, so a load of another key stays apart.
  have hno : ∀ l : Load, isLoad run place l = false → l.key ≠ (run, place) := by
    intro l hl hkey
    rw [← Bool.not_eq_true, isLoad_iff] at hl
    exact hl (Prod.mk.inj hkey)
  have hfilter : ∀ l ∈ (m.withoutLoad run place).loads, l.key ≠ (run, place) := by
    intro l hl
    exact hno l (by simpa using (List.mem_filter.mp hl).2)
  cases h with
  | gone _ none => exact fun l hl => hno l (none l hl)
  | dropped => exact hfilter
  | settled => exact hfilter

theorem PollLoad.reports {m : Machine σ} {run : Nat} {place : Place} {reply : Option PlacesReply}
    {r : Machine σ × List Effect} (h : PollLoad m run place reply r) {session : List (Nat × Place)}
    (current : ∀ l ∈ m.loads, l.generation = m.core.generation ↔ l.key ∈ session) :
    ReportsEach (Moment.lost? session ⟨m, .pollLoad run place reply⟩).toList
      (r.2.filterMap Effect.report?) := by
  have hkey : ∀ l, m.loads.find? (isLoad run place) = some l → l ∈ m.loads ∧ l.key = (run, place) := by
    intro l hf
    obtain ⟨hr, hp⟩ := isLoad_iff.mp (List.find?_some hf)
    exact ⟨List.mem_of_find?_eq_some hf, by rw [Load.key, hr, hp]⟩
  have hgoing : ∀ l, m.loads.find? (isLoad run place) = some l →
      m.isGoing (.load run place) = true := by
    intro l hf
    exact List.any_eq_true.mpr ⟨l, (hkey l hf).1, List.find?_some hf⟩
  cases h with
  | gone reply none =>
    have hno : m.isGoing (.load run place) = false := List.any_eq_false.mpr fun l hl => by
      simp [none l hl]
    refine .none ?_ rfl
    rcases reply with _ | (d | locations)
    · rfl
    · simp [Moment.lost?, hno]
    · rfl
  | waiting l => exact .none rfl (filterMap_first _ (fun _ => rfl) l place)
  | dropped l found result past =>
    refine .none ?_ (filterMap_first _ (fun _ => rfl) l place)
    obtain ⟨hl, hk⟩ := hkey l found
    -- A load of an earlier generation was not started in this session, so it is not counted as lost.
    have hold : (run, place) ∉ session := by
      rw [← hk, ← current l hl]
      exact fun hg => past hg.symm
    cases result with
    | ok locations => rfl
    | error d => simp [Moment.lost?, hold]
  | settled l found result now =>
    obtain ⟨hl, hk⟩ := hkey l found
    -- A load of this generation was started in this session, and its failure counts.
    have hmem : (run, place) ∈ session := hk ▸ (current l hl).mp now.symm
    rw [List.filterMap_append, filterMap_first _ fun _ => rfl, List.nil_append]
    cases result with
    | ok locations => exact .none rfl rfl
    | error d =>
      refine .one (.load run place, d) ?_ rfl
      simp [Moment.lost?, hmem, hgoing l found]

theorem Advance.count {m : Machine σ} {run : Run} {i : Option ItemsReply}
    {a : Option AccountReply} {r : Machine σ × List Effect} (h : Advance m run i a r)
    (place : Place) :
    (r.2.filterMap Effect.report?).countP (Report.isOfLoad place) +
      m.core.loads.value.failures place = r.1.core.loads.value.failures place := by
  -- The report of a call is of no load, and a run leaves the statuses of the loads.
  have hnone : (r.2.filterMap Effect.report?).countP (Report.isOfLoad place) = 0 := by
    cases h with
    | waiting | discarded => rfl
    | failed e =>
      refine List.countP_eq_zero.mpr fun x hx => ?_
      rw [List.mem_singleton.mp hx]
      exact Bool.eq_false_iff.mp (isOfLoad_run place run.id e)
    | opened items =>
      rw [List.filterMap_append, reports_repeated]
      rfl
  rw [hnone, h.loads_value, Nat.zero_add]

theorem count_notices (place other : Place) (result : PlacesReply) :
    ((loadNotices other result).filterMap Effect.report?).countP (Report.isOfLoad place) =
      if place = other ∧ LoadStatus.ofReply result = .failed then 1 else 0 := by
  cases result <;> cases place <;> cases other <;> rfl

theorem PollLoad.count {m : Machine σ} (hs : m.Sound) {run : Nat} {other : Place}
    {reply : Option PlacesReply} {r : Machine σ × List Effect} (h : PollLoad m run other reply r)
    (place : Place) :
    (r.2.filterMap Effect.report?).countP (Report.isOfLoad place) +
      m.core.loads.value.failures place = r.1.core.loads.value.failures place := by
  cases h with
  | gone => exact Nat.zero_add _
  | waiting l =>
    rw [filterMap_first _ fun _ => rfl]
    exact Nat.zero_add _
  | dropped l =>
    rw [filterMap_first _ fun _ => rfl]
    exact Nat.zero_add _
  | settled l found result now =>
    obtain ⟨hl, -, rfl, -⟩ := hs.loadFound found
    rw [List.filterMap_append, filterMap_first _ fun _ => rfl, List.nil_append]
    -- The end is reported exactly when it marks its own load as failed.
    rw [count_notices]
    by_cases hp : place = l.place
    · -- Until now the load was pending.
      subst hp
      have hpending := (hs.loads_pending l hl now.symm).2
      simp [Loads.failures, hpending, Core.status_settled_self]
    · simp [Loads.failures, hp, Core.status_settled_of_ne]

variable [Slot σ] {m : Machine σ} {ts : List (Moment σ)}

theorem Remembers.reports (h : m.Remembers ts) (e : Event) :
    ReportsEach (Moment.failures ts ⟨m, e⟩) ((m.step e).2.filterMap Effect.report?) := by
  have hfailures : Moment.failures ts ⟨m, e⟩ = (m.step e).2.filterMap Effect.failure? ++
      (Moment.lost? (loadsLately ts) ⟨m, e⟩).toList := rfl
  have hc := m.step_cases e
  rw [hfailures]
  generalize m.step e = r at hc
  cases hc with
  | quiet hq _ waking =>
    rw [filterMap_waking Effect.failure? (fun _ => rfl) (fun _ _ => rfl) waking]
    refine .none ?_ (filterMap_waking _ (fun _ => rfl) (fun _ _ => rfl) waking)
    cases e <;> first | rfl | cases hq
  | answered | missed | reset => exact .none rfl rfl
  | begun i a _ _ advance =>
    rw [List.filterMap_append, List.filterMap_append, filterMap_asked _ fun _ => rfl,
      filterMap_asked _ fun _ => rfl]
    exact (List.append_nil _).symm ▸ advance.reports
  | polled i a run _ _ advance => exact (List.append_nil _).symm ▸ advance.reports
  | load run place reply load =>
    -- A poll of a load returns no call, so the only task that can fail is the load.
    rw [load.failures, List.nil_append]
    exact load.reports h.current

theorem mem_failures_run {id : Nat} {d : Error} (es : List Event) (ts : List (Moment σ)) :
    (.run id, d) ∈ failures ts (m.trace es) ↔ .finished id (.run (.error d)) ∈ m.effects es := by
  induction es generalizing m ts with
  | nil => simp [trace, failures]
  | cons e es ih =>
    -- A load that is lost is no call.
    have hlost : (.run id, d) ∉ (Moment.lost? (loadsLately ts) ⟨m, e⟩).toList := by
      intro hx
      obtain ⟨_, _, he, -⟩ := Moment.lost?_eq_some.mp (Option.mem_toList.mp hx)
      cases he
    rw [trace, failures, effects_cons, List.mem_append, List.mem_append, ih, Moment.failures,
      List.mem_append, or_iff_left hlost, mem_failure?]
    simp [Moment.effects]

theorem mem_failures_load {run : Nat} {place : Place} {d : Error} (ts : List (Moment σ)) :
    (.load run place, d) ∈ failures [] ts ↔ ∃ before t after, ts = before ++ t :: after ∧
      t.event = .pollLoad run place (some (.error d)) ∧ (run, place) ∈ loadsLately before ∧
      t.machine.isGoing (.load run place) = true := by
  have hmoment : ∀ (before : List (Moment σ)) (t : Moment σ),
      (.load run place, d) ∈ t.failures before ↔
        t.event = .pollLoad run place (some (.error d)) ∧ (run, place) ∈ loadsLately before ∧
          t.machine.isGoing (.load run place) = true := by
    intro before t
    -- What an effect tells of is the failure of a call.
    have hcall : (.load run place, d) ∉ t.effects.filterMap Effect.failure? := by
      rw [mem_failure?]
      rintro ⟨_, he, -⟩
      cases he
    rw [Moment.failures, List.mem_append, or_iff_right hcall, Option.mem_toList, Moment.lost?_eq_some]
    simp
  simp only [mem_failures, List.nil_append, hmoment]

theorem Done.not_failed {task : Task} (h : m.Done task) (e : Event) :
    task ∉ (Moment.failures ts ⟨m, e⟩).map Prod.fst := by
  intro hmem
  obtain ⟨⟨_, d⟩, hx, rfl⟩ := List.mem_map.mp hmem
  -- A task fails by a return or by a lost load, and both need the task to be going on.
  rcases List.mem_append.mp hx with hx | hx
  · obtain ⟨id, rfl, hreturned⟩ := mem_failure?.mp hx
    rcases m.returned_from hreturned with ⟨_, _, -, hid⟩ | ⟨_, _, -, r, hr, hid⟩
    · exact Nat.lt_irrefl _ (hid ▸ h.1)
    · exact h.2 r hr hid
  · obtain ⟨run, place, rfl, -, -, hgoing⟩ := Moment.lost?_eq_some.mp (Option.mem_toList.mp hx)
    obtain ⟨l, hl, hload⟩ := List.any_eq_true.mp hgoing
    obtain ⟨hr, hp⟩ := isLoad_iff.mp hload
    exact h.2 l hl (by rw [Load.key, hr, hp])

theorem done_of_failed (hs : m.Sound) {e : Event} {task : Task}
    (h : task ∈ (Moment.failures ts ⟨m, e⟩).map Prod.fst) : (m.step e).1.Done task := by
  obtain ⟨⟨_, d⟩, hx, rfl⟩ := List.mem_map.mp h
  rcases List.mem_append.mp hx with hx | hx
  · obtain ⟨id, rfl, hreturned⟩ := mem_failure?.mp hx
    exact done_of_returned hs ⟨_, hreturned⟩
  · obtain ⟨run, place, rfl, he, -, hgoing⟩ := Moment.lost?_eq_some.mp (Option.mem_toList.mp hx)
    obtain ⟨l, hl, hload⟩ := List.any_eq_true.mp hgoing
    obtain ⟨rfl, rfl⟩ := isLoad_iff.mp hload
    have he : e = .pollLoad l.run l.place (some (.error d)) := he
    subst he
    have hrun : m.Done (.run l.run) := hs.loads_known l hl
    exact ⟨hrun.run_step _, (pollLoad_cases m l.run l.place (some (.error d))).ended⟩

theorem failures_nodup (hs : m.Sound) (h : m.Remembers ts) (es : List Event) :
    ((failures ts (m.trace es)).map Prod.fst).Nodup ∧
      ∀ task, m.Done task → task ∉ (failures ts (m.trace es)).map Prod.fst := by
  -- A task that fails is done, and one that is done does not fail; so both are shown together.
  induction es generalizing m ts with
  | nil => simp [trace, failures]
  | cons e es ih =>
    obtain ⟨hnodup, hlater⟩ := ih (hs.step e) (h.step hs e)
    rw [trace, failures, List.map_append]
    constructor
    · refine List.nodup_append.mpr ⟨?_, hnodup, ?_⟩
      · cases h.reports e with
        | none hf => simp [hf]
        | one failure hf => simp [hf]
      · intro task hnow _ hmem he
        exact hlater task (done_of_failed hs hnow) (he ▸ hmem)
    · intro task hdone
      rw [List.mem_append, not_or]
      exact ⟨hdone.not_failed e, hlater task (hdone.step hs e)⟩

theorem reports_eq (hs : m.Sound) (h : m.Remembers ts) (es : List Event) :
    (m.effects es).filterMap Effect.report? = (failures ts (m.trace es)).map Failure.report := by
  induction es generalizing m ts with
  | nil => rfl
  | cons e es ih =>
    rw [trace, failures, List.map_append, effects_cons, List.filterMap_append,
      ih (hs.step e) (h.step hs e)]
    congr 1
    cases h.reports e with
    | none hf hr => rw [hf, hr, List.map_nil]
    | one failure hf hr => rw [hf, hr, List.map_singleton]

/-- The reports since the last reset. -/
def reportsLately (ts : List (Moment σ)) : List Report :=
  ((lately ts).flatMap Moment.effects).filterMap Effect.report?

theorem count_step (hs : m.Sound) {e : Event} (he : e ≠ .reset) (place : Place) :
    ((m.step e).2.filterMap Effect.report?).countP (Report.isOfLoad place) +
        m.core.loads.value.failures place = (m.step e).1.core.loads.value.failures place := by
  have hc := m.step_cases e
  generalize m.step e = r at hc
  cases hc with
  | quiet _ still waking =>
    rw [filterMap_waking Effect.report? (fun _ => rfl) (fun _ _ => rfl) waking, still.loaded]
    exact Nat.zero_add _
  | answered | missed => exact Nat.zero_add _
  | begun i a _ _ advance =>
    rw [List.filterMap_append, filterMap_asked _ fun _ => rfl, List.nil_append]
    exact advance.count place
  | polled _ _ _ _ _ advance => exact advance.count place
  | load run other reply load => exact load.count hs place
  | reset => exact absurd rfl he

theorem count_lately (hs : m.Sound) {place : Place}
    (h : (reportsLately ts).countP (Report.isOfLoad place) = m.core.loads.value.failures place)
    (es : List Event) :
    (reportsLately (ts ++ m.trace es)).countP (Report.isOfLoad place) =
      (m.after es).core.loads.value.failures place := by
  induction es generalizing m ts with
  | nil =>
    rw [trace, List.append_nil]
    exact h
  | cons e es ih =>
    rw [trace, List.append_cons]
    refine ih (hs.step e) ?_
    -- A reset empties both sides; any other step adds the same to both.
    by_cases he : e = .reset
    · subst he
      rw [reportsLately, lately_reset ts rfl]
      cases place <;> rfl
    · rw [reportsLately, lately_snoc ts (isReset_eq_false he), List.flatMap_append,
        List.flatMap_singleton, List.filterMap_append, List.countP_append, Nat.add_comm]
      change _ + (reportsLately ts).countP _ = _
      rw [h]
      exact count_step hs he place

/-- The tasks that fail in a run, and what is reported of them. -/
structure Reporting (m : Machine σ) (es : List Event) : Prop where
  reports : (m.effects es).filterMap Effect.report? =
    (failures [] (m.trace es)).map Failure.report
  once : ((failures [] (m.trace es)).map Prod.fst).Nodup
  calls : ∀ id e, (.run id, e) ∈ failures [] (m.trace es) ↔
    .finished id (.run (.error e)) ∈ m.effects es
  loads : ∀ run place e, (.load run place, e) ∈ failures [] (m.trace es) ↔
    ∃ before t after, m.trace es = before ++ t :: after ∧
      t.event = .pollLoad run place (some (.error e)) ∧ (run, place) ∈ loadsLately before ∧
      t.machine.isGoing (.load run place) = true
  places : ∀ place, (reportsLately (m.trace es)).countP (Report.isOfLoad place) =
    (m.after es).core.loads.value.failures place
  sessions : (reportsLately (m.trace es)).countP Report.isOfLoads =
    (m.after es).core.loads.value.failures .mine + (m.after es).core.loads.value.failures .gamble

/-- In every run the reports are, one for one and in their order, the tasks that fail: the calls for
initialization that return an error, each with its error, and the loads whose fetches fail before
their session is over. At every time, and so at the end of every session, there are as many reports
of loads since the last reset as there are loads marked as failed. -/
theorem failures_reported (credentials : Credentials σ) (es : List Event) :
    (fresh credentials).Reporting es := by
  have hs : (fresh credentials).Sound := .fresh credentials
  have h : (fresh credentials).Remembers [] := .fresh credentials
  have hzero : ∀ place, (reportsLately ([] : List (Moment σ))).countP (Report.isOfLoad place) =
      (fresh credentials).core.loads.value.failures place := by
    intro place
    cases place <;> rfl
  have hcount := fun place => count_lately hs (hzero place) es
  rw [List.nil_append] at hcount
  refine ⟨reports_eq hs h es, (failures_nodup hs h es).1, fun _ _ => mem_failures_run es [],
    fun _ _ _ => mem_failures_load _, hcount, ?_⟩
  rw [Report.count_loads, hcount, hcount]

end Machine
end Session
end MiningClient
