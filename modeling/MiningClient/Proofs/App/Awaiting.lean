import MiningClient.Proofs.App.Settling

namespace MiningClient
open Session

namespace App
variable {σ : Type}

abbrev Schedule := Place → Option Nat

def InTime (schedule : Schedule) (deadline : Nat) (place : Place) : Prop :=
  ∃ time, schedule place = some time ∧ time < deadline

/-- A load is as far as its answer lets it be. -/
def Follows (deadline now : Nat) (due : Option Nat) : Stage → Prop
  | .waiting => False
  | .asked time => due = some time ∧ now ≤ time
  | .lost => due = none
  | .settled => ∃ time, due = some time ∧ time ≤ now ∧ time < deadline

def OnTime (schedule : Schedule) (deadline now : Nat) (stage : Place → Stage) : Prop :=
  ∀ place, Follows deadline now (schedule place) (stage place)

section OnTime
variable {schedule : Schedule} {deadline now : Nat} {stage stage' : Place → Stage}

theorem follows_ofAnswer {now deadline : Nat} (early : now < deadline) (answer : Option (Nat × Fetched)) :
    Follows deadline now (answer.map fun a => now + a.1) (.ofAnswer now answer) := by
  obtain _ | ⟨_ | delay, fetched⟩ := answer
  · exact rfl
  · exact ⟨now, rfl, Nat.le_refl now, early⟩
  · exact ⟨rfl, Nat.le_add_right now _⟩

namespace OnTime

theorem ne_waiting (h : OnTime schedule deadline now stage) (place : Place) : stage place ≠ .waiting := by
  intro waits
  have follows := h place
  rw [waits] at follows
  exact follows

theorem advances (h : OnTime schedule deadline now stage) (early : now < deadline)
    (advances : Advances now stage stage') : OnTime schedule deadline now stage' := by
  intro place
  have follows := h place
  obtain waits | same | ⟨settled, ready⟩ := advances place
  · exact absurd waits (h.ne_waiting place)
  · rw [same]
    exact follows
  · rw [settled]
    cases hs : stage place with
    | waiting => exact absurd hs (h.ne_waiting place)
    | lost | settled =>
      rw [hs] at ready
      cases ready
    | asked time =>
      rw [hs] at follows ready
      -- Only a load whose answer is there goes on.
      have there : time ≤ now := of_decide_eq_true ready
      exact ⟨time, follows.1, there, Nat.lt_of_le_of_lt there early⟩

theorem moveTo (h : OnTime schedule deadline now stage) {time : Nat} (onward : now ≤ time)
    (ahead : ∀ place t, stage place = .asked t → time ≤ t) : OnTime schedule deadline time stage := by
  intro place
  have follows := h place
  cases hs : stage place with
  | waiting => exact absurd hs (h.ne_waiting place)
  | lost =>
    rw [hs] at follows
    exact follows
  | asked t =>
    rw [hs] at follows
    exact ⟨follows.1, ahead place t hs⟩
  | settled =>
    rw [hs] at follows
    obtain ⟨t, due, there, early⟩ := follows
    exact ⟨t, due, Nat.le_trans there onward, early⟩

theorem inTime (h : OnTime schedule deadline now stage) {place : Place}
    (settled : stage place = .settled) : InTime schedule deadline place := by
  have follows := h place
  rw [settled] at follows
  obtain ⟨t, due, -, early⟩ := follows
  exact ⟨t, due, early⟩

theorem settled_iff (h : OnTime schedule deadline now stage) (late : deadline ≤ now) (place : Place) :
    stage place = .settled ↔ InTime schedule deadline place := by
  refine ⟨h.inTime, ?_⟩
  rintro ⟨t, due, early⟩
  have follows := h place
  cases hs : stage place with
  | waiting => exact absurd hs (h.ne_waiting place)
  | settled => rfl
  | lost =>
    rw [hs] at follows
    cases due.symm.trans follows
  | asked t' =>
    rw [hs] at follows
    obtain ⟨due', ahead⟩ := follows
    cases due.symm.trans due'
    -- The deadline has passed, and the answer would still be ahead.
    omega

end OnTime
end OnTime

section Same
variable {w w' : App σ} {endpoint : Endpoint}

theorem answer?_congr (client : w'.client = w.client) (network : w'.network = w.network)
    (requests : w'.requests = w.requests) (endpoint : Endpoint) :
    w'.answer? endpoint = w.answer? endpoint := by
  unfold App.answer?
  rw [client, network, requests]

theorem answer?_asked_congr (client : w'.client = w.client) (network : w'.network = w.network)
    (requests : w'.requests = w.requests) (first endpoint : Endpoint) :
    (w'.asked first).answer? endpoint = (w.asked first).answer? endpoint := by
  have asks : (w'.asked first).client = (w.asked first).client := client
  have made : (w'.asked first).requests = (w.asked first).requests := by
    unfold asked
    rw [client, requests]
  exact answer?_congr asks network made endpoint

theorem Brings.of_same {s : Supply} (h : w.Brings s endpoint)
    (same : w'.answer? endpoint = w.answer? endpoint) : w'.Brings s endpoint := by
  unfold Brings
  rw [same]
  exact h

end Same

def schedule (w : App σ) : Schedule
  | .mine => (w.answer? (.places .mine)).map fun a => w.now + a.1
  | .gamble => ((w.asked (.places .mine)).answer? (.places .gamble)).map fun a => w.now + a.1

section Schedule
variable {s : Supply} {w w' : App σ} {place : Place}

theorem schedule_congr (client : w'.client = w.client) (network : w'.network = w.network)
    (requests : w'.requests = w.requests) (now : w'.now = w.now) : w'.schedule = w.schedule := by
  funext place
  cases place with
  | mine => rw [schedule, schedule, answer?_congr client network requests, now]
  | gamble => rw [schedule, schedule, answer?_asked_congr client network requests, now]

theorem now_le_of_schedule {time : Nat} (h : w.schedule place = some time) : w.now ≤ time := by
  cases place <;> obtain ⟨answer, -, rfl⟩ := Option.map_eq_some_iff.1 h <;> exact Nat.le_add_right ..

theorem ending_ne_none (brings : w.Brings s (.places place))
    (answered : w.answer? (.places place) ≠ none) : s.ending place ≠ none := by
  rw [brings.ending, Ne, Option.map_eq_none_iff]
  exact answered

theorem ending_of_schedule (mine : w.Brings s (.places .mine))
    (gamble : (w.asked (.places .mine)).Brings s (.places .gamble)) (place : Place)
    (scheduled : w.schedule place ≠ none) : s.ending place ≠ none := by
  cases place with
  | mine => exact ending_ne_none mine fun never => scheduled (by rw [schedule, never]; rfl)
  | gamble => exact ending_ne_none gamble fun never => scheduled (by rw [schedule, never]; rfl)

end Schedule

section Rounds
variable {s : Supply} {w₀ w : App σ} {catalog : List ItemDescriptor} {account : UserAccountInfo}
  {stage : Place → Stage} {jobs : List Job} {schedule : Schedule} {deadline id : Nat}

namespace Loading

theorem still (h : Loading s w₀ catalog account stage jobs w) {m : Machine σ}
    (still : Machine.Still w.machine m) (credentials : m.credentials = w.machine.credentials) :
    Loading s w₀ catalog account stage jobs { w with machine := m } :=
  ⟨h.network, h.timeout, h.endings, h.showing.still still credentials, h.expects.of_same rfl, h.lost,
    h.log, h.nodup, h.ready⟩

theorem ending?_eq_none (h : Loading s w₀ catalog account stage jobs w) (idle : w₀.Idle)
    (later : w₀.machine.nextTask < id) : w.ending? id = none := by
  rw [App.ending?, h.endings, List.lookup_append, List.lookup_eq_none_iff.2]
  · have other : (id == w₀.machine.nextTask) = false := beq_false_of_ne (Nat.ne_of_gt later)
    rw [List.lookup_cons, other]
    rfl
  · intro e he
    have known := idle.endings e he
    have other : id ≠ e.1 := by omega
    simpa using other

theorem drain_first (h : Loading s w₀ catalog account (fun _ => .waiting) w.queue w)
    (queue : w.queue =
      [.go (.load w₀.machine.nextTask .mine), .go (.load w₀.machine.nextTask .gamble)])
    (mine : w.Brings s (.places .mine)) (gamble : (w.asked (.places .mine)).Brings s (.places .gamble)) :
    ∃ stage, Loading s w₀ catalog account stage [] w.drain ∧ Keeps { w with queue := [] } w.drain ∧
      stage .mine = .ofAnswer w.now (w.answer? (.places .mine)) ∧
      stage .gamble = .ofAnswer w.now ((w.asked (.places .mine)).answer? (.places .gamble)) := by
  have emptied := h.emptied
  rw [queue] at emptied
  obtain ⟨loading, keeps, requests⟩ := emptied.ask rfl mine
  generalize hw : App.runJob { w with queue := [] } (.go (.load w₀.machine.nextTask .mine)) = w₁ at *
  -- The second load asks as the first one did, with one request more before it.
  have client : w₁.client = (w.asked (.places .mine)).client := by
    show App.client w₁ = App.client w
    unfold App.client
    rw [loading.showing.credentials, h.showing.credentials, loading.timeout, h.timeout]
  have same : w₁.answer? (.places .gamble) = (w.asked (.places .mine)).answer? (.places .gamble) :=
    answer?_congr client (loading.network.trans h.network.symm) requests _
  -- The first load has moved on, but the second waits as before.
  obtain ⟨loading', keeps', -⟩ := loading.ask (Function.update_of_ne (by decide) ..)
    (gamble.of_same same)
  have drained : w.drain = w₁.runJob (.go (.load w₀.machine.nextTask .gamble)) := by
    have once : w.runQueue = w₁.runJob (.go (.load w₀.machine.nextTask .gamble)) := by
      unfold runQueue
      rw [queue, ← hw]
      rfl
    rw [App.drain, once, runQueue_of_nil (keeps'.queue.trans keeps.queue)]
  have now : w₁.now = w.now := keeps.now
  rw [drained]
  refine ⟨_, loading', keeps.trans keeps', ?_, ?_⟩
  · rw [Function.update_of_ne (by decide), Function.update_self]
    rfl
  · rw [Function.update_self, same, now]

theorem nextDue_le (h : Loading s w₀ catalog account stage [] w) {place : Place} {t : Nat}
    (asked : stage place = .asked t) : ∃ time, w.nextDue = some time ∧ time ≤ t := by
  obtain ⟨fetched, -, mem⟩ := h.expects.delivery (dues_eq_some_iff.2 ⟨place, rfl, asked⟩)
  have later : w.now < t := by
    obtain lost | settled | ⟨t', asked', later⟩ := h.asked_of_nil place
    · rw [asked] at lost
      cases lost
    · rw [asked] at settled
      cases settled
    · cases asked.symm.trans asked'
      exact later
  -- The answer is under way, so it is among those that the minimum is taken of.
  have mem : t ∈ (w.deliveries.filter fun d => w.now < d.due).map (·.due) :=
    List.mem_map.2 ⟨_, List.mem_filter.2 ⟨mem, decide_eq_true later⟩, rfl⟩
  cases next : w.nextDue with
  | none =>
    rw [nextDue, List.min?_eq_none_iff] at next
    rw [next] at mem
    cases mem
  | some time => exact ⟨time, rfl, (List.min?_eq_some_iff.1 next).2 t mem⟩

theorem next_between (h : Loading s w₀ catalog account stage [] w) (early : w.now < deadline) :
    let time := (w.nextDue.getD deadline).min deadline
    w.now ≤ time ∧ time ≤ deadline ∧ (∀ place t, stage place = .asked t → time ≤ t) ∧
      (time = deadline ∨ flying time stage < flying w.now stage) := by
  intro time
  refine ⟨?_, Nat.min_le_right .., fun place t asked => ?_, ?_⟩
  · refine Nat.le_min.2 ⟨?_, Nat.le_of_lt early⟩
    cases due : w.nextDue with
    | none => exact Nat.le_of_lt early
    | some t => exact Nat.le_of_lt (h.nextDue_eq_some due).1
  · obtain ⟨first, due, le⟩ := h.nextDue_le asked
    have first_eq : w.nextDue.getD deadline = first := by rw [due]; rfl
    exact Nat.le_trans (Nat.min_le_left ..) (first_eq ▸ le)
  · unfold time
    cases due : w.nextDue with
    | none => exact .inl (Nat.min_self deadline)
    | some t =>
      obtain ⟨onward, place, arrives⟩ := h.nextDue_eq_some due
      -- The deadline comes first, or an answer does, and then one fewer is ahead.
      obtain past | before := Nat.lt_or_ge deadline t
      · exact .inl (Nat.min_eq_right (Nat.le_of_lt past))
      · have there : ((some t).getD deadline).min deadline = t := Nat.min_eq_left before
        rw [there]
        exact .inr (flying_lt (fun _ _ asked => asked) onward arrives)

end Loading

/-- What there is when the waiting is over. -/
structure Awaited (s : Supply) (w₀ : App σ) (catalog : List ItemDescriptor) (account : UserAccountInfo)
    (schedule : Schedule) (deadline : Nat) (loads : Option Loads) (stage : Place → Stage) (w : App σ) :
    Prop where
  showing : Showing s w₀ catalog account stage w.machine
  settled : ∀ place, stage place = .settled ↔ InTime schedule deadline place
  both : (∀ place, InTime schedule deadline place) →
    loads = some w.machine.core.loads.value ∧ w.now < deadline
  late : (∃ place, ¬InTime schedule deadline place) → loads = none ∧ w.now = deadline
  log : ∃ warnings,
    w.log = w₀.log ++ (GameState.repeatedIds catalog).map .repeatedItem ++ warnings ∧
      warnings.Perm (warned s stage)

/-- Waiting, before what is to be done now. -/
structure Round (s : Supply) (w₀ : App σ) (catalog : List ItemDescriptor) (account : UserAccountInfo)
    (schedule : Schedule) (deadline id : Nat) (stage : Place → Stage) (jobs : List Job) (w : App σ) :
    Prop where
  loading : Loading s w₀ catalog account stage jobs w
  onTime : OnTime schedule deadline w.now stage
  watches : w.machine.Watches id

section Loop
variable {loads : Loads}

theorem awaitLoads_ended (h : w.ending? id = some (.locations loads)) (fuel : Nat) :
    awaitLoads id deadline (fuel + 1) w = (some loads, w) := by
  simp only [awaitLoads, h]

theorem awaitLoads_late (h : w.ending? id = none) (late : deadline ≤ w.now) (fuel : Nat) :
    awaitLoads id deadline (fuel + 1) w = (none, { w with machine := w.machine.dropWaiter id }) := by
  simp only [awaitLoads, h, if_pos late]

theorem awaitLoads_early (h : w.ending? id = none) (early : w.now < deadline) (fuel : Nat) :
    awaitLoads id deadline (fuel + 1) w =
      let w := w.drain
      let w := w.perform (w.machine.pollWaiter id)
      if (w.ending? id).isSome then awaitLoads id deadline fuel w
      else awaitLoads id deadline fuel (w.moveTo none ((w.nextDue.getD deadline).min deadline)) := by
  simp only [awaitLoads, h, if_neg (Nat.not_le_of_lt early)]

end Loop

namespace Round

theorem drain (h : Round s w₀ catalog account schedule deadline id stage w.queue w)
    (early : w.now < deadline) :
    ∃ stage', Round s w₀ catalog account schedule deadline id stage' [] w.drain ∧
      Keeps { w with queue := [] } w.drain ∧ Advances w.now stage stage' := by
  obtain ⟨stage', loading, advances, keeps⟩ := h.loading.drain (.inl h.onTime.ne_waiting)
  have onTime := h.onTime.advances early advances
  refine ⟨stage', ⟨loading, ?_, keeps.watches id h.watches⟩, keeps, advances⟩
  rw [keeps.now]
  exact onTime

section Polled
variable (h : Round s w₀ catalog account schedule deadline id stage [] w)
  (answered : ∀ place, schedule place ≠ none → s.ending place ≠ none)
include h answered

theorem isSettled_iff :
    w.machine.core.loads.value.isSettled = true ↔ ∀ place, stage place = .settled :=
  h.loading.showing.isSettled_iff fun place settled => by
    obtain ⟨t, due, -⟩ := h.onTime.inTime settled
    exact answered place (due ▸ Option.some_ne_none t)

theorem polled_settled (idle : w₀.Idle) (later : w₀.machine.nextTask < id) (early : w.now < deadline)
    (settled : ∀ place, stage place = .settled) :
    let w' := w.perform (w.machine.pollWaiter id)
    ∃ loads, w'.ending? id = some (.locations loads) ∧
      Awaited s w₀ catalog account schedule deadline (some loads) stage w' := by
  intro w'
  have finished := h.watches.poll.1 ((h.isSettled_iff answered).2 settled)
  have still := (w.machine.pollWaiter_still id).1
  have credentials := (w.machine.pollWaiter_cases id).credentials
  -- Nobody but the waiting task is told anything by this poll.
  have performed : w' =
      { w with
        machine := (w.machine.pollWaiter id).1
        endings := w.endings ++ [(id, .locations w.machine.core.loads.value)]
        queue := w.queue ++ [] } := by
    unfold w' App.perform
    rw [finished]
    rfl
  have unended := h.loading.ending?_eq_none idle later
  rw [performed]
  refine ⟨w.machine.core.loads.value, ?_, h.loading.showing.still still credentials, fun place => ?_,
    fun _ => ⟨congrArg some still.loaded.symm, early⟩, ?_, h.loading.log⟩
  · have ended : (w.endings ++ [(id, Ending.locations w.machine.core.loads.value)]).lookup id =
        some (.locations w.machine.core.loads.value) := by
      rw [List.lookup_append, show w.endings.lookup id = none from unended, List.lookup_cons_self]
      rfl
    exact ended
  · exact iff_of_true (settled place) (h.onTime.inTime (settled place))
  · rintro ⟨place, late⟩
    exact absurd (h.onTime.inTime (settled place)) late

theorem polled_going (idle : w₀.Idle) (later : w₀.machine.nextTask < id) (queue : w.queue = [])
    (early : w.now < deadline) (going : ∃ place, stage place ≠ .settled) :
    let w' := w.perform (w.machine.pollWaiter id)
    let w'' := w'.moveTo none ((w'.nextDue.getD deadline).min deadline)
    w'.ending? id = none ∧
      Round s w₀ catalog account schedule deadline id stage w''.queue w'' ∧ w''.now ≤ deadline ∧
      (w''.now = deadline ∨ flying w''.now stage < flying w.now stage) := by
  intro w' w''
  have unsettled : w.machine.core.loads.value.isSettled = false := by
    obtain ⟨place, going⟩ := going
    exact Bool.eq_false_iff.2 fun settled => going ((h.isSettled_iff answered).1 settled place)
  obtain ⟨silent, watches⟩ := h.watches.poll.2 unsettled
  have performed : w' = { w with machine := (w.machine.pollWaiter id).1 } := by
    unfold w' App.perform
    rw [silent]
    rfl
  have polled : Round s w₀ catalog account schedule deadline id stage [] w' := by
    rw [performed]
    exact ⟨h.loading.still (w.machine.pollWaiter_still id).1 (w.machine.pollWaiter_cases id).credentials,
      h.onTime, watches⟩
  have now : w'.now = w.now := by rw [performed]
  have loading : Loading s w₀ catalog account stage w'.queue w' := by
    have none : w'.queue = [] := by rw [performed, queue]
    rw [none]
    exact polled.loading
  obtain ⟨onward, within, ahead, fewer⟩ := polled.loading.next_between (now ▸ early)
  exact ⟨loading.ending?_eq_none idle later,
    ⟨loading.moveTo onward, polled.onTime.moveTo onward ahead, polled.watches⟩, within, now ▸ fewer⟩

end Polled

theorem drained (answered : ∀ place, schedule place ≠ none → s.ending place ≠ none) (idle : w₀.Idle)
    (later : w₀.machine.nextTask < id) {fuel : Nat}
    (h : Round s w₀ catalog account schedule deadline id stage [] w.drain) (queue : w.drain.queue = [])
    (now : w.drain.now = w.now) (early : w.now < deadline) (unended : w.ending? id = none)
    (enough : flying w.drain.now stage < fuel)
    (rest : ∀ w' : App σ, Round s w₀ catalog account schedule deadline id stage w'.queue w' →
      w'.now ≤ deadline → (∃ place, stage place ≠ .settled) →
      (w'.now = deadline ∨ flying w'.now stage < flying w.drain.now stage) →
      ∃ loads w'' stage', awaitLoads id deadline fuel w' = (loads, w'') ∧
        Awaited s w₀ catalog account schedule deadline loads stage' w'') :
    ∃ loads w' stage', awaitLoads id deadline (fuel + 1) w = (loads, w') ∧
      Awaited s w₀ catalog account schedule deadline loads stage' w' := by
  rw [awaitLoads_early unended early]
  -- Either the poll ends the waiting, or there is another round to go.
  by_cases settled : ∀ place, stage place = .settled
  · obtain ⟨loads, ended, awaited⟩ := h.polled_settled answered idle later (now ▸ early) settled
    refine ⟨some loads, _, stage, ?_, awaited⟩
    obtain ⟨fuel, rfl⟩ := Nat.exists_eq_succ_of_ne_zero (Nat.ne_of_gt (Nat.zero_lt_of_lt enough))
    simp only [ended, Option.isSome_some, if_true]
    exact awaitLoads_ended ended fuel
  · have going : ∃ place, stage place ≠ .settled := not_forall.1 settled
    obtain ⟨unended', round, onward, fewer⟩ :=
      h.polled_going answered idle later queue (now ▸ early) going
    simp only [unended', Option.isSome_none, Bool.false_eq_true, if_false]
    exact rest _ round onward going fewer

variable [Slot σ]

theorem late (h : Round s w₀ catalog account schedule deadline id stage jobs w)
    (there : w.now = deadline) (going : ∃ place, stage place ≠ .settled) :
    Awaited s w₀ catalog account schedule deadline none stage
      { w with machine := w.machine.dropWaiter id } := by
  have still := h.loading.still (w.machine.dropWaiter_still id)
    (w.machine.credentials_quiet (e := .dropWaiter id) rfl)
  have settled := h.onTime.settled_iff (Nat.le_of_eq there.symm)
  refine ⟨still.showing, settled, fun both => ?_, fun _ => ⟨rfl, there⟩, h.loading.log⟩
  obtain ⟨place, going⟩ := going
  exact absurd ((settled place).2 (both place)) going

/-- Every round but the last leaves one answer fewer to come. -/
theorem ends (answered : ∀ place, schedule place ≠ none → s.ending place ≠ none) (idle : w₀.Idle)
    (later : w₀.machine.nextTask < id) (fuel : Nat)
    (h : Round s w₀ catalog account schedule deadline id stage w.queue w) (onward : w.now ≤ deadline)
    (going : ∃ place, stage place ≠ .settled)
    (enough : w.now = deadline ∧ 0 < fuel ∨ flying w.now stage + 1 < fuel) :
    ∃ loads w' stage', awaitLoads id deadline fuel w = (loads, w') ∧
      Awaited s w₀ catalog account schedule deadline loads stage' w' := by
  -- The fuel outlasts the answers that are ahead, so it is never used up.
  induction fuel generalizing w stage with
  | zero => omega
  | succ fuel ih =>
    have unended := h.loading.ending?_eq_none idle later
    obtain early | there := Nat.lt_or_eq_of_le onward
    · obtain ⟨stage', round, keeps, advances⟩ := h.drain early
      have now : w.drain.now = w.now := keeps.now
      -- Taking what is there leaves no more answers ahead.
      have fewer : flying w.drain.now stage' ≤ flying w.now stage := by
        rw [now]
        exact flying_le (fun p t => advances.asked h.onTime.ne_waiting) (Nat.le_refl _)
      refine drained answered idle later round keeps.queue now early unended (by omega) ?_
      intro w' round' onward' going' moved
      exact ih round' onward' going' (by omega)
    · rw [awaitLoads_late unended (Nat.le_of_eq there.symm)]
      exact ⟨none, _, stage, rfl, h.late there going⟩

end Round

section Begun
variable (h : Loading s w₀ catalog account (fun _ => .waiting) w.queue w)
include h

theorem Loading.first_round (queue : w.queue =
      [.go (.load w₀.machine.nextTask .mine), .go (.load w₀.machine.nextTask .gamble)])
    (mine : w.Brings s (.places .mine)) (gamble : (w.asked (.places .mine)).Brings s (.places .gamble))
    (watches : w.machine.Watches id) (early : w.now < deadline) :
    ∃ stage, Round s w₀ catalog account w.schedule deadline id stage [] w.drain ∧
      w.drain.queue = [] ∧ w.drain.now = w.now := by
  obtain ⟨stage, drained, keeps, atMine, atGamble⟩ := h.drain_first queue mine gamble
  have now : w.drain.now = w.now := keeps.now
  refine ⟨stage, ⟨drained, ?_, keeps.watches _ watches⟩, keeps.queue, now⟩
  rw [now]
  intro place
  cases place with
  | mine =>
    rw [atMine]
    exact follows_ofAnswer early _
  | gamble =>
    rw [atGamble]
    exact follows_ofAnswer early _

variable [Slot σ]

theorem Loading.impatient (there : w.now = deadline) :
    Awaited s w₀ catalog account w.schedule deadline none (fun _ => .waiting)
      { w with machine := w.machine.dropWaiter id } := by
  have still := h.still (w.machine.dropWaiter_still id)
    (w.machine.credentials_quiet (e := .dropWaiter id) rfl)
  have late : ∀ place, ¬InTime w.schedule deadline place := by
    rintro place ⟨t, due, early⟩
    exact absurd (now_le_of_schedule due) (by omega)
  exact ⟨still.showing, fun place => iff_of_false Stage.noConfusion (late place),
    fun both => absurd (both .mine) (late .mine), fun _ => ⟨rfl, there⟩, h.log⟩

theorem Loading.awaits (idle : w₀.Idle) (later : w₀.machine.nextTask < id) (queue : w.queue =
      [.go (.load w₀.machine.nextTask .mine), .go (.load w₀.machine.nextTask .gamble)])
    (mine : w.Brings s (.places .mine)) (gamble : (w.asked (.places .mine)).Brings s (.places .gamble))
    (watches : w.machine.Watches id) :
    ∃ loads w' stage, awaitLoads id (w.now + w.patience) (w.arrivals + 2) w = (loads, w') ∧
      Awaited s w₀ catalog account w.schedule (w.now + w.patience) loads stage w' := by
  have unended := h.ending?_eq_none idle later
  obtain impatient | patient := Nat.eq_zero_or_pos w.patience
  · have there : w.now = w.now + w.patience := by rw [impatient]; rfl
    rw [awaitLoads_late unended (Nat.le_of_eq there.symm)]
    exact ⟨none, _, _, rfl, h.impatient there⟩
  · have early : w.now < w.now + w.patience := Nat.lt_add_of_pos_right patient
    obtain ⟨stage, round, empty, now⟩ := h.first_round queue mine gamble watches early
    have answered := ending_of_schedule mine gamble
    -- Of two answers none, one or both can be ahead.
    have few : flying w.drain.now stage ≤ 2 := Nat.add_le_add (Bool.toNat_le _) (Bool.toNat_le _)
    have jobs : w.queue.length = 2 := by rw [queue]; rfl
    have enough : 8 < w.arrivals := by
      unfold arrivals
      omega
    refine Round.drained answered idle later round empty now early unended (by omega)
      fun w' round onward going moved => ?_
    exact round.ends answered idle later _ onward going (by omega)

end Begun
end Rounds

section Opened
variable {s : Supply} {w₀ w : App σ} {due : Arrivals} {catalog : List ItemDescriptor}
  {account : UserAccountInfo}

theorem numbered_opened {m : Machine σ} (h : m.Numbered) (run : Run) :
    (m.begun.opened run catalog account).Numbered := by
  refine h.within (fun _ mem => mem) (Nat.le_succ _) fun awaited => ?_
  cases awaited with
  | ready => exact Observable.within_publish _ _
  | locations => exact Observable.within_refl _

variable [Slot σ]

/-- Waiting for the places ends when both loads are settled, or at the deadline. -/
theorem waitForLocations_ends (idle : w₀.Idle) (numbered : w₀.machine.Numbered)
    (fetching : Fetching s w₀ w due) (arrived : ∀ e, due e = none) {w₁ : App σ}
    (opened : w₁ = w.opened w₀ catalog account) (mine : w₁.Brings s (.places .mine))
    (gamble : (w₁.asked (.places .mine)).Brings s (.places .gamble)) :
    ∃ loads w' stage, w₁.waitForLocations = (loads, w') ∧
      Awaited s w₀ catalog account w₁.schedule (w₁.now + w₁.patience) loads stage w' := by
  have loading : Loading s w₀ catalog account (fun _ => .waiting) w₁.queue w₁ :=
    opened ▸ opened_loading idle fetching arrived catalog account
  have number : w₁.machine.nextTask = w₀.machine.nextTask + 1 := by rw [opened]; rfl
  have later : w₀.machine.nextTask < w₁.machine.nextTask := by omega
  have unsettled : w₁.machine.core.loads.value.isSettled = false := by
    refine Bool.eq_false_iff.2 fun settled => ?_
    have waits := (loading.showing.isSettled_iff nofun).1 settled .mine
    cases waits
  have numbered : w₁.machine.Numbered := opened ▸ numbered_opened numbered _
  obtain ⟨silent, watches⟩ := numbered.await_watches unsettled
  -- The one who waits has begun to, and nothing else has happened.
  let w₂ : App σ := { w₁ with machine := (w₁.machine.await .locations).1 }
  have credentials : w₂.machine.credentials = w₁.machine.credentials :=
    w₁.machine.credentials_quiet (e := .await .locations) rfl
  have begun : w₁.waitForLocations =
      awaitLoads w₁.machine.nextTask (w₁.now + w₁.patience) (w₂.arrivals + 2) w₂ := by
    unfold waitForLocations App.perform
    rw [silent]
    rfl
  have loading : Loading s w₀ catalog account (fun _ => .waiting) w₂.queue w₂ :=
    loading.still (w₁.machine.await_still .locations).1 credentials
  have client : w₂.client = w₁.client := by
    unfold App.client
    rw [credentials]
  have queue : w₂.queue = [.go (.load w₀.machine.nextTask .mine),
      .go (.load w₀.machine.nextTask .gamble)] := by
    show w₁.queue = _
    rw [opened]
    rfl
  have schedule : w₂.schedule = w₁.schedule := schedule_congr client rfl rfl rfl
  rw [begun, ← schedule]
  exact loading.awaits idle later queue (mine.of_same (answer?_congr client rfl rfl _))
    (gamble.of_same (answer?_asked_congr client rfl rfl _ _)) watches

end Opened
end App
end MiningClient
