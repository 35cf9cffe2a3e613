import MiningClient.Proofs.App.FirstScreen
import MiningClient.Proofs.App.Showing
import MiningClient.Proofs.Session.Attending

namespace MiningClient
open Session

namespace App
variable {σ : Type}

def warned (s : Supply) (stage : Place → Stage) : List Notice :=
  (if (stage .mine).isGoing then [] else s.warnings .mine) ++
    if (stage .gamble).isGoing then [] else s.warnings .gamble

/-- A client whose startup has published the first screen. These jobs are to be done for its loads. -/
structure Loading (s : Supply) (w₀ : App σ) (catalog : List ItemDescriptor) (account : UserAccountInfo)
    (stage : Place → Stage) (jobs : List Job) (w : App σ) : Prop where
  network : w.network = w₀.network
  timeout : w.timeout = w₀.timeout
  endings : w.endings = w₀.endings ++ [(w₀.machine.nextTask, .run (.ok .initialized))]
  showing : Showing s w₀ catalog account stage w.machine
  expects : w.Expects s w₀.machine.nextTask (dues stage)
  lost : ∀ place, stage place = .lost → s.ending place = none
  log : ∃ warnings,
    w.log = w₀.log ++ (GameState.repeatedIds catalog).map .repeatedItem ++ warnings ∧
      warnings.Perm (warned s stage)
  nodup : jobs.Nodup
  ready : ∀ job, job ∈ jobs ↔
    ∃ place, job = .go (.load w₀.machine.nextTask place) ∧ (stage place).isReady w.now = true

/-- What a job of a load leaves alone. Whoever waits for the loads has in hand what there is. -/
structure Keeps (w w' : App σ) : Prop where
  queue : w'.queue = w.queue
  now : w'.now = w.now
  watches : ∀ id, w.machine.Watches id → w'.machine.Watches id

theorem Keeps.refl (w : App σ) : w.Keeps w := ⟨rfl, rfl, fun _ => id⟩

theorem Keeps.trans {w w' w'' : App σ} (h : w.Keeps w') (h' : w'.Keeps w'') : w.Keeps w'' :=
  ⟨h'.queue.trans h.queue, h'.now.trans h.now, fun id watches => h'.watches id (h.watches id watches)⟩

/-- Whenever places are asked for with the token and the network that there were, the network brings what
is supplied. -/
def Supplied (s : Supply) (w₀ : App σ) : Prop :=
  ∀ (w : App σ) (place : Place), w.network = w₀.network → w.timeout = w₀.timeout →
    w.machine.credentials = w₀.machine.credentials → w.Brings s (.places place)

/-- Every load is where it was, or has settled when it could go on, unless it was still to ask. -/
def Advances (now : Nat) (stage stage' : Place → Stage) : Prop :=
  ∀ place, stage place = .waiting ∨ stage' place = stage place ∨
    stage' place = .settled ∧ (stage place).isReady now = true

def flying (now : Nat) (stage : Place → Stage) : Nat :=
  ((stage .mine).isAhead now).toNat + ((stage .gamble).isAhead now).toNat

section Flying
variable {now time : Nat} {stage stage' : Place → Stage}
  (h : ∀ place t, stage' place = .asked t → stage place = .asked t)
include h

theorem isAhead_le (onward : now ≤ time) (place : Place) :
    ((stage' place).isAhead time).toNat ≤ ((stage place).isAhead now).toNat := by
  cases hs : stage' place with
  | waiting | lost | settled => exact Nat.zero_le _
  | asked t =>
    rw [h place t hs]
    -- What is ahead of a later time was ahead of the earlier one.
    by_cases ht : time < t
    · simp [Stage.isAhead, ht, Nat.lt_of_le_of_lt onward ht]
    · simp [Stage.isAhead, ht]

theorem flying_le (onward : now ≤ time) : flying time stage' ≤ flying now stage :=
  Nat.add_le_add (isAhead_le h onward .mine) (isAhead_le h onward .gamble)

theorem flying_lt (onward : now < time) {place : Place} (arrives : stage' place = .asked time) :
    flying time stage' < flying now stage := by
  have fewer := isAhead_le h (Nat.le_of_lt onward)
  have less : ((stage' place).isAhead time).toNat < ((stage place).isAhead now).toNat := by
    rw [h place time arrives, arrives]
    simp [Stage.isAhead, onward]
  cases place with
  | mine => exact Nat.add_lt_add_of_lt_of_le less (fewer .gamble)
  | gamble => exact Nat.add_lt_add_of_le_of_lt (fewer .mine) less

end Flying

namespace Advances
variable {now : Nat} {stage stage' stage'' : Place → Stage}

theorem refl (now : Nat) (stage : Place → Stage) : Advances now stage stage := fun _ => .inr (.inl rfl)

theorem asked (h : Advances now stage stage') (asked : ∀ place, stage place ≠ .waiting) {place : Place}
    {t : Nat} (later : stage' place = .asked t) : stage place = .asked t := by
  obtain waits | same | ⟨settled, -⟩ := h place
  · exact absurd waits (asked place)
  · exact same.symm.trans later
  · rw [settled] at later
    cases later

theorem ne_waiting (h : Advances now stage stage') (asked : ∀ place, stage place ≠ .waiting)
    (place : Place) : stage' place ≠ .waiting := by
  obtain waits | same | ⟨settled, -⟩ := h place
  · exact absurd waits (asked place)
  · exact same ▸ asked place
  · rw [settled]
    exact Stage.noConfusion

theorem update {place : Place} {next : Stage}
    (h : stage place = .waiting ∨ next = .settled ∧ (stage place).isReady now = true) :
    Advances now stage (Function.update stage place next) := by
  intro p
  by_cases hp : p = place
  · subst hp
    rw [Function.update_self]
    exact h.imp_right .inr
  · rw [Function.update_of_ne hp]
    exact .inr (.inl rfl)

theorem trans (h : Advances now stage stage') (h' : Advances now stage' stage'') :
    Advances now stage stage'' := by
  intro place
  -- A load that has settled in the first part stays settled in the second.
  obtain waits | same | ⟨settled, ready⟩ := h place
  · exact .inl waits
  · rw [← same]
    exact h' place
  · refine .inr (.inr ⟨?_, ready⟩)
    obtain waits | same' | ⟨settled', -⟩ := h' place
    · rw [settled] at waits
      cases waits
    · exact same'.trans settled
    · exact settled'

end Advances

theorem nodup_eraseDups : ∀ tasks : List Task, tasks.eraseDups.Nodup
  | [] => List.nodup_nil
  | task :: tasks => by
    rw [List.eraseDups_cons, List.nodup_cons]
    exact ⟨by simp [List.mem_eraseDups], nodup_eraseDups _⟩
  termination_by tasks => tasks.length
  decreasing_by exact Nat.lt_succ_of_le (List.length_filter_le ..)

theorem foldl_note_fetched (w : App σ) {effects : List Effect}
    (h : ∀ x ∈ effects, ∃ endpoint, x = .fetched endpoint) : effects.foldl note w = w := by
  induction effects with
  | nil => rfl
  | cons x effects ih =>
    obtain ⟨⟨endpoint, rfl⟩, rest⟩ := List.forall_mem_cons.1 h
    exact ih rest

theorem perform_ended (w : App σ) (m : Machine σ) {s : Supply} {place : Place} {reply : PlacesReply}
    (ends : s.ending place = some reply) {fetches : List Effect}
    (h : ∀ x ∈ fetches, ∃ endpoint, x = .fetched endpoint) {log : List Notice}
    (logged : w.log = log ++ s.notices (.places place)) :
    w.perform (m, fetches ++ Machine.loadNotices place reply) =
      { w with machine := m, log := log ++ s.warnings place } := by
  unfold perform
  rw [List.foldl_append, foldl_note_fetched _ h, Supply.warnings, ends, ← List.append_assoc, ← logged]
  cases reply with
  | ok =>
    simp only [List.append_nil]
    rfl
  | error e => rfl

namespace Loading
variable {s : Supply} {w₀ w : App σ} {catalog : List ItemDescriptor} {account : UserAccountInfo}
  {stage : Place → Stage} {jobs : List Job} {place : Place}

/-- A job that is done leaves those of the other loads. -/
theorem ready_of_cons {job : Job} (nodup : (job :: jobs).Nodup) {now : Nat}
    (own : job = .go (.load w₀.machine.nextTask place))
    (ready : ∀ j, j ∈ job :: jobs ↔
      ∃ p, j = .go (.load w₀.machine.nextTask p) ∧ (stage p).isReady now = true)
    {next : Stage} (done : next.isReady now = false) (j : Job) :
    j ∈ jobs ↔ ∃ p, j = .go (.load w₀.machine.nextTask p) ∧
      (Function.update stage place next p).isReady now = true := by
  obtain ⟨fresh, -⟩ := List.nodup_cons.1 nodup
  constructor
  · intro mem
    obtain ⟨p, rfl, isReady⟩ := (ready j).1 (List.mem_cons_of_mem _ mem)
    -- A job stands in the list only once, so the one that was done is no other load's.
    have hp : p ≠ place := by
      rintro rfl
      exact fresh (own ▸ mem)
    exact ⟨p, rfl, by rwa [Function.update_of_ne hp]⟩
  · rintro ⟨p, rfl, isReady⟩
    have hp : p ≠ place := by
      rintro rfl
      rw [Function.update_self, done] at isReady
      cases isReady
    rw [Function.update_of_ne hp] at isReady
    refine (List.mem_cons.1 ((ready _).2 ⟨p, rfl, isReady⟩)).resolve_left ?_
    rw [own]
    simpa using hp

theorem warned_update (going : (stage place).isGoing = true) {warnings : List Notice}
    (h : warnings.Perm (warned s stage)) :
    (warnings ++ s.warnings place).Perm (warned s (Function.update stage place .settled)) := by
  -- The warnings of the mines come first in the list, so those are moved to the front.
  cases place with
  | mine =>
    have others : warned s (Function.update stage .mine .settled) =
        s.warnings .mine ++ warned s stage := by
      simp [warned, going]
    rw [others]
    exact List.perm_append_comm.trans (h.append_left _)
  | gamble =>
    have others : warned s (Function.update stage .gamble .settled) =
        warned s stage ++ s.warnings .gamble := by
      simp [warned, going]
    rw [others]
    exact h.append_right _

theorem lost_update (h : Loading s w₀ catalog account stage jobs w) {next : Stage}
    (own : next = .lost → s.ending place = none) (p : Place)
    (isLost : Function.update stage place next p = .lost) : s.ending p = none := by
  by_cases hp : p = place
  · rw [hp] at isLost ⊢
    rw [Function.update_self] at isLost
    exact own isLost
  · rw [Function.update_of_ne hp] at isLost
    exact h.lost p isLost

theorem settle
    (h : Loading s w₀ catalog account stage (.go (.load w₀.machine.nextTask place) :: jobs) w)
    (going : (stage place).isGoing = true) {reply : PlacesReply} (ends : s.ending place = some reply)
    (requests : List Request) (deliveries : List Delivery)
    (expects : Expects { w with deliveries } s w₀.machine.nextTask
      (Function.update (dues stage) (.places place) none)) :
    let w₁ : App σ := { w with requests, deliveries, log := w.log ++ s.notices (.places place) }
    let w₂ := w₁.perform (w₁.machine.pollLoad w₀.machine.nextTask place (some reply))
    Loading s w₀ catalog account (Function.update stage place .settled) jobs w₂ ∧ w.Keeps w₂ ∧
      w₂.requests = requests := by
  obtain ⟨fetches, polled, silent⟩ := h.showing.pollLoad_some going reply
  intro w₁ w₂
  have performed : w₂ =
      { w with
        requests
        deliveries
        machine :=
          { w.machine.withoutLoad w₀.machine.nextTask place with
            core := w.machine.core.settled place reply }
        log := w.log ++ s.warnings place } := by
    simp only [w₂, w₁, polled]
    exact perform_ended _ _ ends silent rfl
  -- The load was going on, so its status was still pending.
  have pending : w.machine.core.loads.value.status place = .pending := by
    rw [h.showing.status, if_pos going]
  obtain ⟨warnings, logged, perm⟩ := h.log
  rw [performed]
  refine ⟨⟨h.network, h.timeout, h.endings, h.showing.settled going ends, ?_, h.lost_update nofun,
    ⟨warnings ++ s.warnings place, ?_, warned_update going perm⟩, (List.nodup_cons.1 h.nodup).2,
    ready_of_cons h.nodup rfl h.ready rfl⟩, ⟨rfl, rfl, fun id watches => ?_⟩, rfl⟩
  · rw [dues_update]
    exact expects.of_same rfl
  · simp only [logged, List.append_assoc]
  · exact watches.settled w₀.machine.nextTask pending reply

theorem wait
    (h : Loading s w₀ catalog account stage (.go (.load w₀.machine.nextTask place) :: jobs) w)
    (waits : stage place = .waiting) {next : Stage} (going : next.isGoing = true)
    (started : next.isStarted = true) (notReady : next.isReady w.now = false)
    (lost : next = .lost → s.ending place = none) (requests : List Request)
    (deliveries : List Delivery)
    (expects : Expects { w with deliveries } s w₀.machine.nextTask
      (Function.update (dues stage) (.places place) next.due?)) :
    let w₁ : App σ := { w with requests, deliveries, log := w.log ++ [] }
    let w₂ := w₁.perform (w₁.machine.pollLoad w₀.machine.nextTask place none)
    Loading s w₀ catalog account (Function.update stage place next) jobs w₂ ∧ w.Keeps w₂ ∧
      w₂.requests = requests := by
  have polled := h.showing.pollLoad_none waits
  intro w₁ w₂
  have performed : w₂ =
      { w with
        requests
        deliveries
        machine := w.machine.withLoadStarted w₀.machine.nextTask place
        log := w.log ++ [] } := by
    simp only [w₂, w₁, polled]
    rfl
  have same : warned s (Function.update stage place next) = warned s stage := by
    cases place <;> simp [warned, waits, going]
  obtain ⟨warnings, logged, perm⟩ := h.log
  rw [performed]
  refine ⟨⟨h.network, h.timeout, h.endings, h.showing.asked waits going started, ?_,
    h.lost_update lost, ⟨warnings, (List.append_nil _).trans logged, same ▸ perm⟩,
    (List.nodup_cons.1 h.nodup).2, ready_of_cons h.nodup rfl h.ready notReady⟩,
    ⟨rfl, rfl, fun id watches => watches.withLoadStarted _ place⟩, rfl⟩
  rw [dues_update]
  exact expects.of_same rfl

theorem started_eq (h : Loading s w₀ catalog account stage jobs w)
    (going : (stage place).isGoing = true) :
    (w.machine.loads.any fun l => Machine.isLoad w₀.machine.nextTask place l && l.started) =
      (stage place).isStarted := by
  rw [Bool.eq_iff_iff, List.any_eq_true]
  constructor
  · rintro ⟨l, mem, started⟩
    rw [Bool.and_eq_true, Machine.isLoad_iff] at started
    rw [← started.1.2, ← ((h.showing.loads l).1 mem).2.2.2]
    exact started.2
  -- The load in the list is the one that the stage describes.
  · intro started
    exact ⟨_, h.showing.load_mem going, by simp [Showing.load, Machine.isLoad, started]⟩

theorem runJob_asks (h : Loading s w₀ catalog account stage jobs w) (waits : stage place = .waiting)
    (brings : w.Brings s (.places place)) :
    let time := w.arrival (.places place)
    ∃ deliveries,
      w.runJob (.go (.load w₀.machine.nextTask place)) =
        (let w₁ : App σ :=
          { w.asked (.places place) with
            deliveries
            log := w.log ++ if time.isSome then [] else s.notices (.places place) }
        w₁.perform (w₁.machine.pollLoad w₀.machine.nextTask place
          (if time.isSome then none else s.ending place))) ∧
      Expects { w with deliveries } s w₀.machine.nextTask
        (Function.update (dues stage) (.places place) time) := by
  intro time
  have going : (stage place).isGoing = true := by
    rw [waits]
    rfl
  have fresh : dues stage (.places place) = none := by
    rw [dues, waits]
    rfl
  obtain ⟨deliveries, asks, expects⟩ := h.expects.ask brings fresh
  rw [taskOf] at asks
  refine ⟨deliveries, ?_, expects⟩
  unfold App.runJob go
  dsimp only
  rw [h.started_eq going, waits]
  simp only [Stage.isStarted, Bool.false_eq_true, if_false, asks, apply_ite (Option.map _),
    Option.map_none, s.reply_places, time]

theorem ask
    (h : Loading s w₀ catalog account stage (.go (.load w₀.machine.nextTask place) :: jobs) w)
    (waits : stage place = .waiting) (brings : w.Brings s (.places place)) :
    let next : Stage := .ofAnswer w.now (w.answer? (.places place))
    let w' := w.runJob (.go (.load w₀.machine.nextTask place))
    Loading s w₀ catalog account (Function.update stage place next) jobs w' ∧ w.Keeps w' ∧
      w'.requests = (w.asked (.places place)).requests := by
  intro next w'
  obtain ⟨deliveries, asks, expects⟩ := h.runJob_asks waits brings
  have ends := brings.ending
  unfold w' next
  rw [asks]
  cases answered : w.answer? (.places place) with
  | none =>
    -- No answer will ever come, so nothing gets under way either.
    have never : w.arrival (.places place) = none := by
      rw [arrival, answered]
      rfl
    have unlogged : s.notices (.places place) = [] := by
      unfold Brings at brings
      rw [Supply.notices, brings, answered]
      rfl
    rw [answered] at ends
    rw [never] at expects ⊢
    rw [unlogged, ends]
    exact h.wait waits rfl rfl rfl (fun _ => ends) _ deliveries expects
  | some answer =>
    obtain ⟨_ | delay, fetched⟩ := answer
    · have now : w.arrival (.places place) = none := by
        rw [arrival, answered]
        rfl
      have going : (stage place).isGoing = true := by
        rw [waits]
        rfl
      rw [answered] at ends
      rw [now] at expects ⊢
      simp only [Option.isSome_none, Bool.false_eq_true, if_false]
      rw [ends]
      exact h.settle going ends _ deliveries expects
    -- The answer comes after a delay, which is not zero.
    · have later : w.arrival (.places place) = some (w.now + (delay + 1)) := by
        rw [arrival, answered]
        rfl
      have notReady : (Stage.asked (w.now + (delay + 1))).isReady w.now = false :=
        decide_eq_false (by omega)
      rw [later] at expects ⊢
      exact h.wait waits rfl rfl notReady (fun lost => Stage.noConfusion lost) _ deliveries expects

theorem take
    (h : Loading s w₀ catalog account stage (.go (.load w₀.machine.nextTask place) :: jobs) w)
    {due : Nat} (asked : stage place = .asked due) (there : due ≤ w.now) :
    let w' := w.runJob (.go (.load w₀.machine.nextTask place))
    Loading s w₀ catalog account (Function.update stage place .settled) jobs w' ∧ w.Keeps w' := by
  intro w'
  have going : (stage place).isGoing = true := by
    rw [asked]
    rfl
  obtain ⟨deliveries, collects, expects⟩ := h.expects.collect (.places place)
  have arrives : dues stage (.places place) = some due := by
    rw [dues, asked]
    rfl
  have isThere : isThere w.now (dues stage (.places place)) = true := by
    rw [arrives]
    exact decide_eq_true there
  obtain ⟨reply, ends⟩ : ∃ reply, s.ending place = some reply := by
    obtain ⟨fetched, brings⟩ := h.expects.supplied _ _ arrives
    rw [← s.reply_places, Supply.reply, brings]
    exact ⟨_, rfl⟩
  rw [ahead_of_there isThere] at expects
  simp only [taskOf, isThere, if_true] at collects
  have taken : w' =
      (let w₁ : App σ := { w with deliveries, log := w.log ++ s.notices (.places place) }
      w₁.perform (w₁.machine.pollLoad w₀.machine.nextTask place (some reply))) := by
    unfold w' App.runJob go
    dsimp only
    rw [h.started_eq going, asked]
    simp only [Stage.isStarted, if_true, collects, s.reply_places, ends]
  rw [taken]
  obtain ⟨loading, keeps, -⟩ := h.settle going ends w.requests deliveries expects
  exact ⟨loading, keeps⟩

/-- A job that is due is done: its load asks, or takes its answer. -/
theorem runJob {job : Job} (h : Loading s w₀ catalog account stage (job :: jobs) w)
    (asks : (∀ place, stage place ≠ .waiting) ∨ Supplied s w₀) :
    ∃ stage', Loading s w₀ catalog account stage' jobs (w.runJob job) ∧ Advances w.now stage stage' ∧
      w.Keeps (w.runJob job) := by
  obtain ⟨place, rfl, isReady⟩ := (h.ready job).1 List.mem_cons_self
  -- Only a load that is still to ask, or whose answer is there, has a job.
  cases hs : stage place with
  | lost | settled => rw [hs] at isReady; cases isReady
  | asked due =>
    obtain ⟨loading, keeps⟩ := h.take hs (by rw [hs] at isReady; exact of_decide_eq_true isReady)
    exact ⟨_, loading, .update (.inr ⟨rfl, isReady⟩), keeps⟩
  | waiting =>
    have supplied : Supplied s w₀ := asks.resolve_left fun asked => asked place hs
    obtain ⟨loading, keeps, -⟩ := h.ask hs (supplied w place h.network h.timeout h.showing.credentials)
    exact ⟨_, loading, .update (.inl hs), keeps⟩

theorem foldl_runJob (h : Loading s w₀ catalog account stage jobs w)
    (asks : (∀ place, stage place ≠ .waiting) ∨ Supplied s w₀) :
    ∃ stage', Loading s w₀ catalog account stage' [] (jobs.foldl App.runJob w) ∧
      Advances w.now stage stage' ∧ w.Keeps (jobs.foldl App.runJob w) := by
  induction jobs generalizing w stage with
  | nil => exact ⟨stage, h, .refl _ stage, .refl w⟩
  | cons job jobs ih =>
    obtain ⟨stage₁, h₁, advances₁, keeps₁⟩ := h.runJob asks
    obtain ⟨stage₂, h₂, advances₂, keeps₂⟩ := ih h₁ (asks.imp_left advances₁.ne_waiting)
    exact ⟨stage₂, h₂, advances₁.trans (keeps₁.now ▸ advances₂), keeps₁.trans keeps₂⟩

theorem emptied (h : Loading s w₀ catalog account stage jobs w) :
    Loading s w₀ catalog account stage jobs { w with queue := [] } :=
  ⟨h.network, h.timeout, h.endings, h.showing, h.expects.of_same rfl, h.lost, h.log, h.nodup, h.ready⟩

theorem drain (h : Loading s w₀ catalog account stage w.queue w)
    (asks : (∀ place, stage place ≠ .waiting) ∨ Supplied s w₀) :
    ∃ stage', Loading s w₀ catalog account stage' [] w.drain ∧ Advances w.now stage stage' ∧
      Keeps { w with queue := [] } w.drain := by
  obtain ⟨stage', h', advances, keeps⟩ := h.emptied.foldl_runJob asks
  have same : w.drain = w.runQueue := runQueue_of_nil keeps.queue
  rw [same]
  exact ⟨stage', h', advances, keeps⟩

theorem moveTo (h : Loading s w₀ catalog account stage w.queue w) {time : Nat}
    (onward : w.now ≤ time) :
    Loading s w₀ catalog account stage (w.moveTo none time).queue (w.moveTo none time) := by
  have arriving : ∀ job, job ∈ ((w.deliveries.filter fun d =>
      w.now < d.due && d.due ≤ time && some d.task != none).map (·.task)).eraseDups.map Job.go ↔
        ∃ place t, job = .go (.load w₀.machine.nextTask place) ∧ stage place = .asked t ∧
          w.now < t ∧ t ≤ time := by
    intro job
    simp only [List.mem_map, h.expects.mem_arriving none time, dues_eq_some_iff]
    constructor
    · rintro ⟨task, ⟨-, endpoint, t, rfl, ⟨place, rfl, asked⟩, between⟩, rfl⟩
      exact ⟨place, t, rfl, asked, between⟩
    · rintro ⟨place, t, rfl, asked, between⟩
      exact ⟨_, ⟨nofun, _, t, rfl, ⟨place, rfl, asked⟩, between⟩, rfl⟩
  refine ⟨h.network, h.timeout, h.endings, h.showing, h.expects.of_same rfl, h.lost, h.log, ?_, ?_⟩
  · show (w.queue ++ _).Nodup
    rw [List.nodup_append]
    refine ⟨h.nodup, (nodup_eraseDups _).map fun _ _ => Job.go.inj, ?_⟩
    -- A load that can go on already has no answer ahead.
    rintro job mem _ mem' rfl
    obtain ⟨place, rfl, isReady⟩ := (h.ready job).1 mem
    obtain ⟨place', t, same, asked, later, -⟩ := (arriving _).1 mem'
    cases same
    rw [asked] at isReady
    exact absurd later (Nat.not_lt_of_le (of_decide_eq_true isReady))
  · intro job
    show job ∈ w.queue ++ _ ↔ _
    rw [List.mem_append, h.ready, arriving, ← exists_or]
    refine exists_congr fun place => ?_
    show _ ↔ _ ∧ (stage place).isReady time = true
    cases hs : stage place with
    | waiting | lost | settled => simp [Stage.isReady]
    | asked due =>
      simp only [Stage.isReady, decide_eq_true_eq, Stage.asked.injEq]
      constructor
      · rintro (⟨rfl, now⟩ | ⟨t, rfl, rfl, -, now⟩)
        · exact ⟨rfl, Nat.le_trans now onward⟩
        · exact ⟨rfl, now⟩
      · rintro ⟨rfl, now⟩
        obtain later | already := Nat.lt_or_ge w.now due
        · exact .inr ⟨due, rfl, rfl, later, now⟩
        · exact .inl ⟨rfl, already⟩

/-- Without a job no load is still to ask, and no answer that is there waits to be taken. -/
theorem asked_of_nil (h : Loading s w₀ catalog account stage [] w) (place : Place) :
    stage place = .lost ∨ stage place = .settled ∨ ∃ t, stage place = .asked t ∧ w.now < t := by
  have notReady : (stage place).isReady w.now ≠ true := fun isReady =>
    List.not_mem_nil ((h.ready _).2 ⟨place, rfl, isReady⟩)
  cases hs : stage place with
  | lost => exact .inl rfl
  | settled => exact .inr (.inl rfl)
  | waiting => simp [hs, Stage.isReady] at notReady
  | asked t => exact .inr (.inr ⟨t, rfl, by simpa [hs, Stage.isReady] using notReady⟩)

theorem nextDue_eq_none (h : Loading s w₀ catalog account stage [] w) (none : w.nextDue = none)
    (place : Place) : stage place = .lost ∨ stage place = .settled := by
  obtain lost | settled | ⟨t, asked, later⟩ := h.asked_of_nil place
  · exact .inl lost
  · exact .inr settled
  · have past := h.expects.nextDue_eq_none_iff.1 none (.places place)
    rw [ahead_eq_none_iff] at past
    exact absurd (past t (dues_eq_some_iff.2 ⟨place, rfl, asked⟩)) (Nat.not_le_of_lt later)

theorem nextDue_eq_some (h : Loading s w₀ catalog account stage [] w) {time : Nat}
    (next : w.nextDue = some time) : w.now < time ∧ ∃ place, stage place = .asked time := by
  obtain ⟨later, endpoint, arrives⟩ := h.expects.nextDue_eq_some next
  obtain ⟨place, -, asked⟩ := dues_eq_some_iff.1 arrives
  exact ⟨later, place, asked⟩

/-- A load that goes on leaves enough to wait for. -/
theorem three_le_arrivals (h : Loading s w₀ catalog account stage w.queue w)
    (going : (stage place).isGoing = true) (answered : stage place ≠ .lost) : 3 ≤ w.arrivals := by
  -- The load counts, and so does its job or its delivery.
  have load : 1 ≤ w.machine.loads.length := List.length_pos_of_mem (h.showing.load_mem going)
  unfold arrivals
  cases hs : stage place with
  | settled => rw [hs] at going; cases going
  | lost => exact absurd hs answered
  | waiting =>
    have job : 1 ≤ w.queue.length :=
      List.length_pos_of_mem ((h.ready _).2 ⟨place, rfl, by rw [hs]; rfl⟩)
    omega
  | asked t =>
    obtain ⟨_, -, mem⟩ := h.expects.delivery (dues_eq_some_iff.2 ⟨place, rfl, hs⟩)
    have delivery : 1 ≤ w.deliveries.length := List.length_pos_of_mem mem
    omega

theorem ne_waiting (h : Loading s w₀ catalog account stage [] w) (place : Place) :
    stage place ≠ .waiting := by
  obtain lost | settled | ⟨t, asked, -⟩ := h.asked_of_nil place
  · rw [lost]
    exact Stage.noConfusion
  · rw [settled]
    exact Stage.noConfusion
  · rw [asked]
    exact Stage.noConfusion

section Waiting
variable (supplied : Supplied s w₀)
include supplied

/-- Waiting goes on with the loads and does nothing else. -/
theorem waitUntil {deadline : Nat} (fuel : Nat) (h : Loading s w₀ catalog account stage w.queue w)
    (onward : w.now ≤ deadline) :
    ∃ stage', Loading s w₀ catalog account stage' (App.waitUntil deadline fuel w).queue
      (App.waitUntil deadline fuel w) := by
  -- The invariant is that of the rounds: each drains the jobs and then moves on.
  refine (waitUntil_keeps
    (P := fun w => w.now ≤ deadline ∧ ∃ stage, Loading s w₀ catalog account stage w.queue w)
    ?_ ?_ fuel ⟨onward, stage, h⟩).2
  · rintro w ⟨onward, stage, h⟩
    obtain ⟨stage', h', -, keeps⟩ := h.drain (.inr supplied)
    exact ⟨keeps.now ▸ onward, stage', keeps.queue ▸ h'⟩
  · rintro w time ⟨onward, stage, h⟩ (rfl | ⟨later, early⟩)
    · exact ⟨Nat.le_refl _, stage, h.moveTo onward⟩
    · exact ⟨Nat.le_of_lt early, stage, h.moveTo (Nat.le_of_lt later)⟩

variable (answered : ∀ place, s.ending place ≠ none)
include answered

/-- Whoever waits beyond all the answers sees both loads settle. -/
theorem waitUntil_settles {deadline : Nat} (fuel : Nat)
    (h : Loading s w₀ catalog account stage w.queue w) (asked : ∀ place, stage place ≠ .waiting)
    (early : ∀ place t, stage place = .asked t → t < deadline) (before : w.now < deadline)
    (enough : flying w.now stage < fuel) :
    ∃ stage', Loading s w₀ catalog account stage' (App.waitUntil deadline fuel w).queue
      (App.waitUntil deadline fuel w) ∧ ∀ place, stage' place = .settled := by
  -- Each round moves on to an arrival, so that one answer fewer is ahead in the next.
  induction fuel generalizing w stage with
  | zero => exact absurd enough (Nat.not_lt_zero _)
  | succ fuel ih =>
    obtain ⟨stage', h', advances, keeps⟩ := h.drain (.inr supplied)
    have now : w.drain.now = w.now := keeps.now
    have drained : Loading s w₀ catalog account stage' w.drain.queue w.drain := keeps.queue ▸ h'
    unfold App.waitUntil
    rw [if_neg (Nat.not_le_of_lt before)]
    cases next : w.drain.nextDue with
    | none =>
      simp only [next]
      exact ⟨stage', drained.moveTo (now ▸ Nat.le_of_lt before), fun place =>
        (h'.nextDue_eq_none next place).resolve_left fun lost => answered place (h'.lost place lost)⟩
    | some time =>
      obtain ⟨later, place, arrives⟩ := h'.nextDue_eq_some next
      have kept : ∀ p t, stage' p = .asked t → stage p = .asked t := fun p t ht =>
        advances.asked asked ht
      have soon : time < deadline := early place time (kept place time arrives)
      simp only [next, soon, if_true]
      refine ih (drained.moveTo (Nat.le_of_lt later)) h'.ne_waiting
        (fun p t ht => early p t (kept p t ht)) soon ?_
      have fewer := flying_lt kept (now ▸ later) arrives
      exact Nat.lt_of_lt_of_le fewer (Nat.le_of_lt_succ enough)

theorem sleep_settles (h : Loading s w₀ catalog account stage w.queue w) :
    ∃ bound, ∀ duration, bound < duration →
      ∃ stage', Loading s w₀ catalog account stage' (w.sleep duration).queue (w.sleep duration) ∧
        ∀ place, stage' place = .settled := by
  -- In the first round a load may still ask: the bound comes from what is ahead after it.
  obtain ⟨stage', h', advances, keeps⟩ := h.drain (.inr supplied)
  have now : w.drain.now = w.now := keeps.now
  have drained : Loading s w₀ catalog account stage' w.drain.queue w.drain := keeps.queue ▸ h'
  refine ⟨(stage' .mine).due?.getD 0 + (stage' .gamble).due?.getD 0, fun duration long => ?_⟩
  have early : ∀ place t, stage' place = .asked t → t < w.now + duration := by
    intro place t asked
    cases place <;> rw [asked] at long <;> simp only [Stage.due?, Option.getD_some] at long <;> omega
  have before : w.now < w.now + duration := Nat.lt_add_of_pos_right (Nat.zero_lt_of_lt long)
  unfold sleep arrivals App.waitUntil
  rw [if_neg (Nat.not_le_of_lt before)]
  cases next : w.drain.nextDue with
  | none =>
    simp only [next]
    exact ⟨stage', drained.moveTo (Nat.le_trans (Nat.le_of_eq now) (Nat.le_of_lt before)), fun place =>
      (h'.nextDue_eq_none next place).resolve_left fun lost => answered place (h'.lost place lost)⟩
  | some time =>
    obtain ⟨later, place, arrives⟩ := h'.nextDue_eq_some next
    have soon : time < w.now + duration := early place time arrives
    simp only [next, soon, if_true]
    refine waitUntil_settles supplied answered _ (drained.moveTo (Nat.le_of_lt later)) h'.ne_waiting
      early soon ?_
    have fewer : flying time stage' < flying w.drain.now stage' :=
      flying_lt (fun _ _ asked => asked) later arrives
    have few : flying w.drain.now stage' ≤ 2 := Nat.add_le_add (Bool.toNat_le _) (Bool.toNat_le _)
    have goes : (stage place).isGoing = true ∧ stage place ≠ .lost := by
      obtain waits | same | ⟨settled, -⟩ := advances place
      · rw [waits]
        exact ⟨rfl, Stage.noConfusion⟩
      · rw [← same, arrives]
        exact ⟨rfl, Stage.noConfusion⟩
      · rw [arrives] at settled
        cases settled
    have enough := h.three_le_arrivals goes.1 goes.2
    unfold arrivals at enough
    show flying time stage' < _
    omega

end Waiting

end Loading

theorem opened_loading {s : Supply} {w₀ w : App σ} {due : Arrivals} (idle : w₀.Idle)
    (fetching : Fetching s w₀ w due) (arrived : ∀ e, due e = none) (catalog : List ItemDescriptor)
    (account : UserAccountInfo) :
    Loading s w₀ catalog account (fun _ => .waiting) (w.opened w₀ catalog account).queue
      (w.opened w₀ catalog account) := by
  have showing : Showing s w₀ catalog account (fun _ => .waiting)
      (w₀.machine.begun.opened w₀.machine.newRun catalog account) := by
    refine ⟨rfl, rfl, rfl, rfl, ?_, ?_, ?_, ?_⟩
    · show (w₀.machine.core.state.value.withFirstScreen catalog account).firstScreen = _
      rw [idle.blank]
    · intro place
      show (w₀.machine.core.state.value.withFirstScreen catalog account).places place = none
      rw [GameState.places_withFirstScreen, idle.blank, GameState.places_blank]
    · intro place
      show w₀.machine.core.loads.value.status place = .pending
      rw [idle.pending, Loads.status_blank]
    · rintro ⟨run, place, generation, started⟩
      show _ ∈ w₀.machine.loads ++ Machine.loadsOf w₀.machine.newRun ↔ _
      rw [idle.loads, List.nil_append]
      cases place <;> simp [Machine.loadsOf, Machine.newRun, Stage.isStarted]
  -- Both answers to the first screen have been taken.
  have nothing : dues (fun _ => .waiting) = due := by
    funext endpoint
    rw [arrived]
    cases endpoint <;> rfl
  refine ⟨fetching.network, fetching.timeout, ?_, showing, (nothing ▸ fetching.expects).of_same rfl,
    fun _ lost => Stage.noConfusion lost, ⟨[], ?_, .refl _⟩, ?_, ?_⟩
  · simp [opened, fetching.endings]
  · simp [opened, fetching.log]
  · simp [opened]
  · intro job
    simp only [opened, List.mem_cons, List.not_mem_nil, or_false, Stage.isReady, and_true]
    constructor
    · rintro (rfl | rfl)
      · exact ⟨.mine, rfl⟩
      · exact ⟨.gamble, rfl⟩
    · rintro ⟨place, rfl⟩
      cases place
      · exact .inl rfl
      · exact .inr rfl

end App
end MiningClient
