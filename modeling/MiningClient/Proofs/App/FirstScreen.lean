import MiningClient.Proofs.App.Expecting
import MiningClient.Proofs.Session.Steps

namespace MiningClient
open Session

namespace Supply

/-- A run comes to an end: something fails, or both answers come. -/
def IsDecided (s : Supply) : Prop :=
  (s.items.isSome ∧ s.account.isSome) ∨ ∃ e, s.items = some (.error e) ∨ s.account = some (.error e)

end Supply

namespace App
variable {σ : Type}

/-- Nothing is going on, nothing is shown, and an initialization may begin. -/
structure Idle (w : App σ) : Prop where
  queue : w.queue = []
  deliveries : w.deliveries = []
  runs : w.machine.runs = []
  loads : w.machine.loads = []
  free : w.machine.core.mayBegin = true
  blank : w.machine.core.state.value = {}
  pending : w.machine.core.loads.value = {}
  endings : ∀ e ∈ w.endings, e.1 < w.machine.nextTask

theorem Idle.fresh (credentials : Credentials σ) (network : Network) (timeout : Option Nat)
    (patience : Nat) (log : List Notice) :
    Idle { machine := .fresh credentials, network, timeout, patience, log : App σ } :=
  ⟨rfl, rfl, rfl, rfl, rfl, rfl, rfl, fun _ mem => absurd mem List.not_mem_nil⟩

/-- The requests made since go to these endpoints. -/
def HasAsked (w₀ w : App σ) (endpoints : List Endpoint) : Prop :=
  ∃ requests, w.requests = w₀.requests ++ requests ∧ requests.map (·.path) = endpoints.map path

/-- A startup has asked for the first screen, and beside that and its machine nothing has changed. -/
structure Fetching (s : Supply) (w₀ w : App σ) (due : Arrivals) : Prop where
  network : w.network = w₀.network
  timeout : w.timeout = w₀.timeout
  patience : w.patience = w₀.patience
  queue : w.queue = []
  endings : w.endings = w₀.endings
  log : w.log = w₀.log
  requests : w.requests = ((w₀.asked .items).asked .account).requests
  expects : w.Expects s w₀.machine.nextTask due
  first : ∀ place, due (.places place) = none

/-- The answers that are not under way any more, as the run has them. -/
structure Holds (s : Supply) (due : Arrivals) (items : Option ItemsReply)
    (account : Option AccountReply) : Prop where
  items : items = if (due .items).isSome then none else s.items
  account : account = if (due .account).isSome then none else s.account

def missing (due : Arrivals) : Nat :=
  (due .items).isSome.toNat + (due .account).isSome.toNat

theorem missing_pos_iff {due : Arrivals} :
    0 < missing due ↔ (due .items).isSome ∨ (due .account).isSome := by
  unfold missing
  cases (due .items).isSome <;> cases (due .account).isSome <;> decide

namespace Holds
variable {s : Supply} {due : Arrivals} {i : Option ItemsReply} {a : Option AccountReply}

theorem items_eq (h : Holds s due i a) {reply : ItemsReply} (has : i = some reply) :
    due .items = none ∧ s.items = some reply := by
  have items := h.items
  rw [has] at items
  cases hd : due .items with
  | none => simpa [hd, eq_comm] using items
  | some t => simp [hd] at items

theorem account_eq (h : Holds s due i a) {reply : AccountReply} (has : a = some reply) :
    due .account = none ∧ s.account = some reply := by
  have account := h.account
  rw [has] at account
  cases hd : due .account with
  | none => simpa [hd, eq_comm] using account
  | some t => simp [hd] at account

theorem missing_pos {run : Run} (h : Holds s due run.heldItems run.heldAccount) (decided : s.IsDecided)
    (waits : run.items = none ∨ run.account = none) : 0 < missing due := by
  rw [missing_pos_iff]
  -- If nothing were under way the run would have all that is supplied, and would not wait.
  by_contra nothing
  obtain ⟨noItems, noAccount⟩ := not_or.1 nothing
  have items : run.heldItems = s.items := by rw [h.items, if_neg noItems]
  have account : run.heldAccount = s.account := by rw [h.account, if_neg noAccount]
  obtain ⟨hasItems, hasAccount⟩ | ⟨e, failed | failed⟩ := decided
  · rw [← items, Run.heldItems, Option.isSome_map] at hasItems
    rw [← account, Run.heldAccount, Option.isSome_map] at hasAccount
    obtain none | none := waits
    · rw [none] at hasItems
      cases hasItems
    · rw [none] at hasAccount
      cases hasAccount
  · obtain ⟨_, -, ⟨⟩⟩ := Option.map_eq_some_iff.1 (items.trans failed)
  · obtain ⟨_, -, ⟨⟩⟩ := Option.map_eq_some_iff.1 (account.trans failed)

end Holds

def failed (w w₀ : App σ) (e : Error) : App σ :=
  { w with
    machine :=
      { w₀.machine.begun with core := w₀.machine.begun.core.fail w₀.machine.core.generation e }
    log := w.log ++ [.reported ⟨Report.startup, e⟩]
    endings := w.endings ++ [(w₀.machine.nextTask, .run (.error e))] }

/-- The client when the run has published the first screen, and its loads are to begin. -/
def opened (w w₀ : App σ) (catalog : List ItemDescriptor) (account : UserAccountInfo) : App σ :=
  { w with
    machine := w₀.machine.begun.opened w₀.machine.newRun catalog account
    log := w.log ++ (GameState.repeatedIds catalog).map .repeatedItem
    endings := w.endings ++ [(w₀.machine.nextTask, .run (.ok .initialized))]
    queue := [.go (.load w₀.machine.nextTask .mine), .go (.load w₀.machine.nextTask .gamble)] }

/-- How a startup ends. -/
inductive Ended (s : Supply) (w₀ : App σ) : Except Error Outcome → App σ → Prop
  | failed (w : App σ) (due : Arrivals) (fetching : Fetching s w₀ w due) (e : Error)
      (error : s.items = some (.error e) ∨ s.account = some (.error e)) :
      Ended s w₀ (.error e) (w.failed w₀ e)
  | opened (w : App σ) (due : Arrivals) (fetching : Fetching s w₀ w due) (none : ∀ e, due e = none)
      (catalog : List ItemDescriptor) (account : UserAccountInfo) (items : s.items = some (.ok catalog))
      (there : s.account = some (.ok account)) :
      Ended s w₀ (.ok .initialized) (w.opened w₀ catalog account)

/-- How far a startup is when its run has been polled. At most `n` answers are missing then. -/
inductive Polled (s : Supply) (w₀ : App σ) (n : Nat) : App σ → Prop
  | waiting (w : App σ) (due : Arrivals) (run : Run) (fetching : Fetching s w₀ w due)
      (later : ∀ endpoint, ahead w.now (due endpoint) = due endpoint)
      (machine : w.machine = w₀.machine.begun.withRun run) (id : run.id = w₀.machine.nextTask)
      (generation : run.generation = w₀.machine.core.generation)
      (holds : Holds s due run.heldItems run.heldAccount)
      (some : 0 < missing due) (few : missing due ≤ n) : Polled s w₀ n w
  | ended (w : App σ) (result : Except Error Outcome) (ended : Ended s w₀ result w) : Polled s w₀ n w

section Notes

theorem foldl_note_noticed (w : App σ) (notices : List Notice) :
    (notices.map .noticed).foldl note w = { w with log := w.log ++ notices } := by
  induction notices generalizing w with
  | nil => simp
  | cons notice notices ih =>
    rw [List.map_cons, List.foldl_cons, ih]
    simp [note, List.append_assoc]

theorem perform_failed (w w₀ : App σ) (e : Error) :
    w.perform
        ({ w₀.machine.begun with core := w₀.machine.begun.core.fail w₀.machine.core.generation e },
          [.noticed (.reported ⟨Report.startup, e⟩), .finished w₀.machine.nextTask (.run (.error e))]) =
      w.failed w₀ e := by
  simp [failed, perform, note]

theorem perform_opened {w : App σ} (queue : w.queue = []) (w₀ : App σ) (catalog : List ItemDescriptor)
    (account : UserAccountInfo) :
    w.perform
        (w₀.machine.begun.opened w₀.machine.newRun catalog account,
          (GameState.repeatedIds catalog).map (fun id => .noticed (.repeatedItem id)) ++
            [.finished w₀.machine.nextTask (.run (.ok .initialized))]) =
      w.opened w₀ catalog account := by
  have notices : (GameState.repeatedIds catalog).map (fun id => Effect.noticed (.repeatedItem id)) =
      ((GameState.repeatedIds catalog).map Notice.repeatedItem).map .noticed := by
    -- The warnings come before the return, and none of them is for a caller.
    rw [List.map_map]
    rfl
  rw [perform, List.foldl_append, notices, foldl_note_noticed]
  simp [opened, note, queue]

theorem perform_fetches (w : App σ) (m : Machine σ) (i : Option ItemsReply) (effects : List Effect) :
    w.perform (m, Machine.askedFetches i ++ effects) = w.perform (m, effects) := by
  unfold Machine.askedFetches
  split <;> rfl

end Notes

section Poll
variable {s : Supply} {w₀ w : App σ} {due : Arrivals}

/-- A poll with all the answers that have arrived comes out in one of the three ways. -/
theorem polled (decided : s.IsDecided) (fetching : Fetching s w₀ w due)
    (later : ∀ endpoint, ahead w.now (due endpoint) = due endpoint) {n : Nat} (few : missing due ≤ n)
    {run : Run} (id : run.id = w₀.machine.nextTask)
    (generation : run.generation = w₀.machine.core.generation) {i : Option ItemsReply}
    {a : Option AccountReply} (holds : Holds s due (run.heldItems.or i) (run.heldAccount.or a)) :
    Polled s w₀ n (w.perform (w₀.machine.begun.advance run i a)) := by
  have advance := w₀.machine.begun.advance_cases run i a
  generalize w₀.machine.begun.advance run i a = r at advance
  cases advance with
  | waiting run' goes =>
    have holds : Holds s due run'.heldItems run'.heldAccount := by
      rw [goes.items, goes.account]
      exact holds
    exact .waiting { w with machine := w₀.machine.begun.withRun run' } due run'
      ⟨fetching.network, fetching.timeout, fetching.patience, fetching.queue, fetching.endings,
        fetching.log, fetching.requests, fetching.expects.of_same rfl, fetching.first⟩
      later rfl (goes.id.trans id) (goes.generation.trans generation) holds
      (holds.missing_pos decided goes.missing) few
  | failed e poll =>
    have error : s.items = some (.error e) ∨ s.account = some (.error e) := by
      obtain items | account := Run.poll_failed poll
      · exact .inl (holds.items_eq items).2
      · exact .inr (holds.account_eq account).2
    rw [id, generation, perform_failed]
    exact .ended _ _ (.failed w due fetching e error)
  -- Nothing has been reset since the run began.
  | discarded _ _ _ past => exact absurd generation.symm past
  | opened catalog account poll =>
    obtain ⟨hi, ha⟩ := Run.poll_complete poll
    obtain ⟨noItems, items⟩ := holds.items_eq hi
    obtain ⟨noAccount, there⟩ := holds.account_eq ha
    have none : ∀ e, due e = none := by
      intro e
      cases e with
      | items => exact noItems
      | account => exact noAccount
      | places place => exact fetching.first place
    -- Of the run only its task and its generation go into what it opens.
    have same : w₀.machine.begun.opened run catalog account =
        w₀.machine.begun.opened w₀.machine.newRun catalog account := by
      simp only [Machine.opened, Machine.loadsOf, id, generation]
      rfl
    rw [same, id, perform_opened fetching.queue]
    exact .ended _ _ (.opened w due fetching none catalog account items there)

theorem Fetching.collect (h : Fetching s w₀ w due) :
    ∃ w₁ w₂ : App σ,
      w.collect (.run w₀.machine.nextTask) .items =
        (if isThere w.now (due .items) then s.reply .items else none, w₁) ∧
      w₁.collect (.run w₀.machine.nextTask) .account =
        (if isThere w.now (due .account) then s.reply .account else none, w₂) ∧
      w₂.machine = w.machine ∧ w₂.now = w.now ∧
      Fetching s w₀ w₂ fun endpoint => ahead w.now (due endpoint) := by
  obtain ⟨w₁, deliveries, due', items, account, expects, dueItems, dueAccount, others⟩ :=
    h.expects.collect_run
  have same : due' = fun endpoint => ahead w.now (due endpoint) := by
    funext endpoint
    cases endpoint with
    | items => exact dueItems
    | account => exact dueAccount
    | places place =>
      rw [others, h.first]
      rfl
  refine ⟨w₁, _, items, account, rfl, rfl, h.network, h.timeout, h.patience, h.queue, h.endings, h.log,
    h.requests, same ▸ expects, ?_⟩
  intro place
  rw [h.first]
  rfl

theorem go_polled (idle : w₀.Idle) (decided : s.IsDecided) (fetching : Fetching s w₀ w due) {run : Run}
    (machine : w.machine = w₀.machine.begun.withRun run) (id : run.id = w₀.machine.nextTask)
    (generation : run.generation = w₀.machine.core.generation)
    (holds : Holds s due run.heldItems run.heldAccount) {n : Nat}
    (few : missing (fun endpoint => ahead w.now (due endpoint)) ≤ n) :
    Polled s w₀ n (w.go (.run w₀.machine.nextTask)) := by
  have found : w.machine.runs.find? (·.id == w₀.machine.nextTask) = some run := by
    rw [machine]
    simp [Machine.withRun, Machine.begun, idle.runs, id]
  have without : w.machine.withoutRun w₀.machine.nextTask = w₀.machine.begun := by
    rw [machine]
    simp [Machine.withoutRun, Machine.withRun, Machine.begun, idle.runs, id]
  -- Both answers are collected first, and then the run is polled once.
  obtain ⟨w₁, w₂, items, account, same, now, fetching'⟩ := fetching.collect
  have later : ∀ endpoint,
      ahead w₂.now (ahead w.now (due endpoint)) = ahead w.now (due endpoint) := by
    intro endpoint
    rw [now, ahead_ahead]
  unfold go
  simp only [items, account, same, Machine.pollRun_of_some found, without]
  refine polled decided fetching' later few id generation ⟨?_, ?_⟩
  · rw [holds.items, ← held_or_arrived, apply_ite (Option.map _), s.reply_items]
    rfl
  · rw [holds.account, ← held_or_arrived, apply_ite (Option.map _), s.reply_account]
    rfl

theorem Idle.ask (idle : w₀.Idle) (items : w₀.Brings s .items)
    (account : (w₀.asked .items).Brings s .account) :
    ∃ (w₁ w₂ : App σ) (due : Arrivals),
      w₀.ask (.run w₀.machine.nextTask) .items =
        (if (due .items).isSome then none else s.reply .items, w₁) ∧
      w₁.ask (.run w₀.machine.nextTask) .account =
        (if (due .account).isSome then none else s.reply .account, w₂) ∧
      w₂.machine = w₀.machine ∧ (∀ endpoint, ahead w₂.now (due endpoint) = due endpoint) ∧
      due .items = w₀.arrival .items ∧ Fetching s w₀ w₂ due := by
  -- Nothing is under way before.
  have nothing : w₀.Expects s w₀.machine.nextTask fun _ => none := by
    refine ⟨fun d => ?_, nofun⟩
    simp [idle.deliveries]
  obtain ⟨deliveries, asksItems, expects⟩ := nothing.ask items rfl
  rw [s.notices_items] at asksItems
  let w₁ : App σ :=
    { w₀.asked .items with
      deliveries
      log := w₀.log ++ if (w₀.arrival .items).isSome then [] else [] }
  have expects : w₁.Expects s w₀.machine.nextTask
      (Function.update (fun _ => none) .items (w₀.arrival .items)) := expects.of_same rfl
  obtain ⟨deliveries', asksAccount, expects'⟩ := expects.ask account rfl
  rw [s.notices_account] at asksAccount
  let due : Arrivals :=
    Function.update (Function.update (fun _ => none) .items (w₀.arrival .items)) .account
      (w₁.arrival .account)
  have dueItems : due .items = w₀.arrival .items := by simp [due]
  have dueAccount : due .account = w₁.arrival .account := by simp [due]
  have first : ∀ place, due (.places place) = none := by simp [due]
  let w₂ : App σ :=
    { w₁.asked .account with
      deliveries := deliveries'
      log := w₁.log ++ if (w₁.arrival .account).isSome then [] else [] }
  have fetching : Fetching s w₀ w₂ due :=
    { network := rfl
      timeout := rfl
      patience := rfl
      queue := idle.queue
      endings := rfl
      log := by simp [w₂, w₁]
      requests := rfl
      expects := expects'.of_same rfl
      first := first }
  refine ⟨w₁, w₂, due, dueItems ▸ asksItems, dueAccount ▸ asksAccount, rfl, ?_, dueItems, fetching⟩
  intro endpoint
  cases endpoint with
  | items => exact ahead_eq_self fun t ht => arrival_later (w := w₀) (dueItems.symm.trans ht)
  | account => exact ahead_eq_self fun t ht => arrival_later (w := w₁) (dueAccount.symm.trans ht)
  | places place => rw [first]; rfl

/-- Unless the items are refused at once, the account is asked for. -/
theorem errorOf?_of_prompt (items : w₀.Brings s .items)
    (prompt : ∀ e, w₀.answer? .items ≠ some (0, .error e)) :
    errorOf? (if (w₀.arrival .items).isSome then none else s.reply .items) = none := by
  unfold Brings at items
  unfold arrival Supply.reply
  rw [items]
  cases answered : w₀.answer? .items with
  | none => rfl
  | some answer =>
    obtain ⟨_ | delay, e | brought⟩ := answer
    · exact absurd answered (prompt e)
    · rfl
    · rfl
    · rfl

theorem start_polled (idle : w₀.Idle) (decided : s.IsDecided) (items : w₀.Brings s .items)
    (prompt : ∀ e, w₀.answer? .items ≠ some (0, .error e))
    (account : (w₀.asked .items).Brings s .account) : Polled s w₀ 2 w₀.start := by
  have noError := errorOf?_of_prompt items prompt
  obtain ⟨w₁, w₂, due, asksItems, asksAccount, same, later, dueItems, fetching⟩ := idle.ask items account
  obtain ⟨hi, hr⟩ := (Core.mayBegin_iff _).1 idle.free
  have few : missing due ≤ 2 := Nat.add_le_add (Bool.toNat_le _) (Bool.toNat_le _)
  let i : Option ItemsReply := if (due .items).isSome then none else s.items
  let a : Option AccountReply := if (due .account).isSome then none else s.account
  have itemsReply : (if (due .items).isSome then none else s.reply .items).map
      (·.map Payload.items) = i := by
    rw [apply_ite (Option.map _), s.reply_items]
    rfl
  have accountReply : (if (due .account).isSome then none else s.reply .account).map
      (·.map Payload.account) = a := by
    rw [apply_ite (Option.map _), s.reply_account]
    rfl
  rw [← dueItems] at noError
  -- The items are not refused at once, so the account is asked for.
  have asksBoth : Machine.askedAccount i a = a := by
    have noError' : errorOf? i = none := by
      rw [← itemsReply]
      revert noError
      rcases (if (due .items).isSome then none else s.reply .items) with _ | _ | _
      · exact id
      · exact nofun
      · exact id
    rw [Machine.askedAccount, noError']
    rfl
  have started : w₀.start = w₂.perform (w₀.machine.begun.advance w₀.machine.newRun i a) := by
    unfold start
    rw [if_pos idle.free]
    simp only [asksItems, noError, asksAccount, Option.isSome_none, Bool.false_eq_true, if_false,
      itemsReply, accountReply, same, Machine.start_begins hi hr, perform_fetches, asksBoth]
  rw [started]
  exact polled decided fetching later few rfl rfl ⟨rfl, rfl⟩

end Poll

section Await
variable {s : Supply} {w₀ w : App σ} {due : Arrivals}

theorem Idle.lookup_endings (idle : w₀.Idle) : w₀.endings.lookup w₀.machine.nextTask = none := by
  rw [List.lookup_eq_none_iff]
  intro e he
  have := idle.endings e he
  simpa using Nat.ne_of_gt this

theorem Ended.ending? (idle : w₀.Idle) {result : Except Error Outcome} (h : Ended s w₀ result w) :
    w.ending? w₀.machine.nextTask = some (.run result) := by
  cases h with
  | failed w due fetching =>
    simp [App.ending?, App.failed, List.lookup_append, fetching.endings, idle.lookup_endings]
  | opened w due fetching =>
    simp [App.ending?, App.opened, List.lookup_append, fetching.endings, idle.lookup_endings]

theorem runQueue_of_nil (h : w.queue = []) : w.runQueue = w := by
  cases w
  cases h
  rfl

theorem drain_of_nil (h : w.queue = []) : w.drain = w := by
  rw [drain, runQueue_of_nil h, runQueue_of_nil h]

theorem missing_ahead_lt {time : Nat} (first : ∀ place, due (.places place) = none)
    {endpoint : Endpoint} (arrives : due endpoint = some time) :
    missing (fun e => ahead time (due e)) < missing due := by
  have fewer : ∀ e, (ahead time (due e)).isSome.toNat ≤ (due e).isSome.toNat := by
    intro e
    cases h : due e with
    | none => exact Nat.le_refl _
    | some t => exact Bool.toNat_le _
  -- The one that arrives is missing no more, and the others are not missing anew.
  have less : (ahead time (due endpoint)).isSome.toNat < (due endpoint).isSome.toNat := by
    rw [arrives]
    simp [ahead]
  cases endpoint with
  | items => exact Nat.add_lt_add_of_lt_of_le less (fewer .account)
  | account => exact Nat.add_lt_add_of_le_of_lt (fewer .items) less
  | places place =>
    rw [first] at arrives
    cases arrives

theorem Fetching.moveTo (fetching : Fetching s w₀ w due) {time : Nat}
    (next : w.nextDue = some time) :
    let w₁ := w.moveTo (some (.run w₀.machine.nextTask)) time
    Fetching s w₀ w₁ due ∧ w₁.machine = w.machine ∧ w₁.now = time ∧
      w₁.deliveries.any (fun d => d.task == .run w₀.machine.nextTask && d.due ≤ w₁.now) = true ∧
      missing (fun e => ahead time (due e)) < missing due := by
  obtain ⟨later, endpoint, arrives⟩ := fetching.expects.nextDue_eq_some next
  have run := taskOf_eq_run fetching.first arrives w₀.machine.nextTask
  -- The arrival wakes no other task, as no places have been asked for.
  have othersNone : ((w.deliveries.filter fun d => w.now < d.due && d.due ≤ time &&
      some d.task != some (.run w₀.machine.nextTask)).map (·.task)).eraseDups = [] := by
    refine List.eq_nil_iff_forall_not_mem.2 fun task mem => ?_
    obtain ⟨other, e, t, rfl, arrives, -⟩ := (fetching.expects.mem_arriving _ _ _).1 mem
    exact other (congrArg some (taskOf_eq_run fetching.first arrives _))
  have queue : (w.moveTo (some (.run w₀.machine.nextTask)) time).queue = [] := by
    simp only [App.moveTo, othersNone, fetching.queue]
    rfl
  refine ⟨⟨fetching.network, fetching.timeout, fetching.patience, queue, fetching.endings, fetching.log,
    fetching.requests, fetching.expects.of_same rfl, fetching.first⟩, rfl, rfl, ?_,
    missing_ahead_lt fetching.first arrives⟩
  obtain ⟨fetched, -, mem⟩ := fetching.expects.delivery arrives
  rw [List.any_eq_true]
  exact ⟨_, mem, by simp [run, App.moveTo]⟩

/-- Whoever waits for the run sees it end, whichever answer comes first. -/
theorem awaitRun_polled (idle : w₀.Idle) (decided : s.IsDecided) (fuel n : Nat) (polled : Polled s w₀ n w)
    (enough : n < fuel) :
    ∃ result w', awaitRun w₀.machine.nextTask fuel w = some (result, w') ∧ Ended s w₀ result w' := by
  -- Each round takes one answer that was missing, so the fuel need only exceed their number.
  induction fuel generalizing n w with
  | zero => exact absurd enough (Nat.not_lt_zero n)
  | succ fuel ih =>
    cases polled with
    | ended result ended =>
      refine ⟨result, w, ?_, ended⟩
      simp only [awaitRun, ended.ending? idle]
    | waiting due run fetching later machine id generation holds some few =>
      have unfinished : w.ending? w₀.machine.nextTask = none := by
        rw [App.ending?, fetching.endings, idle.lookup_endings]
      cases next : w.nextDue with
      | none =>
        -- An answer is missing, and it is not there yet.
        have none := fetching.expects.nextDue_eq_none_iff.1 next
        have none : ∀ e, due e = Option.none := fun e => (later e).symm.trans (none e)
        simp [missing, none] at some
      | some time =>
        obtain ⟨fetching₁, machine₁, now, arrived, fewer⟩ := fetching.moveTo next
        have polled := go_polled idle decided fetching₁ (machine₁.trans machine) id generation holds
          (n := n - 1) (by rw [now]; omega)
        obtain ⟨result, w', returned, ended⟩ := ih (n - 1) polled (by omega)
        refine ⟨result, w', ?_, ended⟩
        simp only [awaitRun, unfinished, drain_of_nil fetching.queue, next, arrived, if_true]
        exact returned

theorem loadFirstScreen_ends (idle : w₀.Idle) (decided : s.IsDecided) (items : w₀.Brings s .items)
    (prompt : ∀ e, w₀.answer? .items ≠ some (0, .error e))
    (account : (w₀.asked .items).Brings s .account) :
    ∃ result w, w₀.loadFirstScreen = some (result, w) ∧ Ended s w₀ result w := by
  have polled := start_polled idle decided items prompt account
  unfold loadFirstScreen
  cases polled with
  | ended result ended =>
    exact awaitRun_polled idle decided _ 0 (.ended _ result ended) (by unfold arrivals; omega)
  | waiting due run fetching later machine id generation holds some few =>
    have runs : 1 ≤ w₀.start.machine.runs.length := by
      rw [machine]
      simp [Machine.withRun]
    refine awaitRun_polled idle decided _ 2
      (.waiting _ due run fetching later machine id generation holds some few) ?_
    unfold arrivals
    omega

/-- Where the items are refused at once, the startup ends with that, and the account is not asked for. -/
theorem loadFirstScreen_refused (idle : w₀.Idle) {e : Error}
    (refused : w₀.answer? .items = some (0, .error e)) : ∃ w, w₀.loadFirstScreen = some (.error e, w) := by
  obtain ⟨hi, hr⟩ := (Core.mayBegin_iff _).1 idle.free
  have asks : w₀.ask (.run w₀.machine.nextTask) .items =
      (some (.error e), { w₀.asked .items with log := w₀.log ++ [] }) := by
    rw [ask_eq, refused]
    rfl
  -- The account is given as not asked for, and the failure is at hand.
  have started : w₀.start = { w₀.asked .items with log := w₀.log ++ [] }.failed w₀ e := by
    unfold start
    rw [if_pos idle.free]
    simp only [asks, errorOf?, Option.isSome_some, if_true]
    show App.perform _ (w₀.machine.start (some (.error e)) none) = _
    rw [Machine.start_begins hi hr, perform_fetches, ← perform_failed]
    rfl
  have ended : w₀.start.ending? w₀.machine.nextTask = some (.run (.error e)) := by
    rw [started]
    simp [App.ending?, App.failed, asked, List.lookup_append, idle.lookup_endings]
  refine ⟨w₀.start, ?_⟩
  unfold loadFirstScreen
  simp only [arrivals, awaitRun, ended]

end Await
end App
end MiningClient
