import MiningClient.Proofs.App.Traffic

namespace MiningClient
open Session

namespace Move

/-- A task makes the move: it fetches, or an event goes on that leaves the token alone. -/
def IsOfTask : Move → Prop
  | call m => ∃ endpoint, m = App.method endpoint
  | move => move.keepsToken = true

variable {move : Move}

theorem IsOfTask.keepsToken (h : move.IsOfTask) : move.keepsToken = true := by
  cases move with
  | call => rfl
  | event | setToken | clearToken => exact h

theorem IsOfTask.public?_eq_none (h : move.IsOfTask) : move.public? = none := by
  cases move with
  | call m =>
    obtain ⟨endpoint, rfl⟩ := h
    simp [public?, App.isPrivate_method]
  | event | setToken | clearToken => rfl

end Move

namespace App
variable {σ : Type}

def traffic (w : App σ) : Traffic σ := ⟨w.machine, w.timeout, w.requests⟩

theorem traffic_deliver (w : App σ) (fetched : Fetched) : (w.deliver fetched).2.traffic = w.traffic := by
  unfold deliver
  split <;> rfl

theorem traffic_collect (w : App σ) (task : Task) (endpoint : Endpoint) :
    (w.collect task endpoint).2.traffic = w.traffic := by
  unfold collect
  split
  · rfl
  · exact traffic_deliver _ _

theorem traffic_note (w : App σ) (effects : List Effect) :
    (effects.foldl note w).traffic = w.traffic := by
  induction effects generalizing w with
  | nil => rfl
  | cons effect effects ih =>
    rw [List.foldl_cons, ih]
    cases effect <;> rfl

variable [Slot σ]

/-- Calls and events that leave the token alone lead from the one to the other. -/
def Proceeds (w w' : App σ) : Prop :=
  ∃ moves : List Move, (∀ move ∈ moves, move.keepsToken = true) ∧
    w'.traffic = w.traffic.after moves

/-- What the tasks do meanwhile, fetches and events that leave the token alone, leads from the one to the
other. -/
def Works (w w' : App σ) : Prop :=
  ∃ moves : List Move, (∀ move ∈ moves, move.IsOfTask) ∧ w'.traffic = w.traffic.after moves

namespace Works
variable {w w' w'' : App σ}

theorem of_eq (h : w'.traffic = w.traffic) : w.Works w' := ⟨[], by simp, h⟩

theorem refl (w : App σ) : w.Works w := of_eq rfl

theorem trans (h : w.Works w') (h' : w'.Works w'') : w.Works w'' := by
  obtain ⟨moves, allowed, e⟩ := h
  obtain ⟨moves', allowed', e'⟩ := h'
  refine ⟨moves ++ moves', List.forall_mem_append.2 ⟨allowed, allowed'⟩, ?_⟩
  rw [e', e, Traffic.after_append]

theorem of_move (move : Move) (allowed : move.IsOfTask) (h : w'.traffic = w.traffic.act move) :
    w.Works w' :=
  ⟨[move], List.forall_mem_singleton.2 allowed, h⟩

theorem of_fetch (endpoint : Endpoint)
    (h : w'.traffic =
      { w.traffic with requests := w.requests ++ (fetch w.client endpoint).requests }) :
    w.Works w' := by
  refine of_move (.call (method endpoint)) ⟨endpoint, rfl⟩ ?_
  rw [h, Call.requests_eq _ _ (request?_fetch w.client endpoint)]
  rfl

theorem proceeds (h : w.Works w') : w.Proceeds w' := by
  obtain ⟨moves, allowed, reached⟩ := h
  exact ⟨moves, fun move hmove => (allowed move hmove).keepsToken, reached⟩

theorem credentials (h : w.Works w') : w'.machine.credentials = w.machine.credentials := by
  obtain ⟨moves, allowed, reached⟩ := h
  exact (congrArg (·.machine.credentials) reached).trans
    (Traffic.credentials_after _ fun move hmove => (allowed move hmove).keepsToken)

theorem machine_keeps {P : Machine σ → Prop} (steps : ∀ m e, P m → P (m.step e).1) (h : w.Works w')
    (start : P w.machine) : P w'.machine := by
  obtain ⟨moves, allowed, reached⟩ := h
  have there : w'.machine = (w.traffic.after moves).machine := congrArg Traffic.machine reached
  have start : P w.traffic.machine := start
  rw [there]
  -- What is left is about the moves alone, whatever they lead to.
  clear reached there
  generalize w.traffic = t at start ⊢
  induction moves generalizing t with
  | nil => exact start
  | cons move moves ih =>
    obtain ⟨first, rest⟩ := List.forall_mem_cons.1 allowed
    refine ih rest (t.act move) ?_
    show P (t.act move).machine
    cases move with
    | call => exact start
    | event e => exact steps _ e start
    | setToken | clearToken => cases first

theorem fetches (h : w.Works w') :
    ∃ made, w'.requests = w.requests ++ made ∧
      ∀ r ∈ made, ∃ c endpoint, r ∈ (fetch c endpoint).requests := by
  obtain ⟨moves, allowed, reached⟩ := h
  refine ⟨w.traffic.sent moves, ?_, fun r mem => ?_⟩
  · rw [Traffic.sent_eq]
    exact (congrArg (·.requests) reached).trans (w.traffic.requests_after moves)
  · rw [Traffic.sent_eq, List.mem_flatMap] at mem
    obtain ⟨⟨t, move⟩, moment, mem⟩ := mem
    obtain ⟨before, later, split, -⟩ := Traffic.mem_moments moment
    -- Each request goes back to the move that made it.
    have ofTask := allowed move (split ▸ List.mem_append_right _ (List.mem_cons_self ..))
    cases move with
    | call m =>
      obtain ⟨endpoint, rfl⟩ := ofTask
      rw [Traffic.sent_call, ← Call.requests_eq _ _ (request?_fetch t.client endpoint)] at mem
      exact ⟨t.client, endpoint, mem⟩
    | event | setToken | clearToken =>
      rw [Traffic.sent_eq_nil t (by simp)] at mem
      cases mem

theorem requests (h : w.Works w') :
    ∃ made, w'.requests = w.requests ++ made ∧ ∀ r ∈ made, ¬r.IsUnder Client.publicService := by
  obtain ⟨moves, allowed, reached⟩ := h
  -- No move of a task is a call to the public service.
  have none : moves.filterMap Move.public? = [] :=
    List.filterMap_eq_nil_iff.2 fun move hmove => (allowed move hmove).public?_eq_none
  have unasked : w.traffic.publicRequests moves = [] := by
    rw [Traffic.publicRequests_eq, none, List.flatMap_nil]
  refine ⟨w.traffic.sent moves, ?_, fun r hr under => ?_⟩
  · rw [Traffic.sent_eq]
    exact (congrArg (·.requests) reached).trans (w.traffic.requests_after moves)
  · exact List.filter_eq_nil_iff.1 unasked r hr (decide_eq_true under)

end Works

section Tasks

theorem ask_works (w : App σ) (task : Task) (endpoint : Endpoint) :
    w.Works (w.ask task endpoint).2 := by
  apply Works.of_fetch endpoint
  unfold ask
  cases fetch w.client endpoint with
  | refused e => simp [Call.requests, traffic]
  | sent request finish =>
    simp only [Call.requests]
    -- The answer may be there at once, come later, or never.
    split
    · rfl
    · exact traffic_deliver _ _
    · rfl

theorem collect_works (w : App σ) (task : Task) (endpoint : Endpoint) :
    w.Works (w.collect task endpoint).2 := .of_eq (w.traffic_collect task endpoint)

theorem perform_works (w : App σ) {e : Event} (h : (Move.event e).keepsToken = true) :
    w.Works (w.perform (w.machine.step e)) :=
  .of_move (.event e) h (traffic_note _ _)

theorem start_works (w : App σ) : w.Works w.start := by
  unfold start
  split
  · have items := w.ask_works (.run w.machine.nextTask) .items
    dsimp only
    generalize w.ask (.run w.machine.nextTask) .items = asked at items ⊢
    obtain ⟨reply, w₁⟩ := asked
    refine items.trans ?_
    -- the account is not asked for when the items are refused at once
    cases (errorOf? reply).isSome with
    | true => exact w₁.perform_works (e := .start _ none) rfl
    | false =>
      exact (w₁.ask_works _ .account).trans (perform_works _ (e := .start _ _) rfl)
  · exact w.perform_works (e := .start none none) rfl

theorem go_works (w : App σ) (task : Task) : w.Works (w.go task) := by
  cases task with
  | run id =>
    exact (w.collect_works (.run id) .items).trans
      ((collect_works _ (.run id) .account).trans
        (perform_works _ (e := .pollRun id _ _) rfl))
  | load run place =>
    unfold go
    dsimp only
    -- a load asks the first time, with the token that is held then
    cases w.machine.loads.any fun l => Machine.isLoad run place l && l.started with
    | true =>
      exact (w.collect_works (.load run place) (.places place)).trans
        (perform_works _ (e := .pollLoad run place _) rfl)
    | false =>
      exact (w.ask_works (.load run place) (.places place)).trans
        (perform_works _ (e := .pollLoad run place _) rfl)

theorem runJob_works (w : App σ) (job : Job) : w.Works (w.runJob job) := by
  cases job with
  | start => exact w.start_works
  | go task => exact w.go_works task

theorem foldl_runJob_works (jobs : List Job) (w : App σ) : w.Works (jobs.foldl runJob w) := by
  induction jobs generalizing w with
  | nil => exact .refl w
  | cons job jobs ih => exact (w.runJob_works job).trans (ih _)

theorem runQueue_works (w : App σ) : w.Works w.runQueue := by
  have emptied : w.Works { w with queue := [] } := .of_eq rfl
  exact emptied.trans (foldl_runJob_works _ _)

theorem drain_works (w : App σ) : w.Works w.drain :=
  w.runQueue_works.trans w.runQueue.runQueue_works

theorem moveTo_works (w : App σ) (awaited : Option Task) (time : Nat) :
    w.Works (w.moveTo awaited time) := .of_eq rfl

end Tasks

section Waiting

theorem waitUntil_works (deadline fuel : Nat) (w : App σ) :
    w.Works (waitUntil deadline fuel w) :=
  waitUntil_keeps (fun w' h => h.trans w'.drain_works)
    (fun w' time h _ => h.trans (w'.moveTo_works none time)) fuel (.refl w)

theorem sleep_works (w : App σ) (duration : Nat) : w.Works (w.sleep duration) :=
  waitUntil_works _ _ w

theorem call_works {β : Type} {w w' : App σ} {c : Call β} {result : Except Error β}
    (h : w.call c = some (result, w')) :
    Works { w with requests := w.requests ++ c.requests } w' := by
  cases c with
  | refused e =>
    cases h
    refine .of_eq ?_
    simp [traffic, Call.requests]
  | sent request finish =>
    obtain ⟨delay, -, ended⟩ := Option.map_eq_some_iff.1 h
    obtain ⟨-, rfl⟩ := Prod.mk.inj ended
    exact sleep_works _ delay

theorem call_proceeds {β : Type} {w w' : App σ} {c : Call β} {result : Except Error β} (m : Method)
    (asks : c.request? = (m.call w.client).request?) (h : w.call c = some (result, w')) :
    w.Proceeds w' := by
  obtain ⟨moves, keep, reached⟩ := (call_works h).proceeds
  refine ⟨.call m :: moves, List.forall_mem_cons.2 ⟨rfl, keep⟩, ?_⟩
  rw [reached, Traffic.after_cons]
  have asked := Call.requests_eq c _ asks
  exact congrArg (fun rs => Traffic.after { w.traffic with requests := w.requests ++ rs } moves) asked

theorem awaitRun_works (id fuel : Nat) {w w' : App σ} {result : Except Error Outcome}
    (h : awaitRun id fuel w = some (result, w')) : w.Works w' := by
  induction fuel generalizing w with
  | zero => cases h
  | succ fuel ih =>
    unfold awaitRun at h
    split at h
    · cases h
      exact .refl _
    · dsimp only at h
      split at h
      · cases h
      · rename_i time _
        have moved := w.drain_works.trans (w.drain.moveTo_works (some (.run id)) time)
        refine moved.trans (Works.trans ?_ (ih h))
        -- The awaited run is polled last, if its answer has come.
        split
        · exact go_works _ _
        · exact .refl _

theorem loadFirstScreen_works {w w' : App σ} {result : Except Error Outcome}
    (h : w.loadFirstScreen = some (result, w')) : w.Works w' :=
  w.start_works.trans (awaitRun_works _ _ h)

theorem awaitLoads_works (id deadline fuel : Nat) (w : App σ) :
    w.Works (awaitLoads id deadline fuel w).2 := by
  induction fuel generalizing w with
  | zero => exact .refl w
  | succ fuel ih =>
    unfold awaitLoads
    split
    · exact .refl w
    · split
      · exact .of_move (.event (.dropWaiter id)) rfl rfl
      · have looked := w.drain_works.trans
          (w.drain.perform_works (e := .pollWaiter id) rfl)
        dsimp only
        split
        · exact looked.trans (ih _)
        · exact (looked.trans (moveTo_works _ none _)).trans (ih _)

theorem waitForLocations_works (w : App σ) : w.Works w.waitForLocations.2 :=
  (w.perform_works (e := .await .locations) rfl).trans (awaitLoads_works _ _ _ _)

end Waiting

/-- What can be asked of the client at work. -/
inductive Operation
  | setToken (token : String)
  | clearToken
  | login (username password : String)
  | register (username password : String)
  | logout
  | loadFirstScreen
  | spawnStart
  | waitForLocations
  | sleep (duration : Nat)
  | call (m : Method)

def operate (w : App σ) : Operation → Option (App σ)
  | .setToken token => some (w.setToken token).2
  | .clearToken => some w.clearToken.2
  | .login username password => (w.login username password).map (·.2)
  | .register username password => (w.register username password).map (·.2)
  | .logout => some w.logout.2
  | .loadFirstScreen => w.loadFirstScreen.map (·.2)
  | .spawnStart => some w.spawnStart
  | .waitForLocations => some w.waitForLocations.2
  | .sleep duration => some (w.sleep duration)
  | .call m => (w.call (m.call w.client)).map (·.2)

def obtained (w : App σ) (c : Call String) : List Move :=
  match w.call c with
  | some (.ok token, _) => [.setToken token]
  | _ => []

/-- The change of the token that ends an operation. -/
def tokenChange (w : App σ) : Operation → List Move
  | .setToken token => [.setToken token]
  | .clearToken => [.clearToken]
  | .logout => [.event .reset]
  | .login username password =>
    w.obtained ((w.client.login ⟨username, password⟩).map (·.map (·.sessionToken)))
  | .register username password =>
    w.obtained ((w.client.register ⟨username, password⟩).map (·.map (·.sessionToken)))
  | _ => []

section Operations
variable {w w' : App σ}

theorem obtainToken_ends {c : Call String} {result : Except Error Unit} (m : Method)
    (asks : c.request? = (m.call w.client).request?) (h : w.obtainToken c = some (result, w')) :
    ∃ w₁, w.Proceeds w₁ ∧ w'.traffic = w₁.traffic.after (w.obtained c) := by
  obtain ⟨⟨brought, w₁⟩, called, ended⟩ := Option.map_eq_some_iff.1 h
  refine ⟨w₁, call_proceeds m asks called, ?_⟩
  unfold obtained
  rw [called]
  cases brought with
  | error e =>
    cases ended
    rfl
  | ok token =>
    obtain ⟨-, rfl⟩ := Prod.mk.inj ended
    rfl

/-- An operation is a run that leaves the token alone, and then its change of the token. -/
theorem operate_ends {operation : Operation} (h : w.operate operation = some w') :
    ∃ w₁, w.Proceeds w₁ ∧ w'.traffic = w₁.traffic.after (w.tokenChange operation) := by
  -- Only where the token is to change is there anything at the end.
  cases operation with
  | setToken token | clearToken | logout =>
    cases h
    exact ⟨w, (Works.refl w).proceeds, rfl⟩
  | login username password =>
    obtain ⟨⟨result, w''⟩, ended, rfl⟩ := Option.map_eq_some_iff.1 h
    exact obtainToken_ends (.login ⟨username, password⟩) (Call.request?_map ..) ended
  | register username password =>
    obtain ⟨⟨result, w''⟩, ended, rfl⟩ := Option.map_eq_some_iff.1 h
    exact obtainToken_ends (.register ⟨username, password⟩) (Call.request?_map ..) ended
  | loadFirstScreen =>
    obtain ⟨⟨result, w''⟩, ended, rfl⟩ := Option.map_eq_some_iff.1 h
    exact ⟨w'', (loadFirstScreen_works ended).proceeds, rfl⟩
  | spawnStart =>
    cases h
    exact ⟨w.spawnStart, (Works.of_eq rfl).proceeds, rfl⟩
  | waitForLocations =>
    cases h
    exact ⟨_, w.waitForLocations_works.proceeds, rfl⟩
  | sleep duration =>
    cases h
    exact ⟨_, (w.sleep_works duration).proceeds, rfl⟩
  | call m =>
    obtain ⟨⟨result, w''⟩, ended, rfl⟩ := Option.map_eq_some_iff.1 h
    exact ⟨w'', call_proceeds m rfl ended, rfl⟩

theorem refused_of_refuses {e : Error} (h : w.traffic.Refuses e) :
    (∀ m : Method, m.isPrivate = true → w.call (m.call w.client) = some (.error e, w)) ∧
      ∀ task endpoint, w.ask task endpoint = (some (.error e), w) := by
  constructor
  · intro m hm
    have refused : m.call w.client = .refused e := Call.eq_refused_of_run (h.call m hm)
    rw [refused]
    rfl
  · intro task endpoint
    have refused : fetch w.client endpoint = .refused e := Call.eq_refused_of_run (h.fetch endpoint)
    unfold ask
    rw [refused]

end Operations
end App

/-- In every run each private request has the token of its moment and public ones have none; without a
token that can be sent, private calls and fetches fail and make no request; what is public does not
depend on tokens. Each operation of the client at work is such a run, with one token until its end. -/
theorem Traffic.requests_disciplined {σ : Type} [Slot σ] (t : Traffic σ) (moves : List Move) :
    (t.after moves).requests = t.requests ++ (t.moments moves).flatMap (fun x => x.1.sent [x.2]) ∧
    (∀ x ∈ t.moments moves, x.1.Disciplined x.2) ∧
    (∀ (t' : Traffic σ) (moves' : List Move), t'.timeout = t.timeout →
      moves'.filterMap Move.public? = moves.filterMap Move.public? →
      t'.publicRequests moves' = t.publicRequests moves) ∧
    (∀ (w w' : App σ) (operation : App.Operation), w.operate operation = some w' →
      ∃ moves, (∀ x ∈ w.traffic.moments moves, x.1.token = w.traffic.token) ∧
        w'.traffic = (w.traffic.after moves).after (w.tokenChange operation)) ∧
    ∀ (w : App σ) (e : Error), w.traffic.Refuses e →
      (∀ m : Method, m.isPrivate = true → w.call (m.call w.client) = some (.error e, w)) ∧
        ∀ task endpoint, w.ask task endpoint = (some (.error e), w) := by
  -- The first two parts are about single moves, and the others about what is seen from outside.
  refine ⟨t.requests_after moves, fun x _ => x.1.disciplined x.2, ?_, ?_, ?_⟩
  · intro t' moves' timeout same
    rw [publicRequests_eq, publicRequests_eq, timeout, same]
  · intro w w' operation h
    obtain ⟨w₁, ⟨moves, keep, reached⟩, ended⟩ := App.operate_ends h
    exact ⟨moves, w.traffic.token_moments keep, reached ▸ ended⟩
  · intro w e h
    exact App.refused_of_refuses h

end MiningClient
