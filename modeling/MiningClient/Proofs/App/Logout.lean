import MiningClient.Proofs.App.Discipline
import MiningClient.Proofs.Session.Ending

namespace MiningClient
open Session

def Move.isStart : Move → Bool
  | event e => e.isStart
  | _ => false

namespace Credentials
variable {σ : Type} [Slot σ] (c : Credentials σ)

theorem clear_eq : c.clear.2 = ⟨none, (Slot.clear c.slot).2⟩ := by
  unfold clear
  split <;> rename_i cleared <;> rw [cleared]

/-- Clearing fails exactly when the slot refuses. -/
theorem clear_eq_error_iff {e : Error} :
    c.clear.1 = .error e ↔ ∃ fault, e = .credential fault ∧ (Slot.clear c.slot).1 = .error fault := by
  unfold clear
  split <;> rename_i cleared <;> rw [cleared] <;> simp [eq_comm]

theorem token_set {token : String} (refused : (c.set token).1 ≠ .ok ()) :
    (c.set token).2.token = c.token := by
  unfold set at refused ⊢
  split
  · rename_i stored
    rw [stored] at refused
    exact absurd rfl refused
  · rfl

end Credentials

namespace Traffic
variable {σ : Type}

def fresh (credentials : Credentials σ) (timeout : Option Nat) : Traffic σ :=
  { machine := .fresh credentials, timeout }

/-- The session when a reset has ended it, and has not forgotten the token yet. -/
def ended (t : Traffic σ) : Traffic σ :=
  { t with machine := { t.machine with core := t.machine.core.reset } }

variable [Slot σ]

def Takes (t : Traffic σ) (move : Move) : Prop :=
  ∃ token, move = .setToken token ∧ (t.machine.credentials.set token).1 = .ok ()

section Machine
variable {t : Traffic σ}

theorem sound_act (h : t.machine.Sound) (move : Move) : (t.act move).machine.Sound := by
  -- Calls and tokens leave the run of the session alone.
  cases move with
  | call => exact h
  | event e => exact h.step e
  | setToken | clearToken =>
    exact ⟨h.coherent, h.runs_nodup, h.runs_known, h.runs_past, h.runs_missing, h.runs_single,
      h.loads_known, h.loads_past, h.loads_pending, h.loads_apart⟩

theorem generation_act (t : Traffic σ) (move : Move) :
    t.machine.core.generation ≤ (t.act move).machine.core.generation := by
  cases move with
  | event e => exact (t.machine.step_grown e).generation
  | call | setToken | clearToken => exact Nat.le_refl _

theorem isOver_act (h : t.machine.IsOver) {move : Move} (other : move.isStart = false) :
    (t.act move).machine.IsOver := by
  cases move with
  | call => exact h
  | event e => exact h.step other
  | setToken | clearToken => exact h.withCredentials _

theorem isOver_after (h : t.machine.IsOver) {moves : List Move}
    (others : ∀ move ∈ moves, move.isStart = false) : (t.after moves).machine.IsOver := by
  induction moves generalizing t with
  | nil => exact h
  | cons move moves ih =>
    rw [List.forall_mem_cons] at others
    exact ih (isOver_act h others.1) others.2

theorem sound_after (h : t.machine.Sound) (moves : List Move) : (t.after moves).machine.Sound := by
  induction moves generalizing t with
  | nil => exact h
  | cons move moves ih => exact ih (sound_act h move)

theorem generation_after (t : Traffic σ) (moves : List Move) :
    t.machine.core.generation ≤ (t.after moves).machine.core.generation := by
  induction moves generalizing t with
  | nil => exact Nat.le_refl _
  | cons move moves ih => exact Nat.le_trans (t.generation_act move) (ih (t.act move))

/-- All that was going on at some earlier moment is of no later generation. -/
theorem moments_past (h : t.machine.Sound) (moves : List Move) :
    ∀ x ∈ t.moments moves, x.1.machine.Sound ∧
      x.1.machine.core.generation ≤ (t.after moves).machine.core.generation := by
  -- The generation only grows, so that of the last state bounds all of them.
  induction moves generalizing t with
  | nil => exact fun x hx => nomatch hx
  | cons move moves ih =>
    intro x hx
    rcases List.mem_cons.1 hx with rfl | hx
    · exact ⟨h, t.generation_after (move :: moves)⟩
    · exact ih (sound_act h move) x hx

end Machine

section Token
variable {t : Traffic σ}

theorem credentials_reset (t : Traffic σ) :
    (t.act (.event .reset)).machine.credentials =
      ⟨none, (Slot.clear t.machine.credentials.slot).2⟩ := t.machine.credentials.clear_eq

theorem token_clear (t : Traffic σ) : (t.act .clearToken).token = none :=
  congrArg Credentials.token t.machine.credentials.clear_eq

theorem token_act_none (h : t.token = none) {move : Move} (out : ¬t.Takes move) :
    (t.act move).token = none := by
  cases move with
  | call => exact h
  | event e =>
    -- Of the events only a reset changes the token, and it takes it away.
    by_cases reset : e = .reset
    · rw [reset]
      exact congrArg Credentials.token t.credentials_reset
    · exact (congrArg Credentials.token (t.machine.credentials_step reset)).trans h
  | setToken token =>
    refine (Credentials.token_set _ fun taken => ?_).trans h
    exact out ⟨token, rfl, taken⟩
  | clearToken => exact t.token_clear

theorem token_none (h : t.token = none) {moves : List Move}
    (out : ∀ x ∈ t.moments moves, ¬x.1.Takes x.2) :
    (∀ x ∈ t.moments moves, x.1.token = none) ∧ (t.after moves).token = none := by
  induction moves generalizing t with
  | nil => exact ⟨by simp [moments], h⟩
  | cons move moves ih =>
    rw [moments, List.forall_mem_cons] at out ⊢
    have later := ih (token_act_none h out.1) out.2
    exact ⟨⟨h, later.1⟩, later.2⟩

/-- No private request is made while there is no token. -/
theorem not_private (h : t.token = none) {moves : List Move}
    (out : ∀ x ∈ t.moments moves, ¬x.1.Takes x.2) :
    ∀ r ∈ t.sent moves, ¬r.IsUnder Client.privateService := by
  intro r hr under
  rw [sent_eq, List.mem_flatMap] at hr
  obtain ⟨x, hx, hr⟩ := hr
  -- A private request would show the token that was held.
  obtain ⟨token, -, held, -⟩ := (x.1.disciplined x.2).carries r hr under
  rw [(token_none h out).1 x hx] at held
  cases held

theorem refuses_of_none (h : t.token = none) : t.Refuses .unauthenticated :=
  (t.disciplined .clearToken).missing h

end Token
end Traffic

namespace App
variable {σ : Type}

theorem length_obtained (w : App σ) (c : Call String) : (w.obtained c).length ≤ 1 := by
  unfold obtained
  split <;> simp

theorem length_tokenChange (w : App σ) (operation : Operation) :
    (w.tokenChange operation).length ≤ 1 := by
  cases operation with
  | login | register => exact w.length_obtained _
  | setToken | clearToken | logout => exact Nat.le_refl 1
  | loadFirstScreen | spawnStart | waitForLocations | sleep | call => exact Nat.zero_le 1

theorem requests_perform (w : App σ) (step : Machine σ × List Effect) :
    (w.perform step).requests = w.requests :=
  congrArg Traffic.requests (traffic_note { w with machine := step.1 } step.2)

theorem requests_collect (w : App σ) (task : Task) (endpoint : Endpoint) :
    (w.collect task endpoint).2.requests = w.requests :=
  congrArg Traffic.requests (w.traffic_collect task endpoint)

section Asking
variable {w : App σ} {e : Error}
  (ask : ∀ task endpoint, w.ask task endpoint = (some (.error e), w))
include ask

theorem start_refused (begins : w.machine.core.mayBegin = true) :
    w.start = w.perform (w.machine.start (some (.error e)) none) := by
  unfold start
  rw [if_pos begins]
  dsimp only
  rw [ask]
  rfl

theorem requests_start : w.start.requests = w.requests := by
  by_cases begins : w.machine.core.mayBegin = true
  · rw [start_refused ask begins, requests_perform]
  · rw [start, if_neg begins, requests_perform]

theorem requests_go (task : Task) : (w.go task).requests = w.requests := by
  cases task with
  | run id =>
    refine (requests_perform _ _).trans ?_
    exact (requests_collect _ (.run id) .account).trans (requests_collect _ (.run id) .items)
  | load run place =>
    unfold go
    dsimp only
    rw [requests_perform]
    -- Whether a load asks or collects, a refused fetch makes no request.
    split
    · exact requests_collect _ _ _
    · rw [ask]

theorem requests_runJob (job : Job) : (w.runJob job).requests = w.requests := by
  cases job with
  | start => exact requests_start ask
  | go task => exact requests_go ask task

/-- A run whose first fetch is refused returns with the error. -/
theorem endings_start (begins : w.machine.core.mayBegin = true) :
    w.start.endings = w.endings ++ [(w.machine.nextTask, .run (.error e))] := by
  obtain ⟨free, closed⟩ := (Core.mayBegin_iff _).1 begins
  -- The error of the items is there before the account is asked for.
  have failed : (w.machine.begun.advance w.machine.newRun (some (.error e)) none).2 =
      [.noticed (.reported ⟨Report.startup, e⟩), .finished w.machine.nextTask (.run (.error e))] :=
    rfl
  rw [start_refused ask begins, Machine.start_begins free closed]
  unfold perform
  rw [Machine.askedAccount, ite_self, failed]
  rfl

end Asking

variable [Slot σ]

def Takes (w : App σ) : Operation → Prop
  | .setToken token => (w.setToken token).1 = .ok ()
  | .login username password => ∃ w', w.login username password = some (.ok (), w')
  | .register username password => ∃ w', w.register username password = some (.ok (), w')
  | _ => False

/-- What operations lead to of which none takes a token. -/
inductive StaysOut (w : App σ) : App σ → Prop
  | here : StaysOut w w
  | next {w' w'' : App σ} (operation : Operation) (reached : StaysOut w w')
    (out : ¬w'.Takes operation) (ended : w'.operate operation = some w'') : StaysOut w w''

section Operations
variable {w w' : App σ}

theorem obtained_refused {c : Call String} (m : Method)
    (asks : c.request? = (m.call w.client).request?)
    (out : ¬∃ w', w.obtainToken c = some (.ok (), w')) :
    ∀ token, .setToken token ∈ w.obtained c → (w.machine.credentials.set token).1 ≠ .ok () := by
  intro token mem taken
  unfold obtained at mem
  split at mem
  · rename_i token' w₁ called
    obtain ⟨moves, keep, reached⟩ := call_proceeds m asks called
    -- While the call was under way no one touched the slot.
    have same : w₁.machine.credentials = w.machine.credentials :=
      (congrArg (·.machine.credentials) reached).trans (Traffic.credentials_after _ keep)
    cases List.mem_singleton.1 mem
    refine out ⟨(w₁.setToken token).2, ?_⟩
    rw [← same] at taken
    rw [obtainToken, called]
    exact congrArg some (Prod.ext taken rfl)
  · cases mem

theorem set_refused {operation : Operation} (out : ¬w.Takes operation) :
    ∀ token, .setToken token ∈ w.tokenChange operation →
      (w.machine.credentials.set token).1 ≠ .ok () := by
  intro token mem
  cases operation with
  | setToken token' =>
    cases List.mem_singleton.1 mem
    exact out
  | login username password =>
    exact obtained_refused (.login ⟨username, password⟩) (Call.request?_map ..) out token mem
  | register username password =>
    exact obtained_refused (.register ⟨username, password⟩) (Call.request?_map ..) out token mem
  | clearToken | logout => cases List.mem_singleton.1 mem
  | loadFirstScreen | spawnStart | waitForLocations | sleep | call => cases mem

/-- An operation that takes no token is a run that takes none. -/
theorem operate_out {operation : Operation} (out : ¬w.Takes operation)
    (h : w.operate operation = some w') :
    ∃ moves, (∀ x ∈ w.traffic.moments moves, ¬x.1.Takes x.2) ∧
      w'.traffic = w.traffic.after moves := by
  obtain ⟨w₁, ⟨moves, keep, reached⟩, ended⟩ := operate_ends h
  refine ⟨moves ++ w.tokenChange operation, ?_, ?_⟩
  · intro x hx
    rintro ⟨token, set, taken⟩
    -- only the change at the end, which is one move at most, could take a token
    rw [Traffic.moments_append, List.mem_append] at hx
    rcases hx with earlier | last
    · obtain ⟨before, later, split, -⟩ := Traffic.mem_moments earlier
      have kept := keep x.2 (split ▸ List.mem_append_right _ (List.mem_cons_self ..))
      rw [set] at kept
      cases kept
    · obtain ⟨before, later, split, here⟩ := Traffic.mem_moments last
      have single := w.length_tokenChange operation
      rw [split, List.length_append, List.length_cons] at single
      have first : before = [] := List.eq_nil_of_length_eq_zero (by omega)
      have same : x.1.machine.credentials = w.machine.credentials := by
        rw [here, first]
        exact Traffic.credentials_after _ keep
      have mem : x.2 ∈ w.tokenChange operation :=
        split ▸ List.mem_append_right _ (List.mem_cons_self ..)
      rw [set] at mem
      rw [same] at taken
      exact set_refused out token mem taken
  · rw [ended, reached, Traffic.after_append]

theorem StaysOut.moves (h : w.StaysOut w') :
    ∃ moves, (∀ x ∈ w.traffic.moments moves, ¬x.1.Takes x.2) ∧
      w'.traffic = w.traffic.after moves := by
  induction h with
  | here => exact ⟨[], by simp [Traffic.moments], rfl⟩
  | next operation reached out ended ih =>
    obtain ⟨moves, none, here⟩ := ih
    obtain ⟨last, none', there⟩ := operate_out out ended
    rw [here] at none' there
    refine ⟨moves ++ last, ?_, ?_⟩
    · rw [Traffic.moments_append]
      exact List.forall_mem_append.2 ⟨none, none'⟩
    · rw [there, Traffic.after_append]

end Operations

/-- Private calls and the fetches of tasks are refused with the error at once, no job makes a request,
and a call for initialization that begins returns with the error. -/
structure Refuses (w : App σ) (e : Error) : Prop where
  call : ∀ m : Method, m.isPrivate = true → w.call (m.call w.client) = some (.error e, w)
  ask : ∀ task endpoint, w.ask task endpoint = (some (.error e), w)
  job : ∀ job, (w.runJob job).requests = w.requests
  start : w.machine.core.mayBegin = true →
    w.start.endings = w.endings ++ [(w.machine.nextTask, .run (.error e))]

theorem refuses_of_none {w : App σ} (h : w.traffic.token = none) : w.Refuses .unauthenticated := by
  obtain ⟨call, ask⟩ := refused_of_refuses (Traffic.refuses_of_none h)
  exact ⟨call, ask, requests_runJob ask, fun begins => endings_start ask begins⟩

end App

namespace Traffic
variable {σ : Type} [Slot σ]

/-- What a reset leaves, and what it gives back: the token is gone from memory, and the reset fails
exactly when the slot refuses to be cleared. -/
structure Closes (t closed : Traffic σ) : Prop where
  machine : t.machine.reset.2 = closed.machine
  isOver : closed.machine.IsOver
  credentials : closed.machine.credentials = ⟨none, (Slot.clear t.machine.credentials.slot).2⟩
  fails : ∀ e, t.machine.reset.1 = .error e ↔
    ∃ fault, e = .credential fault ∧ (Slot.clear t.machine.credentials.slot).1 = .error fault

/-- What holds from a reset on: nothing private is asked for until a token is taken, and the next call
for initialization begins a run. -/
structure StaysClosed (closed : Traffic σ) : Prop where
  refuses : ∀ later, (∀ x ∈ closed.moments later, ¬x.1.Takes x.2) →
    (∀ x ∈ closed.moments later, x.1.Refuses .unauthenticated) ∧
    (closed.after later).Refuses .unauthenticated ∧
    ∀ r ∈ closed.sent later, ¬r.IsUnder Client.privateService
  begins : ∀ later : List Move, (∀ move ∈ later, move.isStart = false) →
    ∀ i a, (closed.after later).machine.Begins i a

theorem closes (t : Traffic σ) (sound : t.machine.Sound) : t.Closes (t.act (.event .reset)) where
  machine := rfl
  isOver := (Machine.IsOver.of_sound sound).withCredentials _
  credentials := t.credentials_reset
  fails _ := t.machine.credentials.clear_eq_error_iff

theorem staysClosed {closed : Traffic σ} (isOver : closed.machine.IsOver)
    (gone : closed.token = none) : closed.StaysClosed where
  refuses _ out :=
    have tokens := token_none gone out
    ⟨fun x hx => refuses_of_none (tokens.1 x hx), refuses_of_none tokens.2, not_private gone out⟩
  begins _ others := (isOver_after isOver others).begins

end Traffic

/-- After a reset, whatever the slot does, the session is over and no token is held, and so it is when
others come between the two halves of the reset. Nothing that was begun earlier is of the new
generation. Private calls, the fetches of new calls for initialization and those of tasks left over are
refused until a token is taken, and the client at work makes no private request. -/
theorem Traffic.reset_ends {σ : Type} [Slot σ] (credentials : Credentials σ) (timeout : Option Nat)
    (moves : List Move) :
    let t := (fresh credentials timeout).after moves
    let closed := t.act (.event .reset)
    t.Closes closed ∧ closed.StaysClosed ∧
    (∀ between : List Move, (∀ move ∈ between, move.isStart = false) →
      let closed := (t.ended.after between).act .clearToken
      closed.machine.IsOver ∧ closed.token = none ∧ closed.StaysClosed) ∧
    (∀ x ∈ (fresh credentials timeout).moments moves,
      x.1.machine.core.generation < closed.machine.core.generation ∧
      (∀ r ∈ x.1.machine.runs, r.generation < closed.machine.core.generation) ∧
      ∀ l ∈ x.1.machine.loads, l.generation < closed.machine.core.generation) ∧
    ∀ w w' : App σ, w.logout.2.StaysOut w' →
      w'.Refuses .unauthenticated ∧
      ∃ made, w'.requests = w.requests ++ made ∧
        ∀ r ∈ made, ¬r.IsUnder Client.privateService := by
  intro t closed
  have sound : t.machine.Sound := sound_after (Machine.Sound.fresh credentials) moves
  have gone : closed.token = none := congrArg Credentials.token t.credentials_reset
  refine ⟨t.closes sound, staysClosed (t.closes sound).isOver gone, ?_, ?_, ?_⟩
  · intro between others
    -- The first half of a reset already ends the session. The token is forgotten in the second.
    have half : t.ended.machine.IsOver := Machine.IsOver.of_sound sound
    have isOver : ((t.ended.after between).act .clearToken).machine.IsOver :=
      isOver_act (isOver_after half others) rfl
    have gone := (t.ended.after between).token_clear
    exact ⟨isOver, gone, staysClosed isOver gone⟩
  · intro x hx
    obtain ⟨known, past⟩ := moments_past (Machine.Sound.fresh credentials) moves x hx
    -- A reset begins a generation above all that there were.
    have newer : x.1.machine.core.generation < closed.machine.core.generation := Nat.lt_succ_of_le past
    refine ⟨newer, fun r hr => ?_, fun l hl => ?_⟩
    · exact Nat.lt_of_le_of_lt (known.runs_past r hr) newer
    · exact Nat.lt_of_le_of_lt (known.loads_past l hl) newer
  · intro w w' out
    obtain ⟨later, untaken, reached⟩ := out.moves
    have gone : w.logout.2.traffic.token = none := congrArg Credentials.token w.traffic.credentials_reset
    have token : w'.traffic.token = none := by
      rw [reached]
      exact (token_none gone untaken).2
    refine ⟨App.refuses_of_none token, w.logout.2.traffic.sent later, ?_, not_private gone untaken⟩
    have requests : w'.requests = _ := congrArg Traffic.requests reached
    rw [requests, requests_after, ← sent_eq]
    rfl

/-- Where the slot refuses to be cleared, the slot alone keeps the token. -/
example :
    let slot : GuardedSlot := { token := some "kept", denyClear := some "not now" }
    let t : Traffic GuardedSlot := .fresh ⟨some "kept", slot⟩ none
    t.machine.reset.1 = .error (.credential (.permissionDenied "not now")) ∧
      (t.act (.event .reset)).machine.credentials = ⟨none, slot⟩ := ⟨rfl, rfl⟩

end MiningClient
