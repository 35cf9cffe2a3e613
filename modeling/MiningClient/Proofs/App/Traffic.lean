import MiningClient.App.Account
import MiningClient.Proofs.Rpc.Authorization
import MiningClient.Proofs.Session.Steps

namespace MiningClient
open Session

/-- A session with the requests it has made. -/
structure Traffic (σ : Type) where
  machine : Machine σ
  timeout : Option Nat := none
  requests : List Request := []

/-- What may come next. The fetches of a session are calls too; what they bring, sooner or later, comes
with the session's events. Whoever logs in makes a call and sets the token that it brings. -/
inductive Move
  | call (method : Method)
  | event (e : Session.Event)
  | setToken (token : String)
  | clearToken

namespace Move

def keepsToken : Move → Bool
  | event .reset | setToken _ | clearToken => false
  | _ => true

def public? : Move → Option Method
  | call m => if m.isPrivate then none else some m
  | _ => none

theorem public?_eq_some {move : Move} {m : Method} (h : move.public? = some m) :
    move = .call m ∧ m.isPrivate = false := by
  cases move with
  | event | setToken | clearToken => cases h
  | call m' =>
    obtain ⟨notPrivate, rfl⟩ : m'.isPrivate = false ∧ m' = m := by simpa [public?] using h
    exact ⟨rfl, notPrivate⟩

end Move

namespace App

/-- The method by which an endpoint is fetched. -/
def method : Endpoint → Method
  | .items => .getItemDescriptors
  | .account => .getAccount
  | .places .mine => .getMineLocations
  | .places .gamble => .getGambleLocations

theorem isPrivate_method (endpoint : Endpoint) : (method endpoint).isPrivate = true := by
  rcases endpoint with _ | _ | _ | _ <;> rfl

theorem request?_fetch (c : Client) (endpoint : Endpoint) :
    (fetch c endpoint).request? = ((method endpoint).call c).request? := by
  unfold fetch
  split <;> exact Call.request?_map ..

end App

namespace Traffic
variable {σ : Type} [Slot σ]

def token (t : Traffic σ) : Option String := t.machine.credentials.token

def client (t : Traffic σ) : Client := ⟨t.token, t.timeout⟩

def act (t : Traffic σ) : Move → Traffic σ
  | .call m => { t with requests := t.requests ++ (m.call t.client).requests }
  | .event e => { t with machine := (t.machine.step e).1 }
  | .setToken token =>
    { t with machine := { t.machine with credentials := (t.machine.credentials.set token).2 } }
  | .clearToken =>
    { t with machine := { t.machine with credentials := t.machine.credentials.clear.2 } }

def after (t : Traffic σ) (moves : List Move) : Traffic σ := moves.foldl act t

/-- Each move with the state in which it is made. -/
def moments : Traffic σ → List Move → List (Traffic σ × Move)
  | _, [] => []
  | t, move :: moves => (t, move) :: moments (t.act move) moves

/-- The requests that moves make. -/
def sent (t : Traffic σ) (moves : List Move) : List Request :=
  (t.after moves).requests.drop t.requests.length

def publicRequests (t : Traffic σ) (moves : List Move) : List Request :=
  (t.sent moves).filter (·.IsUnder Client.publicService)

/-- Private calls, and so the fetches of the session, end with the error and make no request. -/
structure Refuses (t : Traffic σ) (e : Error) : Prop where
  nothing : ∀ m : Method, m.isPrivate = true → t.sent [.call m] = []
  call : ∀ m : Method, m.isPrivate = true → ∀ network, (m.call t.client).run network = (.error e, [])
  fetch : ∀ endpoint network, (App.fetch t.client endpoint).run network = (.error e, [])

/-- The move treats the token that is held then as it must. -/
structure Disciplined (t : Traffic σ) (move : Move) : Prop where
  /-- A private request has the token once, byte for byte, and not to be shown. -/
  carries : ∀ r ∈ t.sent [move], r.IsUnder Client.privateService →
    ∃ token value, t.token = some token ∧ r.authorizations = [value] ∧
      value.bytes = Utf8.encode token ∧ value.sensitive = true
  bare : ∀ r ∈ t.sent [move], r.IsUnder Client.publicService → r.authorizations = []
  missing : t.token = none → t.Refuses .unauthenticated
  invalid : ∀ token, t.token = some token → HeaderValue.ofText? token = none →
    t.Refuses (.protocol .tokenNotHeaderValue)
  /-- With a token that can be sent, a private call makes its one request. -/
  asks : ∀ m token value, move = .call m → m.isPrivate = true → t.token = some token →
    HeaderValue.ofText? token = some value →
    ∃ r, t.sent [move] = [r] ∧ r.IsUnder Client.privateService
  /-- A public call makes its one request in any case. -/
  asksPublic : ∀ m, move = .call m → m.isPrivate = false →
    ∃ r, t.sent [move] = [r] ∧ r.IsUnder Client.publicService

theorem after_cons (t : Traffic σ) (move : Move) (moves : List Move) :
    t.after (move :: moves) = (t.act move).after moves := rfl

theorem after_append (t : Traffic σ) (moves moves' : List Move) :
    t.after (moves ++ moves') = (t.after moves).after moves' := List.foldl_append

theorem moments_append (t : Traffic σ) (moves moves' : List Move) :
    t.moments (moves ++ moves') = t.moments moves ++ (t.after moves).moments moves' := by
  induction moves generalizing t with
  | nil => rfl
  | cons move moves ih =>
    rw [List.cons_append, moments, ih, moments]
    rfl

theorem mem_moments {t : Traffic σ} {moves : List Move} {x : Traffic σ × Move} (hx : x ∈ t.moments moves) :
    ∃ before later, moves = before ++ x.2 :: later ∧ x.1 = t.after before := by
  induction moves generalizing t with
  | nil => cases hx
  | cons move moves ih =>
    rcases List.mem_cons.1 hx with rfl | hx
    · exact ⟨[], moves, rfl, rfl⟩
    -- The moment is the first one, or one of the rest of the run.
    · obtain ⟨before, later, split, reached⟩ := ih hx
      exact ⟨move :: before, later, congrArg (move :: ·) split, reached⟩

theorem credentials_act (t : Traffic σ) {move : Move} (h : move.keepsToken = true) :
    (t.act move).machine.credentials = t.machine.credentials := by
  cases move with
  | call m => rfl
  | event e =>
    have other : e ≠ .reset := by
      rintro rfl
      cases h
    exact t.machine.credentials_step other
  | setToken | clearToken => cases h

theorem credentials_after (t : Traffic σ) {moves : List Move}
    (h : ∀ move ∈ moves, move.keepsToken = true) :
    (t.after moves).machine.credentials = t.machine.credentials := by
  induction moves generalizing t with
  | nil => rfl
  | cons move moves ih =>
    rw [List.forall_mem_cons] at h
    rw [after_cons, ih (t.act move) h.2, t.credentials_act h.1]

theorem token_act (t : Traffic σ) {move : Move} (h : move.keepsToken = true) :
    (t.act move).token = t.token := congrArg Credentials.token (t.credentials_act h)

theorem token_moments (t : Traffic σ) {moves : List Move}
    (h : ∀ move ∈ moves, move.keepsToken = true) : ∀ x ∈ t.moments moves, x.1.token = t.token := by
  induction moves generalizing t with
  | nil => simp [moments]
  | cons move moves ih =>
    rw [List.forall_mem_cons] at h
    intro x hx
    rcases List.mem_cons.1 hx with rfl | hx
    · rfl
    · rw [ih (t.act move) h.2 x hx, t.token_act h.1]

theorem timeout_act (t : Traffic σ) (move : Move) : (t.act move).timeout = t.timeout := by
  cases move <;> rfl

section Sent

theorem sent_call (t : Traffic σ) (m : Method) :
    t.sent [.call m] = (m.call t.client).requests := List.drop_left

theorem sent_eq_nil (t : Traffic σ) {move : Move} (h : ∀ m, move ≠ .call m) : t.sent [move] = [] := by
  cases move with
  | call m => exact absurd rfl (h m)
  | event | setToken | clearToken => exact List.drop_length

theorem requests_act (t : Traffic σ) (move : Move) :
    (t.act move).requests = t.requests ++ t.sent [move] := by
  cases move with
  | call m => rw [sent_call]; rfl
  | event | setToken | clearToken =>
    rw [sent_eq_nil t (by simp), List.append_nil]
    rfl

theorem requests_after (t : Traffic σ) (moves : List Move) :
    (t.after moves).requests =
      t.requests ++ (t.moments moves).flatMap fun x => x.1.sent [x.2] := by
  induction moves generalizing t with
  | nil => simp [after, moments]
  | cons move moves ih =>
    rw [after_cons, ih, requests_act, moments, List.flatMap_cons, List.append_assoc]

/-- A token in place of another, a fetch after the end of the session, and what is public. -/
example :
    let t : Traffic MemorySlot := { machine := { credentials := { slot := {} } } }
    (t.sent [.call .getBase, .setToken "one", .call .getBase, .setToken "two", .call .getAccount,
      .call .getHiscores, .event .reset, .call .getMineLocations]).map
        (fun r => (r.path, r.authorizations.map (·.bytes))) =
      [("/mine.MinePrivateService/GetBase", [Utf8.encode "one"]),
        ("/mine.MinePrivateService/GetAccount", [Utf8.encode "two"]),
        ("/mine.MinePublicService/GetHiscores", [])] := by decide +kernel

theorem sent_eq (t : Traffic σ) (moves : List Move) :
    t.sent moves = (t.moments moves).flatMap fun x => x.1.sent [x.2] := by
  rw [sent, requests_after, List.drop_left]

theorem sent_cons (t : Traffic σ) (move : Move) (moves : List Move) :
    t.sent (move :: moves) = t.sent [move] ++ (t.act move).sent moves := by
  rw [sent_eq, moments, List.flatMap_cons, ← sent_eq]

end Sent

section Discipline
variable {t : Traffic σ} {m : Method}

theorem refuses {e : Error} (h : admission t.token = .error e) : t.Refuses e := by
  -- A fetch is a call as well, so its refusal is that of its method.
  have call : ∀ m : Method, m.isPrivate = true → m.call t.client = .refused e := by
    intro m hm
    obtain ⟨blank, -, asks⟩ := Method.exists_private hm
    apply Call.eq_refused
    rw [asks, show t.client.token = t.token from rfl, h]
    rfl
  have fetch : ∀ endpoint, App.fetch t.client endpoint = .refused e := by
    intro endpoint
    apply Call.eq_refused
    rw [App.request?_fetch, call _ (App.isPrivate_method endpoint)]
    rfl
  constructor
  case nothing =>
    intro m hm
    rw [sent_call, call m hm]
    rfl
  case call =>
    intro m hm network
    rw [call m hm]
    rfl
  case fetch =>
    intro endpoint network
    rw [fetch endpoint]
    rfl

theorem sent_private (hm : m.isPrivate = true) {value : HeaderValue}
    (h : admission t.token = .ok value) :
    ∃ r : Request, t.sent [.call m] = [r] ∧ r.IsUnder Client.privateService ∧
      r.authorizations = [value] := by
  obtain ⟨blank, under, asks⟩ := Method.exists_private hm
  refine ⟨(blank t.timeout).carrying value, ?_, under t.timeout, Request.authorizations_carrying ..⟩
  -- The request before authorization is the same for every token.
  rw [sent_call]
  apply Call.requests_of_ok
  rw [asks, show t.client.token = t.token from rfl, h]
  rfl

theorem sent_public (hm : m.isPrivate = false) :
    ∃ r : Request, t.sent [.call m] = [r] ∧ r.IsUnder Client.publicService ∧
      r.authorizations = [] := by
  obtain ⟨blank, under, asks⟩ := Method.exists_public hm
  refine ⟨blank t.timeout, ?_, under t.timeout⟩
  rw [sent_call]
  exact Call.requests_of_ok (asks t.client)

theorem sent_cases {move : Move} {r : Request} (h : r ∈ t.sent [move]) :
    (move.public? = none ∧ ∃ value, admission t.token = .ok value ∧
      r.IsUnder Client.privateService ∧ r.authorizations = [value]) ∨
    (∃ m, move.public? = some m ∧ r.IsUnder Client.publicService ∧ r.authorizations = []) := by
  cases move with
  | event | setToken | clearToken =>
    rw [sent_eq_nil t (by simp)] at h
    cases h
  | call m =>
    cases hm : m.isPrivate with
    | false =>
      obtain ⟨r', sent, under, none⟩ := sent_public (t := t) hm
      rw [sent, List.mem_singleton] at h
      exact .inr ⟨m, by simp [Move.public?, hm], h ▸ under, h ▸ none⟩
    | true =>
      cases admitted : admission t.token with
      | error e =>
        rw [(refuses admitted).nothing m hm] at h
        cases h
      | ok value =>
        obtain ⟨r', sent, under, one⟩ := sent_private hm admitted
        rw [sent, List.mem_singleton] at h
        exact .inl ⟨by simp [Move.public?, hm], value, rfl, h ▸ under, h ▸ one⟩

theorem disciplined (t : Traffic σ) (move : Move) : t.Disciplined move where
  carries r hr under := by
    obtain ⟨-, value, admitted, -, one⟩ | ⟨m, -, under', -⟩ := sent_cases hr
    · obtain ⟨token, held, bytes, hidden⟩ := admission_ok admitted
      exact ⟨token, value, held, one, bytes, hidden⟩
    -- No path is under both services.
    · exact absurd under (Request.not_isUnder_both under')
  bare r hr under := by
    obtain ⟨-, value, -, under', -⟩ | ⟨m, -, -, none⟩ := sent_cases hr
    · exact absurd under' (Request.not_isUnder_both under)
    · exact none
  missing held := refuses (by rw [held]; rfl)
  invalid token held h := refuses (by rw [held]; simp [admission, h])
  asks m token value hmove hm held h := by
    have admitted : admission t.token = .ok value.asSensitive :=
      admission_eq_ok_iff.2 ⟨token, value, held, h, rfl⟩
    obtain ⟨r, sent, under, -⟩ := sent_private hm admitted
    exact ⟨r, hmove ▸ sent, under⟩
  asksPublic m hmove hm := by
    obtain ⟨r, sent, under, -⟩ := sent_public (t := t) hm
    exact ⟨r, hmove ▸ sent, under⟩

end Discipline

section Public

/-- The public requests of one move are those made with no token. -/
theorem publicRequests_single (t : Traffic σ) (move : Move) :
    t.publicRequests [move] =
      move.public?.toList.flatMap fun m => (m.call ⟨none, t.timeout⟩).requests := by
  -- What is not public makes private requests at most, and these are filtered out.
  cases hp : move.public? with
  | none =>
    refine List.filter_eq_nil_iff.2 fun r hr => ?_
    obtain ⟨-, value, -, under, -⟩ | ⟨m, hm, -⟩ := sent_cases hr
    · exact fun h => Request.not_isUnder_both (of_decide_eq_true h) under
    · cases hp.symm.trans hm
  | some m =>
    obtain ⟨rfl, hm⟩ := Move.public?_eq_some hp
    obtain ⟨blank, under, asks⟩ := Method.exists_public hm
    have sent : t.sent [.call m] = [blank t.timeout] := by
      rw [sent_call]
      exact Call.requests_of_ok (asks t.client)
    simp [publicRequests, sent, (under t.timeout).1, Call.requests_of_ok (asks ⟨none, t.timeout⟩)]

theorem publicRequests_eq (t : Traffic σ) (moves : List Move) :
    t.publicRequests moves =
      (moves.filterMap Move.public?).flatMap fun m => (m.call ⟨none, t.timeout⟩).requests := by
  induction moves generalizing t with
  | nil => simp [publicRequests, sent, after]
  | cons move moves ih =>
    have split : t.publicRequests (move :: moves) =
        t.publicRequests [move] ++ (t.act move).publicRequests moves := by
      unfold publicRequests
      rw [sent_cons, List.filter_append]
    rw [split, ih, publicRequests_single, timeout_act]
    cases h : move.public? <;> simp [h]

end Public
end Traffic
end MiningClient
