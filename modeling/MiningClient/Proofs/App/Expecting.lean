import Mathlib.Logic.Function.Basic
import MiningClient.App.Clock
import MiningClient.Proofs.App.Serving

namespace MiningClient
open Session

namespace Call
variable {β γ : Type}

/-- After how long the call is answered, and what it brings then, when these requests were made before. -/
def answer? (network : Network) (before : List Request) : Call β → Option (Nat × Except Error β)
  | refused e => some (0, .error e)
  | sent request finish =>
    let answer := network (before ++ [request])
    answer.delay.map fun delay => (delay, finish answer.exchange)

theorem answer?_map {f : Except Error β → Except Error γ} (keeps : ∀ e, f (.error e) = .error e)
    (network : Network) (before : List Request) (c : Call β) :
    (c.map f).answer? network before = (c.answer? network before).map fun a => (a.1, f a.2) := by
  cases c with
  | refused e =>
    show some (0, .error e) = some (0, f (.error e))
    rw [keeps]
  | sent request finish =>
    show Option.map _ _ = Option.map _ (Option.map _ _)
    rw [Option.map_map]
    rfl

end Call

def noticesOf : Fetched → List Notice
  | .ok (_, notices) => notices
  | .error _ => []

/-- What the fetches of a startup bring, each unless it is never answered. -/
structure Supply where
  items : Option ItemsReply
  account : Option AccountReply
  places : Place → Option (Except Error (List Location × List Notice))

namespace Supply
variable (s : Supply)

def fetched : Endpoint → Option Fetched
  | .items => s.items.map fun r => r.map fun items => ({ items }, [])
  | .account => s.account.map fun r => r.map fun account => ({ account }, [])
  | .places place => (s.places place).map fun r => r.map fun (places, notices) => ({ places }, notices)

def reply (endpoint : Endpoint) : Option Reply := (s.fetched endpoint).map (·.map Prod.fst)

def notices (endpoint : Endpoint) : List Notice := ((s.fetched endpoint).map noticesOf).getD []

def ending (place : Place) : Option PlacesReply := (s.places place).map (·.map Prod.fst)

theorem reply_items : (s.reply .items).map (·.map Payload.items) = s.items := by
  obtain ⟨_ | _ | _, _, _⟩ := s <;> rfl

theorem reply_account : (s.reply .account).map (·.map Payload.account) = s.account := by
  obtain ⟨_, _ | _ | _, _⟩ := s <;> rfl

theorem reply_places (place : Place) :
    (s.reply (.places place)).map (·.map Payload.places) = s.ending place := by
  unfold reply fetched ending
  dsimp only
  rcases s.places place with _ | _ | _ <;> rfl

theorem notices_items : s.notices .items = [] := by
  obtain ⟨_ | _ | _, _, _⟩ := s <;> rfl

theorem notices_account : s.notices .account = [] := by
  obtain ⟨_, _ | _ | _, _⟩ := s <;> rfl

end Supply

namespace App
variable {σ : Type}

theorem deliver_eq (w : App σ) (fetched : Fetched) :
    w.deliver fetched = (fetched.map Prod.fst, { w with log := w.log ++ noticesOf fetched }) := by
  cases fetched with
  | ok => rfl
  | error e =>
    show (Except.error e, w) = (Except.error e, { w with log := w.log ++ [] })
    rw [List.append_nil]

/-- The answer to a fetch that is begun now. -/
def answer? (w : App σ) (endpoint : Endpoint) : Option (Nat × Fetched) :=
  (fetch w.client endpoint).answer? w.network w.requests

/-- A fetch that is begun now brings what is supplied. -/
def Brings (w : App σ) (s : Supply) (endpoint : Endpoint) : Prop :=
  s.fetched endpoint = (w.answer? endpoint).map Prod.snd

theorem Brings.ending {w : App σ} {s : Supply} {place : Place} (h : w.Brings s (.places place)) :
    s.ending place =
      (w.answer? (.places place)).map fun a => (a.2.map Prod.fst).map Payload.places := by
  unfold Brings at h
  rw [← s.reply_places, Supply.reply, h, Option.map_map, Option.map_map]
  rfl

def arrival (w : App σ) (endpoint : Endpoint) : Option Nat :=
  (w.answer? endpoint).bind fun a => if a.1 = 0 then none else some (w.now + a.1)

theorem arrival_later {w : App σ} {endpoint : Endpoint} {time : Nat}
    (h : w.arrival endpoint = some time) : w.now < time := by
  obtain ⟨⟨delay, fetched⟩, -, arrives⟩ := Option.bind_eq_some_iff.1 h
  dsimp only at arrives
  split at arrives
  · cases arrives
  · cases arrives
    omega

def asked (w : App σ) (endpoint : Endpoint) : App σ :=
  { w with requests := w.requests ++ (fetch w.client endpoint).requests }

/-- A fetch that is begun is answered at once, or later, or never. -/
theorem ask_eq (w : App σ) (task : Task) (endpoint : Endpoint) :
    w.ask task endpoint =
      match w.answer? endpoint with
      | none => (none, w.asked endpoint)
      | some (0, fetched) =>
        (some (fetched.map Prod.fst),
          { w.asked endpoint with log := w.log ++ noticesOf fetched })
      | some (delay + 1, fetched) =>
        (none,
          { w.asked endpoint with
            deliveries := w.deliveries ++ [⟨task, endpoint, w.now + (delay + 1), fetched⟩] }) := by
  unfold ask answer? asked
  -- A refused fetch is answered at once, and makes no request.
  cases fetch w.client endpoint with
  | refused e => simp [Call.answer?, Call.requests, Except.map, noticesOf]
  | sent request finish =>
    simp only [Call.answer?, Call.requests]
    cases (w.network (w.requests ++ [request])).delay with
    | none => rfl
    | some delay =>
      cases delay with
      | zero => simp only [Option.map_some, deliver_eq]
      | succ delay => rfl

/-- The task of a startup that fetches an endpoint. -/
def taskOf (id : Nat) : Endpoint → Task
  | .items | .account => .run id
  | .places place => .load id place

/-- When the answers that are under way arrive, by their endpoints. -/
abbrev Arrivals := Endpoint → Option Nat

/-- Without answers for places, whatever arrives is for the run. -/
theorem taskOf_eq_run {due : Arrivals} (first : ∀ place, due (.places place) = none)
    {endpoint : Endpoint} {time : Nat} (arrives : due endpoint = some time) (id : Nat) :
    taskOf id endpoint = .run id := by
  cases endpoint with
  | items | account => rfl
  | places place =>
    rw [first] at arrives
    cases arrives

/-- The fetches under way are those of one startup, and they bring what is supplied. -/
structure Expects (w : App σ) (s : Supply) (id : Nat) (due : Arrivals) : Prop where
  mem_iff : ∀ d, d ∈ w.deliveries ↔
    d.task = taskOf id d.endpoint ∧ due d.endpoint = some d.due ∧ s.fetched d.endpoint = some d.fetched
  supplied : ∀ endpoint time, due endpoint = some time → ∃ fetched, s.fetched endpoint = some fetched

def isThere (time : Nat) (due : Option Nat) : Bool := due.any (· ≤ time)

def ahead (time : Nat) (due : Option Nat) : Option Nat := due.filter (time < ·)

theorem ahead_eq_none_iff {time : Nat} {due : Option Nat} :
    ahead time due = none ↔ ∀ t, due = some t → t ≤ time := by
  simp [ahead, Option.filter_eq_none_iff]

theorem ahead_of_there {time : Nat} {due : Option Nat} (h : isThere time due = true) :
    ahead time due = none := by
  obtain ⟨t, rfl, ht⟩ := (Option.any_eq_true ..).1 h
  simpa [ahead] using ht

theorem ahead_of_not_there {time : Nat} {due : Option Nat} (h : isThere time due = false) :
    ahead time due = due := by
  cases due with
  | none => rfl
  | some t =>
    have later : ¬t ≤ time := by simpa [isThere] using h
    simp [ahead, Nat.lt_of_not_le later]

theorem ahead_eq_self {time : Nat} {due : Option Nat} (h : ∀ t, due = some t → time < t) :
    ahead time due = due := by
  cases due with
  | none => rfl
  | some t => simp [ahead, h t rfl]

theorem ahead_ahead (time : Nat) (due : Option Nat) :
    ahead time (ahead time due) = ahead time due := by
  cases h : isThere time due with
  | true => rw [ahead_of_there h, ahead, Option.filter_none]
  | false => rw [ahead_of_not_there h, ahead_of_not_there h]

theorem held_or_arrived {α : Type} (a : Option α) (time : Nat) (due : Option Nat) :
    ((if due.isSome then none else a).or (if isThere time due then a else none)) =
      if (ahead time due).isSome then none else a := by
  cases due with
  | none => simp [isThere, ahead]
  | some t =>
    -- It counts as held or as arrived, but not as both.
    by_cases h : t ≤ time
    · simp [isThere, ahead, h, Nat.not_lt_of_le h]
    · simp [isThere, ahead, h, Nat.lt_of_not_le h]

section Fetches
variable {w : App σ} {s : Supply} {id : Nat} {due : Arrivals}

theorem Expects.of_same {w' : App σ} (h : w.Expects s id due) (same : w'.deliveries = w.deliveries) :
    w'.Expects s id due where
  mem_iff := same ▸ h.mem_iff
  supplied := h.supplied

theorem Expects.delivery (h : w.Expects s id due) {endpoint : Endpoint} {time : Nat}
    (arrives : due endpoint = some time) :
    ∃ fetched, s.fetched endpoint = some fetched ∧
      ⟨taskOf id endpoint, endpoint, time, fetched⟩ ∈ w.deliveries := by
  obtain ⟨fetched, brings⟩ := h.supplied endpoint time arrives
  exact ⟨fetched, brings, (h.mem_iff _).2 ⟨rfl, arrives, brings⟩⟩

/-- Asking for an endpoint makes its request. The answer is there at once, or it is under way, or it
never comes. -/
theorem Expects.ask (h : w.Expects s id due) {endpoint : Endpoint} (brings : w.Brings s endpoint)
    (fresh : due endpoint = none) :
    let time := w.arrival endpoint
    ∃ deliveries,
      w.ask (taskOf id endpoint) endpoint =
        (if time.isSome then none else s.reply endpoint,
          { w.asked endpoint with
            deliveries
            log := w.log ++ if time.isSome then [] else s.notices endpoint }) ∧
      Expects { w with deliveries } s id (Function.update due endpoint time) := by
  intro time
  have same : Function.update due endpoint none = due := by rw [← fresh, Function.update_eq_self]
  rw [ask_eq]
  unfold Brings at brings
  unfold time arrival Supply.reply Supply.notices
  rw [brings]
  cases answered : w.answer? endpoint with
  | none => exact ⟨w.deliveries, by simp [asked], same.symm ▸ h⟩
  | some answer =>
    obtain ⟨delay, fetched⟩ := answer
    rw [answered, Option.map_some] at brings
    -- Without a delay nothing gets under way.
    cases delay with
    | zero => exact ⟨w.deliveries, by simp [asked], same.symm ▸ h⟩
    | succ delay =>
      let delivery : Delivery := ⟨taskOf id endpoint, endpoint, w.now + (delay + 1), fetched⟩
      refine ⟨w.deliveries ++ [delivery], by simp [asked, delivery], ?_, ?_⟩
      · rintro ⟨task, endpoint', time', fetched'⟩
        rw [List.mem_append, h.mem_iff, List.mem_singleton, Delivery.mk.injEq]
        by_cases he : endpoint' = endpoint
        · -- No answer for the endpoint was under way before.
          subst he
          simp [fresh, eq_comm, brings]
        · simp [he]
      · intro endpoint' time' arrives
        by_cases he : endpoint' = endpoint
        · subst he
          exact ⟨fetched, brings⟩
        · rw [Function.update_of_ne he] at arrives
          exact h.supplied endpoint' time' arrives

theorem Expects.hasArrived_iff (h : w.Expects s id due) {endpoint : Endpoint} {d : Delivery}
    (mem : d ∈ w.deliveries) : w.hasArrived (taskOf id endpoint) endpoint d = true ↔
      d.endpoint = endpoint ∧ d.due ≤ w.now := by
  obtain ⟨task, -, -⟩ := (h.mem_iff d).1 mem
  simp only [hasArrived, Bool.and_eq_true, beq_iff_eq, decide_eq_true_eq]
  constructor
  · exact fun h => ⟨h.1.2, h.2⟩
  · rintro ⟨rfl, now⟩
    exact ⟨⟨task, rfl⟩, now⟩

/-- When the answer for an endpoint is there and is taken, the others are still under way. -/
theorem Expects.taken (h : w.Expects s id due) {endpoint : Endpoint} {time : Nat}
    (arrives : due endpoint = some time) (now : time ≤ w.now) :
    let left := w.deliveries.filter fun d => !w.hasArrived (taskOf id endpoint) endpoint d
    Expects { w with deliveries := left } s id (Function.update due endpoint none) := by
  refine ⟨fun d => ?_, fun endpoint' time' arrives' => ?_⟩
  · rw [List.mem_filter, Bool.not_eq_true', ← Bool.not_eq_true]
    by_cases he : d.endpoint = endpoint
    · -- The answer that arrived was the only one for the endpoint.
      rw [he, Function.update_self]
      constructor
      · rintro ⟨mem, waits⟩
        obtain ⟨-, time', -⟩ := (h.mem_iff d).1 mem
        rw [he, arrives] at time'
        exact absurd ((h.hasArrived_iff mem).2 ⟨he, Option.some.inj time' ▸ now⟩) waits
      · rintro ⟨-, ⟨⟩, -⟩
    · rw [Function.update_of_ne he, ← h.mem_iff d, and_iff_left_iff_imp]
      exact fun mem there => he ((h.hasArrived_iff mem).1 there).1
  · by_cases he : endpoint' = endpoint
    · rw [he, Function.update_self] at arrives'
      cases arrives'
    · rw [Function.update_of_ne he] at arrives'
      exact h.supplied endpoint' time' arrives'

/-- Collecting the answer for an endpoint takes it if it is there by now. -/
theorem Expects.collect (h : w.Expects s id due) (endpoint : Endpoint) :
    ∃ deliveries,
      w.collect (taskOf id endpoint) endpoint =
        (if isThere w.now (due endpoint) then s.reply endpoint else none,
          { w with
            deliveries
            log := w.log ++ if isThere w.now (due endpoint) then s.notices endpoint else [] }) ∧
      Expects { w with deliveries } s id
        (Function.update due endpoint (ahead w.now (due endpoint))) := by
  unfold App.collect
  cases hf : w.deliveries.find? (w.hasArrived (taskOf id endpoint) endpoint) with
  | none =>
    -- Nothing is found, so nothing is due by now.
    have absent : isThere w.now (due endpoint) = false := by
      rw [isThere, Option.any_eq_false]
      intro t ht
      obtain ⟨fetched, -, mem⟩ := h.delivery ht
      rw [decide_eq_false_iff_not]
      exact fun now => List.find?_eq_none.1 hf _ mem ((h.hasArrived_iff mem).2 ⟨rfl, now⟩)
    have same : Function.update due endpoint (ahead w.now (due endpoint)) = due := by
      rw [ahead_of_not_there absent, Function.update_eq_self]
    exact ⟨w.deliveries, by simp [absent], same.symm ▸ h⟩
  | some d =>
    have mem := List.mem_of_find?_eq_some hf
    obtain ⟨rfl, now⟩ := (h.hasArrived_iff mem).1 (List.find?_some hf)
    obtain ⟨-, time, brings⟩ := (h.mem_iff d).1 mem
    have there : isThere w.now (due d.endpoint) = true := by simp [isThere, time, now]
    rw [ahead_of_there there]
    exact ⟨_, by simp [there, Supply.reply, Supply.notices, brings, deliver_eq], h.taken time now⟩

/-- Collecting both answers to a run takes those that are there, and logs nothing. -/
theorem Expects.collect_run (h : w.Expects s id due) :
    ∃ w₁ deliveries due',
      w.collect (.run id) .items =
        (if isThere w.now (due .items) then s.reply .items else none, w₁) ∧
      w₁.collect (.run id) .account =
        (if isThere w.now (due .account) then s.reply .account else none,
          { w with deliveries }) ∧
      Expects { w with deliveries } s id due' ∧ due' .items = ahead w.now (due .items) ∧
      due' .account = ahead w.now (due .account) ∧
      ∀ place, due' (.places place) = due (.places place) := by
  obtain ⟨deliveries, items, expects⟩ := h.collect .items
  rw [s.notices_items] at items
  let w₁ : App σ :=
    { w with deliveries, log := w.log ++ if isThere w.now (due .items) then [] else [] }
  have expects : w₁.Expects s id (Function.update due .items (ahead w.now (due .items))) :=
    expects.of_same rfl
  obtain ⟨deliveries', account, expects'⟩ := expects.collect .account
  -- To take the items leaves the account where it is.
  rw [Function.update_of_ne (by decide)] at account expects'
  rw [s.notices_account] at account
  refine ⟨w₁, deliveries', _, items, ?_, expects'.of_same rfl, ?_, Function.update_self .., ?_⟩
  · rw [taskOf] at account
    rw [account]
    simp [w₁]
  · rw [Function.update_of_ne (by decide), Function.update_self]
  · intro place
    rw [Function.update_of_ne (by simp), Function.update_of_ne (by simp)]

end Fetches

section Time
variable {w : App σ} {s : Supply} {id : Nat} {due : Arrivals}

theorem nextDue_eq_none_iff : w.nextDue = none ↔ ∀ d ∈ w.deliveries, d.due ≤ w.now := by
  simp [nextDue, List.min?_eq_none_iff]

theorem Expects.nextDue_eq_none_iff (h : w.Expects s id due) :
    w.nextDue = none ↔ ∀ endpoint, ahead w.now (due endpoint) = none := by
  rw [App.nextDue_eq_none_iff]
  simp only [ahead_eq_none_iff]
  constructor
  · intro past endpoint t ht
    obtain ⟨fetched, -, mem⟩ := h.delivery ht
    exact past _ mem
  · intro past d hd
    exact past d.endpoint d.due ((h.mem_iff d).1 hd).2.1

theorem Expects.nextDue_eq_some (h : w.Expects s id due) {time : Nat}
    (next : w.nextDue = some time) : w.now < time ∧ ∃ endpoint, due endpoint = some time := by
  obtain ⟨later, d, mem, rfl⟩ := App.nextDue_eq_some next
  exact ⟨later, d.endpoint, ((h.mem_iff d).1 mem).2.1⟩

/-- The tasks whose answers arrive until a time, but for the awaited one. -/
theorem Expects.mem_arriving (h : w.Expects s id due) (awaited : Option Task) (time : Nat)
    (task : Task) :
    task ∈ ((w.deliveries.filter fun d =>
        w.now < d.due && d.due ≤ time && some d.task != awaited).map (·.task)).eraseDups ↔
      some task ≠ awaited ∧ ∃ endpoint t, task = taskOf id endpoint ∧ due endpoint = some t ∧
        w.now < t ∧ t ≤ time := by
  simp only [List.mem_eraseDups, List.mem_map, List.mem_filter, Bool.and_eq_true, decide_eq_true_eq,
    bne_iff_ne]
  constructor
  · rintro ⟨d, ⟨mem, between, other⟩, rfl⟩
    obtain ⟨task, arrival, -⟩ := (h.mem_iff d).1 mem
    exact ⟨other, d.endpoint, d.due, task, arrival, between⟩
  · rintro ⟨other, endpoint, t, rfl, arrival, between⟩
    obtain ⟨fetched, -, mem⟩ := h.delivery arrival
    exact ⟨_, ⟨mem, between, other⟩, rfl⟩

end Time
end App
end MiningClient
