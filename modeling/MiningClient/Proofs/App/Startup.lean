import MiningClient.Proofs.App.Settling

namespace MiningClient
open Session

namespace Location

/-- Entries that are shown where they are described keep their order and what they say. -/
theorem map_filterMap_described {α : Type} (descriptor : α → Option LocationDescriptor)
    (isAvailable : α → Bool) (ls : List α) :
    (ls.filterMap fun l => (descriptor l).map (⟨·, isAvailable l⟩ : _ → Location)).map
        (fun l => (some l.descriptor, l.isAvailable)) =
      (ls.filter fun l => (descriptor l).isSome).map fun l => (descriptor l, isAvailable l) := by
  induction ls with
  | nil => rfl
  | cons l ls ih => cases h : descriptor l <;> simpa [h] using ih

theorem skippedMine_eq (ls : List MineLocation) :
    skippedMine ls = (ls.filter (·.descriptor.isNone)).map fun _ => .skippedLocation .mine := by
  simp [skippedMine, ofMine?]

theorem skippedGamble_eq (ls : List GambleLocation) :
    skippedGamble ls = (ls.filter (·.descriptor.isNone)).map fun _ => .skippedLocation .gamble := by
  simp [skippedGamble, ofGamble?]

end Location

namespace Backend

def supply (b : Backend) : Supply where
  items := some (.ok b.catalog)
  account := some b.account?
  places place := some (.ok (b.places place, b.skipped place))

theorem supply_fetched (b : Backend) (endpoint : Endpoint) :
    b.supply.fetched endpoint = some (b.fetched endpoint) := by
  rcases endpoint with _ | _ | _ <;> rfl

theorem Serves.brings {σ : Type} {b : Backend} {w : App σ} (serves : b.Serves w.network)
    {value : HeaderValue} (admitted : admission w.machine.credentials.token = .ok value)
    (endpoint : Endpoint) :
    ∃ delay, w.answer? endpoint = some (delay, b.fetched endpoint) := by
  -- The client is built from the credentials, so it holds the same token.
  have admitted : admission w.client.token = .ok value := admitted
  obtain ⟨request, finish, sent, aimed, brings⟩ := b.fetch_eq admitted endpoint
  obtain ⟨delay, response, answer, answers⟩ := serves endpoint request w.requests aimed
  refine ⟨delay, ?_⟩
  rw [App.answer?, sent, Call.answer?, answer]
  exact congrArg (fun fetched => some (delay, fetched)) (brings response answers)

end Backend

namespace App
variable {σ : Type}

section Served
variable {b : Backend} {w₀ w : App σ} {value : HeaderValue}

theorem brings_of_serves (serves : b.Serves w.network)
    (admitted : admission w.machine.credentials.token = .ok value) (endpoint : Endpoint) :
    w.Brings b.supply endpoint := by
  obtain ⟨delay, answered⟩ := serves.brings admitted endpoint
  unfold Brings
  rw [answered, b.supply_fetched]
  rfl

theorem supplied_of_serves (serves : b.Serves w₀.network)
    (admitted : admission w₀.machine.credentials.token = .ok value) : Supplied b.supply w₀ :=
  fun _ place network _ credentials =>
    brings_of_serves (network ▸ serves) (credentials ▸ admitted) (.places place)

/-- The items are not refused. -/
theorem prompt_of_serves (serves : b.Serves w.network)
    (admitted : admission w.machine.credentials.token = .ok value) (e : Error) :
    w.answer? .items ≠ some (0, .error e) := by
  obtain ⟨delay, answered⟩ := serves.brings admitted .items
  rw [answered]
  exact nofun

theorem Fetching.hasAsked {due : Arrivals} (fetching : Fetching b.supply w₀ w due)
    (admitted : admission w₀.machine.credentials.token = .ok value) :
    w₀.HasAsked w [.items, .account] := by
  have admitted : admission w₀.client.token = .ok value := admitted
  obtain ⟨items, _, sentItems, toItems, -⟩ := b.fetch_eq admitted .items
  obtain ⟨account, _, sentAccount, toAccount, -⟩ := b.fetch_eq admitted .account
  -- To ask for the items does not change what the account is asked with.
  have asksAccount : (fetch (w₀.asked .items).client .account).requests = [account] :=
    congrArg Call.requests sentAccount
  refine ⟨[items, account], ?_, by simp [toItems, toAccount]⟩
  rw [fetching.requests, asked, asksAccount, asked, sentItems, Call.requests]
  simp only [List.append_assoc, List.cons_append, List.nil_append]

end Served

section Failed
variable {s : Supply} {w₀ w : App σ} {m : Machine σ} {requests : List Request}

/-- A client whose startup has failed. Answers that are still under way come to nothing. -/
structure Stopped (s : Supply) (id : Nat) (m : Machine σ) (requests : List Request) (w : App σ) :
    Prop where
  machine : w.machine = m
  requests : w.requests = requests
  expects : ∃ due, w.Expects s id due ∧ ∀ place, due (.places place) = none
  queue : ∀ job ∈ w.queue, job = .go (.run id)

namespace Stopped
variable {id : Nat}

theorem go (runs : m.runs = []) (h : Stopped s id m requests w) :
    Stopped s id m requests (w.go (.run id)) := by
  obtain ⟨due, expects, first⟩ := h.expects
  obtain ⟨w₁, deliveries, due', items, account, expects', -, -, others⟩ := expects.collect_run
  -- What arrives for the run is taken, but the run is over.
  have gone : w.machine.runs.find? (·.id == id) = none := by
    rw [h.machine, runs]
    rfl
  have going : w.go (.run id) = { w with deliveries } := by
    unfold App.go
    simp only [items, account, Machine.pollRun_of_none gone]
    rfl
  rw [going]
  refine ⟨h.machine, h.requests, ⟨due', expects'.of_same rfl, ?_⟩, h.queue⟩
  intro place
  rw [others, first]

theorem runQueue (runs : m.runs = []) (h : Stopped s id m requests w) :
    Stopped s id m requests w.runQueue := by
  -- The jobs are done one by one on a client whose queue is empty already.
  have all : ∀ (jobs : List Job) (w : App σ), (∀ job ∈ jobs, job = .go (.run id)) →
      Stopped s id m requests w → Stopped s id m requests (jobs.foldl runJob w) := by
    intro jobs
    induction jobs with
    | nil => exact fun _ _ h => h
    | cons job jobs ih =>
      intro w own h
      obtain ⟨rfl, rest⟩ := List.forall_mem_cons.1 own
      exact ih _ rest (h.go runs)
  obtain ⟨due, expects, first⟩ := h.expects
  exact all w.queue { w with queue := [] } h.queue
    ⟨h.machine, h.requests, ⟨due, expects.of_same rfl, first⟩, fun _ mem => absurd mem List.not_mem_nil⟩

theorem moveTo (h : Stopped s id m requests w) (time : Nat) :
    Stopped s id m requests (w.moveTo none time) := by
  obtain ⟨due, expects, first⟩ := h.expects
  refine ⟨h.machine, h.requests, ⟨due, expects.of_same rfl, first⟩, ?_⟩
  intro job mem
  obtain mem | mem := List.mem_append.1 mem
  · exact h.queue job mem
  · obtain ⟨task, arriving, rfl⟩ := List.mem_map.1 mem
    obtain ⟨-, endpoint, t, rfl, arrives, -⟩ := (expects.mem_arriving none time _).1 arriving
    -- Of the places nothing is under way, so what arrives is for the run.
    rw [taskOf_eq_run first arrives]

theorem waitUntil (runs : m.runs = []) (deadline fuel : Nat) (h : Stopped s id m requests w) :
    Stopped s id m requests (App.waitUntil deadline fuel w) :=
  waitUntil_keeps (fun _ h => (h.runQueue runs).runQueue runs)
    (fun _ time h _ => h.moveTo time) fuel h

theorem sleeps (runs : m.runs = []) (durations : List Nat) (h : Stopped s id m requests w) :
    Stopped s id m requests (durations.foldl sleep w) := by
  induction durations generalizing w with
  | nil => exact h
  | cons duration durations ih => exact ih (h.waitUntil runs _ _)

end Stopped
end Failed

/-- What the player sees when both kinds of places have been loaded. -/
structure Shown (b : Backend) (account : UserAccountInfo) (w₀ w : App σ) : Prop where
  phase : w.machine.core.phase = .ready
  ready : w.machine.core.ready.value = true
  items : w.machine.core.state.value.items = some b.catalog
  account : w.machine.core.state.value.account = some account
  /-- The entries that are described, in the server's order. -/
  mine : ∃ places, w.machine.core.state.value.mine = some places ∧
    places.map (fun l => (some l.descriptor, l.isAvailable)) =
      (b.mine.filter (·.descriptor.isSome)).map fun l => (l.descriptor, l.isAvailable)
  gamble : ∃ places, w.machine.core.state.value.gamble = some places ∧
    places.map (fun l => (some l.descriptor, l.isAvailable)) =
      (b.gamble.filter (·.descriptor.isSome)).map fun l => (l.descriptor, l.isAvailable)
  loads : w.machine.core.loads.value = ⟨.loaded, .loaded⟩
  /-- One warning for each entry that is not described, beside those for repeated items. -/
  log : ∃ warnings,
    w.log = w₀.log ++ (GameState.repeatedIds b.catalog).map .repeatedItem ++ warnings ∧
      warnings.Perm
        (((b.mine.filter (·.descriptor.isNone)).map fun _ => .skippedLocation .mine) ++
          (b.gamble.filter (·.descriptor.isNone)).map fun _ => .skippedLocation .gamble)

/-- The startup has failed with the error, and nothing but that has changed for the player. -/
structure Refused (e : Error) (w₀ w : App σ) : Prop where
  phase : w.machine.core.phase = .failed e.text
  state : w.machine.core.state = w₀.machine.core.state
  ready : w.machine.core.ready = w₀.machine.core.ready
  loads : w.machine.core.loads = w₀.machine.core.loads
  /-- The places are not asked for. -/
  asked : w₀.HasAsked w [.items, .account]

theorem failed_refused {s : Supply} {w₀ w : App σ} {due : Arrivals} (idle : w₀.Idle)
    (fetching : Fetching s w₀ w due) (asked : w₀.HasAsked w [.items, .account]) (e : Error)
    (durations : List Nat) : Refused e w₀ (durations.foldl sleep (w.failed w₀ e)) := by
  have stopped :
      Stopped s w₀.machine.nextTask (w.failed w₀ e).machine w.requests (w.failed w₀ e) := by
    refine ⟨rfl, rfl, ⟨due, fetching.expects.of_same rfl, fetching.first⟩, fun job mem => ?_⟩
    rw [failed, fetching.queue] at mem
    cases mem
  have runs : (w.failed w₀ e).machine.runs = [] := idle.runs
  obtain ⟨machine, requests, -, -⟩ := stopped.sleeps runs durations
  have core : (durations.foldl sleep (w.failed w₀ e)).machine.core =
      { w₀.machine.core with phase := .failed e.text } := by
    rw [machine]
    -- The run is of the present generation, so its failure is the phase.
    exact if_pos rfl
  obtain ⟨made, extended, paths⟩ := asked
  refine ⟨?_, ?_, ?_, ?_, made, requests.trans extended, paths⟩
  all_goals rw [core]

section Startup
variable {b : Backend} {w₀ w : App σ} {account : UserAccountInfo} {stage : Place → Stage}
  {jobs : List Job}

theorem Loading.shown (h : Loading b.supply w₀ b.catalog account stage jobs w)
    (settled : ∀ place, stage place = .settled) : Shown b account w₀ w := by
  have done : ∀ place, (stage place).isGoing = false := fun place => by rw [settled]; rfl
  have screen := h.showing.screen
  have places : ∀ place, w.machine.core.state.value.places place = some (b.places place) := by
    intro place
    rw [h.showing.places, done]
    rfl
  have status : ∀ place, w.machine.core.loads.value.status place = .loaded := by
    intro place
    rw [h.showing.status, done]
    rfl
  obtain ⟨warnings, logged, perm⟩ := h.log
  refine ⟨h.showing.phase, h.showing.ready, ?_, ?_, ⟨_, places .mine, ?_⟩, ⟨_, places .gamble, ?_⟩,
    Loads.eq_of_status fun place => ?_, warnings, logged, ?_⟩
  · rw [GameState.items, screen]
    rfl
  · rw [GameState.account, screen]
    rfl
  · exact Location.map_filterMap_described (·.descriptor) (·.isAvailable) b.mine
  · exact Location.map_filterMap_described (·.descriptor) (·.isAvailable) b.gamble
  · rw [status]
    cases place <;> rfl
  · have warnings : ∀ place, b.supply.warnings place = b.skipped place := fun place =>
      List.append_nil _
    rw [← Location.skippedMine_eq, ← Location.skippedGamble_eq]
    simpa [warned, done, warnings, Backend.skipped] using perm

theorem Loading.sleeps (supplied : Supplied b.supply w₀) (durations : List Nat)
    (h : Loading b.supply w₀ b.catalog account stage w.queue w) :
    ∃ stage', Loading b.supply w₀ b.catalog account stage' (durations.foldl sleep w).queue
      (durations.foldl sleep w) := by
  induction durations generalizing w stage with
  | nil => exact ⟨stage, h⟩
  | cons duration durations ih =>
    obtain ⟨stage', h'⟩ := h.waitUntil supplied w.arrivals (Nat.le_add_right w.now duration)
    exact ih h'

/-- Where the server has an account, the startup returns with the first screen published. From then on
a sleep that is long enough sees the loads of the places settle, and once they have settled everything is
shown as the server has it. Where the server has no account, the startup fails, and the player is shown
nothing, however long. -/
theorem loadFirstScreen_served (b : Backend) (w : App σ) (idle : w.Idle) {token : String}
    {value : HeaderValue} (held : w.machine.credentials.token = some token)
    (sendable : HeaderValue.ofText? token = some value) (serves : b.Serves w.network) :
    (∀ account, b.account.userAccountInfo = some account →
      ∃ w₁, w.loadFirstScreen = some (.ok .initialized, w₁) ∧ ∀ durations : List Nat,
        let w₂ := durations.foldl sleep w₁
        (w₂.machine.core.loads.value.isSettled = true → Shown b account w w₂) ∧
          ∃ bound, ∀ duration, bound < duration →
            (w₂.sleep duration).machine.core.loads.value.isSettled = true) ∧
    (b.account.userAccountInfo = none →
      ∃ w₁, w.loadFirstScreen = some (.error (.protocol .accountMissing), w₁) ∧
        ∀ durations : List Nat, Refused (.protocol .accountMissing) w (durations.foldl sleep w₁)) := by
  have admitted : admission w.machine.credentials.token = .ok value.asSensitive :=
    admission_eq_ok_iff.2 ⟨token, value, held, sendable, rfl⟩
  have supplied := supplied_of_serves serves admitted
  have answered : ∀ place, b.supply.ending place ≠ none := fun _ => Option.some_ne_none _
  obtain ⟨result, w₁, returned, ended⟩ := loadFirstScreen_ends idle (.inl ⟨rfl, rfl⟩)
    (brings_of_serves serves admitted .items) (prompt_of_serves serves admitted)
    (brings_of_serves (w := w.asked .items) serves admitted .account)
  constructor
  · intro account hasAccount
    have there : b.account? = .ok account := by rw [Backend.account?, hasAccount]; rfl
    -- The server has an account, so the startup cannot have failed.
    cases ended with
    | failed _ _ _ _ error =>
      obtain ⟨⟨⟩⟩ | error := error
      cases there.symm.trans (Option.some.inj error)
    | opened w' due fetching arrived catalog account' items there' =>
      cases items
      cases there.symm.trans (Option.some.inj there')
      refine ⟨_, returned, fun durations => ?_⟩
      obtain ⟨stage, loading⟩ :=
        (opened_loading idle fetching arrived b.catalog account).sleeps supplied durations
      refine ⟨fun settled =>
        loading.shown ((loading.showing.isSettled_iff fun place _ => answered place).1 settled), ?_⟩
      obtain ⟨bound, settles⟩ := loading.sleep_settles supplied answered
      refine ⟨bound, fun duration long => ?_⟩
      obtain ⟨stage', loading', settled⟩ := settles duration long
      exact (loading'.showing.isSettled_iff fun place _ => answered place).2 settled
  · intro noAccount
    have absent : b.account? = .error (.protocol .accountMissing) := by
      rw [Backend.account?, noAccount]
      rfl
    cases ended with
    | opened _ _ _ _ _ _ _ there => cases absent.symm.trans (Option.some.inj there)
    | failed w' due fetching e error =>
      obtain ⟨⟨⟩⟩ | error := error
      cases absent.symm.trans (Option.some.inj error)
      refine ⟨_, returned, fun durations => ?_⟩
      exact failed_refused idle fetching (fetching.hasAsked admitted) _ durations

end Startup

section Example

def wholeTrailers : Metadata := .ofList [(Channel.statusHeader, ⟨[0x30], false, by decide⟩)]

/-- A message and a status of zero, cut within the head of the first frame. -/
def framedResponse {β : Type} [Wire.Message β] (x : β) : Response :=
  let bytes := Frame.ofMessage x ++ Frame.ofTrailers wholeTrailers
  { body := [.ok (bytes.take 3), .ok (bytes.drop 3)] }

theorem framedResponse_delivers {β : Type} [Wire.Message β] (x : β)
    (small : (Wire.encode x).length < UInt32.size) : (framedResponse x).Delivers x := by
  refine ⟨wholeTrailers, ⟨rfl, rfl, by simpa using small, by decide +kernel, rfl, ?_⟩, ?_⟩
  · simp [framedResponse, Body.bytes]
  · have zero : Status.code? wholeTrailers.trimmed = some .ok := by decide +kernel
    exact .inr (Status.code?_eq_ok_iff.1 zero)

/-- Two items with one id, and an entry without a descriptor. -/
def oddBackend (account : GetAccountResponse) : Backend where
  catalog := [{ id := 7, name := "pick" }, { id := 7, name := "axe" }]
  account
  mine := [{ isAvailable := true }, { descriptor := some { id := 1 }, isAvailable := true }]
  gamble := [{ descriptor := some { id := 2 } }]

/-- The account comes before the items and the gambling places before the mines. -/
def oddNetwork (b : Backend) : Network := fun requests =>
  match requests.getLast?.map (·.path) with
  | some "/mine.MinePrivateService/GetItemDescriptors" =>
    ⟨some 9, .ok (framedResponse ({ itemDescriptors := b.catalog } : GetItemDescriptorsResponse))⟩
  | some "/mine.MinePrivateService/GetAccount" => ⟨some 0, .ok (framedResponse b.account)⟩
  | some "/mine.MinePrivateService/GetMineLocations" =>
    ⟨some 5, .ok (framedResponse ({ mineLocations := b.mine } : GetMineLocationsResponse))⟩
  | _ => ⟨some 4, .ok (framedResponse ({ gambleLocations := b.gamble } : GetGambleLocationsResponse))⟩

theorem oddNetwork_serves (account : GetAccountResponse)
    (small : (Wire.encode account).length < UInt32.size) :
    (oddBackend account).Serves (oddNetwork (oddBackend account)) := by
  intro endpoint request requests aimed
  have last : (requests ++ [request]).getLast?.map (·.path) = some (path endpoint) := by
    simp [aimed]
  -- None of these has anything of the account in it.
  have catalog : (Wire.encode ({ itemDescriptors := (oddBackend {}).catalog } :
      GetItemDescriptorsResponse)).length < UInt32.size := by decide +kernel
  have mine : (Wire.encode ({ mineLocations := (oddBackend {}).mine } :
      GetMineLocationsResponse)).length < UInt32.size := by decide +kernel
  have gamble : (Wire.encode ({ gambleLocations := (oddBackend {}).gamble } :
      GetGambleLocationsResponse)).length < UInt32.size := by decide +kernel
  unfold oddNetwork
  rw [last]
  rcases endpoint with _ | _ | _ | _
  · exact ⟨9, _, rfl, framedResponse_delivers _ catalog⟩
  · exact ⟨0, _, rfl, framedResponse_delivers _ small⟩
  · exact ⟨5, _, rfl, framedResponse_delivers _ mine⟩
  · exact ⟨4, _, rfl, framedResponse_delivers _ gamble⟩

/-- A client with a token that nothing has been asked of. -/
def oddClient (account : GetAccountResponse) : App MemorySlot where
  machine := .fresh ⟨some "session", ⟨some "session"⟩⟩
  network := oddNetwork (oddBackend account)
  patience := 0

theorem oddClient_idle (account : GetAccountResponse) : (oddClient account).Idle := .fresh ..

def adaAccount : GetAccountResponse where
  userAccountInfo := some { username := "ada" }

theorem loadFirstScreen_served_odd :
    (∃ w₁ duration, (oddClient adaAccount).loadFirstScreen = some (.ok .initialized, w₁) ∧
      (w₁.sleep duration).machine.core.loads.value.isSettled = true ∧
      Shown (oddBackend adaAccount) { username := "ada" } (oddClient adaAccount)
        (w₁.sleep duration)) ∧
    ∃ w₁, (oddClient {}).loadFirstScreen = some (.error (.protocol .accountMissing), w₁) ∧
      Refused (.protocol .accountMissing) (oddClient {}) (w₁.sleep 20) := by
  have sendable : ∃ value, HeaderValue.ofText? "session" = some value :=
    Option.isSome_iff_exists.1 (by decide +kernel)
  obtain ⟨value, sendable⟩ := sendable
  have present := loadFirstScreen_served (oddBackend adaAccount) (oddClient adaAccount)
    (oddClient_idle _) rfl sendable (oddNetwork_serves _ (by decide +kernel))
  have absent := loadFirstScreen_served (oddBackend {}) (oddClient {}) (oddClient_idle _) rfl sendable
    (oddNetwork_serves _ (by decide +kernel))
  obtain ⟨w₁, returned, all⟩ := present.1 _ rfl
  obtain ⟨bound, settles⟩ := (all []).2
  have settled := settles (bound + 1) (Nat.lt_succ_self bound)
  refine ⟨⟨w₁, bound + 1, returned, settled, (all [bound + 1]).1 settled⟩, ?_⟩
  obtain ⟨w₁, returned, refused⟩ := absent.2 rfl
  exact ⟨w₁, returned, refused [20]⟩

end Example

end App
end MiningClient
