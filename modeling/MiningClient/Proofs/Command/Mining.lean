import Mathlib.Control.Monad.Basic
import MiningClient.Command.Run
import MiningClient.Proofs.App.Discipline
import MiningClient.Proofs.Session.Catalog

namespace MiningClient
open Session

abbrev MiningStream := List (Except Error StartMiningResponse)

namespace MiningStream
variable {stream : MiningStream} {limit : Option Nat} {k : Nat}

def loots (stream : MiningStream) : List Item := stream.filterMap fun item => item.toOption.bind (·.loot)

/-- There is a message at the place, and with it the loots are as many as the limit. -/
def Reaches (stream : MiningStream) (limit : Option Nat) (k : Nat) : Prop :=
  ∃ n message, limit = some n ∧ stream[k]? = some (.ok message) ∧ n ≤ (loots (stream.take (k + 1))).length

/-- The first place where the limit is reached. -/
structure IsLast (stream : MiningStream) (limit : Option Nat) (k : Nat) : Prop where
  reached : stream.Reaches limit k
  first : ∀ j < k, ¬stream.Reaches limit j

def IsClear (stream : MiningStream) (k : Nat) : Prop := ∀ j < k, ∀ e, stream[j]? ≠ some (.error e)

structure Passes (stream : MiningStream) (limit : Option Nat) (k : Nat) : Prop where
  clear : stream.IsClear k
  short : ∀ j < k, ¬stream.Reaches limit j

theorem loots_append (stream stream' : MiningStream) :
    loots (stream ++ stream') = loots stream ++ loots stream' := List.filterMap_append

theorem take_succ_of_getElem? {item : Except Error StartMiningResponse}
    (at_k : stream[k]? = some item) : stream.take (k + 1) = stream.take k ++ [item] := by
  rw [List.take_add_one, at_k]
  rfl

theorem drop_of_getElem? {item : Except Error StartMiningResponse} (at_k : stream[k]? = some item) :
    stream.drop k = item :: stream.drop (k + 1) := by
  obtain ⟨lt, rfl⟩ := List.getElem?_eq_some_iff.1 at_k
  exact List.drop_eq_getElem_cons lt

theorem loots_take_succ {message : StartMiningResponse} (at_k : stream[k]? = some (.ok message)) :
    loots (stream.take (k + 1)) = loots (stream.take k) ++ message.loot.toList := by
  rw [take_succ_of_getElem? at_k, loots_append]
  cases loot : message.loot with
  | none => simp [loots, Except.toOption, loot]
  | some item => simp [loots, Except.toOption, loot]

theorem Reaches.exists_isLast (h : stream.Reaches limit k) : ∃ j ≤ k, stream.IsLast limit j := by
  induction k using Nat.strongRecOn with
  | ind k ih =>
    by_cases early : ∃ j < k, stream.Reaches limit j
    · obtain ⟨j, lt, reached⟩ := early
      obtain ⟨i, le, last⟩ := ih j lt reached
      exact ⟨i, Nat.le_of_lt (Nat.lt_of_le_of_lt le lt), last⟩
    · exact ⟨k, Nat.le_refl k, h, fun j lt reached => early ⟨j, lt, reached⟩⟩

/-- How reading ends, with which loots, and what is not read. -/
inductive Ends (stream : MiningStream) (limit : Option Nat) :
    List Item → Option Error → MiningStream → Prop
  | error {k : Nat} {e : Error} (at_k : stream[k]? = some (.error e)) (clear : stream.IsClear k)
    (early : ∀ j, stream.IsLast limit j → k < j) :
    Ends stream limit (loots (stream.take k)) (some e) (stream.drop (k + 1))
  | last {k : Nat} (last : stream.IsLast limit k) (clear : stream.IsClear k) :
    Ends stream limit (loots (stream.take (k + 1))) none (stream.drop (k + 1))
  | done (endless : ∀ k, ¬stream.IsLast limit k) (clear : stream.IsClear stream.length) :
    Ends stream limit (loots stream) none []

theorem exists_ends (stream : MiningStream) (limit : Option Nat) :
    ∃ items error unread, stream.Ends limit items error unread := by
  -- Among the first `n` items there is no error, or a first one.
  have first : ∀ n, stream.IsClear n ∨ ∃ k < n, stream.IsClear k ∧ ∃ e, stream[k]? = some (.error e) := by
    intro n
    induction n with
    | zero => exact .inl nofun
    | succ n ih =>
      obtain clear | ⟨k, lt, there⟩ := ih
      · by_cases here : ∃ e, stream[n]? = some (.error e)
        · exact .inr ⟨n, Nat.lt_succ_self n, clear, here⟩
        · refine .inl fun j lt e at_j => ?_
          obtain lt | rfl := Nat.lt_or_eq_of_le (Nat.le_of_lt_succ lt)
          · exact clear j lt e at_j
          · exact here ⟨e, at_j⟩
      · exact .inr ⟨k, Nat.lt_succ_of_lt lt, there⟩
  by_cases some_last : ∃ k, stream.IsLast limit k
  · obtain ⟨k, last⟩ := some_last
    obtain clear | ⟨i, lt, clear, e, at_i⟩ := first k
    -- No error comes up to the last message, which ends the reading.
    · exact ⟨_, _, _, .last last clear⟩
    · refine ⟨_, _, _, .error at_i clear fun j last' => Nat.lt_of_lt_of_le lt ?_⟩
      exact Nat.le_of_not_lt fun before => last.first j before last'.reached
  · have endless := not_exists.1 some_last
    obtain clear | ⟨i, -, clear, e, at_i⟩ := first stream.length
    · exact ⟨_, _, _, .done endless clear⟩
    · exact ⟨_, _, _, .error at_i clear fun j last => absurd last (endless j)⟩

theorem Passes.length_loots_lt {n : Nat} (h : stream.Passes (some (n + 1)) k)
    (le : k ≤ stream.length) : (loots (stream.take k)).length < n + 1 := by
  cases k with
  | zero => exact Nat.zero_lt_succ n
  | succ j =>
    have at_j : stream[j]? = some stream[j] := List.getElem?_eq_getElem le
    cases item : stream[j] with
    | error e => exact absurd (item ▸ at_j) (h.clear j (Nat.lt_succ_self j) e)
    | ok message =>
      rw [item] at at_j
      exact Nat.lt_of_not_le fun enough =>
        h.short j (Nat.lt_succ_self j) ⟨n + 1, message, rfl, at_j, enough⟩

/-- A limit that is not zero is met exactly, if there are loots enough. -/
theorem Ends.length_items {n : Nat} {items : List Item} {unread : MiningStream}
    (h : stream.Ends (some (n + 1)) items none unread) :
    items.length = min (n + 1) (loots stream).length := by
  cases h with
  | @last k last clear =>
    obtain ⟨_, message, ⟨⟩, at_k, enough⟩ := last.reached
    obtain ⟨lt, -⟩ := List.getElem?_eq_some_iff.1 at_k
    have before := Passes.length_loots_lt ⟨clear, last.first⟩ (Nat.le_of_lt lt)
    -- A message brings one loot at most, so the limit is met and not passed.
    have one : message.loot.toList.length ≤ 1 := by cases message.loot <;> simp
    have added := congrArg List.length (loots_take_succ at_k)
    have whole := congrArg List.length (loots_append (stream.take (k + 1)) (stream.drop (k + 1)))
    rw [List.take_append_drop] at whole
    rw [List.length_append] at added whole
    omega
  | done endless clear =>
    have short : ∀ j < stream.length, ¬stream.Reaches (some (n + 1)) j := fun j _ reached => by
      obtain ⟨i, -, last⟩ := reached.exists_isLast
      exact endless i last
    have all := Passes.length_loots_lt ⟨clear, short⟩ (Nat.le_refl stream.length)
    rw [List.take_length] at all
    omega

theorem isLast_zero (message : StartMiningResponse) (stream : MiningStream) :
    IsLast (.ok message :: stream) (some 0) 0 :=
  ⟨⟨0, message, rfl, rfl, Nat.zero_le _⟩, nofun⟩

theorem Ends.of_zero {message : StartMiningResponse} {rest unread : MiningStream} {items : List Item}
    {error : Option Error} (h : Ends (.ok message :: rest) (some 0) items error unread) :
    items = message.loot.toList ∧ error = none ∧ unread = rest := by
  have zero := isLast_zero message rest
  cases h with
  | error _ _ early => exact absurd (early 0 zero) (Nat.not_lt_zero _)
  | @last k last =>
    have here : k = 0 := Nat.eq_zero_of_not_pos fun later => last.first 0 later zero.reached
    subst here
    have at_zero : (.ok message :: rest : MiningStream)[0]? = some (.ok message) := rfl
    exact ⟨loots_take_succ at_zero, rfl, rfl⟩
  | done endless => exact absurd zero (endless 0)

end MiningStream

namespace Command
open MiningStream

section Reading
variable {stream : MiningStream} {limit : Option Nat} {k : Nat}

theorem any_le_iff {received : Nat} : limit.any (· ≤ received) = true ↔ ∃ n, limit = some n ∧ n ≤ received := by
  cases limit <;> simp

theorem length_line (s : GameState) (message : StartMiningResponse) :
    (message.loot.map (lootLine s)).toList.length = message.loot.toList.length := by
  cases message.loot <;> rfl

theorem map_loots_take_succ (s : GameState) {message : StartMiningResponse}
    (at_k : stream[k]? = some (.ok message)) :
    (loots (stream.take (k + 1))).map (lootLine s) =
      (loots (stream.take k)).map (lootLine s) ++ (message.loot.map (lootLine s)).toList := by
  rw [loots_take_succ at_k, List.map_append]
  cases message.loot <;> rfl

theorem any_le_iff_reaches (s : GameState) {message : StartMiningResponse}
    (at_k : stream[k]? = some (.ok message)) :
    limit.any (· ≤ (loots (stream.take k)).length + (message.loot.map (lootLine s)).toList.length) = true ↔
      stream.Reaches limit k := by
  rw [length_line, ← List.length_append, ← loots_take_succ at_k, any_le_iff]
  constructor
  · rintro ⟨n, rfl, enough⟩
    exact ⟨n, message, rfl, at_k, enough⟩
  · rintro ⟨n, -, rfl, -, enough⟩
    exact ⟨n, rfl, enough⟩

/-- Up to where reading comes, every loot has its line. -/
theorem readLoot_of_passes (s : GameState) (h : stream.Passes limit k) (le : k ≤ stream.length) :
    let loot := readLoot s limit (loots (stream.take k)).length (stream.drop k)
    readLoot s limit 0 stream =
      { loot with lines := (loots (stream.take k)).map (lootLine s) ++ loot.lines } := by
  induction k with
  | zero => rfl
  | succ k ih =>
    have before : stream.Passes limit k :=
      ⟨fun j lt => h.clear j (Nat.lt_succ_of_lt lt), fun j lt => h.short j (Nat.lt_succ_of_lt lt)⟩
    obtain ⟨item, at_k⟩ : ∃ item, stream[k]? = some item :=
      ⟨stream[k], List.getElem?_eq_getElem le⟩
    cases item with
    | error e => exact absurd at_k (h.clear k (Nat.lt_succ_self k) e)
    | ok message =>
      -- The limit is not reached with this message, so the reading goes on.
      have more : limit.any (· ≤ (loots (stream.take k)).length +
          (message.loot.map (lootLine s)).toList.length) = false :=
        Bool.eq_false_iff.2 fun enough =>
          h.short k (Nat.lt_succ_self k) ((any_le_iff_reaches s at_k).1 enough)
      have counted : (loots (stream.take (k + 1))).length =
          (loots (stream.take k)).length + (message.loot.map (lootLine s)).toList.length := by
        rw [loots_take_succ at_k, List.length_append, length_line]
      rw [ih before (Nat.le_of_succ_le le), drop_of_getElem? at_k, readLoot, counted,
        map_loots_take_succ s at_k]
      simp only [more, Bool.false_eq_true, if_false, List.append_assoc]

theorem readLoot_of_ends (s : GameState) {items : List Item} {error : Option Error}
    {unread : MiningStream} (h : stream.Ends limit items error unread) :
    readLoot s limit 0 stream = ⟨items.map (lootLine s), error, unread⟩ := by
  cases h with
  | @error k e at_k clear early =>
    obtain ⟨lt, -⟩ := List.getElem?_eq_some_iff.1 at_k
    have passes : stream.Passes limit k := by
      refine ⟨clear, fun j before reached => ?_⟩
      obtain ⟨i, le, last⟩ := reached.exists_isLast
      exact absurd (early i last) (by omega)
    rw [readLoot_of_passes s passes (Nat.le_of_lt lt), drop_of_getElem? at_k, readLoot,
      List.append_nil]
  | @last k last clear =>
    obtain ⟨n, message, rfl, at_k, enough⟩ := last.reached
    obtain ⟨lt, -⟩ := List.getElem?_eq_some_iff.1 at_k
    have done := (any_le_iff_reaches s at_k).2 last.reached
    rw [readLoot_of_passes s ⟨clear, last.first⟩ (Nat.le_of_lt lt), drop_of_getElem? at_k, readLoot,
      map_loots_take_succ s at_k]
    simp only [done, if_true]
  | done endless clear =>
    have passes : stream.Passes limit stream.length := by
      refine ⟨clear, fun j _ reached => ?_⟩
      obtain ⟨i, -, last⟩ := reached.exists_isLast
      exact endless i last
    rw [readLoot_of_passes s passes (Nat.le_refl _), List.drop_length, List.take_length, readLoot,
      List.append_nil]

end Reading

section Naming

/-- The name of the last item of the catalog with the id. A negative id is no item's. -/
def catalogName (catalog : List ItemDescriptor) (id : Int32) : String :=
  ((catalog.filter fun item => (item.id.toNat : Int) = id.toInt).getLast?.map (·.name)).getD
    "unknown item"

def catalogLine (catalog : List ItemDescriptor) (item : Item) : String :=
  "  " ++ Text.padRight 20 (catalogName catalog item.id) ++ " quality " ++
    Text.padLeft 5 item.quality.text ++ "  value " ++ Text.padLeft 8 item.value.text

theorem itemName_eq {s : GameState} (h : s.Indexed) (item : Item) :
    itemName s item = catalogName s.catalog item.id := by
  have small := item.id.toInt_lt
  unfold itemName catalogName
  split
  · rename_i negative
    have negative : item.id.toInt < 0 := Int32.lt_iff_toInt_lt.1 negative
    have none : s.catalog.filter (fun d => (d.id.toNat : Int) = item.id.toInt) = [] := by
      refine List.filter_eq_nil_iff.2 fun d _ => ?_
      simp only [decide_eq_true_eq]
      omega
    rw [none]
    rfl
  · rename_i positive
    have positive : 0 ≤ item.id.toInt := by
      rw [Int32.lt_iff_toInt_lt] at positive
      exact Int.not_lt.1 positive
    -- An id that is not negative is the same number with or without a sign.
    have same : ∀ d : ItemDescriptor,
        (d.id == UInt32.ofNat item.id.toInt.toNat) = decide ((d.id.toNat : Int) = item.id.toInt) := by
      intro d
      rw [Bool.eq_iff_iff, beq_iff_eq, decide_eq_true_eq, ← UInt32.toNat_inj, UInt32.toNat_ofNat']
      omega
    rw [h.item?, lastWithId]
    simp only [same]

theorem lootLine_eq {s : GameState} (h : s.Indexed) (item : Item) :
    lootLine s item = catalogLine s.catalog item := by
  rw [lootLine, describe, itemName_eq h, catalogLine]
  simp only [String.append_assoc]

end Naming
end Command

section Requests

def Request.isStop (r : Request) : Bool := r.path == "/" ++ Client.privateService ++ "/StopMining"

/-- No other private method asks to stop mining. -/
theorem Method.isStop_of_private {m : Method} (hm : m.isPrivate = true) {c : Client} {r : Request}
    (h : r ∈ (m.call c).requests) : r.isStop = (m.name == "StopMining") := by
  rw [Request.isStop, path_of_private hm h, Bool.eq_iff_iff, beq_iff_eq, beq_iff_eq]
  have last : "/" ++ Client.privateService ++ "/StopMining" =
      "/" ++ Client.privateService ++ "/" ++ "StopMining" := by decide +kernel
  rw [last, String.append_right_inj]

theorem App.not_isStop_of_fetch {c : Client} {endpoint : Endpoint} {r : Request}
    (h : r ∈ (fetch c endpoint).requests) : r.isStop = false := by
  rw [Call.requests_eq _ _ (request?_fetch c endpoint)] at h
  rw [Method.isStop_of_private (isPrivate_method endpoint) h]
  rcases endpoint with _ | _ | _ | _ <;> decide

end Requests

namespace Command
open MiningStream
variable {σ : Type} [Slot σ]

/-- What there is to log about the end of mining. -/
def stopNotices : Except Error StopMiningResponse → List Notice
  | .ok _ => []
  | .error e => [.stopFailed e]

/-- The command began in `w₀`. In `w`, after all that was done `before`, the server is asked to stop, the
only time of all. The command ends when that is answered, and it succeeds whatever the answer is. -/
structure Stops (w₀ w : App σ) (before : List Act) (ran : Ran σ) : Prop where
  ends : ran = none ↔ w.call w.client.stopMining = none
  answered : ∀ stopped w', w.call w.client.stopMining = some (stopped, w') →
    ∃ stop made, ran = some (⟨before ++ [.request stop], .ok ()⟩,
        { w' with log := w'.log ++ stopNotices stopped }) ∧
      w'.requests = w₀.requests ++ made ∧ made.filter Request.isStop = [stop]

section Running
variable {w w₁ w₂ : App σ} {location : String} {stream : MiningStream}

/-- A stream that is opened was asked for with a token, and the token is still held. -/
theorem admission_of_opened (opened : w₁.call (w₁.client.startMining ⟨location⟩) = some (.ok stream, w₂)) :
    ∃ start value, (w₁.client.startMining ⟨location⟩).requests = [start] ∧ start.isStop = false ∧
      admission w₂.client.token = .ok value := by
  have works := App.call_works opened
  have token : w₂.client.token = w₁.client.token := congrArg Credentials.token works.credentials
  have asks : (w₁.client.startMining ⟨location⟩).request? = _ := w₁.client.request?_private_streaming _ _
  have none : ∀ {r}, r ∈ (w₁.client.startMining ⟨location⟩).requests → r.isStop = false := fun mem =>
    Method.isStop_of_private (m := .startMining ⟨location⟩) rfl mem
  cases admitted : admission w₁.client.token with
  | error e =>
    rw [admitted] at asks
    -- Without a token the call is refused, so nothing could have been opened.
    rw [Call.eq_refused asks] at opened
    cases opened
  | ok value =>
    rw [admitted] at asks
    have sent := Call.requests_of_ok asks
    exact ⟨_, value, sent, none (sent ▸ List.mem_singleton_self _), token ▸ admitted⟩

omit [Slot σ] in
theorem isLoggedIn_of_admission {value : HeaderValue} (h : admission w.client.token = .ok value) :
    w.isLoggedIn = true := by
  obtain ⟨text, plain, held, -, -⟩ := admission_eq_ok_iff.1 h
  exact Option.isSome_iff_exists.2 ⟨text, held⟩

theorem filter_isStop_of_fetches {made : List Request}
    (h : ∀ r ∈ made, ∃ c endpoint, r ∈ (App.fetch c endpoint).requests) :
    made.filter Request.isStop = [] := by
  refine List.filter_eq_nil_iff.2 fun r mem => ?_
  obtain ⟨c, endpoint, fetched⟩ := h r mem
  rw [App.not_isStop_of_fetch fetched]
  decide

/-- Up to where the stream is open, nothing asks to stop. -/
theorem unstopped_of_opened {outcome : Except Error Outcome}
    (first : w.loadFirstScreen = some (outcome, w₁))
    (opened : w₁.call (w₁.client.startMining ⟨location⟩) = some (.ok stream, w₂)) :
    ∃ made, w₂.requests = w.requests ++ made ∧ made.filter Request.isStop = [] := by
  obtain ⟨loaded, requests, fetches⟩ := (App.loadFirstScreen_works first).fetches
  obtain ⟨start, -, sent, other, -⟩ := admission_of_opened opened
  obtain ⟨waiting, requests', fetches'⟩ := (App.call_works opened).fetches
  refine ⟨loaded ++ [start] ++ waiting, ?_, ?_⟩
  · rw [requests', sent, requests]
    simp only [List.append_assoc]
  · rw [List.filter_append, List.filter_append, filter_isStop_of_fetches fetches,
      filter_isStop_of_fetches fetches', List.filter_cons_of_neg (by rw [other]; decide)]
    rfl

/-- While the answer is waited for, nothing else asks to stop. -/
theorem stops_of_admission {made : List Request} (requests : w₂.requests = w.requests ++ made)
    (unstopped : made.filter Request.isStop = []) {value : HeaderValue}
    (admitted : admission w₂.client.token = .ok value) (before : List Act) :
    let stop := w₂.client.stopMining
    Stops w w₂ before ((w₂.call stop).map fun (stopped, w') =>
      (⟨before ++ stop.requests.map .request, .ok ()⟩,
        { w' with log := w'.log ++ stopNotices stopped })) := by
  intro stop
  obtain ⟨asked, sent⟩ : ∃ asked, stop.requests = [asked] := by
    have asks : stop.request? = _ := w₂.client.request?_private _ _
    rw [admitted] at asks
    exact ⟨_, Call.requests_of_ok asks⟩
  have isStop : asked.isStop = true := by
    have mem : asked ∈ (Method.stopMining.call w₂.client).requests := sent ▸ List.mem_singleton_self asked
    rw [Method.isStop_of_private rfl mem]
    rfl
  constructor
  · exact Option.map_eq_none_iff
  · intro stopped w' called
    obtain ⟨meanwhile, requests', fetched⟩ := (App.call_works called).fetches
    refine ⟨asked, made ++ asked :: meanwhile, ?_, ?_, ?_⟩
    · rw [called, Option.map_some, sent]
      rfl
    · rw [requests', requests, sent]
      simp only [List.append_assoc, List.cons_append, List.nil_append]
    · rw [List.filter_append, unstopped, List.filter_cons_of_pos isStop,
        filter_isStop_of_fetches fetched]
      rfl

/-- Once the stream is open, what is left is to read it and to stop. -/
theorem runMine_eq (limit : Option Nat) {outcome : Outcome} {start : Request}
    (loggedIn : w.isLoggedIn = true) (first : w.loadFirstScreen = some (.ok outcome, w₁))
    (opened : w₁.call (w₁.client.startMining ⟨location⟩) = some (.ok stream, w₂))
    (sent : (w₁.client.startMining ⟨location⟩).requests = [start]) :
    let loot := readLoot w₂.machine.core.state.value limit 0 stream
    let told := Act.request start :: (("Mining at " ++ location) :: loot.lines).map .line
    (∀ e, loot.error = some e →
      runMine location limit w = some (⟨told, .error (.error e)⟩, w₂)) ∧
    (loot.error = none → runMine location limit w =
      (w₂.call w₂.client.stopMining).map fun (stopped, w') =>
        (⟨told ++ w₂.client.stopMining.requests.map .request, .ok ()⟩,
          { w' with log := w'.log ++ stopNotices stopped })) := by
  intro loot told
  unfold runMine withFirstScreen asks
  rw [if_pos loggedIn, first]
  simp only [andThen, opened, sent]
  constructor
  · intro e failed
    have failed : (readLoot w₂.machine.core.state.value limit 0 stream).error = some e := failed
    rw [failed]
    rfl
  · intro fine
    have fine : (readLoot w₂.machine.core.state.value limit 0 stream).error = none := fine
    rw [fine]
    simp only [Option.map_map]
    refine congrArg (Option.map · _) (funext ?_)
    rintro ⟨stopped, w'⟩
    cases stopped with
    | ok => simp [told, loot, stopNotices]
    | error e => simp [told, loot, stopNotices]

/-- Mining prints the loots up to the first error, or up to the message with which the limit is reached,
or up to the end, each with the name that the last item of the catalog with its id has, and reads nothing
behind that. With an error it fails, and the server was not asked to stop; else it asks once, after the
last line, and succeeds. -/
theorem runMine_ends (limit : Option Nat) {outcome : Outcome}
    (indexed : w.machine.core.state.value.Indexed)
    (first : w.loadFirstScreen = some (.ok outcome, w₁))
    (opened : w₁.call (w₁.client.startMining ⟨location⟩) = some (.ok stream, w₂)) :
    let state := w₂.machine.core.state.value
    let ran := runMine location limit w
    (∃ items error unread, stream.Ends limit items error unread) ∧
    ∃ start made, start.isStop = false ∧ w₂.requests = w.requests ++ made ∧
      made.filter Request.isStop = [] ∧
      ∀ items error unread, stream.Ends limit items error unread →
        let lines := items.map (catalogLine state.catalog)
        let told := Act.request start :: (("Mining at " ++ location) :: lines).map .line
        readLoot state limit 0 stream = ⟨lines, error, unread⟩ ∧
        (∀ e, error = some e → ran = some (⟨told, .error (.error e)⟩, w₂)) ∧
        (error = none → Stops w w₂ told ran ∧
          ∀ n, limit = some (n + 1) → items.length = min (n + 1) stream.loots.length) ∧
        (limit = some 0 → ∀ message rest, stream = .ok message :: rest →
          items = message.loot.toList ∧ unread = rest) := by
  intro state ran
  obtain ⟨start, value, sent, other, admitted⟩ := admission_of_opened opened
  obtain ⟨made, requests, unstopped⟩ := unstopped_of_opened first opened
  refine ⟨stream.exists_ends limit, start, made, other, requests, unstopped,
    fun items error unread ends => ?_⟩
  intro lines told
  have read : readLoot state limit 0 stream = ⟨lines, error, unread⟩ := by
    -- The call may let the loads of the places go on, and these leave the catalog indexed.
    have stillIndexed : state.Indexed :=
      (App.call_works opened).machine_keeps (P := fun m => m.core.state.value.Indexed)
        Machine.indexed_step
        ((App.loadFirstScreen_works first).machine_keeps Machine.indexed_step indexed)
    have named : items.map (lootLine state) = lines :=
      List.map_congr_left fun item _ => lootLine_eq stillIndexed item
    rw [readLoot_of_ends state ends, named]
  have loggedIn : w.isLoggedIn = true := by
    have credentials : w₂.client.token = w.client.token := congrArg Credentials.token
      ((App.call_works opened).credentials.trans (App.loadFirstScreen_works first).credentials)
    exact isLoggedIn_of_admission (credentials ▸ admitted)
  have told_eq : told =
      Act.request start :: (("Mining at " ++ location) :: (readLoot state limit 0 stream).lines).map .line := by
    rw [read]
  obtain ⟨failing, stopping⟩ := runMine_eq limit loggedIn first opened sent
  refine ⟨read, ?_, ?_, ?_⟩
  · rintro e rfl
    rw [told_eq]
    exact failing e (congrArg Loot.error read)
  · rintro rfl
    refine ⟨?_, fun n is_limit => ?_⟩
    · have ended : ran = _ := stopping (congrArg Loot.error read)
      rw [ended, told_eq]
      exact stops_of_admission requests unstopped admitted _
    · subst is_limit
      exact ends.length_items
  · rintro rfl message rest rfl
    obtain ⟨one, -, unread⟩ := ends.of_zero
    exact ⟨one, unread⟩

/-- Two items with one id. Mining brings a message without loot, two loots and an error. -/
def caveNetwork : Network := fun requests =>
  match requests.getLast?.map (·.path) with
  | some "/mine.MinePrivateService/GetItemDescriptors" =>
    ⟨some 2, .ok { body := [.ok (Frame.ofMessage ({ itemDescriptors :=
      [{ id := 7, name := "pick" }, { id := 7, name := "axe" }] } : GetItemDescriptorsResponse))] }⟩
  | some "/mine.MinePrivateService/GetAccount" =>
    ⟨some 1, .ok { body := [.ok (Frame.ofMessage
      ({ userAccountInfo := some { username := "ada" } } : GetAccountResponse))] }⟩
  | some "/mine.MinePrivateService/StartMining" =>
    ⟨some 3, .ok { body :=
      [.ok (Frame.ofMessage ({} : StartMiningResponse) ++
        Frame.ofMessage ({ loot := some { id := 7 } } : StartMiningResponse)),
      .ok (Frame.ofMessage ({ loot := some { id := 8 } } : StartMiningResponse)),
      .error (.network "reset")] }⟩
  | _ => ⟨some 4, .error (.network "gone")⟩

def caveClient : App MemorySlot where
  machine := .fresh ⟨some "session", ⟨some "session"⟩⟩
  network := caveNetwork
  patience := 0

def caveStream : MiningStream :=
  [.ok {}, .ok { loot := some { id := 7 } }, .ok { loot := some { id := 8 } },
    .error (.network "reset")]

/-- With a limit of one the second loot is not read; without one both are, and then the error. -/
theorem runMine_ends_cave :
    ∃ w₁ w₂, caveClient.loadFirstScreen = some (.ok .initialized, w₁) ∧
      w₁.call (w₁.client.startMining ⟨"Cave"⟩) = some (.ok caveStream, w₂) ∧
      (∃ start, Stops caveClient w₂ [.request start, .line "Mining at Cave",
          .line "  axe                  quality  0.00  value     0.00"]
        (runMine "Cave" (some 1) caveClient)) ∧
      ∃ start, runMine "Cave" none caveClient = some (⟨[.request start, .line "Mining at Cave",
          .line "  axe                  quality  0.00  value     0.00",
          .line "  unknown item         quality  0.00  value     0.00"],
        .error (.error (.network "reset"))⟩, w₂) := by
  have opens : (caveClient.loadFirstScreen.bind fun (outcome, w₁) =>
      (w₁.call (w₁.client.startMining ⟨"Cave"⟩)).map fun (stream, w₂) =>
        (outcome, stream, w₂.machine.core.state.value.catalog)) =
      some (.ok .initialized, .ok caveStream,
        [{ id := 7, name := "pick" }, { id := 7, name := "axe" }]) := by decide +kernel
  obtain ⟨⟨outcome, w₁⟩, first, then_⟩ := Option.bind_eq_some_iff.1 opens
  obtain ⟨⟨stream, w₂⟩, opened, same⟩ := Option.map_eq_some_iff.1 then_
  simp only [Prod.mk.injEq] at same
  obtain ⟨rfl, rfl, catalog⟩ := same
  have indexed : caveClient.machine.core.state.value.Indexed := GameState.indexed_blank
  have clear : caveStream.IsClear 3 := by
    intro j lt e
    rcases j with _ | _ | _ | j
    · exact nofun
    · exact nofun
    · exact nofun
    · omega
  have limited : caveStream.Ends (some 1) [{ id := 7 }] none (caveStream.drop 2) := by
    have last : caveStream.IsLast (some 1) 1 := by
      refine ⟨⟨1, _, rfl, rfl, by decide⟩, fun j lt => ?_⟩
      obtain rfl : j = 0 := by omega
      rintro ⟨_, _, ⟨⟩, -, enough⟩
      exact absurd enough (by decide)
    exact .last last fun j lt => clear j (by omega)
  have unlimited :
      caveStream.Ends none [{ id := 7 }, { id := 8 }] (some (.network "reset")) [] := by
    refine .error (k := 3) rfl clear fun j last => ?_
    obtain ⟨_, _, ⟨⟩, -⟩ := last.reached
  have lines : ([{ id := 7 }, { id := 8 }] : List Item).map
      (catalogLine w₂.machine.core.state.value.catalog) =
      ["  axe                  quality  0.00  value     0.00",
        "  unknown item         quality  0.00  value     0.00"] := by
    rw [catalog]
    decide +kernel
  have line : ([{ id := 7 }] : List Item).map (catalogLine w₂.machine.core.state.value.catalog) =
      ["  axe                  quality  0.00  value     0.00"] := congrArg (List.take 1) lines
  obtain ⟨-, start, -, -, -, -, once⟩ := runMine_ends (some 1) indexed first opened
  obtain ⟨-, -, stops, -⟩ := once _ _ _ limited
  obtain ⟨-, start', -, -, -, -, every⟩ := runMine_ends none indexed first opened
  obtain ⟨-, fails, -⟩ := every _ _ _ unlimited
  refine ⟨w₁, w₂, first, opened, ⟨start, ?_⟩, start', ?_⟩
  · have stops := (stops rfl).1
    rw [line] at stops
    exact stops
  · have fails := fails _ rfl
    rw [lines] at fails
    exact fails

end Running
end Command
end MiningClient
