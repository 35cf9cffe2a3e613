import MiningClient.Rpc.Client

namespace MiningClient

theorem HeaderName.eq_of_text {a b : HeaderName} (h : a.text = b.text) : a = b := by
  cases a
  cases b
  simpa using h

namespace Metadata

theorem getAll_insert_self (m : Metadata) (name : HeaderName) (value : HeaderValue) :
    (m.insert name value).getAll name.text = [value] := by
  obtain ⟨es, distinct⟩ := m
  show ((replaceIn name value es).filter (·.name.text == name.text)).flatMap (·.values) = [value]
  induction es with
  | nil => simp [replaceIn, Entry.values]
  | cons e es ih =>
    rw [List.map_cons, List.nodup_cons] at distinct
    by_cases h : e.name = name
    · -- no entry after this one has the name
      have others : es.filter (·.name.text == name.text) = [] := by
        refine List.filter_eq_nil_iff.2 fun e' he' same => distinct.1 ?_
        rw [h, ← HeaderName.eq_of_text (beq_iff_eq.1 same)]
        exact List.mem_map_of_mem he'
      simp [replaceIn, h, others, Entry.values]
    -- Names are equal when their texts are, and the entry keeps its own.
    · have differs : e.name.text ≠ name.text := fun same => h (HeaderName.eq_of_text same)
      simp [replaceIn, h, differs, ih distinct.2]

end Metadata

namespace HeaderValue

theorem bytes_of_ofText? {s : String} {v : HeaderValue} (h : ofText? s = some v) :
    v.bytes = Utf8.encode s := by
  unfold ofText? ofBytes? at h
  split at h
  · rw [← Option.some.inj h]
  · cases h

end HeaderValue

namespace Request

/-- The request goes to a method of the service. -/
def IsUnder (service : String) (r : Request) : Prop :=
  ("/" ++ service ++ "/").toList <+: r.path.toList

instance (service : String) (r : Request) : Decidable (r.IsUnder service) :=
  inferInstanceAs (Decidable (_ <+: _))

def authorizations (r : Request) : List HeaderValue := r.metadata.getAll authorization.text

theorem not_isUnder_both {r : Request} (h : r.IsUnder Client.publicService) :
    ¬ r.IsUnder Client.privateService := by
  intro h'
  have shorter : ("/" ++ Client.publicService ++ "/").toList.length ≤
    ("/" ++ Client.privateService ++ "/").toList.length := by decide +kernel
  have := List.prefix_of_prefix_length_le h h' shorter
  revert this
  decide +kernel

end Request

namespace Call
variable {β γ : Type}

/-- The request of a call, or why nothing is asked. -/
def request? : Call β → Except Error Request
  | refused e => .error e
  | sent request _ => .ok request

theorem request?_map (f : Except Error β → Except Error γ) (c : Call β) :
    (c.map f).request? = c.request? := by
  cases c <;> rfl

theorem eq_refused {c : Call β} {e : Error} (h : c.request? = .error e) : c = .refused e := by
  cases c with
  | refused e' => rw [Except.error.inj h]
  | sent => cases h

theorem eq_refused_of_run {c : Call β} {e : Error}
    (h : ∀ network, c.run network = (.error e, [])) : c = .refused e := by
  have none := h fun _ => .error e
  cases c with
  | refused e' => rw [Except.error.inj (Prod.mk.inj none).1]
  | sent => cases (Prod.mk.inj none).2

theorem requests_of_ok {c : Call β} {r : Request} (h : c.request? = .ok r) : c.requests = [r] := by
  cases c with
  | refused => cases h
  | sent r' => rw [requests, Except.ok.inj h]

theorem requests_eq (c : Call β) (d : Call γ) (h : c.request? = d.request?) :
    c.requests = d.requests := by
  cases hd : d.request? with
  | error e => rw [eq_refused hd, eq_refused (h.trans hd)]; rfl
  | ok r => rw [requests_of_ok hd, requests_of_ok (h.trans hd)]

end Call

/-- The value that stands for a token in a request, or why there is none. -/
def admission : Option String → Except Error HeaderValue
  | none => .error .unauthenticated
  | some token =>
    match HeaderValue.ofText? token with
    | none => .error (.protocol .tokenNotHeaderValue)
    | some value => .ok value.asSensitive

theorem admission_eq_ok_iff {token : Option String} {value : HeaderValue} :
    admission token = .ok value ↔
      ∃ text plain, token = some text ∧ HeaderValue.ofText? text = some plain ∧
        plain.asSensitive = value := by
  cases token with
  | none => simp [admission]
  | some text => cases h : HeaderValue.ofText? text <;> simp [admission, h]

/-- The value is the token, byte for byte, and is not to be shown. -/
theorem admission_ok {token : Option String} {value : HeaderValue}
    (h : admission token = .ok value) :
    ∃ text, token = some text ∧ value.bytes = Utf8.encode text ∧ value.sensitive = true := by
  obtain ⟨text, plain, rfl, hp, rfl⟩ := admission_eq_ok_iff.1 h
  exact ⟨text, rfl, (HeaderValue.bytes_of_ofText? hp : plain.bytes = _), rfl⟩

def Request.carrying (r : Request) (value : HeaderValue) : Request :=
  { r with metadata := r.metadata.insert authorization value }

theorem Request.authorizations_carrying (r : Request) (value : HeaderValue) :
    (r.carrying value).authorizations = [value] := Metadata.getAll_insert_self ..

theorem authorize_eq (token : Option String) (r : Request) :
    authorize token r = (admission token).map r.carrying := by
  unfold authorize admission
  split
  · rfl
  · split <;> simp [*, Except.map, Request.carrying]

namespace Request
variable {α : Type} [Wire.Message α]

/-- The request for a method of a service, without a token. -/
def blank (service method : String) (m : α) (timeout : Option Nat) : Request :=
  { path := "/" ++ service ++ "/" ++ method, body := Frame.ofMessage m, timeout }

theorem blank_isUnder (service method : String) (m : α) (timeout : Option Nat) :
    (blank service method m timeout).IsUnder service := by
  unfold IsUnder blank
  rw [String.toList_append (s := "/" ++ service ++ "/")]
  exact List.prefix_append _ _

end Request

namespace Client
variable {α β : Type} [Wire.Message α] [Wire.Message β]

theorem request?_public (c : Client) (method : String) (m : α) :
    (c.publicChannel.unary β method m).request? =
      .ok (.blank publicService method m c.timeout) := rfl

theorem request?_private (c : Client) (method : String) (m : α) :
    (c.privateChannel.unary β method m).request? =
      (admission c.token).map (Request.blank privateService method m c.timeout).carrying := by
  unfold Channel.unary Channel.prepare
  simp only [privateChannel, Channel.intercept, authorize_eq]
  cases admission c.token <;> rfl

theorem request?_private_streaming (c : Client) (method : String) (m : α) :
    (c.privateChannel.streaming β method m).request? =
      (admission c.token).map (Request.blank privateService method m none).carrying := by
  unfold Channel.streaming Channel.prepare
  simp only [privateChannel, Channel.intercept, authorize_eq]
  cases admission c.token <;> rfl

end Client

/-- The calls of the two services. -/
inductive Method
  | login (r : LoginRequest)
  | register (r : RegisterRequest)
  | getHiscores
  | getItemDescriptors
  | getMineLocations
  | getGambleLocations
  | getAccount
  | getInventory (r : GetInventoryRequest)
  | getBase
  | startMining (r : StartMiningRequest)
  | stopMining
  | upgradeBase (r : UpgradeBaseRequest)

namespace Method

def isPrivate : Method → Bool
  | login _ | register _ | getHiscores => false
  | _ => true

abbrev Result : Method → Type
  | login _ => LoginResponse
  | register _ => RegisterResponse
  | getHiscores => GetHiscoresResponse
  | getItemDescriptors => GetItemDescriptorsResponse
  | getMineLocations => GetMineLocationsResponse
  | getGambleLocations => GetGambleLocationsResponse
  | getAccount => GetAccountResponse
  | getInventory _ => GetInventoryResponse
  | getBase => GetBaseResponse
  | startMining _ => List (Except Error StartMiningResponse)
  | stopMining => StopMiningResponse
  | upgradeBase _ => UpgradeBaseResponse

def call (c : Client) : (m : Method) → Call m.Result
  | login r => c.login r
  | register r => c.register r
  | getHiscores => c.getHiscores
  | getItemDescriptors => c.getItemDescriptors
  | getMineLocations => c.getMineLocations
  | getGambleLocations => c.getGambleLocations
  | getAccount => c.getAccount
  | getInventory r => c.getInventory r
  | getBase => c.getBase
  | startMining r => c.startMining r
  | stopMining => c.stopMining
  | upgradeBase r => c.upgradeBase r

theorem exists_public {m : Method} (h : m.isPrivate = false) :
    ∃ blank : Option Nat → Request,
      (∀ t, (blank t).IsUnder Client.publicService ∧ (blank t).authorizations = []) ∧
      ∀ c, (m.call c).request? = .ok (blank c.timeout) := by
  cases m <;> cases h
  all_goals
    exact ⟨Request.blank _ _ _, fun t => ⟨Request.blank_isUnder .., rfl⟩,
      fun c => c.request?_public _ _⟩

theorem exists_private {m : Method} (h : m.isPrivate = true) :
    ∃ blank : Option Nat → Request, (∀ t, (blank t).IsUnder Client.privateService) ∧
      ∀ c, (m.call c).request? = (admission c.token).map (blank c.timeout).carrying := by
  -- Only the call for mining is a streaming one, and it is asked without a timeout.
  cases m <;> cases h
  case startMining r =>
    exact ⟨fun _ => .blank _ _ r none, fun t => Request.blank_isUnder ..,
      fun c => c.request?_private_streaming _ _⟩
  all_goals
    exact ⟨Request.blank _ _ _, fun t => Request.blank_isUnder ..,
      fun c => c.request?_private _ _⟩

def name : Method → String
  | login _ => "Login"
  | register _ => "Register"
  | getHiscores => "GetHiscores"
  | getItemDescriptors => "GetItemDescriptors"
  | getMineLocations => "GetMineLocations"
  | getGambleLocations => "GetGambleLocations"
  | getAccount => "GetAccount"
  | getInventory _ => "GetInventory"
  | getBase => "GetBase"
  | startMining _ => "StartMining"
  | stopMining => "StopMining"
  | upgradeBase _ => "UpgradeBase"

theorem path_of_carrying {α : Type} [Wire.Message α] {token : Option String} {method : String} {x : α}
    {timeout : Option Nat} {r : Request}
    (h : (admission token).map (Request.blank Client.privateService method x timeout).carrying = .ok r) :
    r.path = "/" ++ Client.privateService ++ "/" ++ method := by
  cases admitted : admission token with
  | error e =>
    rw [admitted] at h
    cases h
  | ok value =>
    rw [admitted] at h
    cases h
    rfl

theorem path_of_private {m : Method} (hm : m.isPrivate = true) {c : Client} {r : Request}
    (h : r ∈ (m.call c).requests) : r.path = "/" ++ Client.privateService ++ "/" ++ m.name := by
  -- A call that makes a request is not refused, so its request is the one at hand.
  have asked : (m.call c).request? = .ok r := by
    cases called : m.call c with
    | refused e =>
      rw [called] at h
      cases h
    | sent request finish =>
      rw [called] at h
      exact congrArg Except.ok (List.mem_singleton.1 h).symm
  cases m <;> cases hm
  case startMining x => exact path_of_carrying ((c.request?_private_streaming _ _).symm.trans asked)
  all_goals exact path_of_carrying ((c.request?_private _ _).symm.trans asked)

end Method
end MiningClient
