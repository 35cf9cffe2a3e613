import MiningClient.Proofs.App.Discipline
import MiningClient.Proofs.Rpc.Delivery
import MiningClient.Proofs.Rpc.Verdict
import MiningClient.Proofs.Storage.TwoCells

namespace MiningClient

section Brings
variable {β : Type} [Wire.Message β] {answer : Exchange} {x : β}

/-- The answer is a response without a failure, whose body holds the message and nothing else that
counts. -/
def Exchange.Brings (answer : Exchange) (x : β) : Prop :=
  ∃ r, answer = .ok r ∧ r.IsFine ∧ Body.HoldsOne r.body.fault? x r.body.bytes

theorem Body.single_eq_ok_iff_holdsOne {service method : String} {body : Body} :
    body.single service method = .ok x ↔ HoldsOne body.fault? x body.bytes := by
  rw [single_eq_ok_iff, ← reads_one_iff]
  constructor
  · intro h
    rw [← h]
    exact body.items_reads
  · exact body.items_reads.unique

theorem Exchange.bind_single_eq_ok_iff {service method : String} :
    ((accept answer).bind fun r => r.body.single service method) = .ok x ↔ answer.Brings x := by
  unfold Brings
  cases answer with
  | error e => exact iff_of_false nofun nofun
  | ok r =>
    rw [accept, Except.bind]
    simp only [Except.ok.injEq, exists_eq_left', ← Response.accept_eq_ok_iff]
    -- A response that is accepted is the one that came.
    cases judged : r.accept with
    | error e => exact iff_of_false nofun nofun
    | ok r' =>
      obtain rfl := Response.accept_eq_self judged
      rw [Except.bind, Body.single_eq_ok_iff_holdsOne]
      simp

end Brings

namespace Credentials
variable {σ : Type} [Slot σ] [Slot.Seen σ] {c : Credentials σ} {token : String}

theorem set_of_stored (stored : (Slot.store token c.slot).1 = .ok ()) :
    (c.set token).1 = .ok () ∧ (c.set token).2.cells = ⟨some token, some token⟩ := by
  obtain ⟨cells, outcome⟩ := c.use_cells (.set token)
  rw [deed, stored] at cells outcome
  exact ⟨congrArg Outcome.result outcome, cells⟩

theorem set_of_refused {fault : StorageFault} (refused : (Slot.store token c.slot).1 = .error fault) :
    (c.set token).1 = .error (.credential fault) ∧ (c.set token).2.cells = c.cells := by
  obtain ⟨cells, outcome⟩ := c.use_cells (.set token)
  rw [deed, refused] at cells outcome
  exact ⟨congrArg Outcome.result outcome, cells⟩

end Credentials

namespace App
variable {σ : Type} [Slot σ]

/-- The client as it waits for the answer to a request. -/
def asking (w : App σ) (request : Request) : App σ :=
  { w with requests := w.requests ++ [request] }

/-- What is asked while a request is under way, itself among it. -/
theorem asks_works {w w' : App σ} {request : Request} (under : request.IsUnder Client.publicService)
    (works : (w.asking request).Works w') :
    ∃ made, w'.requests = w.requests ++ made ∧
      made.filter (fun r => r.IsUnder Client.publicService) = [request] := by
  obtain ⟨made, asked, hidden⟩ := works.requests
  refine ⟨request :: made, ?_, ?_⟩
  · rw [asked, asking, List.append_assoc, List.singleton_append]
  -- The request itself is public, and what the tasks ask for meanwhile is not.
  · rw [List.filter_cons, if_pos (decide_eq_true under), List.cons_inj_right]
    exact List.filter_eq_nil_iff.2 fun r hr => by simpa using hidden r hr

/-- What the slot, as it is now, says to a token that is to be stored. -/
def store (w : App σ) (token : String) : Except StorageFault Unit :=
  (Slot.store token w.machine.credentials.slot).1

variable [Slot.Seen σ]

/-- The tokens that the client has, in memory and in the slot. -/
def cells (w : App σ) : Credentials.Cells := w.machine.credentials.cells

/-- How signing in ends by a call that makes this request and has brought a token or failed. -/
structure Settles (w : App σ) (request : Request) (brought : Except Error String)
    (result : Except Error Unit) (w' : App σ) : Prop where
  /-- The request is made, and whatever else is asked meanwhile is not asked of the public service. -/
  asks : ∃ made, w'.requests = w.requests ++ made ∧
    made.filter (fun r => r.IsUnder Client.publicService) = [request]
  succeeds : result = .ok () ↔ ∃ token, brought = .ok token ∧ w.store token = .ok ()
  taken : ∀ token, brought = .ok token → result = .ok () →
    w'.cells = ⟨some token, some token⟩ ∧ w'.isLoggedIn = true
  kept : ∀ e, result = .error e → w'.cells = w.cells ∧ w'.isLoggedIn = w.isLoggedIn
  fails : ∀ e, result = .error e → brought = .error e ∨
    ∃ token fault, brought = .ok token ∧ w.store token = .error fault ∧ e = .credential fault

/-- What signing in by a method of the public service comes to. The method is asked with the message `m`,
which the body of the request holds unless it is longer than a frame can be, and there is an end exactly
when there is an answer. The call brings the message that the answer brings, or an error of its own, and
`tokenOf` finds the token in the message. -/
def SignsIn {α β : Type} [Wire.Message α] [Wire.Message β] (w : App σ) (method : String) (m : α)
    (tokenOf : β → String) (attempt : Option (Except Error Unit × App σ)) : Prop :=
  let request := Request.blank Client.publicService method m w.timeout
  let answer := w.network (w.requests ++ [request])
  let call := w.client.publicChannel.unary β method m
  let brought := (call.run fun _ => answer.exchange).1
  ((Wire.encode m).length < UInt32.size → Body.HoldsOne none m request.body) ∧
  (attempt = none ↔ answer.delay = none) ∧
  (∀ x, brought = .ok x ↔ answer.exchange.Brings x) ∧
  ∀ result w', attempt = some (result, w') →
    w.Settles request (brought.map tokenOf) result w'

section Settles
variable {w w' : App σ} {request : Request}

theorem Settles.of_taken {token : String}
    (asks : ∃ made, w'.requests = w.requests ++ made ∧
      made.filter (fun r => r.IsUnder Client.publicService) = [request])
    (stored : w.store token = .ok ()) (taken : w'.cells = ⟨some token, some token⟩) :
    w.Settles request (.ok token) (.ok ()) w' where
  asks := asks
  succeeds := iff_of_true rfl ⟨token, rfl, stored⟩
  taken := by
    rintro _ ⟨⟩ -
    exact ⟨taken, congrArg (·.memory.isSome) taken⟩
  kept := nofun
  fails := nofun

theorem Settles.of_kept {brought : Except Error String} {e : Error}
    (asks : ∃ made, w'.requests = w.requests ++ made ∧
      made.filter (fun r => r.IsUnder Client.publicService) = [request])
    (fails : brought = .error e ∨
      ∃ token fault, brought = .ok token ∧ w.store token = .error fault ∧ e = .credential fault)
    (kept : w'.cells = w.cells) : w.Settles request brought (.error e) w' where
  asks := asks
  succeeds := by
    refine iff_of_false nofun ?_
    rintro ⟨token, rfl, stored⟩
    obtain ⟨⟨⟩⟩ | ⟨_, fault, ⟨⟩, refused, -⟩ := fails
    -- A token that was brought has been refused by the slot.
    cases stored.symm.trans refused
  taken := nofun
  kept := fun _ _ => ⟨kept, congrArg (·.memory.isSome) kept⟩
  fails := by
    rintro _ ⟨⟩
    exact fails

/-- The slot is asked as it was before, since nothing has changed it meanwhile. -/
theorem settles_token (under : request.IsUnder Client.publicService)
    (works : (w.asking request).Works w') (token : String) :
    w.Settles request (.ok token) (w'.setToken token).1 (w'.setToken token).2 := by
  have asked := asks_works under works
  have same : w'.machine.credentials = w.machine.credentials := works.credentials
  have result : (w'.setToken token).1 = (w.machine.credentials.set token).1 := by
    rw [← same]
    rfl
  have cells : (w'.setToken token).2.cells = (w.machine.credentials.set token).2.cells := by
    rw [← same]
    rfl
  cases stored : w.store token with
  | ok =>
    obtain ⟨fine, taken⟩ := Credentials.set_of_stored stored
    rw [result, fine]
    exact .of_taken asked stored (cells.trans taken)
  | error fault =>
    obtain ⟨failed, kept⟩ := Credentials.set_of_refused stored
    rw [result, failed]
    exact .of_kept asked (.inr ⟨token, fault, rfl, stored, rfl⟩) (cells.trans kept)

theorem settles_obtainToken (under : request.IsUnder Client.publicService)
    {finish : Exchange → Except Error String} {result : Except Error Unit}
    (h : w.obtainToken (.sent request finish) = some (result, w')) :
    w.Settles request (finish (w.network (w.requests ++ [request])).exchange) result w' := by
  obtain ⟨⟨brought, w₁⟩, called, ended⟩ := Option.map_eq_some_iff.1 h
  obtain ⟨delay, -, arrived⟩ := Option.map_eq_some_iff.1 called
  obtain ⟨rfl, rfl⟩ := Prod.mk.inj arrived
  have works := (w.asking request).sleep_works delay
  -- The answer is on hand before anything else happens. From here on only the token matters.
  generalize finish (w.network (w.requests ++ [request])).exchange = brought at ended ⊢
  cases brought with
  | error e =>
    cases ended
    have kept : ((w.asking request).sleep delay).cells = w.cells :=
      congrArg Credentials.cells works.credentials
    exact .of_kept (asks_works under works) (.inl rfl) kept
  | ok token =>
    obtain ⟨rfl, rfl⟩ := Prod.mk.inj ended
    exact settles_token under works token

end Settles

theorem holdsOne_ofMessage {α : Type} [Wire.Message α] [Wire.Plain α] {height : Nat}
    [Wire.LawfulMessage α height] (shallow : height ≤ Wire.maxDepth) (m : α)
    (unchanged : Wire.plain m = m) (fits : (Wire.encode m).length < UInt32.size) :
    Body.HoldsOne none m (Frame.ofMessage m) := by
  have nothing : Body.Reads (β := α) none [] [] := .short [] Body.short_nil
  have alone := Body.Reads.message shallow m fits nothing
  rw [unchanged, List.append_nil] at alone
  exact Body.reads_one_iff.1 alone

theorem signsIn_obtainToken {α β : Type} [Wire.Message α] [Wire.Plain α] {height : Nat}
    [Wire.LawfulMessage α height] [Wire.Message β] (shallow : height ≤ Wire.maxDepth) (w : App σ)
    (method : String) (m : α) (unchanged : Wire.plain m = m) (tokenOf : β → String) :
    w.SignsIn method m tokenOf
      (w.obtainToken ((w.client.publicChannel.unary β method m).map (·.map tokenOf))) := by
  refine ⟨?_, ?_, fun x => Exchange.bind_single_eq_ok_iff, fun result w' => ?_⟩
  · exact holdsOne_ofMessage shallow m unchanged
  · exact Option.map_eq_none_iff.trans Option.map_eq_none_iff
  · exact settles_obtainToken (Request.blank_isUnder ..)

/-- Logging in and registering change the two cells exactly when they succeed. Each asks the public service
once, for the given name and password, and succeeds if the answer brings one message and the slot takes
its token, which both cells hold then, even if it is empty. Else both cells are as they were, and the
error is that of the call or, where it brought a token, that of the slot. -/
theorem signs_in (w : App σ) (username password : String) :
    w.SignsIn "Login" (⟨username, password⟩ : LoginRequest) LoginResponse.sessionToken
      (w.login username password) ∧
    w.SignsIn "Register" (⟨username, password⟩ : RegisterRequest) RegisterResponse.sessionToken
      (w.register username password) :=
  ⟨signsIn_obtainToken (by decide) w "Login" _ rfl _,
    signsIn_obtainToken (by decide) w "Register" _ rfl _⟩

section Example

/-- A client that holds the token `old`, and whose calls are answered at once by a message with `new`. -/
def renewing {σ : Type} (slot : σ) : App σ where
  machine := .fresh ⟨some "old", slot⟩
  network _ := ⟨some 0, .ok { body := [.ok (Frame.ofMessage ({ sessionToken := "new" } : LoginResponse))] }⟩
  patience := 0

theorem renewing_brings {σ : Type} (slot : σ) (requests : List Request) :
    ((renewing slot).network requests).exchange.Brings ({ sessionToken := "new" } : LoginResponse) := by
  have whole := holdsOne_ofMessage (by decide) ({ sessionToken := "new" } : LoginResponse) rfl
    (by decide +kernel)
  refine ⟨_, rfl, .inr ⟨rfl, by decide, by decide⟩, ?_⟩
  change Body.HoldsOne none _ (Frame.ofMessage _ ++ [])
  rwa [List.append_nil]

/-- A token is taken by a file whose folder is missing, and refused where a file stands in place of the
folder. -/
theorem signs_in_token_file :
    let missing : App TokenFile := renewing { folder := "home" }
    let barred : App TokenFile :=
      renewing { folder := "home", tree := ⟨.folder [("home", .file [])]⟩ }
    (∃ w', missing.login "name" "word" = some (.ok (), w') ∧ w'.cells = ⟨some "new", some "new"⟩) ∧
      ∃ w', barred.login "name" "word" = some (.error (.credential .alreadyExists), w') ∧
        w'.cells = ⟨some "old", none⟩ := by
  intro missing barred
  constructor
  · obtain ⟨-, ends, brings, settles⟩ := (signs_in missing "name" "word").1
    have brought := (brings _).2 (renewing_brings _ _)
    obtain ⟨⟨result, w'⟩, attempt⟩ := Option.ne_none_iff_exists'.1 (mt ends.1 nofun)
    have settled := settles result w' attempt
    rw [brought] at settled
    have stored : missing.store "new" = .ok () :=
      Credentials.refusal?_eq_none_iff.1 (by decide +kernel)
    obtain rfl := settled.succeeds.2 ⟨"new", rfl, stored⟩
    exact ⟨w', attempt, (settled.taken "new" rfl rfl).1⟩
  · obtain ⟨-, ends, brings, settles⟩ := (signs_in barred "name" "word").1
    have brought := (brings _).2 (renewing_brings _ _)
    obtain ⟨⟨result, w'⟩, attempt⟩ := Option.ne_none_iff_exists'.1 (mt ends.1 nofun)
    have settled := settles result w' attempt
    rw [brought] at settled
    have refused : barred.store "new" = .error .alreadyExists :=
      Credentials.refusal?_eq_some_iff.1 (by decide +kernel)
    cases result with
    | ok =>
      obtain ⟨_, ⟨⟩, stored⟩ := settled.succeeds.1 rfl
      cases stored.symm.trans refused
    | error e =>
      obtain ⟨⟨⟩⟩ | ⟨_, fault, ⟨⟩, said, rfl⟩ := settled.fails e rfl
      obtain rfl := Except.error.inj (said.symm.trans refused)
      refine ⟨w', attempt, (settled.kept _ rfl).1.trans ?_⟩
      decide +kernel

end Example

/-- A message with a token comes whole, and then trailers with an error. -/
example :
    let trailers : Metadata := .ofList [(Channel.statusHeader, ⟨[0x31, 0x33], false, by decide⟩)]
    let bytes := Frame.ofMessage ({ sessionToken := "new" } : LoginResponse) ++ Frame.ofTrailers trailers
    let w : App MemorySlot :=
      { machine := .fresh ⟨some "old", ⟨some "old"⟩⟩
        network := fun _ => ⟨some 0, .ok { body := [.ok bytes] }⟩
        patience := 0 }
    (w.login "name" "word").map (fun ended => (ended.1.toOption, ended.2.machine.credentials)) =
      some (none, ⟨some "old", ⟨some "old"⟩⟩) := by decide +kernel

end App
end MiningClient
