import MiningClient.Proofs.Messages.RoundTrip
import MiningClient.Proofs.Rpc.SingleMessage
import MiningClient.Proofs.Rpc.TrailerText

namespace MiningClient

namespace Body
variable {β : Type} [Wire.Message β] {fault : Option Error}

theorem reads_trailers (trailers : Metadata)
    (fits : (Utf8.encode (Trailers.text trailers)).length < UInt32.size) :
    Reads (β := β) fault (Frame.ofTrailers trailers)
      ((Status.error? trailers.trimmed).toList.map .error) := by
  have ends : last? (β := β) Frame.trailerFlag (Utf8.encode (Trailers.text trailers)) =
      some ((Status.error? trailers.trimmed).toList.map .error) := by
    rw [last?, if_neg (by decide), if_pos (by decide), Trailers.parse_text]
  -- Nothing comes after the trailers, and it would not be read.
  rw [← List.append_nil (Frame.ofTrailers trailers)]
  exact .last _ _ [] _ fits ends

theorem Reads.message [Wire.Plain β] {height : Nat} [Wire.LawfulMessage β height]
    (shallow : height ≤ Wire.maxDepth) (x : β) (fits : (Wire.encode x).length < UInt32.size)
    {rest : Bytes} {items : List (Except Error β)} (more : Reads fault rest items) :
    Reads fault (Frame.ofMessage x ++ rest) (.ok (Wire.plain x) :: items) := by
  have decoded : item (Wire.encode x) = .ok (Wire.plain x) :=
    item_eq_ok_iff.2 (Wire.decode_encode shallow x (Nat.lt_trans fits (by decide)))
  have goes : last? (β := β) 0 (Wire.encode x) = none := last?_eq_none_iff.2 ⟨rfl, rfl⟩
  rw [← decoded]
  exact .data 0 (Wire.encode x) rest items fits goes more

theorem reads_framed [Wire.Plain β] {height : Nat} [Wire.LawfulMessage β height]
    (shallow : height ≤ Wire.maxDepth) (messages : List β)
    (small : ∀ x ∈ messages, (Wire.encode x).length < UInt32.size) {rest : Bytes}
    {items : List (Except Error β)} (more : Reads fault rest items) :
    Reads fault (messages.flatMap Frame.ofMessage ++ rest)
      (messages.map (fun x => .ok (Wire.plain x)) ++ items) := by
  induction messages with
  | nil => exact more
  | cons x messages ih =>
    rw [List.forall_mem_cons] at small
    rw [List.flatMap_cons, List.append_assoc, List.map_cons, List.cons_append]
    exact .message shallow x small.1 (ih small.2)

end Body

namespace Response
variable {β : Type} [Wire.Message β]

/-- A response of success whose body is the framed messages and then the framed trailers, in chunks that
are cut anywhere. -/
structure Frames (r : Response) (messages : List β) (trailers : Metadata) : Prop where
  success : r.status = 200
  bare : r.metadata.get? Status.statusName = none
  small : ∀ x ∈ messages, (Wire.encode x).length < UInt32.size
  fits : (Utf8.encode (Trailers.text trailers)).length < UInt32.size
  whole : r.body.fault? = none
  bytes : r.body.bytes = messages.flatMap Frame.ofMessage ++ Frame.ofTrailers trailers

theorem accept_of_bare {r : Response} (success : r.status = 200)
    (bare : r.metadata.get? Status.statusName = none) : r.accept = .ok r := by
  rw [accept, Status.code?_eq_none_iff.2 bare]
  exact if_pos (by omega)

variable {r : Response} {messages : List β} {trailers : Metadata}

theorem Frames.items_eq [Wire.Plain β] {height : Nat} [Wire.LawfulMessage β height]
    (h : r.Frames messages trailers) (shallow : height ≤ Wire.maxDepth) :
    r.body.items = messages.map (fun x => .ok (Wire.plain x)) ++
      (Status.error? trailers.trimmed).toList.map .error := by
  have reads := r.body.items_reads (β := β)
  rw [h.whole, h.bytes] at reads
  exact reads.unique (Body.reads_framed shallow messages h.small (Body.reads_trailers trailers h.fits))

end Response

theorem Status.error?_eq_some {m : Metadata} {e : Error} (h : error? m = some e) :
    ∃ code, code ≠ .ok ∧ code? m = some code ∧ e = .status code (message m) := by
  unfold error? at h
  split at h
  · cases h
  · cases h
  · rename_i code hok hcode
    cases h
    exact ⟨code, hok, hcode, rfl⟩

namespace Channel
variable {α : Type} [Wire.Message α]

/-- A streaming call that is answered with framed messages and trailers yields the messages, but for the
sign of a zero, and then nothing where the trailers have no status or a zero one; or else one error,
that which they carry. -/
theorem streaming_delivers (ch : Channel) (method : String) (m : α) {request : Request}
    (prepared : ch.prepare method m = .ok request) (network : Request → Exchange) (r : Response)
    (answered : network request = .ok r) (t : MessageType) (known : t ∈ messageTypes)
    (messages : List t.Value) (trailers : Metadata) (frames : r.Frames messages trailers) :
    let result := ((ch.streaming t.Value method m).run network).1
    let delivered : List (Except Error t.Value) := messages.map fun x => .ok (Wire.plain x)
    let fine := trailers.trimmed.get? Status.statusName = none ∨ Status.IsZero trailers.trimmed
    (fine → result = .ok delivered) ∧
    (¬fine → ∃ code message, Status.check trailers.trimmed = .error (.status code message) ∧
      result = .ok (delivered ++ [.error (.status code message)])) := by
  intro result delivered fine
  obtain ⟨height, shallow, lawful⟩ := exists_lawful t known
  -- The items of the response, less the envelope of the call.
  have hresult : result =
      .ok (delivered ++ (Status.error? trailers.trimmed).toList.map .error) := by
    change ((ch.streaming t.Value method m).run network).1 = _
    rw [streaming, prepared]
    change (Exchange.accept (network request)).map _ = _
    rw [answered, ← frames.items_eq shallow]
    change (Response.accept r).map _ = _
    rw [Response.accept_of_bare frames.success frames.bare]
    rfl
  rw [hresult]
  constructor
  · intro h
    rw [Status.error?_eq_none_iff.2 h]
    simp
  · intro h
    cases carried : Status.error? trailers.trimmed with
    | none => exact absurd (Status.error?_eq_none_iff.1 carried) h
    | some e =>
      obtain ⟨code, -, -, rfl⟩ := Status.error?_eq_some carried
      exact ⟨code, _, by rw [Status.check, carried], rfl⟩

section Restart

def statusHeader : HeaderName := ⟨Status.statusName, by decide +kernel⟩
def messageHeader : HeaderName := ⟨Status.messageName, by decide +kernel⟩

def restartTrailers : Metadata :=
  .ofList [(statusHeader, ⟨[0x31, 0x34, 0xC2, 0x85], false, by decide⟩),
    (messageHeader, ⟨Utf8.encode " Server%20restarting", false, by decide +kernel⟩)]

def restartLoot : List StartMiningResponse :=
  [{ loot := some { id := -1, value := ⟨0x80000000⟩ } }, {}]

/-- Loot, an empty message and a status with white space around it, cut in the middle of frames. -/
def restartResponse : Response :=
  let bytes := restartLoot.flatMap Frame.ofMessage ++ Frame.ofTrailers restartTrailers
  { body := [.ok (bytes.take 3), .ok [], .ok ((bytes.drop 3).take 20), .ok (bytes.drop 23)] }

theorem streaming_delivers_restart :
    let ch : Channel := { service := "service" }
    let network : Request → Exchange := fun _ => .ok restartResponse
    ∃ request, ch.prepare "Method" ({} : StartMiningRequest) = .ok request ∧
      network request = .ok restartResponse ∧
      (⟨StartMiningResponse⟩ : MessageType) ∈ messageTypes ∧
      restartResponse.Frames restartLoot restartTrailers ∧
      ((ch.streaming StartMiningResponse "Method" ({} : StartMiningRequest)).run network).1 =
        .ok [.ok { loot := some { id := -1 } }, .ok {},
          .error (.status .unavailable "Server restarting")] := by
  intro ch network
  have known : (⟨StartMiningResponse⟩ : MessageType) ∈ messageTypes := by simp [messageTypes]
  have frames : restartResponse.Frames restartLoot restartTrailers :=
    ⟨rfl, rfl, by decide +kernel, by decide +kernel, rfl, by decide +kernel⟩
  refine ⟨_, rfl, rfl, known, frames, ?_⟩
  have h := streaming_delivers ch "Method" ({} : StartMiningRequest) rfl network restartResponse rfl
    ⟨StartMiningResponse⟩ known restartLoot restartTrailers frames
  have carried : Status.error? restartTrailers.trimmed =
      some (.status .unavailable "Server restarting") := by decide +kernel
  obtain ⟨code, message, checked, result⟩ := h.2 fun fine => by
    rw [Status.error?_eq_none_iff.2 fine] at carried
    cases carried
  rw [Status.check, carried] at checked
  cases checked
  exact result

end Restart
end Channel
end MiningClient
