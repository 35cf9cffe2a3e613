import MiningClient.Proofs.Rpc.Delivery

namespace MiningClient

namespace HeaderValue
variable {v : HeaderValue}

theorem visible?_eq_none (h : Utf8.decode? v.bytes = none) : v.visible? = none := by
  unfold visible?
  split
  · exact h
  · rfl

theorem isVisible_of_not_ascii {b : UInt8} (h : ¬Utf8.IsAscii b) : isVisible b = false := by
  have large : 0x80 ≤ b.toNat := Nat.le_of_not_lt h
  have notTab : b ≠ 9 := by
    rintro rfl
    exact absurd large (by decide)
  have high : ¬b ≤ 0x7E := fun low =>
    absurd (UInt8.le_iff_toNat_le.1 low) (Nat.not_le_of_lt (Nat.lt_of_lt_of_le (by decide) large))
  simp [isVisible, notTab, high]

theorem visible?_trimmed (h : Text.IsTrim v.lossy) : v.trimmed.visible? = v.visible? := by
  have bytes : v.trimmed.bytes = Utf8.encode v.lossy := by rw [bytes_trimmed, h.trim_eq]
  cases hd : Utf8.decode? v.bytes with
  | some s =>
    have same : v.trimmed.bytes = v.bytes := by
      rw [bytes, lossy, Utf8.lossy, hd, Option.getD_some, Utf8.encode_of_decode? hd]
    rw [visible?, visible?, same]
  | none =>
    -- The replacement character is not ASCII, so it leaves a byte that does not show.
    obtain ⟨b, hb, trace⟩ := Utf8.exists_mem_encode_lossy hd
    have hidden : v.trimmed.bytes.all isVisible = false := by
      rw [List.all_eq_false]
      exact ⟨b, bytes ▸ hb, by simp [isVisible_of_not_ascii trace]⟩
    rw [visible?_eq_none hd, visible?, hidden]
    rfl

end HeaderValue

namespace Metadata
variable {m : Metadata}

theorem mem_toList_of_get? {name : String} {v : HeaderValue} (h : m.get? name = some v) :
    ∃ name', (name', v) ∈ m.toList := by
  obtain ⟨e, he, rfl⟩ := Option.map_eq_some_iff.1 h
  rw [toList]
  simp only [List.mem_flatMap, List.mem_map]
  exact ⟨e.name, e, List.mem_of_find?_eq_some he, e.first, List.mem_cons_self .., rfl⟩

/-- No value has white space around it. -/
def IsTrim (m : Metadata) : Prop := ∀ f ∈ m.toList, Text.IsTrim f.2.lossy

instance (m : Metadata) : Decidable m.IsTrim :=
  inferInstanceAs (Decidable (∀ f ∈ m.toList, Text.IsTrim f.2.lossy))

theorem IsTrim.visible?_trimmed (h : m.IsTrim) {name : String} {v : HeaderValue}
    (hv : m.get? name = some v) : v.trimmed.visible? = v.visible? := by
  obtain ⟨name', mem⟩ := mem_toList_of_get? hv
  exact HeaderValue.visible?_trimmed (h _ mem)

end Metadata

namespace Status
variable {m : Metadata}

theorem code?_trimmed (h : m.IsTrim) : code? m.trimmed = code? m := by
  rw [code?, code?, Metadata.get?_trimmed]
  cases hv : m.get? statusName with
  | none => rfl
  | some v => simp only [Option.map_some, h.visible?_trimmed hv]

theorem message_trimmed (h : m.IsTrim) : message m.trimmed = message m := by
  rw [message, message, Metadata.get?_trimmed]
  cases hv : m.get? messageName with
  | none => rfl
  | some v => simp only [Option.map_some, Option.bind_some, h.visible?_trimmed hv]

theorem error?_trimmed (h : m.IsTrim) : error? m.trimmed = error? m := by
  rw [error?, error?, code?_trimmed h, message_trimmed h]

end Status

namespace Response

/-- A response of success without a body, that has `m` for its headers. -/
structure Heads (r : Response) (m : Metadata) : Prop where
  success : r.status = 200
  metadata : r.metadata = m
  whole : r.body.fault? = none
  bytes : r.body.bytes = []

/-- A response of success without headers, that has `m` for its trailers and nothing before them. -/
structure Trails (r : Response) (m : Metadata) : Prop where
  success : r.status = 200
  metadata : r.metadata = ∅
  fits : (Utf8.encode (Trailers.text m)).length < UInt32.size
  whole : r.body.fault? = none
  bytes : r.body.bytes = Frame.ofTrailers m

variable {r : Response} {m : Metadata}

/-- The status of the headers decides, where there is one. -/
theorem Heads.accept_eq (h : r.Heads m) :
    r.accept = match Status.error? m with
      | none => .ok r
      | some e => .error e := by
  rw [accept, h.metadata, Status.error?]
  split <;> rename_i hcode <;> simp only [hcode]
  exact if_pos (by rw [h.success]; omega)

variable {β : Type} [Wire.Message β]

theorem Heads.items_eq (h : r.Heads m) : r.body.items (β := β) = [] := by
  have reads := r.body.items_reads (β := β)
  rw [h.whole, h.bytes] at reads
  exact reads.unique (.short [] Body.short_nil)

theorem Trails.items_eq (h : r.Trails m) :
    r.body.items (β := β) = (Status.error? m.trimmed).toList.map .error := by
  have reads := r.body.items_reads (β := β)
  rw [h.whole, h.bytes] at reads
  exact reads.unique (Body.reads_trailers m h.fits)

end Response

namespace Channel
variable {α : Type} [Wire.Message α] (β : Type) [Wire.Message β] (ch : Channel) (method : String)
  (x : α) {request : Request} (network : Request → Exchange) {r : Response} {m : Metadata}

theorem unary_result (prepared : ch.prepare method x = .ok request)
    (answered : network { request with timeout := ch.timeout } = .ok r) :
    ((ch.unary β method x).run network).1 =
      r.accept.bind fun r => r.body.single ch.service method := by
  rw [unary, prepared]
  change (Exchange.accept (network { request with timeout := ch.timeout })).bind _ = _
  rw [answered]
  rfl

theorem unary_of_heads (prepared : ch.prepare method x = .ok request)
    (answered : network { request with timeout := ch.timeout } = .ok r) (heads : r.Heads m) :
    ((ch.unary β method x).run network).1 =
      .error ((Status.error? m).getD (.protocol (.noMessage ch.service method))) := by
  rw [unary_result β ch method x network prepared answered, heads.accept_eq]
  cases Status.error? m with
  | some e => rfl
  | none =>
    change r.body.single ch.service method = _
    rw [Body.single, heads.items_eq]
    rfl

theorem unary_of_trails (prepared : ch.prepare method x = .ok request)
    (answered : network { request with timeout := ch.timeout } = .ok r) (trails : r.Trails m) :
    ((ch.unary β method x).run network).1 =
      .error ((Status.error? m.trimmed).getD (.protocol (.noMessage ch.service method))) := by
  -- The headers are empty, so the response is let through.
  have accepted : r.accept = .ok r :=
    Response.accept_of_bare trails.success (by rw [trails.metadata]; rfl)
  rw [unary_result β ch method x network prepared answered, accepted]
  change r.body.single ch.service method = _
  rw [Body.single, trails.items_eq]
  cases Status.error? m.trimmed <;> rfl

/-- A status that comes alone ends a call for one message in the same way, be it in the headers or in the
trailers: with its error, or, where it is missing or zero, for want of a message. -/
theorem status_alike (prepared : ch.prepare method x = .ok request) (trim : m.IsTrim)
    (network' : Request → Exchange) {r' : Response} (heads : r.Heads m) (trails : r'.Trails m)
    (answered : network { request with timeout := ch.timeout } = .ok r)
    (answered' : network' { request with timeout := ch.timeout } = .ok r') :
    let result := ((ch.unary β method x).run network).1
    let fine := m.get? Status.statusName = none ∨ Status.IsZero m
    ((ch.unary β method x).run network').1 = result ∧
    (fine → result = .error (.protocol (.noMessage ch.service method))) ∧
    (¬fine → ∃ code, code ≠ .ok ∧ Status.code? m = some code ∧
      result = .error (.status code (Status.message m))) := by
  intro result fine
  have hresult : result = .error ((Status.error? m).getD _) :=
    unary_of_heads β ch method x network prepared answered heads
  refine ⟨?_, ?_, ?_⟩
  · rw [hresult, unary_of_trails β ch method x network' prepared answered' trails,
      Status.error?_trimmed trim]
  · intro h
    rw [hresult, Status.error?_eq_none_iff.2 h]
    rfl
  · intro h
    cases carried : Status.error? m with
    | none => exact absurd (Status.error?_eq_none_iff.1 carried) h
    | some e =>
      obtain ⟨code, bad, hcode, rfl⟩ := Status.error?_eq_some carried
      refine ⟨code, bad, hcode, ?_⟩
      rw [hresult, carried]
      rfl

section Latin

/-- A message that is no UTF-8, and a status after which there is another. -/
def latinMetadata : Metadata :=
  .ofList [(messageHeader, ⟨[0x46, 0xFC, 0x72], false, by decide⟩),
    (statusHeader, ⟨Utf8.encode "14", false, by decide +kernel⟩),
    (⟨"server", by decide +kernel⟩, ⟨[0xFF], true, by decide⟩),
    (statusHeader, ⟨Utf8.encode "0", false, by decide +kernel⟩)]

def latinHeads : Response := { metadata := latinMetadata, body := [.ok []] }

def latinTrails : Response :=
  let bytes := Frame.ofTrailers latinMetadata
  { body := [.ok (bytes.take 4), .ok ((bytes.drop 4).take 17), .ok [], .ok (bytes.drop 21)] }

theorem status_alike_latin :
    let ch : Channel := { service := "service" }
    let network (r : Response) : Request → Exchange := fun _ => .ok r
    let result r := ((ch.unary GetBaseResponse "Method" ({} : GetBaseRequest)).run (network r)).1
    ∃ request, ch.prepare "Method" ({} : GetBaseRequest) = .ok request ∧ latinMetadata.IsTrim ∧
      latinHeads.Heads latinMetadata ∧ latinTrails.Trails latinMetadata ∧
      result latinHeads = .error (.status .unavailable Status.defaultMessage) ∧
      result latinTrails = .error (.status .unavailable Status.defaultMessage) := by
  intro ch network result
  have trim : latinMetadata.IsTrim := by decide +kernel
  have heads : latinHeads.Heads latinMetadata := ⟨rfl, rfl, rfl, rfl⟩
  have trails : latinTrails.Trails latinMetadata :=
    ⟨rfl, rfl, by decide +kernel, rfl, by decide +kernel⟩
  obtain ⟨same, -, failed⟩ := status_alike GetBaseResponse ch "Method" ({} : GetBaseRequest)
    (network latinHeads) rfl trim (network latinTrails) heads trails rfl rfl
  have carried : Status.error? latinMetadata =
      some (.status .unavailable Status.defaultMessage) := by decide +kernel
  obtain ⟨code, -, hcode, hresult⟩ := failed fun fine => by
    rw [Status.error?_eq_none_iff.2 fine] at carried
    cases carried
  obtain ⟨_, -, hcode', he⟩ := Status.error?_eq_some carried
  cases hcode.symm.trans hcode'
  rw [he]
  exact ⟨_, rfl, trim, heads, trails, hresult, same.trans hresult⟩

end Latin
end Channel
end MiningClient
