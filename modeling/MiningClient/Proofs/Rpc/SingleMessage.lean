import MiningClient.Messages.Base
import MiningClient.Proofs.Rpc.Reading

namespace MiningClient

theorem Code.ofNumber_eq_ok_iff {n : Int} : ofNumber n = ok ↔ n = 0 := by
  constructor
  · intro h
    unfold ofNumber at h
    split at h <;> first | rfl | cases h
  · rintro rfl
    rfl

theorem Code.ofText_eq_ok_iff {s : String} :
    ofText s = ok ↔ Decimal.signed? (Text.trim s).toList = some 0 := by
  unfold ofText
  split
  · rename_i n hn
    rw [hn, ofNumber_eq_ok_iff, Option.some.injEq]
  · rename_i hn
    rw [hn]
    -- What is no number is unknown, which is not `ok`.
    constructor <;> (intro h; cases h)

namespace Status

/-- The metadata hold a status that reads as zero. -/
def IsZero (m : Metadata) : Prop :=
  ∃ value text, m.get? statusName = some value ∧ value.visible? = some text ∧
    Decimal.signed? (Text.trim text).toList = some 0

theorem code?_eq_ok_iff {m : Metadata} : code? m = some .ok ↔ IsZero m := by
  unfold code? IsZero
  rw [Option.map_eq_some_iff]
  refine exists_congr fun value => ?_
  cases value.visible? with
  | none => simp
  | some text => simp [Code.ofText_eq_ok_iff]

theorem code?_eq_none_iff {m : Metadata} : code? m = none ↔ m.get? statusName = none :=
  Option.map_eq_none_iff

theorem error?_eq_none_iff {m : Metadata} :
    error? m = none ↔ m.get? statusName = none ∨ IsZero m := by
  rw [← code?_eq_none_iff, ← code?_eq_ok_iff]
  unfold error?
  split
  · rename_i h
    simp [h]
  · rename_i h
    simp [h]
  · rename_i code hok h
    have hne : code ≠ .ok := hok
    simp [h, hne]

end Status

namespace Body

section Last
variable {β : Type} {flags : UInt8} {payload : Bytes}

theorem last?_eq_none_iff : last? (β := β) flags payload = none ↔
    Frame.isCompressed flags = false ∧ Frame.isTrailer flags = false := by
  unfold last?
  split
  · simp [*]
  · split
    · split <;> simp [*]
    · simp [*]

/-- Trailers alone end a body without an item. -/
theorem last?_eq_nil_iff : last? (β := β) flags payload = some [] ↔
    Frame.isCompressed flags = false ∧ Frame.isTrailer flags = true ∧
      ∃ m, Trailers.parse payload = .ok m ∧ Status.error? m = none := by
  unfold last?
  split
  · simp [*]
  · split
    · split <;> simp [*]
    · simp [*]

theorem not_ok_of_last? {items : List (Except Error β)} (h : last? flags payload = some items)
    (x : β) : .ok x ∉ items := by
  unfold last? at h
  -- A compressed frame and bad trailers are errors.
  split at h
  · cases h
    simp
  · split at h
    · split at h
      · cases h
        simp
      · cases h
        simp
    · cases h

end Last

/-- Nothing comes any more that counts: the body ends, or there are trailers without an error. -/
inductive Closes (fault : Option Error) : Bytes → Prop
  | ended (clean : fault = none) : Closes fault []
  | trailers (flags : UInt8) (text rest : Bytes) (m : Metadata) (fits : text.length < UInt32.size)
    (plain : Frame.isCompressed flags = false) (trailer : Frame.isTrailer flags = true)
    (parsed : Trailers.parse text = .ok m)
    (fine : m.get? Status.statusName = none ∨ Status.IsZero m) :
    Closes fault (Frame.write flags text ++ rest)

variable {β : Type} {fault : Option Error} {bs : Bytes} {x : β}

theorem remainder_eq_nil_iff : remainder (β := β) fault bs = [] ↔ fault = none ∧ bs = [] := by
  unfold remainder
  cases fault <;> simp

theorem not_ok_remainder : .ok x ∉ remainder fault bs := by
  unfold remainder
  cases fault with
  | some e => simp
  | none => by_cases h : bs = [] <;> simp [h]

variable [Wire.Message β]

/-- The bytes hold the message `x`, and nothing else that counts. -/
inductive HoldsOne (fault : Option Error) (x : β) : Bytes → Prop
  | intro (flags : UInt8) (payload rest : Bytes) (fits : payload.length < UInt32.size)
    (plain : Frame.isCompressed flags = false) (data : Frame.isTrailer flags = false)
    (decoded : Wire.decode payload = .ok x) (closes : Closes fault rest) :
    HoldsOne fault x (Frame.write flags payload ++ rest)

theorem short_nil : Frame.IsShort [] := by
  intro flags payload rest _ h
  cases h

theorem reads_nil_iff : Reads (β := β) fault bs [] ↔ Closes fault bs := by
  constructor
  · intro h
    -- The items are given, so the reading can only be one of these.
    generalize hitems : ([] : List (Except Error β)) = items at h
    cases h with
    | data => cases hitems
    | last flags payload rest _ fits ends =>
      subst hitems
      obtain ⟨plain, trailer, m, parsed, fine⟩ := last?_eq_nil_iff.mp ends
      exact .trailers flags payload rest m fits plain trailer parsed (Status.error?_eq_none_iff.mp fine)
    | short part short =>
      obtain ⟨clean, rfl⟩ := remainder_eq_nil_iff.mp hitems.symm
      exact .ended clean
  · intro h
    cases h with
    | ended clean =>
      subst clean
      exact .short [] short_nil
    | trailers flags text rest m fits plain trailer parsed fine =>
      have ends := (last?_eq_nil_iff (β := β)).mpr
        ⟨plain, trailer, m, parsed, Status.error?_eq_none_iff.mpr fine⟩
      exact .last flags text rest [] fits ends

theorem item_eq_ok_iff {payload : Bytes} : item payload = .ok x ↔ Wire.decode payload = .ok x := by
  unfold item
  cases Wire.decode (α := β) payload with
  | error e =>
    change Except.error (Error.decode e) = Except.ok x ↔ _
    simp
  | ok y =>
    change Except.ok y = Except.ok x ↔ _
    rw [Except.ok.injEq, Except.ok.injEq]

theorem reads_one_iff : Reads fault bs [.ok x] ↔ HoldsOne fault x bs := by
  constructor
  · intro h
    generalize hitems : [Except.ok x] = items at h
    cases h with
    | data flags payload rest items fits goes more =>
      obtain ⟨hx, rfl⟩ := List.cons.inj hitems
      obtain ⟨plain, data⟩ := last?_eq_none_iff.mp goes
      exact .intro flags payload rest fits plain data (item_eq_ok_iff.mp hx.symm) (reads_nil_iff.mp more)
    | last flags payload rest _ fits ends =>
      subst hitems
      -- The only item is a message, so it does not come from the end of the body.
      exact absurd (List.mem_singleton.mpr rfl) (not_ok_of_last? ends x)
    | short =>
      have hmem : .ok x ∈ remainder fault bs := hitems ▸ List.mem_singleton.mpr rfl
      exact absurd hmem not_ok_remainder
  · rintro ⟨flags, payload, rest, fits, plain, data, decoded, closes⟩
    have more := (reads_nil_iff (β := β)).mpr closes
    have goes : last? (β := β) flags payload = none := last?_eq_none_iff.mpr ⟨plain, data⟩
    rw [← item_eq_ok_iff.mpr decoded]
    exact .data flags payload rest [] fits goes more

variable {service method : String} {body : Body}

theorem single_eq_ok_iff :
    body.single service method = .ok x ↔ body.items = [.ok x] := by
  unfold single
  generalize body.items (β := β) = items
  rcases items with _ | ⟨_ | y, _ | ⟨_ | z, rest⟩⟩ <;> simp

end Body

namespace Response
variable {r r' : Response}

theorem accept_eq_self (h : r.accept = .ok r') : r' = r := by
  unfold accept at h
  split at h
  · cases h
    rfl
  · cases h
  · split at h <;> cases h
    rfl

theorem accept_body {e : Error} (h : r.accept = .error e) (body : Body) :
    Response.accept { r with body } = .error e := by
  unfold accept at h ⊢
  -- The judgment reads the status and the headers and nothing else.
  cases hc : Status.code? r.metadata with
  | none =>
    simp only [hc] at h ⊢
    split at h
    · cases h
    · rename_i hn
      rw [if_neg hn]
      exact h
  | some code =>
    cases code <;> simp only [hc] at h ⊢ <;> first | exact h | cases h

end Response

namespace Channel
variable {α β : Type} [Wire.Message α] [Wire.Message β]

/-- The result of a call for one message that is answered with `r`. It is a message in one case only,
and in any other the error that is named first. -/
structure Answers (ch : Channel) (method : String) (r : Response) (result : Except Error β) :
    Prop where
  message : ∀ x, result = .ok x ↔
    r.accept = .ok r ∧ Body.HoldsOne r.body.fault? x r.body.bytes
  verdict : r.accept = .ok r ∨ ∃ e, ∀ body, Response.accept { r with body } = .error e
  refused : ∀ e, r.accept = .error e → result = .error e
  none : r.accept = .ok r → Body.Reads (β := β) r.body.fault? r.body.bytes [] →
    result = .error (.protocol (.noMessage ch.service method))
  many : ∀ x y rest, r.accept = .ok r →
    Body.Reads (β := β) r.body.fault? r.body.bytes (.ok x :: .ok y :: rest) →
    result = .error (.protocol (.manyMessages ch.service method))
  first : ∀ e rest, r.accept = .ok r →
    Body.Reads (β := β) r.body.fault? r.body.bytes (.error e :: rest) → result = .error e
  second : ∀ x e rest, r.accept = .ok r →
    Body.Reads (β := β) r.body.fault? r.body.bytes (.ok x :: .error e :: rest) →
    result = .error e

/-- A call for one message gives it exactly when the response is accepted and its body holds that
message and nothing else that counts. All else is an error: of the status, without a look at the
body; of there being no message; of there being two; and else the first that the body yields. -/
theorem unary_answers (ch : Channel) (method : String) (m : α) {request : Request}
    (prepared : ch.prepare method m = .ok request) (network : Request → Exchange) (r : Response)
    (answered : network { request with timeout := ch.timeout } = .ok r) :
    ch.Answers method r ((ch.unary β method m).run network).1 := by
  have hrun : ((ch.unary β method m).run network).1 =
      r.accept.bind fun r => r.body.single ch.service method := by
    rw [unary, prepared]
    change (Exchange.accept (network { request with timeout := ch.timeout })).bind _ = _
    rw [answered]
    rfl
  rw [hrun]
  cases hr : r.accept with
  | error e =>
    have hno : r.accept ≠ .ok r := by simp [hr]
    refine ⟨?_, .inr ⟨e, Response.accept_body hr⟩, ?_, ?_, ?_, ?_, ?_⟩
    · intro x
      constructor
      · intro h
        cases h
      · rintro ⟨h, -⟩
        exact absurd h hno
    · intro e' h
      rw [hr] at h
      cases h
      rfl
    · exact fun h => absurd h hno
    · exact fun _ _ _ h => absurd h hno
    · exact fun _ _ h => absurd h hno
    · exact fun _ _ _ h => absurd h hno
  | ok r' =>
    obtain rfl := Response.accept_eq_self hr
    change ch.Answers method r' (r'.body.single ch.service method)
    -- What the body yields is told by its bytes.
    have hitems : ∀ items, Body.Reads r'.body.fault? r'.body.bytes items →
        r'.body.items (β := β) = items := fun items => r'.body.items_reads.unique
    refine ⟨?_, .inl hr, ?_, ?_, ?_, ?_, ?_⟩
    · intro x
      rw [← Body.reads_one_iff, Body.single_eq_ok_iff]
      constructor
      · intro h
        rw [← h]
        exact ⟨hr, r'.body.items_reads⟩
      · rintro ⟨-, h⟩
        exact hitems _ h
    · intro e h
      rw [hr] at h
      cases h
    · intro _ h
      rw [Body.single, hitems _ h]
    · intro x y rest _ h
      rw [Body.single, hitems _ h]
    · intro e rest _ h
      rw [Body.single, hitems _ h]
    · intro x e rest _ h
      rw [Body.single, hitems _ h]

/-- A message comes in two chunks, and then the connection breaks. -/
def brokenOff : Response := { body := [.ok [0, 0, 0], .ok [0, 0], .error (.network "reset")] }

theorem unary_answers_brokenOff :
    let ch : Channel := { service := "service" }
    let network : Request → Exchange := fun _ => .ok brokenOff
    ∃ request, ch.prepare "Method" ({} : GetBaseRequest) = .ok request ∧
      network { request with timeout := ch.timeout } = .ok brokenOff ∧
      ((ch.unary GetBaseResponse "Method" ({} : GetBaseRequest)).run network).1 =
        .error (.network "reset") := by
  intro ch network
  refine ⟨_, rfl, rfl, ?_⟩
  have h := unary_answers (β := GetBaseResponse) ch "Method" ({} : GetBaseRequest) rfl network
    brokenOff rfl
  have hmore : Body.Reads (β := GetBaseResponse) (some (.network "reset")) []
      [.error (.network "reset")] := .short [] Body.short_nil
  exact h.second {} _ [] rfl (.data 0 [] [] _ (by decide) rfl hmore)

end Channel
end MiningClient
