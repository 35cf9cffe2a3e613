import MiningClient.Proofs.Number.Written
import MiningClient.Proofs.Rpc.SameStatus

namespace MiningClient

namespace Code

def canonical : List Code :=
  [ok, cancelled, unknown, invalidArgument, deadlineExceeded, notFound, alreadyExists,
    permissionDenied, resourceExhausted, failedPrecondition, aborted, outOfRange, unimplemented,
    internal, unavailable, dataLoss, unauthenticated]

/-- The HTTP statuses that have a code. -/
def httpCodes : List (Nat × Code) :=
  [(400, internal), (401, unauthenticated), (403, permissionDenied), (404, unimplemented),
    (429, unavailable), (502, unavailable), (503, unavailable), (504, unavailable)]

theorem ofNumber_canonical {n : Nat} {code : Code} (h : canonical[n]? = some code) :
    ofNumber n = code := by
  have table : ∀ i (small : i < canonical.length), ofNumber i = canonical[i] := by decide
  obtain ⟨small, rfl⟩ := List.getElem?_eq_some_iff.1 h
  exact table n small

theorem ofNumber_other {z : Int} (h : ∀ n : Nat, z = n → canonical.length ≤ n) :
    ofNumber z = unknown := by
  unfold ofNumber
  split
  case h_18 => rfl
  all_goals exact absurd (h _ rfl) (by decide)

theorem ofHttpStatus_eq (status : Nat) :
    ofHttpStatus status = (httpCodes.lookup status).getD unknown := by
  unfold ofHttpStatus
  split
  case h_9 =>
    have none : httpCodes.lookup status = none := by
      -- A status that matches no case is none of the table.
      suffices ∀ entry ∈ httpCodes, status ≠ entry.1 by simpa [List.lookup_eq_none_iff] using this
      simp only [httpCodes, List.forall_mem_cons, List.not_mem_nil, false_imp_iff, implies_true,
        and_true]
      and_intros <;> assumption
    rw [none]
    rfl
  all_goals rfl

end Code

namespace HeaderValue

def Shows (b : UInt8) : Prop := b = 0x09 ∨ 0x20 ≤ b ∧ b ≤ 0x7E

theorem isVisible_iff {b : UInt8} : isVisible b = true ↔ Shows b := by
  simp [isVisible, Shows]

theorem Shows.isAscii {b : UInt8} (h : Shows b) : Utf8.IsAscii b := by
  rcases h with rfl | ⟨-, high⟩
  · exact Nat.lt_of_sub_eq_succ rfl
  · exact Nat.lt_of_le_of_lt (UInt8.le_iff_toNat_le.1 high) (by decide)

variable {v : HeaderValue}

theorem visible?_eq_some_iff {s : String} :
    v.visible? = some s ↔ (∀ b ∈ v.bytes, Shows b) ∧ Utf8.encode s = v.bytes := by
  unfold visible?
  simp only [← isVisible_iff, ← List.all_eq_true]
  split
  · rename_i shows
    rw [and_iff_right shows]
    refine ⟨Utf8.encode_of_decode?, fun written => ?_⟩
    rw [← written, Utf8.decode?_encode]
  · rename_i hidden
    exact iff_of_false nofun fun h => hidden h.1

theorem visible?_eq_none_iff : v.visible? = none ↔ ∃ b ∈ v.bytes, ¬Shows b := by
  constructor
  · intro h
    by_cases shows : ∀ b ∈ v.bytes, Shows b
    -- If all bytes show they are ASCII, and so they are text.
    · obtain ⟨s, read⟩ := Utf8.decode?_of_ascii fun b hb => (shows b hb).isAscii
      rw [visible?_eq_some_iff.2 ⟨shows, Utf8.encode_of_decode? read⟩] at h
      cases h
    · simpa using shows
  · rintro ⟨b, hb, hidden⟩
    rw [Option.eq_none_iff_forall_ne_some]
    intro s h
    exact hidden ((visible?_eq_some_iff.1 h).1 b hb)

/-- The value is visible text, and without the white space around it the text writes the number. -/
structure Says (v : HeaderValue) (n : Int) : Prop where
  shows : ∀ b ∈ v.bytes, Shows b
  written : ∃ s core, Utf8.encode s = v.bytes ∧ Text.Stripped Text.isBlank s.toList core ∧
    Decimal.Writes core n

theorem says_iff {n : Int} :
    v.Says n ↔ ∃ s, v.visible? = some s ∧ Decimal.signed? (Text.trim s).toList = some n := by
  simp only [visible?_eq_some_iff, Decimal.signed?_eq_some_iff, Text.trim, String.toList_ofList]
  constructor
  · rintro ⟨shows, s, core, bytes, stripped, writes⟩
    refine ⟨s, ⟨shows, bytes⟩, ?_⟩
    rw [Text.stripped_iff.1 stripped]
    exact writes
  · rintro ⟨s, ⟨shows, bytes⟩, writes⟩
    exact ⟨shows, s, _, bytes, Text.stripped_iff.2 rfl, writes⟩

theorem Says.unique {n n' : Int} (h : v.Says n) (h' : v.Says n') : n = n' := by
  obtain ⟨s, shown, read⟩ := says_iff.1 h
  obtain ⟨s', shown', read'⟩ := says_iff.1 h'
  cases shown.symm.trans shown'
  exact Option.some.inj (read.symm.trans read')

/-- The code that a status stands for: that of its number, and `unknown` for what says no number or a
number without a code. -/
inductive Names (v : HeaderValue) : Code → Prop
  | canonical {n : Nat} {code : Code} (said : v.Says n) (known : Code.canonical[n]? = some code) :
    Names v code
  | other (unlisted : ∀ n : Nat, v.Says n → Code.canonical.length ≤ n) : Names v .unknown

theorem names_of_hidden (hidden : v.visible? = none) : v.Names .unknown := by
  refine .other fun n said => ?_
  obtain ⟨s, shown, -⟩ := says_iff.1 said
  cases hidden.symm.trans shown

theorem names_ofText {s : String} (shown : v.visible? = some s) : v.Names (Code.ofText s) := by
  unfold Code.ofText
  split
  · rename_i z read
    have said : v.Says z := says_iff.2 ⟨s, shown, read⟩
    -- Only the numbers of the canonical list have a code of their own.
    by_cases known : ∃ n : Nat, z = n ∧ n < Code.canonical.length
    · obtain ⟨n, rfl, small⟩ := known
      have entry : Code.canonical[n]? = some Code.canonical[n] := List.getElem?_eq_getElem small
      rw [Code.ofNumber_canonical entry]
      exact .canonical said entry
    · have beyond : ∀ n : Nat, z = n → Code.canonical.length ≤ n :=
        fun n hn => Nat.le_of_not_lt fun small => known ⟨n, hn, small⟩
      rw [Code.ofNumber_other beyond]
      exact .other fun n said' => beyond n (said.unique said')
  · rename_i unread
    refine .other fun n said => ?_
    obtain ⟨s', shown', read⟩ := says_iff.1 said
    cases shown.symm.trans shown'
    cases unread.symm.trans read

end HeaderValue

namespace Status
variable {m : Metadata} {v : HeaderValue}

theorem names_code? (first : m.get? statusName = some v) :
    ∃ code, code? m = some code ∧ v.Names code := by
  rw [code?, first, Option.map_some]
  refine ⟨_, rfl, ?_⟩
  split
  · rename_i shown
    exact HeaderValue.names_ofText shown
  · rename_i hidden
    exact HeaderValue.names_of_hidden hidden

theorem isZero_iff : IsZero m ↔ ∃ v, m.get? statusName = some v ∧ v.Says 0 := by
  simp only [IsZero, HeaderValue.says_iff]
  exact ⟨fun ⟨v, s, first, h⟩ => ⟨v, first, s, h⟩, fun ⟨v, first, s, h⟩ => ⟨v, s, first, h⟩⟩

end Status

namespace Response

/-- The response reports no failure: its status says zero, or it has none and the HTTP status is one of
success. -/
def IsFine (r : Response) : Prop :=
  (∃ v, r.metadata.get? Status.statusName = some v ∧ v.Says 0) ∨
    r.metadata.get? Status.statusName = none ∧ 200 ≤ r.status ∧ r.status ≤ 299

/-- How a response is judged. One that reports a failure gives an error that names it, by its status if it
has one, and else by the HTTP status. -/
structure Judged (r : Response) (verdict : Except Error Response) : Prop where
  accepted : verdict = .ok r ↔ r.IsFine
  refused : ¬r.IsFine → ∃ code message, verdict = .error (.status code message) ∧ code ≠ .ok ∧
    (∀ v, r.metadata.get? Status.statusName = some v →
      v.Names code ∧ message = Status.message r.metadata) ∧
    (r.metadata.get? Status.statusName = none →
      code = (Code.httpCodes.lookup r.status).getD .unknown ∧ message = "HTTP " ++ toString r.status)

section
variable {r : Response}

theorem accept_eq_ok_iff : r.accept = .ok r ↔ r.IsFine := by
  unfold IsFine
  rw [← Status.isZero_iff, ← Status.code?_eq_ok_iff, ← Status.code?_eq_none_iff, accept]
  split
  · rename_i h
    simp [h]
  · rename_i code bad h
    have notOk : code ≠ .ok := bad
    simp [h, notOk]
  · rename_i h
    simp only [h, reduceCtorEq, false_or, true_and]
    split
    · rename_i success
      -- Without a status it is the HTTP status that counts.
      exact iff_of_true rfl (by omega)
    · rename_i failure
      exact iff_of_false (by simp) (by omega)

theorem accept_of_code {code : Code} (read : Status.code? r.metadata = some code)
    (notOk : code ≠ .ok) : r.accept = .error (.status code (Status.message r.metadata)) := by
  rw [accept, read]
  split
  · rename_i h
    exact absurd (Option.some.inj h) notOk
  · rename_i h
    cases h
    rfl
  · rename_i h
    cases h

theorem accept_of_http (bare : Status.code? r.metadata = none)
    (failure : ¬(200 ≤ r.status ∧ r.status < 300)) :
    r.accept = .error (.status (.ofHttpStatus r.status) ("HTTP " ++ Decimal.text r.status)) := by
  rw [accept, bare]
  exact if_neg failure

end

theorem judged (r : Response) : r.Judged r.accept where
  accepted := accept_eq_ok_iff
  refused failed := by
    cases first : r.metadata.get? Status.statusName with
    | none =>
      -- The response is not fine, and it has no status to blame.
      have failure : ¬(200 ≤ r.status ∧ r.status < 300) :=
        fun success => failed (.inr ⟨first, by omega⟩)
      refine ⟨_, _, accept_of_http (Status.code?_eq_none_iff.2 first) failure,
        Code.ofHttpStatus_ne_ok r.status, nofun, fun _ => ?_⟩
      rw [Code.ofHttpStatus_eq, Decimal.text_eq]
      exact ⟨rfl, rfl⟩
    | some v =>
      obtain ⟨code, read, names⟩ := Status.names_code? first
      have notOk : code ≠ .ok := by
        rintro rfl
        exact failed (.inl (Status.isZero_iff.1 (Status.code?_eq_ok_iff.1 read)))
      refine ⟨code, _, accept_of_code read notOk, notOk, ?_, nofun⟩
      rintro _ ⟨⟩
      exact ⟨names, rfl⟩

end Response

/-- Every answer is judged: no response is an error of its own, which is kept, a response that reports no
failure is kept unchanged, and any other is refused for its status with a code that is not `ok`. What
metadata are refused for never has the code `ok` either. -/
theorem Exchange.accept_judges (answer : Exchange) :
    (∀ e, answer = .error e → Exchange.accept answer = .error e) ∧
    (∀ r, answer = .ok r → r.Judged (Exchange.accept answer)) ∧
    ∀ m e, Status.check m = .error e → ∃ code message, e = .status code message ∧ code ≠ .ok := by
  refine ⟨?_, ?_, ?_⟩
  · rintro e rfl
    rfl
  · rintro r rfl
    exact r.judged
  · intro m e h
    unfold Status.check at h
    split at h
    · cases h
    · rename_i carried
      cases h
      obtain ⟨code, notOk, -, rfl⟩ := Status.error?_eq_some carried
      exact ⟨code, _, rfl, notOk⟩

/-- Zero may have a sign, more digits than one and white space around it; what is no number of a code is
unknown. -/
example :
    let code? (s : String) : Option Code :=
      (HeaderValue.ofText? s).bind fun v => Status.code? (.ofList [(Channel.statusHeader, v)])
    ["-0", "\t+000 ", "16", "17", "-1", "5x", ""].map code? =
      [some .ok, some .ok, some .unauthenticated, some .unknown, some .unknown, some .unknown,
        some .unknown] := by decide +kernel

end MiningClient
