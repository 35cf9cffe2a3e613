import MiningClient.Proofs.Rpc.Verdict
import MiningClient.Proofs.Text.Escapes

namespace MiningClient

theorem Utf8.decode?_eq_none_iff {bs : Bytes} : decode? bs = none ↔ ∀ s, encode s ≠ bs := by
  constructor
  · rintro h s rfl
    rw [decode?_encode] at h
    cases h
  · intro h
    rw [Option.eq_none_iff_forall_ne_some]
    exact fun s read => h s (encode_of_decode? read)

namespace HeaderValue

instance (b : UInt8) : Decidable (Shows b) := inferInstanceAs (Decidable (_ ∨ _ ∧ _))

/-- Escapes are visible, and so is all that is written with them. -/
theorem shows_of_encodes {bs text : Bytes} (h : Percent.Encodes Shows bs text) :
    ∀ b ∈ text, Shows b := by
  have digits : ∀ {b : UInt8} {n : Nat}, Percent.IsHex b n → Shows b := fun isHex =>
    of_decide_eq_true (isHex.of_table (P := fun b _ => Shows b) (by decide +kernel))
  induction h with
  | done => exact List.forall_mem_nil _
  | literal shows _ _ ih => exact List.forall_mem_cons.2 ⟨shows, ih⟩
  | escape first second _ _ ih =>
    simp only [List.forall_mem_cons]
    exact ⟨by decide, digits first, digits second, ih⟩

end HeaderValue

namespace Status
open HeaderValue (Shows)

/-- The message that metadata convey. -/
inductive Conveys (m : Metadata) : String → Prop
  | told {v : HeaderValue} {message : String} (first : m.get? messageName = some v)
    (shows : ∀ b ∈ v.bytes, Shows b) (reads : Percent.Reads v.bytes (Utf8.encode message)) :
    Conveys m message
  | garbled {v : HeaderValue} {bs : Bytes} (first : m.get? messageName = some v)
    (shows : ∀ b ∈ v.bytes, Shows b) (reads : Percent.Reads v.bytes bs)
    (noText : ∀ s, Utf8.encode s ≠ bs) : Conveys m "Unknown error"
  | hidden {v : HeaderValue} {b : UInt8} (first : m.get? messageName = some v) (mem : b ∈ v.bytes)
    (hides : ¬Shows b) : Conveys m "Unknown error"
  | missing (none : m.get? messageName = none) : Conveys m "Unknown error"

variable {m : Metadata}

theorem message_of_shown {v : HeaderValue} (first : m.get? messageName = some v)
    (shows : ∀ b ∈ v.bytes, Shows b) :
    message m = (Utf8.decode? (Percent.decode v.bytes)).getD "Unknown error" := by
  obtain ⟨text, read⟩ := Utf8.decode?_of_ascii fun b hb => (shows b hb).isAscii
  have bytes := Utf8.encode_of_decode? read
  have visible := HeaderValue.visible?_eq_some_iff.2 ⟨shows, bytes⟩
  rw [message, first, Option.bind_some, visible, ← bytes]
  rfl

theorem message_of_unseen (unseen : (m.get? messageName).bind (·.visible?) = none) :
    message m = "Unknown error" := by
  rw [message, unseen]
  rfl

theorem conveys_message (m : Metadata) : Conveys m (message m) := by
  cases first : m.get? messageName with
  | none =>
    rw [message_of_unseen (by rw [first]; rfl)]
    exact .missing first
  | some v =>
    cases visible : v.visible? with
    | none =>
      obtain ⟨b, mem, hides⟩ := HeaderValue.visible?_eq_none_iff.1 visible
      rw [message_of_unseen (by rw [first]; exact visible)]
      exact .hidden first mem hides
    | some text =>
      have shows := (HeaderValue.visible?_eq_some_iff.1 visible).1
      -- Escapes can always be read, though what they say may be no text.
      have reads : Percent.Reads v.bytes (Percent.decode v.bytes) := Percent.reads_iff.2 rfl
      rw [message_of_shown first shows]
      cases read : Utf8.decode? (Percent.decode v.bytes) with
      | none => exact .garbled first shows reads (Utf8.decode?_eq_none_iff.1 read)
      | some s =>
        rw [← Utf8.encode_of_decode? read] at reads
        exact .told first shows reads

theorem message_of_conveys {s : String} (h : Conveys m s) : message m = s := by
  cases h with
  | told first shows reads =>
    rw [message_of_shown first shows, Percent.reads_iff.1 reads, Utf8.decode?_encode]
    rfl
  | garbled first shows reads noText =>
    rw [message_of_shown first shows, Percent.reads_iff.1 reads, Utf8.decode?_eq_none_iff.2 noText]
    rfl
  | hidden first mem hides =>
    refine message_of_unseen ?_
    rw [first]
    exact HeaderValue.visible?_eq_none_iff.2 ⟨_, mem, hides⟩
  | missing none => exact message_of_unseen (by rw [none]; rfl)

theorem check_of_code {code : Code} (read : code? m = some code) (notOk : code ≠ .ok) :
    check m = .error (.status code (message m)) := by
  have carried : error? m = some (.status code (message m)) := by
    rw [error?, read]
    split
    · rename_i h
      cases h
    · rename_i h
      exact absurd (Option.some.inj h) notOk
    · rename_i h
      cases h
      rfl
  rw [check, carried]

/-- A status that does not say zero is an error, and its message is what the metadata convey: the first
message with its escapes read, if it is visible and comes to text, and else a fixed one. So a message
comes back however its bytes were escaped. -/
theorem message_survives (m : Metadata) {status : HeaderValue}
    (first : m.get? statusName = some status) (failed : ¬status.Says 0) :
    ∃ code message, check m = .error (.status code message) ∧ code ≠ .ok ∧
      (∀ s, message = s ↔ Conveys m s) ∧
      ∀ (s : String) (e : HeaderValue), m.get? messageName = some e →
        Percent.Encodes Shows (Utf8.encode s) e.bytes → message = s := by
  obtain ⟨code, read, -⟩ := names_code? first
  -- A code that is `ok` would have come from a zero.
  have notOk : code ≠ .ok := by
    rintro rfl
    obtain ⟨v, first', zero⟩ := isZero_iff.1 (code?_eq_ok_iff.1 read)
    cases first.symm.trans first'
    exact failed zero
  refine ⟨code, message m, check_of_code read notOk, notOk, fun s => ⟨?_, message_of_conveys⟩, ?_⟩
  · rintro rfl
    exact conveys_message m
  · intro s e told encodes
    exact message_of_conveys (.told told (HeaderValue.shows_of_encodes encodes) encodes.reads)

section Price

/-- A message that is escaped in part, with digits in both cases, and another one that does not count. -/
def priceMetadata : Metadata :=
  .ofList [(Channel.messageHeader, ⟨Utf8.encode "1%30%25+%e2%82%aC", false, by decide +kernel⟩),
    (Channel.statusHeader, ⟨Utf8.encode "7", false, by decide +kernel⟩),
    (Channel.messageHeader, ⟨Utf8.encode "later", false, by decide +kernel⟩)]

theorem message_survives_price :
    ∃ status e code, priceMetadata.get? statusName = some status ∧ ¬status.Says 0 ∧
      priceMetadata.get? messageName = some e ∧
      Percent.Encodes Shows (Utf8.encode "10%+€") e.bytes ∧ code ≠ .ok ∧
      check priceMetadata = .error (.status code "10%+€") := by
  let status : HeaderValue := ⟨Utf8.encode "7", false, by decide +kernel⟩
  let e : HeaderValue := ⟨Utf8.encode "1%30%25+%e2%82%aC", false, by decide +kernel⟩
  have first : priceMetadata.get? statusName = some status := by decide +kernel
  have told : priceMetadata.get? messageName = some e := by decide +kernel
  have failed : ¬status.Says 0 := by
    intro zero
    have seven : status.Says 7 := HeaderValue.says_iff.2 ⟨"7", by decide +kernel, by decide +kernel⟩
    exact absurd (seven.unique zero) (by decide)
  have encodes : Percent.Encodes Shows (Utf8.encode "10%+€") e.bytes := by
    have bytes : Utf8.encode "10%+€" = [0x31, 0x30, 0x25, 0x2B, 0xE2, 0x82, 0xAC] := by
      decide +kernel
    have text : e.bytes = [0x31] ++ [0x25, 0x33, 0x30] ++ [0x25, 0x32, 0x35] ++ [0x2B] ++
        [0x25, 0x65, 0x32] ++ [0x25, 0x38, 0x32] ++ [0x25, 0x61, 0x43] := by decide +kernel
    rw [bytes, text]
    refine .literal (by decide) (by decide) ?_
    refine .escape (h := 3) (l := 0) (by decide) (by decide) rfl ?_
    refine .escape (h := 2) (l := 5) (by decide) (by decide) rfl ?_
    refine .literal (by decide) (by decide) ?_
    refine .escape (h := 14) (l := 2) (by decide) (by decide) rfl ?_
    refine .escape (h := 8) (l := 2) (by decide) (by decide) rfl ?_
    refine .escape (h := 10) (l := 12) (by decide) (by decide) rfl ?_
    exact .done
  obtain ⟨code, message, checked, notOk, -, back⟩ := message_survives priceMetadata first failed
  rw [back "10%+€" e told encodes] at checked
  exact ⟨status, e, code, first, failed, told, encodes, notOk, checked⟩

end Price
end Status
end MiningClient
