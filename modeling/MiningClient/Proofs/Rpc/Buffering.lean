import MiningClient.Proofs.Rpc.Reading

namespace MiningClient

structure RawFrame where
  flags : UInt8
  payload : Bytes
  fits : payload.length < UInt32.size

namespace Decoder

/-- What a decoder answers when it is asked for a frame. -/
abbrev Answer := Except ProtocolError (Option Frame)

/-- Whether the answer is about a frame that is taken off: no frame is while one is incomplete, nor
ever after one that is compressed. -/
def tells : Answer → Bool
  | .ok none | .error .compressedFrame => false
  | _ => true

inductive Use
  | push (chunk : Bytes)
  | next

namespace Use

def bytes : Use → Bytes
  | push chunk => chunk
  | next => []

end Use

def pushed (uses : List Use) : Bytes := uses.flatMap Use.bytes

def use (d : Decoder) : Use → Decoder
  | .push chunk => d.push chunk
  | .next => d.next.2

def after (d : Decoder) (uses : List Use) : Decoder := uses.foldl use d

def answers : Decoder → List Use → List Answer
  | _, [] => []
  | d, .push chunk :: uses => answers (d.push chunk) uses
  | d, .next :: uses => d.next.1 :: answers d.next.2 uses

/-- Asked for a frame, the decoder has none to take off. -/
def IsDrained (d : Decoder) : Prop := tells d.next.1 = false

end Decoder

namespace Frame

/-- The number in the four bytes after the flags. -/
def lengthField (bs : Bytes) : Nat :=
  Bytes.toLength (bs.getD 1 0) (bs.getD 2 0) (bs.getD 3 0) (bs.getD 4 0)

theorem length_write (flags : UInt8) (payload : Bytes) :
    (write flags payload).length = 5 + payload.length := by
  simp [write, Bytes.ofLength]
  omega

theorem lengthField_write (flags : UInt8) (payload rest : Bytes)
    (fits : payload.length < UInt32.size) :
    lengthField (write flags payload ++ rest) = payload.length := by
  have field := Bytes.toLength_ofLength payload.length fits
  simpa [lengthField, write, Bytes.ofLength] using field

/-- Bytes begin with no complete frame exactly when there are too few of them for a header, or for the
payload that the header announces. -/
theorem isShort_iff {bs : Bytes} : IsShort bs ↔ bs.length < 5 ∨ bs.length < 5 + lengthField bs := by
  rw [← cut_eq_none_iff]
  match bs with
  | flags :: a :: b :: c :: d :: rest =>
    have field : lengthField (flags :: a :: b :: c :: d :: rest) = Bytes.toLength a b c d := rfl
    simp only [cut, ite_eq_left_iff, reduceCtorEq, imp_false, Decidable.not_not, field, List.length_cons]
    omega
  | [] | [_] | [_, _] | [_, _, _] | [_, _, _, _] => simp [cut]

end Frame

namespace RawFrame

def bytes (f : RawFrame) : Bytes := Frame.write f.flags f.payload

def isCompressed (f : RawFrame) : Bool := Frame.isCompressed f.flags

def answer (f : RawFrame) : Decoder.Answer :=
  if Frame.isTrailer f.flags then (Trailers.parse f.payload).map fun m => some (.trailers m)
  else .ok (some (.data f.payload))

theorem bytes_append_inj {f g : RawFrame} {rest rest' : Bytes}
    (h : f.bytes ++ rest = g.bytes ++ rest') : f = g ∧ rest = rest' := by
  obtain ⟨flags, payload, fits⟩ := f
  obtain ⟨flags', payload', fits'⟩ := g
  obtain ⟨rfl, rfl, same⟩ := Frame.write_append_inj fits fits' h
  exact ⟨rfl, same⟩

end RawFrame

namespace Trailers

/-- Trailers are not refused as a compressed frame is. -/
theorem parse_ne_compressed (payload : Bytes) : parse payload ≠ .error .compressedFrame := by
  -- Neither a line nor the list of lines can fail in that way.
  have line : ∀ cs, parseLine cs ≠ .error .compressedFrame := by
    intro cs
    unfold parseLine
    repeat' split
    all_goals simp
  have lines : ∀ ls m, parseLines m ls ≠ .error .compressedFrame := by
    intro ls
    induction ls with
    | nil => exact fun m h => nomatch h
    | cons cs ls ih =>
      intro m
      have := line (dropReturns cs)
      unfold parseLines
      split
      · simp_all
      · exact ih m
      · exact ih _
  unfold parse
  split
  · simp
  · exact lines _ _

end Trailers

namespace Decoder

theorem tells_error {e : ProtocolError} (h : e ≠ .compressedFrame) : tells (.error e) = true := by
  cases e <;> first | rfl | contradiction

theorem tells_answer (f : RawFrame) : tells f.answer = true := by
  have other := Trailers.parse_ne_compressed f.payload
  unfold RawFrame.answer
  split
  · cases parsed : Trailers.parse f.payload with
    | ok m => rfl
    | error e => exact tells_error fun same => other (same ▸ parsed)
  · rfl

theorem next_short {d : Decoder} (h : Frame.IsShort d.buffer) : d.next = (.ok none, d) := by
  rw [next, Frame.cut_eq_none_iff.2 h]

theorem next_compressed (f : RawFrame) (compressed : f.isCompressed = true) (rest : Bytes) :
    next ⟨f.bytes ++ rest⟩ = (.error .compressedFrame, ⟨f.bytes ++ rest⟩) :=
  (Body.next_write f.flags rest f.fits).trans (if_pos compressed)

theorem next_plain (f : RawFrame) (plain : f.isCompressed = false) (rest : Bytes) :
    next ⟨f.bytes ++ rest⟩ = (f.answer, ⟨rest⟩) := by
  have flags : ¬Frame.isCompressed f.flags = true := Bool.eq_false_iff.1 plain
  refine (Body.next_write f.flags rest f.fits).trans ?_
  rw [if_neg flags, RawFrame.answer]
  split <;> rfl

/-- What asking for a frame comes to. -/
inductive Next (d : Decoder) : Answer × Decoder → Prop
  | waiting (short : Frame.IsShort d.buffer) : Next d (.ok none, d)
  | stuck (f : RawFrame) (rest : Bytes) (compressed : f.isCompressed = true)
    (head : d.buffer = f.bytes ++ rest) : Next d (.error .compressedFrame, d)
  | taken (f : RawFrame) (rest : Bytes) (plain : f.isCompressed = false)
    (head : d.buffer = f.bytes ++ rest) : Next d (f.answer, ⟨rest⟩)

theorem next_cases (d : Decoder) : Next d d.next := by
  obtain ⟨bs⟩ := d
  cases hc : Frame.cut bs with
  | none =>
    have short := Frame.cut_eq_none_iff.1 hc
    rw [next_short short]
    exact .waiting short
  | some x =>
    obtain ⟨flags, payload, rest⟩ := x
    obtain ⟨fits, head⟩ := Frame.eq_write_of_cut hc
    -- What was cut off the bytes is a frame of its own, so the bytes begin with it.
    have held : bs = (RawFrame.mk flags payload fits).bytes ++ rest := head
    cases compressed : (RawFrame.mk flags payload fits).isCompressed with
    | true =>
      have answered := next_compressed _ compressed rest
      rw [← held] at answered
      rw [answered]
      exact .stuck _ rest compressed held
    | false =>
      have answered := next_plain _ compressed rest
      rw [← held] at answered
      rw [answered]
      exact .taken _ rest compressed held

theorem next_cases_tells (d : Decoder) :
    (tells d.next.1 = false ∧ d.next.2 = d) ∨
      ∃ f : RawFrame, f.isCompressed = false ∧ d.next.1 = f.answer ∧
        d.buffer = f.bytes ++ d.next.2.buffer := by
  have h := d.next_cases
  generalize d.next = r at h
  cases h with
  | waiting short => exact .inl ⟨rfl, rfl⟩
  | stuck f rest compressed head => exact .inl ⟨rfl, rfl⟩
  | taken f rest plain head => exact .inr ⟨f, plain, rfl, head⟩

/-- The frames are those that some uses take off a decoder. -/
structure Takes (d : Decoder) (uses : List Use) (frames : List RawFrame) : Prop where
  plain : ∀ f ∈ frames, f.isCompressed = false
  bytes : d.buffer ++ pushed uses = frames.flatMap RawFrame.bytes ++ (d.after uses).buffer
  answers : (d.answers uses).filter tells = frames.map RawFrame.answer

theorem Takes.push {d : Decoder} {chunk : Bytes} {uses : List Use} {frames : List RawFrame}
    (h : (d.push chunk).Takes uses frames) : d.Takes (.push chunk :: uses) frames where
  plain := h.plain
  bytes := by
    have conserved : d.buffer ++ chunk ++ pushed uses = _ := h.bytes
    rw [List.append_assoc] at conserved
    exact conserved
  answers := h.answers

theorem Takes.idle {d : Decoder} {uses : List Use} {frames : List RawFrame}
    (quiet : tells d.next.1 = false) (same : d.next.2 = d) (h : d.Takes uses frames) :
    d.Takes (.next :: uses) frames where
  plain := h.plain
  bytes := by
    -- What is not about a frame changes nothing, so it may be left out.
    have stays : d.after (.next :: uses) = d.after uses := congrArg (after · uses) same
    rw [stays]
    exact h.bytes
  answers := by
    rw [Decoder.answers, same, List.filter_cons_of_neg (by simp [quiet])]
    exact h.answers

theorem Takes.next {d : Decoder} {uses : List Use} {frames : List RawFrame} {f : RawFrame}
    (plain : f.isCompressed = false) (answered : d.next.1 = f.answer)
    (head : d.buffer = f.bytes ++ d.next.2.buffer) (h : d.next.2.Takes uses frames) :
    d.Takes (.next :: uses) (f :: frames) where
  plain := List.forall_mem_cons.2 ⟨plain, h.plain⟩
  bytes := by
    have conserved : d.next.2.buffer ++ pushed uses = _ := h.bytes
    rw [head, List.flatMap_cons, List.append_assoc, List.append_assoc]
    exact congrArg (f.bytes ++ ·) conserved
  answers := by
    have told : tells d.next.1 = true := answered ▸ tells_answer f
    rw [Decoder.answers, List.filter_cons_of_pos told, h.answers, answered, List.map_cons]

theorem exists_takes (d : Decoder) (uses : List Use) : ∃ frames, d.Takes uses frames := by
  induction uses generalizing d with
  | nil => exact ⟨[], ⟨by simp, List.append_nil _, rfl⟩⟩
  | cons u uses ih =>
    cases u with
    | push chunk =>
      obtain ⟨frames, h⟩ := ih (d.push chunk)
      exact ⟨frames, h.push⟩
    | next =>
      -- Only a frame that is taken off is added.
      obtain ⟨quiet, same⟩ | ⟨f, plain, answered, head⟩ := d.next_cases_tells
      · obtain ⟨frames, h⟩ := ih d
        exact ⟨frames, h.idle quiet same⟩
      · obtain ⟨frames, h⟩ := ih d.next.2
        exact ⟨f :: frames, h.next plain answered head⟩

section Drained
variable {d d' : Decoder}

theorem IsDrained.compressed (h : d.IsDrained) {f : RawFrame} {rest : Bytes}
    (head : d.buffer = f.bytes ++ rest) : f.isCompressed = true := by
  have hc := d.next_cases
  unfold IsDrained at h
  generalize d.next = r at hc h
  cases hc with
  | waiting short => exact absurd head (short _ _ _ f.fits)
  | stuck g rest' compressed head' =>
    obtain ⟨rfl, -⟩ := RawFrame.bytes_append_inj (head.symm.trans head')
    exact compressed
  | taken g =>
    rw [tells_answer g] at h
    cases h

/-- There is one way only to take frames off bytes until no more can be. -/
theorem IsDrained.unique (h : d.IsDrained) (h' : d'.IsDrained) {frames frames' : List RawFrame}
    (plain : ∀ f ∈ frames, f.isCompressed = false) (plain' : ∀ f ∈ frames', f.isCompressed = false)
    (same : frames.flatMap RawFrame.bytes ++ d.buffer =
      frames'.flatMap RawFrame.bytes ++ d'.buffer) : frames = frames' ∧ d.buffer = d'.buffer := by
  -- If one list ends first, the other would take off a frame that is to stay.
  induction frames generalizing frames' with
  | nil =>
    cases frames' with
    | nil => exact ⟨rfl, same⟩
    | cons g gs =>
      rw [List.flatMap_cons, List.append_assoc] at same
      have compressed := h.compressed same
      rw [plain' g (List.mem_cons_self ..)] at compressed
      cases compressed
  | cons f fs ih =>
    rw [List.flatMap_cons, List.append_assoc] at same
    cases frames' with
    | nil =>
      have compressed := h'.compressed same.symm
      rw [plain f (List.mem_cons_self ..)] at compressed
      cases compressed
    | cons g gs =>
      rw [List.flatMap_cons, List.append_assoc] at same
      obtain ⟨rfl, rest⟩ := RawFrame.bytes_append_inj same
      obtain ⟨rfl, buffers⟩ := ih (List.forall_mem_cons.1 plain).2 (List.forall_mem_cons.1 plain').2 rest
      exact ⟨rfl, buffers⟩

theorem IsDrained.after_next (h : d.IsDrained) (n : Nat) :
    d.after (List.replicate n .next) = d := by
  have same : d.next.2 = d := by
    obtain ⟨-, same⟩ | ⟨f, -, answered, -⟩ := d.next_cases_tells
    · exact same
    · unfold IsDrained at h
      rw [answered, tells_answer f] at h
      cases h
  induction n with
  | zero => rfl
  | succ n ih => exact (congrArg (after · (List.replicate n .next)) same).trans ih

/-- As many calls for a frame as there are bytes drain a decoder. -/
theorem drained_after (n : Nat) (d : Decoder) (h : d.buffer.length ≤ n) :
    (d.after (List.replicate n .next)).IsDrained := by
  induction n generalizing d with
  | zero =>
    obtain ⟨quiet, -⟩ | ⟨f, -, -, head⟩ := d.next_cases_tells
    · exact quiet
    · have size := congrArg List.length head
      rw [List.length_append, RawFrame.bytes, Frame.length_write] at size
      omega
  | succ n ih =>
    obtain ⟨quiet, -⟩ | ⟨f, -, -, head⟩ := d.next_cases_tells
    -- Once drained it stays so, however often it is asked.
    · have drained : d.IsDrained := quiet
      rw [drained.after_next]
      exact drained
    -- A frame has five bytes at least, so fewer are left.
    · have size := congrArg List.length head
      rw [List.length_append, RawFrame.bytes, Frame.length_write] at size
      exact ih d.next.2 (by omega)

end Drained

/-- A compressed frame at the head is refused whenever a frame is asked for, and everything is kept. -/
theorem stuck (f : RawFrame) (compressed : f.isCompressed = true) (rest : Bytes) (uses : List Use) :
    (∀ a ∈ answers ⟨f.bytes ++ rest⟩ uses, a = .error .compressedFrame) ∧
      after ⟨f.bytes ++ rest⟩ uses = ⟨f.bytes ++ rest ++ pushed uses⟩ := by
  induction uses generalizing rest with
  | nil => simp [answers, after, pushed]
  | cons u uses ih =>
    cases u with
    | push chunk =>
      -- What is pushed goes behind the frame that holds everything up.
      have pushes : push ⟨f.bytes ++ rest⟩ chunk = ⟨f.bytes ++ (rest ++ chunk)⟩ := by
        rw [push, List.append_assoc]
      obtain ⟨refused, kept⟩ := ih (rest ++ chunk)
      rw [answers, pushes]
      refine ⟨refused, ?_⟩
      change after (push ⟨f.bytes ++ rest⟩ chunk) uses = _
      rw [pushes, kept]
      simp [pushed, Use.bytes]
    | next =>
      have refuses := next_compressed f compressed rest
      obtain ⟨refused, kept⟩ := ih rest
      rw [answers, refuses]
      refine ⟨List.forall_mem_cons.2 ⟨rfl, refused⟩, ?_⟩
      change after (next ⟨f.bytes ++ rest⟩).2 uses = _
      rw [refuses]
      exact kept

theorem short_of_next {d : Decoder} (h : d.next.1 = .ok none) : Frame.IsShort d.buffer := by
  have hc := d.next_cases
  generalize d.next = r at h hc
  cases hc with
  | waiting short => exact short
  | stuck => cases h
  | taken f =>
    have answered : f.answer = .ok none := h
    have told := tells_answer f
    rw [answered] at told
    cases told

theorem next_data {d d' : Decoder} {payload : Bytes} (h : d.next = (.ok (some (.data payload)), d')) :
    ∃ header : Bytes, header.length = 5 ∧ payload.length = Frame.lengthField d.buffer ∧
      d.buffer = header ++ payload ++ d'.buffer := by
  have hc := d.next_cases
  rw [h] at hc
  generalize hr : ((.ok (some (.data payload)), d') : Answer × Decoder) = r at hc
  cases hc with
  | waiting => cases hr
  | stuck => cases hr
  | taken f rest plain head =>
    obtain ⟨answered, rfl⟩ := Prod.mk.inj hr
    -- The frame is not one of trailers, so its payload is handed on as it is.
    have data : payload = f.payload := by
      unfold RawFrame.answer at answered
      split at answered
      · cases hp : Trailers.parse f.payload <;> rw [hp] at answered <;> cases answered
      · cases answered
        rfl
    subst data
    refine ⟨f.flags :: Bytes.ofLength f.payload.length, rfl, ?_, head⟩
    rw [head]
    exact (Frame.lengthField_write f.flags f.payload rest f.fits).symm

/-- What some uses of a new decoder come to: the bytes pushed are the frames taken off and the bytes
held, and these frames are what the answers tell of. -/
structure Conserves (uses : List Use) (frames : List RawFrame) : Prop extends
    Takes {} uses frames where
  empty : (after {} uses).isEmpty = true ↔ pushed uses = frames.flatMap RawFrame.bytes

theorem exists_conserves (uses : List Use) : ∃ frames, Conserves uses frames := by
  obtain ⟨frames, h⟩ := exists_takes {} uses
  refine ⟨frames, h, ?_⟩
  have bytes : pushed uses = _ := h.bytes
  rw [bytes, List.append_right_eq_self, Decoder.isEmpty, List.isEmpty_iff]

/-- Whatever chunks are pushed and whenever frames are asked for, a decoder neither loses nor invents
bytes, and answers each frame it takes off once. It waits exactly while bytes are missing; a compressed
frame holds it up for good, and malformed trailers do not. Drained, which takes no more calls than it
holds bytes, it has answered, and holds, what the bytes pushed alone determine. -/
theorem uses_conserve :
    (∀ uses, ∃ frames, Conserves uses frames) ∧
    (∀ d : Decoder, d.next = (.ok none, d) ↔
      d.buffer.length < 5 ∨ d.buffer.length < 5 + Frame.lengthField d.buffer) ∧
    (∀ d : Decoder, d.next.1 = .ok none → d.next.2 = d) ∧
    (∀ (d d' : Decoder) (payload : Bytes), d.next = (.ok (some (.data payload)), d') →
      ∃ header : Bytes, header.length = 5 ∧ payload.length = Frame.lengthField d.buffer ∧
        d.buffer = header ++ payload ++ d'.buffer) ∧
    (∀ f : RawFrame, f.isCompressed = true → ∀ rest uses,
      (∀ a ∈ answers ⟨f.bytes ++ rest⟩ uses, a = .error .compressedFrame) ∧
        after ⟨f.bytes ++ rest⟩ uses = ⟨f.bytes ++ rest ++ pushed uses⟩) ∧
    (∀ (f : RawFrame) (e : ProtocolError), f.isCompressed = false → Frame.isTrailer f.flags = true →
      Trailers.parse f.payload = .error e → ∀ rest uses,
        answers ⟨f.bytes ++ rest⟩ (.next :: uses) = .error e :: answers ⟨rest⟩ uses) ∧
    (∀ uses uses', pushed uses = pushed uses' →
      (after {} uses).IsDrained → (after {} uses').IsDrained →
      (answers {} uses).filter tells = (answers {} uses').filter tells ∧
        after {} uses = after {} uses') ∧
    ∀ d : Decoder, (d.after (List.replicate d.buffer.length .next)).IsDrained := by
  refine ⟨exists_conserves, ?_, ?_, fun d d' payload => next_data, fun f => stuck f, ?_, ?_,
    fun d => drained_after _ d (Nat.le_refl _)⟩
  · intro d
    rw [← Frame.isShort_iff]
    exact ⟨fun h => short_of_next (congrArg Prod.fst h), next_short⟩
  · intro d h
    rw [next_short (short_of_next h)]
  · intro f e plain trailer malformed rest uses
    have refused : f.answer = .error e := by
      rw [RawFrame.answer, if_pos trailer, malformed]
      rfl
    rw [answers, next_plain f plain, refused]
  · intro uses uses' same drained drained'
    obtain ⟨frames, h⟩ := exists_takes {} uses
    obtain ⟨frames', h'⟩ := exists_takes {} uses'
    have bytes : pushed uses = _ := h.bytes
    have bytes' : pushed uses' = _ := h'.bytes
    obtain ⟨rfl, held⟩ :=
      drained.unique drained' h.plain h'.plain (bytes.symm.trans (same.trans bytes'))
    -- The frames are the same, and so are the answers that tell of them.
    exact ⟨h.answers.trans h'.answers.symm, congrArg Decoder.mk held⟩

/-- A frame in two chunks, trailers without a colon, and a compressed frame that holds up the last. -/
example :
    let bytes := Frame.write 0 [7] ++ Frame.write Frame.trailerFlag [0x61] ++ Frame.write 0 [8] ++
      Frame.write 1 [] ++ Frame.write 0 [9]
    answers {} [.push (bytes.take 3), .next, .push (bytes.drop 3), .next, .next, .next, .next] =
      [.ok none, .ok (some (.data [7])), .error (.trailerWithoutColon "a"),
        .ok (some (.data [8])), .error .compressedFrame] := by cbv

end Decoder
end MiningClient
