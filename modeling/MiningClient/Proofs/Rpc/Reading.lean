import MiningClient.Rpc.Channel

namespace MiningClient

namespace Bytes

theorem toLength_lt (a b c d : UInt8) : toLength a b c d < UInt32.size := by
  have := a.toNat_lt
  have := b.toNat_lt
  have := c.toNat_lt
  have := d.toNat_lt
  simp only [toLength, UInt32.size]
  omega

theorem ofLength_toLength (a b c d : UInt8) : ofLength (toLength a b c d) = [a, b, c, d] := by
  have := a.toNat_lt
  have := b.toNat_lt
  have := c.toNat_lt
  have := d.toNat_lt
  -- Each of the four bytes is the remainder of a quotient.
  have hbyte : ∀ (n : Nat) (x : UInt8), n % 256 = x.toNat → UInt8.ofNat n = x := by
    intro n x h
    apply UInt8.toNat_inj.mp
    rw [UInt8.toNat_ofNat']
    exact h
  simp only [ofLength, toLength, List.cons.injEq, and_true]
  refine ⟨hbyte _ _ ?_, hbyte _ _ ?_, hbyte _ _ ?_, hbyte _ _ ?_⟩ <;> omega

end Bytes

namespace Frame

/-- Bytes that begin with no complete frame. -/
def IsShort (bs : Bytes) : Prop :=
  ∀ flags payload rest, payload.length < UInt32.size → bs ≠ write flags payload ++ rest

theorem eq_write_of_cut {bs payload rest : Bytes} {flags : UInt8}
    (h : cut bs = some (flags, payload, rest)) :
    payload.length < UInt32.size ∧ bs = write flags payload ++ rest := by
  unfold cut at h
  split at h
  · rename_i flags' a b c d tail
    simp only at h
    split at h
    · cases h
    · cases h
      -- There were enough bytes, so as many were taken as the header announces.
      have hlen : (tail.take (Bytes.toLength a b c d)).length = Bytes.toLength a b c d := by
        rw [List.length_take]
        omega
      constructor
      · rw [hlen]
        exact Bytes.toLength_lt a b c d
      · rw [write, hlen, Bytes.ofLength_toLength]
        simp
  · cases h

theorem cut_eq_none_iff {bs : Bytes} : cut bs = none ↔ IsShort bs := by
  constructor
  · rintro h flags payload rest hfits rfl
    rw [cut_write flags payload rest hfits] at h
    cases h
  · intro h
    cases hc : cut bs with
    | none => rfl
    | some x =>
      obtain ⟨hfits, hbs⟩ := eq_write_of_cut hc
      exact absurd hbs (h _ _ _ hfits)

theorem write_append_inj {flags flags' : UInt8} {payload payload' rest rest' : Bytes}
    (hfits : payload.length < UInt32.size) (hfits' : payload'.length < UInt32.size)
    (h : write flags payload ++ rest = write flags' payload' ++ rest') :
    flags = flags' ∧ payload = payload' ∧ rest = rest' := by
  have hc := cut_write flags payload rest hfits
  rw [h, cut_write flags' payload' rest' hfits'] at hc
  cases hc
  exact ⟨rfl, rfl, rfl⟩

/-- Bytes are short, or a frame with fewer bytes after it. -/
theorem induction {P : Bytes → Prop} (short : ∀ bs, IsShort bs → P bs)
    (frame : ∀ flags payload rest, payload.length < UInt32.size → P rest →
      P (write flags payload ++ rest)) (bs : Bytes) : P bs := by
  induction hn : bs.length using Nat.strongRecOn generalizing bs with
  | ind n ih =>
    subst hn
    cases hc : cut bs with
    | none => exact short bs (cut_eq_none_iff.mp hc)
    | some x =>
      obtain ⟨flags, payload, rest⟩ := x
      obtain ⟨hfits, hbs⟩ := eq_write_of_cut hc
      -- What is left after a frame is shorter than the bytes it was cut off.
      have hrest := ih rest.length (cut_length hc) rest rfl
      rw [hbs]
      exact frame flags payload rest hfits hrest

end Frame

namespace Body
variable {β : Type}

def bytes : Body → Bytes
  | [] => []
  | .ok chunk :: rest => chunk ++ bytes rest
  | .error _ :: _ => []

def fault? : Body → Option Error
  | [] => none
  | .ok _ :: rest => fault? rest
  | .error e :: _ => some e

/-- What a frame yields that ends the body: an error for a compressed one, and for trailers the error
that they are or carry, if any. A frame that holds a message does not end the body. -/
def last? (flags : UInt8) (payload : Bytes) : Option (List (Except Error β)) :=
  if Frame.isCompressed flags then some [.error (.protocol .compressedFrame)]
  else if Frame.isTrailer flags then
    match Trailers.parse payload with
    | .error e => some [.error (.protocol e)]
    | .ok m => some ((Status.error? m).toList.map .error)
  else none

def remainder (fault : Option Error) (part : Bytes) : List (Except Error β) :=
  match fault with
  | some e => [.error e]
  | none => if part = [] then [] else [.error (.protocol .endedMidFrame)]

theorem remainder_none (part : Bytes) :
    remainder (β := β) none part =
      if Decoder.isEmpty ⟨part⟩ then [] else [.error (.protocol .endedMidFrame)] := by
  cases part <;> rfl

variable [Wire.Message β]

/-- What bytes yield that are read frame by frame, when the body that they come in breaks off with
`fault` or ends. -/
inductive Reads (fault : Option Error) : Bytes → List (Except Error β) → Prop
  | data (flags : UInt8) (payload rest : Bytes) (items : List (Except Error β))
    (fits : payload.length < UInt32.size) (goes : last? (β := β) flags payload = none)
    (more : Reads fault rest items) :
    Reads fault (Frame.write flags payload ++ rest)
      ((Wire.decode payload).mapError .decode :: items)
  | last (flags : UInt8) (payload rest : Bytes) (items : List (Except Error β))
    (fits : payload.length < UInt32.size) (ends : last? flags payload = some items) :
    Reads fault (Frame.write flags payload ++ rest) items
  | short (part : Bytes) (short : Frame.IsShort part) : Reads fault part (remainder fault part)

theorem Reads.unique {fault : Option Error} {bs : Bytes} {items items' : List (Except Error β)}
    (h : Reads fault bs items) (h' : Reads fault bs items') : items = items' := by
  -- The first frame is the same in both readings, and so is whether it ends the body.
  induction h generalizing items' with
  | data flags payload rest items fits goes more ih =>
    generalize hbs : Frame.write flags payload ++ rest = bs at h'
    cases h' with
    | data _ _ _ _ fits' _ more' =>
      obtain ⟨-, rfl, rfl⟩ := Frame.write_append_inj fits fits' hbs
      rw [ih more']
    | last _ _ _ _ fits' ends =>
      obtain ⟨rfl, rfl, -⟩ := Frame.write_append_inj fits fits' hbs
      rw [goes] at ends
      cases ends
    | short _ short => exact absurd hbs.symm (short _ _ _ fits)
  | last flags payload rest items fits ends =>
    generalize hbs : Frame.write flags payload ++ rest = bs at h'
    cases h' with
    | data _ _ _ _ fits' goes =>
      obtain ⟨rfl, rfl, -⟩ := Frame.write_append_inj fits fits' hbs
      rw [goes] at ends
      cases ends
    | last _ _ _ _ fits' ends' =>
      obtain ⟨rfl, rfl, -⟩ := Frame.write_append_inj fits fits' hbs
      rw [ends] at ends'
      cases ends'
      rfl
    | short _ short => exact absurd hbs.symm (short _ _ _ fits)
  | short part short =>
    cases h' with
    | data _ _ _ _ fits => exact absurd rfl (short _ _ _ fits)
    | last _ _ _ _ fits => exact absurd rfl (short _ _ _ fits)
    | short => rfl

section Ready
variable {d d' : Decoder}

theorem ready_none (h : d.next = (.ok none, d')) : ready (β := β) d = ([], some d') := by
  rw [ready]
  split <;> rename_i he <;> rw [h] at he <;> cases he
  rfl

theorem ready_error {e : ProtocolError} (h : d.next = (.error e, d')) :
    ready (β := β) d = ([.error (.protocol e)], none) := by
  rw [ready]
  split <;> rename_i he <;> rw [h] at he <;> cases he
  rfl

theorem ready_trailers {m : Metadata} (h : d.next = (.ok (some (.trailers m)), d')) :
    ready (β := β) d = ((Status.error? m).toList.map .error, none) := by
  rw [ready]
  split <;> rename_i he <;> rw [h] at he <;> cases he
  rfl

theorem ready_data {payload : Bytes} (h : d.next = (.ok (some (.data payload)), d')) :
    ready (β := β) d = (item payload :: (ready d').1, (ready (β := β) d').2) := by
  rw [ready]
  split <;> rename_i he <;> rw [h] at he <;> cases he
  rfl

end Ready

section Write
variable {flags : UInt8} {payload rest : Bytes}

theorem next_write (flags : UInt8) (rest : Bytes) (fits : payload.length < UInt32.size) :
    Decoder.next ⟨Frame.write flags payload ++ rest⟩ =
      if Frame.isCompressed flags then
        (.error .compressedFrame, ⟨Frame.write flags payload ++ rest⟩)
      else if Frame.isTrailer flags then
        ((Trailers.parse payload).map fun m => some (.trailers m), ⟨rest⟩)
      else (.ok (some (.data payload)), ⟨rest⟩) := by
  rw [Decoder.next, Frame.cut_write _ _ _ fits]

theorem ready_short {bs : Bytes} (h : Frame.IsShort bs) : ready (β := β) ⟨bs⟩ = ([], some ⟨bs⟩) := by
  apply ready_none
  rw [Decoder.next, Frame.cut_eq_none_iff.mpr h]

/-- A frame that ends the body is the last that is read. -/
theorem ready_last (fits : payload.length < UInt32.size) {items : List (Except Error β)}
    (ends : last? flags payload = some items) :
    ready ⟨Frame.write flags payload ++ rest⟩ = (items, none) := by
  have hn := next_write flags rest fits
  unfold last? at ends
  split at ends
  · rename_i hc
    cases ends
    rw [if_pos hc] at hn
    exact ready_error hn
  · rename_i hc
    rw [if_neg hc] at hn
    split at ends
    · rename_i ht
      rw [if_pos ht] at hn
      split at ends
      · rename_i e hp
        cases ends
        rw [hp] at hn
        exact ready_error hn
      · rename_i m hp
        cases ends
        rw [hp] at hn
        exact ready_trailers hn
    · cases ends

theorem ready_goes (fits : payload.length < UInt32.size)
    (goes : last? (β := β) flags payload = none) :
    ready (β := β) ⟨Frame.write flags payload ++ rest⟩ =
      (item payload :: (ready ⟨rest⟩).1, (ready (β := β) ⟨rest⟩).2) := by
  have hn := next_write flags rest fits
  apply ready_data
  unfold last? at goes
  split at goes
  · cases goes
  · rename_i hc
    rw [if_neg hc] at hn
    split at goes
    · split at goes <;> cases goes
    · rename_i ht
      rw [if_neg ht] at hn
      exact hn

end Write

/-- What the frames in a buffer yield, whatever comes after them. -/
inductive Readied (bs : Bytes) : List (Except Error β) × Option Decoder → Prop
  | ended (items : List (Except Error β)) (reads : ∀ fault more, Reads fault (bs ++ more) items) :
    Readied bs (items, none)
  | going (items : List (Except Error β)) (part : Bytes) (short : Frame.IsShort part)
    (reads : ∀ fault more later, Reads fault (part ++ more) later →
      Reads fault (bs ++ more) (items ++ later)) :
    Readied bs (items, some ⟨part⟩)

theorem readied (bs : Bytes) : Readied bs (ready (β := β) ⟨bs⟩) := by
  induction bs using Frame.induction with
  | short bs short =>
    rw [ready_short short]
    exact .going [] bs short fun _ _ _ h => h
  | frame flags payload rest fits ih =>
    cases hl : last? (β := β) flags payload with
    | some items =>
      rw [ready_last fits hl]
      refine .ended items fun fault more => ?_
      -- What comes later is behind the frame, so it does not change how it is read.
      rw [List.append_assoc]
      exact .last flags payload _ items fits hl
    | none =>
      rw [ready_goes fits hl]
      generalize ready (β := β) ⟨rest⟩ = r at ih
      cases ih with
      | ended items reads =>
        refine .ended _ fun fault more => ?_
        rw [List.append_assoc]
        exact .data flags payload _ items fits hl (reads fault more)
      | going items part short reads =>
        refine .going _ part short fun fault more later h => ?_
        rw [List.append_assoc]
        exact .data flags payload _ _ fits hl (reads fault more later h)

/-- Whatever the decoder holds already comes before the bytes of the body. -/
theorem itemsFrom_reads (bs : Bytes) (body : Body) :
    Reads body.fault? (bs ++ body.bytes) (itemsFrom (β := β) ⟨bs⟩ body) := by
  have h := readied (β := β) bs
  -- Each chunk goes behind the bytes that were held over, and the frames are read anew.
  induction body generalizing bs with
  | nil =>
    rw [itemsFrom]
    generalize ready (β := β) ⟨bs⟩ = r at h
    cases h with
    | ended items reads => exact reads _ _
    | going items part short reads =>
      apply reads
      rw [← remainder_none, bytes, List.append_nil]
      exact .short part short
  | cons x body ih =>
    rw [itemsFrom]
    generalize ready (β := β) ⟨bs⟩ = r at h
    cases h with
    | ended items reads => exact reads _ _
    | going items part short reads =>
      apply reads
      cases x with
      | error e =>
        rw [bytes, List.append_nil]
        exact .short part short
      | ok chunk =>
        have hrest := ih (part ++ chunk) (readied (part ++ chunk))
        rw [List.append_assoc] at hrest
        exact hrest

theorem items_reads (body : Body) : Reads body.fault? body.bytes (items (β := β) body) :=
  itemsFrom_reads [] body

end Body

/-- What a body yields, and so what a streaming call yields on a response that is accepted, is what its
bytes say that come before its end or before it breaks off. It is the same in whatever chunks they
come. -/
theorem streaming_reads {α β : Type} [Wire.Message α] [Wire.Message β] (ch : Channel)
    (method : String) (m : α) :
    (∀ (body : Body) (items : List (Except Error β)),
      body.items = items ↔ Body.Reads body.fault? body.bytes items) ∧
    (∀ body body' : Body, body.bytes = body'.bytes → body.fault? = body'.fault? →
      body.items (β := β) = body'.items) ∧
    ∀ request finish, ch.streaming β method m = .sent request finish →
      ∀ r : Response, r.accept = .ok r →
        ∃ items, finish (.ok r) = .ok items ∧ Body.Reads r.body.fault? r.body.bytes items := by
  -- There is one reading of the bytes, and the items are one.
  have hiff : ∀ (body : Body) (items : List (Except Error β)),
      body.items = items ↔ Body.Reads body.fault? body.bytes items := by
    intro body items
    constructor
    · rintro rfl
      exact body.items_reads
    · exact body.items_reads.unique
  refine ⟨hiff, ?_, ?_⟩
  · intro body body' hbytes hfault
    rw [hiff, hbytes, hfault]
    exact body'.items_reads
  · intro request finish hcall r hr
    unfold Channel.streaming at hcall
    split at hcall
    · cases hcall
    · cases hcall
      refine ⟨r.body.items, ?_, r.body.items_reads⟩
      change (Response.accept r).map _ = _
      rw [hr]
      rfl

end MiningClient
