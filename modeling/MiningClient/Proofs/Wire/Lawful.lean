import MiningClient.Proofs.Wire.Records
import MiningClient.Wire.Message

namespace MiningClient
namespace Wire

theorem length_writeDelimited (number : Nat) (payload : Bytes) :
    payload.length < (writeDelimited number payload).length := by
  have := Varint.write_pos payload.length
  simp only [writeDelimited, List.length_append]
  omega

section
variable {α : Type} [Message α]

/-- Records at the head of the bytes, read into a message. -/
inductive Merges (depth : Nat) : α → Bytes → α → Bytes → Prop
  | none (m : α) (bs : Bytes) : Merges depth m bs m bs
  | record {m m' m'' : α} {bs bs' bs'' : Bytes} (read : mergeRecord depth m bs = .ok (m', bs'))
    (shrinks : bs'.length < bs.length) (more : Merges depth m' bs' m'' bs'') :
    Merges depth m bs m'' bs''

variable {depth : Nat} {m m' m'' : α} {bs bs' bs'' : Bytes}

theorem Merges.length_le (h : Merges depth m bs m' bs') : bs'.length ≤ bs.length := by
  induction h with
  | none => exact Nat.le_refl _
  | record _ shrinks _ ih => omega

theorem Merges.trans (h : Merges depth m bs m' bs') (h' : Merges depth m' bs' m'' bs'') :
    Merges depth m bs m'' bs'' := by
  induction h with
  | none => exact h'
  | record read shrinks _ ih => exact .record read shrinks (ih h')

/-- Reading stops behind the records when what is left then is what is to be left. -/
theorem Merges.mergeUntil (h : Merges depth m bs m' bs') {fuel : Nat} (enough : bs.length ≤ fuel) :
    mergeUntil depth bs'.length fuel m bs = .ok (m', bs') := by
  induction h generalizing fuel with
  | none m bs =>
    cases fuel with
    | zero => rfl
    | succ fuel => rw [Wire.mergeUntil, if_pos (Nat.le_refl _)]
  | record read shrinks more ih =>
    -- More than what is to be left is there, so reading goes on.
    have left := more.length_le
    cases fuel with
    | zero => omega
    | succ fuel =>
      rw [Wire.mergeUntil, if_neg (by omega), read]
      exact ih (by omega)

end

namespace Field
variable {α : Type}

/-- Setting `f` does not change `g`. -/
def Spares (f g : Field α) : Prop := ∀ v m, g.get (f.set v m) = g.get m

/-- `f` comes before `g`, and each is set by itself. -/
structure Before (f g : Field α) : Prop where
  number : f.number < g.number
  spares : f.Spares g
  spared : g.Spares f

theorem Before.of {β γ : Type} {number number' : Nat} {name name' : String} {codec : Codec β}
    {codec' : Codec γ} {get : α → β} {get' : α → γ} {set : β → α → α} {set' : γ → α → α}
    (number_lt : number < number') (spares : ∀ v m, get' (set v m) = get' m)
    (spared : ∀ v m, get (set' v m) = get m) :
    Before ⟨number, name, codec, get, set⟩ ⟨number', name', codec', get', set'⟩ :=
  ⟨number_lt, spares, spared⟩

variable [Message α]

/-- A field with a number that a key can hold, which has the value that it is set to and begins with
the one that its records are read into. What it writes for a message is read as its value in `plain`
of the message. -/
structure Lawful (f : Field α) (plain : α → α) (height : Nat) : Prop where
  number_pos : 0 < f.number
  number_lt : f.number < 0x20000000
  get_set : ∀ v m, f.get (f.set v m) = v
  get_empty : f.get Message.empty = f.codec.initial
  codec : ∃ p, f.codec.Lawful p height ∧ ∀ m, f.get (plain m) = p (f.get m)

theorem Lawful.of {β : Type} {number : Nat} {name : String} {codec : Codec β} {get : α → β}
    {set : β → α → α} {plain : α → α} {p : β → β} {height : Nat} [law : codec.Lawful p height]
    (number_pos : 0 < number) (number_lt : number < 0x20000000)
    (get_set : ∀ v m, get (set v m) = v) (get_empty : get Message.empty = codec.initial)
    (get_plain : ∀ m, get (plain m) = p (get m)) :
    Lawful ⟨number, name, codec, get, set⟩ plain height :=
  ⟨number_pos, number_lt, get_set, get_empty, p, law, get_plain⟩

end Field

/-- The value as it is read back: every zero in it is positive. -/
class Plain (α : Type) where
  plain : α → α := id

export Plain (plain)

/-- A type of messages that are read back. Messages nest `height` deep in it. -/
class LawfulMessage (α : Type) [Message α] [Plain α] (height : outParam Nat) : Prop where
  fields_before : (Message.fields (α := α)).Pairwise Field.Before := by
    simp [Message.fields, Field.Before.of]
  field : ∀ f ∈ Message.fields (α := α), f.Lawful plain height := by
    simp only [Message.fields, List.forall_mem_cons, List.not_mem_nil, false_imp_iff, implies_true,
      and_true]
    repeat' apply And.intro
    all_goals exact .of (by decide) (by decide) (fun _ _ => rfl) rfl (fun _ => by simp [Plain.plain])
  ext : ∀ m m' : α, (∀ f ∈ Message.fields (α := α), f.get m = f.get m') → m = m' := by
    rintro ⟨⟩ ⟨⟩
    simp +contextual [Message.fields]

section
variable {α : Type} [Message α] [Plain α] {height : Nat} [lawful : LawfulMessage α height]
include lawful

theorem find_field {f : Field α} (hf : f ∈ Message.fields (α := α)) :
    (Message.fields (α := α)).find? (·.number == f.number) = some f := by
  have before := lawful.fields_before
  obtain ⟨earlier, later, split⟩ := List.append_of_mem hf
  rw [split] at before ⊢
  refine List.find?_eq_some_iff_append.2 ⟨beq_self_eq_true _, earlier, later, rfl, fun g hg => ?_⟩
  -- The fields stand in the order of their numbers, so no earlier one has this number.
  have hlt := ((List.pairwise_append.1 before).2.2 g hg f (List.mem_cons_self ..)).number
  simp only [Bool.not_eq_true', beq_eq_false_iff_ne]
  omega

/-- Records of one field are read into the message, and no other field is changed by them. -/
theorem merges_of_takes {f : Field α} (hf : f ∈ Message.fields (α := α)) {depth : Nat}
    {v v' : f.β} {bs bs' : Bytes} (h : f.codec.Takes f.number depth v bs v' bs') (m : α)
    (hm : f.get m = v) :
    ∃ m', Merges depth m bs m' bs' ∧ f.get m' = v' ∧
      ∀ g : Field α, f.Spares g → g.get m' = g.get m := by
  have law := lawful.field f hf
  induction h generalizing m with
  | none v bs => exact ⟨m, .none m bs, hm, fun _ _ => rfl⟩
  | @record wireType v v' v'' bs bs' bs'' merged shrinks more ih =>
    obtain ⟨m', merges, got, others⟩ := ih (f.set v' m) (law.get_set v' m)
    refine ⟨m', .record ?_ ?_ merges, got, fun g hg => (others g hg).trans (hg v' m)⟩
    -- The key is read off first, and it leads to the field.
    · have key := Key.read_write ⟨f.number, wireType⟩ bs law.number_pos law.number_lt
      rw [mergeRecord, key]
      simp only [find_field hf]
      rw [hm, merged]
    · have := Key.write_pos ⟨f.number, wireType⟩
      rw [List.length_append]
      omega

/-- Fields are read one after another, each from what the message has in it so far. -/
theorem merges_fields {depth : Nat} (x y : α) (rest : Bytes) {fs : List (Field α)}
    (known : ∀ f ∈ fs, f ∈ Message.fields (α := α)) (before : fs.Pairwise Field.Before) (m : α)
    (takes : ∀ f ∈ fs, ∀ rest, f.codec.Takes f.number depth (f.get m)
      (f.codec.write f.number (f.get x) ++ rest) (f.get y) rest) :
    ∃ m', Merges depth m ((fs.flatMap fun f => f.codec.write f.number (f.get x)) ++ rest) m' rest ∧
      (∀ f ∈ fs, f.get m' = f.get y) ∧
      ∀ g : Field α, (∀ f ∈ fs, f.Spares g) → g.get m' = g.get m := by
  induction fs generalizing m with
  | nil => exact ⟨m, .none m rest, by simp, fun _ _ => rfl⟩
  | cons f fs ih =>
    rw [List.forall_mem_cons] at known takes
    rw [List.pairwise_cons] at before
    -- First the records of `f`, then those of the fields behind it.
    obtain ⟨m₁, merges₁, got, others₁⟩ := merges_of_takes known.1
      (takes.1 ((fs.flatMap fun f => f.codec.write f.number (f.get x)) ++ rest)) m rfl
    obtain ⟨m₂, merges₂, gots, others₂⟩ := ih known.2 before.2 m₁ fun g hg => by
      rw [others₁ g (before.1 g hg).spares]
      exact takes.2 g hg
    refine ⟨m₂, ?_, ?_, ?_⟩
    · rw [List.flatMap_cons, List.append_assoc]
      exact merges₁.trans merges₂
    · rw [List.forall_mem_cons]
      refine ⟨?_, gots⟩
      -- The records of later fields do not change what `f` was read as.
      rw [others₂ f fun g hg => (before.1 g hg).spared, got]
    · intro g hg
      rw [List.forall_mem_cons] at hg
      rw [others₂ g hg.2, others₁ g hg.1]

theorem merges_of_fields {depth : Nat} (x y : α) (rest : Bytes) (m : α)
    (takes : ∀ f ∈ Message.fields (α := α), ∀ rest, f.codec.Takes f.number depth (f.get m)
      (f.codec.write f.number (f.get x) ++ rest) (f.get y) rest) :
    Merges depth m (encode x ++ rest) y rest := by
  obtain ⟨m', merges, got, -⟩ :=
    merges_fields x y rest (fun _ hf => hf) lawful.fields_before m takes
  rw [← lawful.ext m' y got]
  exact merges

omit [Plain α] lawful in
theorem length_write_le {f : Field α} (hf : f ∈ Message.fields (α := α)) (x : α) :
    (f.codec.write f.number (f.get x)).length ≤ (encode x).length := by
  obtain ⟨earlier, later, split⟩ := List.append_of_mem hf
  rw [encode, split, List.flatMap_append, List.flatMap_cons]
  simp only [List.length_append]
  omega

theorem merges_encode {depth : Nat} (deep : height ≤ depth) (x : α) (rest : Bytes)
    (fits : (encode x).length < UInt64.size) :
    Merges depth Message.empty (encode x ++ rest) (plain x) rest := by
  refine merges_of_fields x (plain x) rest Message.empty fun f hf rest => ?_
  have law := lawful.field f hf
  obtain ⟨p, codec, get_plain⟩ := law.codec
  rw [law.get_empty, get_plain]
  exact codec.takes f.number (f.get x) rest deep (Nat.lt_of_le_of_lt (length_write_le hf x) fits)

theorem encode_plain (x : α) : encode (plain x) = encode x := by
  rw [encode, encode, List.flatMap_def, List.flatMap_def]
  congr 1
  refine List.map_congr_left fun f hf => ?_
  obtain ⟨p, law, get_plain⟩ := (lawful.field f hf).codec
  rw [get_plain, law.write_plain]

theorem decode_encode (shallow : height ≤ maxDepth) (x : α)
    (fits : (encode x).length < UInt64.size) : decode (encode x) = .ok (plain x) := by
  have merges := merges_encode shallow x [] fits
  rw [List.append_nil] at merges
  rw [decode, show (0 : Nat) = ([] : Bytes).length from rfl, merges.mergeUntil (Nat.le_refl _)]
  rfl

end

section
variable {β : Type} [Message β] [Plain β] {height depth : Nat} [lawful : LawfulMessage β height]
include lawful

omit [Plain β] lawful in
/-- A message with its length in front is read up to its end, into whatever was there before. -/
theorem mergeNested_of_merges {m m' x : β} {rest : Bytes}
    (merges : Merges depth m (encode x ++ rest) m' rest)
    (fits : (encode x).length < UInt64.size) :
    mergeNested (depth + 1) .lengthDelimited m
      (Varint.write (encode x).length ++ encode x ++ rest) = .ok (m', rest) := by
  -- Reading is to stop where the message ends, which is where the rest begins.
  have limit : (encode x ++ rest).length - (encode x).length = rest.length := by simp
  simp only [mergeNested, expect_self, List.append_assoc, readVarint_write _ _ fits]
  rw [if_neg (by simp), limit, merges.mergeUntil (Nat.le_refl _)]
  simp

theorem mergeNested_write (deep : height ≤ depth) (x : β) (rest : Bytes)
    (fits : (encode x).length < UInt64.size) :
    mergeNested (depth + 1) .lengthDelimited Message.empty
      (Varint.write (encode x).length ++ encode x ++ rest) = .ok (plain x, rest) :=
  mergeNested_of_merges (merges_encode deep x rest fits) fits

namespace Codec

instance lawful_optional : (optional (β := β)).Lawful (Option.map plain) (height + 1) where
  takes {depth} number v rest deep fits := by
    cases v with
    | none => exact .none none rest
    | some x =>
      obtain ⟨depth, rfl⟩ := Nat.exists_eq_add_of_le' (Nat.le_of_add_left_le deep)
      change (writeDelimited number (encode x)).length < _ at fits
      have shorter := length_writeDelimited number (encode x)
      change Takes _ _ _ none (writeDelimited number (encode x) ++ rest) (some (plain x)) rest
      rw [writeDelimited, List.append_assoc, List.append_assoc]
      refine .record .lengthDelimited ?_ (by simp; omega) (.none _ rest)
      change (mergeNested _ _ Message.empty _).map _ = _
      -- The message is read into an empty one.
      rw [← List.append_assoc, mergeNested_write (by omega) x rest (by omega)]
      rfl
  write_plain number v := by
    cases v with
    | none => rfl
    | some x =>
      change writeDelimited number (encode (plain x)) = writeDelimited number (encode x)
      rw [encode_plain]

/-- Each message is read behind those that were read before it. -/
theorem takes_repeated {number depth : Nat} (deep : height ≤ depth) (xs : List β) (rest : Bytes)
    (fits : (repeated.write number xs).length < UInt64.size) (read : List β) :
    repeated.Takes number (depth + 1) read (repeated.write number xs ++ rest)
      (read ++ xs.map plain) rest := by
  induction xs generalizing read with
  | nil =>
    rw [List.map_nil, List.append_nil]
    exact .none read rest
  | cons x xs ih =>
    have split : repeated.write number (x :: xs) =
        writeDelimited number (encode x) ++ repeated.write number xs := rfl
    have shorter := length_writeDelimited number (encode x)
    rw [split, List.length_append] at fits
    have more := ih (by omega) (read ++ [plain x])
    rw [split, writeDelimited]
    simp only [List.append_assoc, List.map_cons] at more ⊢
    refine .record .lengthDelimited ?_ (by simp; omega) more
    change (mergeNested _ _ Message.empty _).map _ = _
    rw [← List.append_assoc, mergeNested_write deep x _ (by omega)]
    rfl

instance lawful_repeated : (repeated (β := β)).Lawful (List.map plain) (height + 1) where
  takes {depth} number xs rest deep fits := by
    obtain ⟨depth, rfl⟩ := Nat.exists_eq_add_of_le' (Nat.le_of_add_left_le deep)
    exact takes_repeated (by omega) xs rest fits []
  write_plain number xs := by
    change (xs.map plain).flatMap _ = xs.flatMap _
    rw [List.flatMap_map]
    simp only [encode_plain]

end Codec
end
end Wire
end MiningClient
