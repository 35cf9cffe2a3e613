import MiningClient.Proofs.Wire.Lawful

namespace MiningClient.Wire

/-- How a later value stands over an earlier one. -/
class Overlay (β : Type) where
  overlay : β → β → β

export Overlay (overlay)

section Values
variable {β : Type}

instance : Overlay String := ⟨fun a b => if b = "" then a else b⟩
instance : Overlay UInt32 := ⟨fun a b => if b = 0 then a else b⟩
instance : Overlay Int32 := ⟨fun a b => if b = 0 then a else b⟩
instance : Overlay Bool := ⟨fun a b => if b = false then a else b⟩

/-- A zero of either sign is the default. -/
instance : Overlay Single := ⟨fun a b => if b.isZero then a else b⟩

/-- A message that is there on one side only stays as it is. -/
instance [Overlay β] : Overlay (Option β) where
  overlay
    | some a, some b => some (overlay a b)
    | none, b => b
    | a, none => a

instance : Overlay (List β) := ⟨fun as bs => as ++ bs⟩

end Values

namespace Codec
variable {β : Type}

/-- What the field writes for a later value is read over what an earlier one was read as, where
messages may nest at least `height` deep. -/
class Overlays [Overlay β] (c : Codec β) (plain : outParam (β → β)) (height : Nat) : Prop where
  takes : ∀ {depth : Nat} (number : Nat) (a b : β) (rest : Bytes), height ≤ depth →
    (c.write number b).length < UInt64.size →
    c.Takes number depth (plain a) (c.write number b ++ rest) (plain (overlay a b)) rest

/-- A reader that does not look at the value so far reads the same over any. -/
theorem Takes.over {c : Codec β} {number depth : Nat} {v v' : β} {bs bs' : Bytes}
    (blind : ∀ w u u' bs, c.merge depth w u bs = c.merge depth w u' bs)
    (h : c.Takes number depth v bs v' bs') (shorter : bs'.length < bs.length) (u : β) :
    c.Takes number depth u bs v' bs' := by
  cases h with
  | none => exact absurd shorter (Nat.lt_irrefl _)
  | record wireType merged shrinks more =>
    rw [blind wireType _ u] at merged
    exact .record wireType merged shrinks more

section Scalar
variable [DecidableEq β] [Overlay β] {initial : β} {wireType : WireType} {isDefault : β → Bool}
  {put : β → Bytes} {get : Bytes → Except Cause (β × Bytes)} {plain : β → β}

/-- A field of one value is replaced by what is written for a later one, if anything is. -/
theorem overlays_scalar {height : Nat}
    (law : (scalar initial wireType isDefault put get).Lawful plain height)
    (overlay_eq : ∀ a b : β, overlay a b = if isDefault b then a else b) :
    (scalar initial wireType isDefault put get).Overlays plain height where
  takes {depth} number a b rest deep fits := by
    have taken := law.takes number b rest deep fits
    -- A later default is not written, so the earlier value stays.
    have written : (scalar initial wireType isDefault put get).write number b =
      if isDefault b then [] else Key.write ⟨number, wireType⟩ ++ put b := rfl
    rw [overlay_eq]
    cases hd : isDefault b with
    | true =>
      rw [written, hd]
      exact .none (plain a) rest
    | false =>
      have key := Key.write_pos ⟨number, wireType⟩
      refine taken.over (fun _ _ _ _ => rfl) ?_ (plain a)
      rw [written, hd]
      simp only [Bool.false_eq_true, if_false, List.length_append]
      omega

end Scalar

instance overlays_text (height : Nat) : text.Overlays id height :=
  overlays_scalar (lawful_text height) fun a b => by simp [overlay]

instance overlays_unsigned (height : Nat) : unsigned.Overlays id height :=
  overlays_scalar (lawful_unsigned height) fun a b => by simp [overlay]

instance overlays_signed (height : Nat) : signed.Overlays id height :=
  overlays_scalar (lawful_signed height) fun a b => by simp [overlay]

instance overlays_flag (height : Nat) : flag.Overlays id height :=
  overlays_scalar (lawful_flag height) fun a b => by simp [overlay]

instance overlays_single (height : Nat) : single.Overlays Single.plain height :=
  overlays_scalar (lawful_single height) fun _ _ => rfl

end Codec

namespace Field
variable {α : Type} [Overlay α]

/-- The field of a message over another is the one's value over the other's, also as it is read. -/
def Overlays (f : Field α) (plain : α → α) (height : Nat) : Prop :=
  ∃ (_ : Overlay f.β) (p : f.β → f.β), f.codec.Overlays p height ∧
    (∀ m, f.get (plain m) = p (f.get m)) ∧
    ∀ a b, f.get (overlay a b) = overlay (f.get a) (f.get b)

theorem Overlays.of {β : Type} [values : Overlay β] {number : Nat} {name : String} {codec : Codec β}
    {get : α → β} {set : β → α → α} {plain : α → α} {p : β → β} {height : Nat}
    [law : codec.Overlays p height] (get_plain : ∀ m, get (plain m) = p (get m))
    (get_overlay : ∀ a b, get (overlay a b) = overlay (get a) (get b)) :
    Overlays ⟨number, name, codec, get, set⟩ plain height :=
  ⟨values, p, law, get_plain, get_overlay⟩

end Field

/-- A type of messages in which every field is laid over another by itself. -/
class LawfulOverlay (α : Type) [Message α] [Plain α] [Overlay α] (height : outParam Nat) : Prop where
  field : ∀ f ∈ Message.fields (α := α), f.Overlays plain height := by
    simp only [Message.fields, List.forall_mem_cons, List.not_mem_nil, false_imp_iff, implies_true,
      and_true]
    repeat' apply And.intro
    all_goals exact .of (fun _ => by simp [Plain.plain]) (fun _ _ => rfl)

section
variable {α : Type} [Message α] [Plain α] [Overlay α] {height depth : Nat}
  [lawful : LawfulMessage α height] [overlaid : LawfulOverlay α height]
include lawful overlaid

theorem merges_overlay (deep : height ≤ depth) (a b : α) (rest : Bytes)
    (fits : (encode b).length < UInt64.size) :
    Merges depth (plain a) (encode b ++ rest) (plain (overlay a b)) rest := by
  refine merges_of_fields b (plain (overlay a b)) rest (plain a) fun f hf rest => ?_
  obtain ⟨_, p, law, get_plain, get_overlay⟩ := overlaid.field f hf
  rw [get_plain, get_plain, get_overlay]
  exact law.takes f.number (f.get a) (f.get b) rest deep
    (Nat.lt_of_le_of_lt (length_write_le hf b) fits)

theorem decode_encode_append (shallow : height ≤ maxDepth) (a b : α)
    (fits_a : (encode a).length < UInt64.size) (fits_b : (encode b).length < UInt64.size) :
    decode (encode a ++ encode b) = .ok (plain (overlay a b)) := by
  -- Both encodings are read in one go, the second into what the first has left.
  have first := merges_encode shallow a (encode b) fits_a
  have second := merges_overlay shallow a b [] fits_b
  rw [List.append_nil] at second
  rw [decode, show (0 : Nat) = ([] : Bytes).length from rfl,
    (first.trans second).mergeUntil (Nat.le_refl _)]
  rfl

end

namespace Codec
variable {β : Type} [Message β] [Plain β] [Overlay β] {height : Nat} [LawfulMessage β height]

instance overlays_optional [LawfulOverlay β height] :
    (optional (β := β)).Overlays (Option.map plain) (height + 1) where
  takes {depth} number a b rest deep fits := by
    cases a with
    | none => exact lawful_optional.takes number b rest deep fits
    | some x =>
      cases b with
      | none => exact .none (some (plain x)) rest
      | some y =>
        obtain ⟨depth, rfl⟩ := Nat.exists_eq_add_of_le' (Nat.le_of_add_left_le deep)
        change (writeDelimited number (encode y)).length < _ at fits
        have shorter := length_writeDelimited number (encode y)
        have merges : Merges depth (plain x) (encode y ++ rest) (plain (overlay x y)) rest :=
          merges_overlay (by omega) x y rest (by omega)
        change Takes _ _ _ (some (plain x)) (writeDelimited number (encode y) ++ rest)
          (some (plain (overlay x y))) rest
        rw [writeDelimited, List.append_assoc, List.append_assoc]
        -- The one record is read into the message that is there already.
        refine .record .lengthDelimited ?_ (by simp; omega) (.none _ rest)
        change (mergeNested _ _ (plain x) _).map _ = _
        rw [← List.append_assoc, mergeNested_of_merges merges (by omega)]
        rfl

omit [Overlay β] in
instance overlays_repeated : (repeated (β := β)).Overlays (List.map plain) (height + 1) where
  takes {depth} number as bs rest deep fits := by
    obtain ⟨depth, rfl⟩ := Nat.exists_eq_add_of_le' (Nat.le_of_add_left_le deep)
    change Takes _ _ _ (as.map plain) _ ((as ++ bs).map plain) rest
    rw [List.map_append]
    exact takes_repeated (by omega) bs rest fits (as.map plain)

end Codec
end MiningClient.Wire
