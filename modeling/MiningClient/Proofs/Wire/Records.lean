import MiningClient.Wire.Field

namespace MiningClient

/-- The number with a zero of either sign made the positive one. -/
def Single.plain (x : Single) : Single := if x.isZero then .zero else x

namespace Wire

theorem Varint.write_pos (n : Nat) : 0 < (Varint.write n).length := by
  rw [Varint.write]
  split <;> simp

theorem Key.write_pos (key : Key) : 0 < key.write.length := Varint.write_pos _

theorem readVarint_write (n : Nat) (rest : Bytes) (h : n < UInt64.size) :
    readVarint (Varint.write n ++ rest) = .ok (n, rest) := by
  rw [readVarint, Varint.read_write n rest h]

theorem takeBytes_append (payload rest : Bytes) :
    takeBytes payload.length (payload ++ rest) = .ok (payload, rest) := by
  simp [takeBytes]

theorem expect_self (w : WireType) : expect w w = .ok () := if_pos rfl

namespace Codec
variable {β : Type}

/-- Records of one field at the head of the bytes, read into its value so far. -/
inductive Takes (c : Codec β) (number depth : Nat) : β → Bytes → β → Bytes → Prop
  | none (v : β) (bs : Bytes) : Takes c number depth v bs v bs
  | record (wireType : WireType) {v v' v'' : β} {bs bs' bs'' : Bytes}
    (merged : c.merge depth wireType v bs = .ok (v', bs')) (shrinks : bs'.length ≤ bs.length)
    (more : Takes c number depth v' bs' v'' bs'') :
    Takes c number depth v (Key.write ⟨number, wireType⟩ ++ bs) v'' bs''

/-- What the field writes for a value is read as `plain` of the value, where messages may nest at
least `height` deep, and is what it writes for `plain` of the value. -/
class Lawful (c : Codec β) (plain : outParam (β → β)) (height : Nat) : Prop where
  takes : ∀ {depth : Nat} (number : Nat) (v : β) (rest : Bytes), height ≤ depth →
    (c.write number v).length < UInt64.size →
    c.Takes number depth c.initial (c.write number v ++ rest) (plain v) rest
  write_plain : ∀ number v, c.write number (plain v) = c.write number v

section Scalar
variable [DecidableEq β] {initial : β} {wireType : WireType} {isDefault : β → Bool}
  {put : β → Bytes} {get : Bytes → Except Cause (β × Bytes)} {plain : β → β}

/-- A field of one value needs a reader for what is written, and a default that is not written. -/
theorem lawful_scalar (height : Nat) (default : ∀ v, isDefault v = true → plain v = initial)
    (isDefault_initial : isDefault initial = true)
    (other : ∀ v, isDefault v = false → plain v = v)
    (get_put : ∀ v rest, (put v).length < UInt64.size → get (put v ++ rest) = .ok (v, rest)) :
    (scalar initial wireType isDefault put get).Lawful plain height where
  takes {depth} number v rest _ fits := by
    change (if isDefault v then _ else _ : Bytes).length < _ at fits
    change Takes _ _ _ initial ((if isDefault v then _ else _) ++ rest) _ _
    cases hd : isDefault v with
    | true =>
      rw [default v hd]
      -- A default leaves nothing to read.
      exact .none initial rest
    | false =>
      rw [hd, if_neg (by simp), List.length_append] at fits
      rw [if_neg (by simp), other v hd, List.append_assoc]
      refine .record wireType ?_ (by simp) (.none v rest)
      simp only [scalar, expect_self]
      rw [get_put v rest (by omega)]
      rfl
  write_plain number v := by
    change (if isDefault (plain v) then _ else _) = (if isDefault v then _ else _)
    cases hd : isDefault v with
    | true => rw [default v hd, isDefault_initial]; rfl
    | false => rw [other v hd, hd]

end Scalar

theorem readText_put (s : String) (rest : Bytes) (h : (Utf8.encode s).length < UInt64.size) :
    readText (Varint.write (Utf8.encode s).length ++ Utf8.encode s ++ rest) = .ok (s, rest) := by
  rw [readText, readDelimited, List.append_assoc, readVarint_write _ _ h]
  simp only [takeBytes_append, Utf8.decode?_encode]

instance lawful_text (height : Nat) : text.Lawful id height := by
  refine lawful_scalar height (fun v hv => ?_) rfl (fun _ _ => rfl) (fun s rest fits => ?_)
  · exact eq_of_beq hv
  · rw [List.length_append] at fits
    exact readText_put s rest (by omega)

instance lawful_unsigned (height : Nat) : unsigned.Lawful id height := by
  refine lawful_scalar height (fun v hv => ?_) rfl (fun _ _ => rfl) (fun n rest _ => ?_)
  · exact eq_of_beq hv
  · have small : n.toNat < UInt64.size := Nat.lt_trans n.toNat_lt (by decide)
    rw [readVarint_write _ _ small]
    simp [Except.map]

theorem ofNat_toInt (n : Int32) : Int32.ofNat (n.toInt % UInt64.size).toNat = n := by
  apply Int32.toInt_inj.1
  have low := n.le_toInt
  have high := n.toInt_lt
  rw [Int32.toInt_ofNat', Int.bmod_def]
  simp only [UInt64.size, Int32.size] at *
  omega

instance lawful_signed (height : Nat) : signed.Lawful id height := by
  refine lawful_scalar height (fun v hv => ?_) rfl (fun _ _ => rfl) (fun n rest _ => ?_)
  · exact eq_of_beq hv
  -- A negative number is written as a large one, in 64 bits.
  · have small : (n.toInt % UInt64.size).toNat < UInt64.size := by
      simp only [UInt64.size]
      omega
    rw [readVarint_write _ _ small]
    change Except.ok (Int32.ofNat (n.toInt % UInt64.size).toNat, rest) = _
    rw [ofNat_toInt]

instance lawful_flag (height : Nat) : flag.Lawful id height := by
  refine lawful_scalar height (fun v hv => ?_) rfl (fun _ _ => rfl) (fun b rest _ => ?_)
  · exact eq_of_beq hv
  · have small : b.toNat < UInt64.size := by cases b <;> decide
    rw [readVarint_write _ _ small]
    cases b <;> rfl

end Codec

instance lawful_single (height : Nat) : Codec.single.Lawful Single.plain height := by
  refine Codec.lawful_scalar height (fun x hx => if_pos hx) rfl (fun x hx => ?_)
    (fun x rest _ => ?_)
  · exact if_neg (by simp [hx])
  · simp only [Bytes.ofWord, List.cons_append, List.nil_append, Codec.readSingle,
      Bytes.toWord_ofWord]

end Wire
end MiningClient
