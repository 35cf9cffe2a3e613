import MiningClient.Text.Utf8

namespace MiningClient.Utf8

def IsAscii (b : UInt8) : Prop := b.toNat < 0x80

theorem encode_ofList (cs : List Char) :
    encode (String.ofList cs) = cs.flatMap String.utf8EncodeChar := by
  simp [encode, String.toUTF8, List.utf8Encode]

theorem encode_eq (s : String) : encode s = s.toList.flatMap String.utf8EncodeChar := by
  rw [← encode_ofList, String.ofList_toList]

theorem mem_encode {s : String} {b : UInt8} :
    b ∈ encode s ↔ ∃ c ∈ s.toList, b ∈ String.utf8EncodeChar c := by
  rw [encode_eq, List.mem_flatMap]

theorem encodeChar_ascii {c : Char} (h : c.toNat < 0x80) :
    String.utf8EncodeChar c = [UInt8.ofNat c.toNat] := by
  have small : c.val.toNat ≤ 127 := Nat.le_of_lt_succ h
  simp only [String.utf8EncodeChar, small, if_true]
  rfl

theorem encodeChar_other {c : Char} (h : 0x80 ≤ c.toNat) :
    ∃ b bs, String.utf8EncodeChar c = b :: bs ∧ ∀ x ∈ b :: bs, ¬IsAscii x := by
  have large : ¬c.val.toNat ≤ 127 := Nat.not_le_of_lt h
  simp only [String.utf8EncodeChar, large, if_false, IsAscii]
  split
  · exact ⟨_, _, rfl, by simp; omega⟩
  · split
    · exact ⟨_, _, rfl, by simp; omega⟩
    · exact ⟨_, _, rfl, by simp; omega⟩

section Sequence
variable {lead second : UInt8}

theorem tail_lt (b : UInt8) : tail b < 64 := Nat.mod_lt _ (by decide)

/-- The second byte keeps the character out of the ranges of shorter sequences, of surrogates and
behind the last code point. -/
theorem tail_of_secondAllowed (h : secondAllowed lead second = true) :
    (lead.toNat = 0xE0 → 32 ≤ tail second) ∧ (lead.toNat = 0xED → tail second < 32) ∧
      (lead.toNat = 0xF0 → 16 ≤ tail second) ∧ (lead.toNat = 0xF4 → tail second < 16) := by
  unfold secondAllowed continues at h
  unfold tail
  simp only [← UInt8.toNat_inj, UInt8.reduceToNat] at h
  repeat' split at h
  all_goals
    simp only [Bool.and_eq_true, decide_eq_true_eq, UInt8.le_iff_toNat_le, UInt8.reduceToNat] at h
    omega

theorem toNat_ofNat {n : Nat} (h : n.isValidChar) : (Char.ofNat n).toNat = n := by
  rw [Char.ofNat, dif_pos h]
  rfl

theorem encodeChar_ofNat {b : UInt8} (h : IsAscii b) :
    String.utf8EncodeChar (Char.ofNat b.toNat) = [b] := by
  have code : (Char.ofNat b.toNat).toNat = b.toNat :=
    toNat_ofNat (.inl (Nat.lt_trans h (by decide)))
  rw [encodeChar_ascii (by rw [code]; exact h), code, UInt8.ofNat_toNat]

theorem le_toNat_ofNat {n : Nat} (low : 0x80 ≤ n)
    (valid : n < 0xD800 ∨ 0xDFFF < n ∧ n < 0x110000) : 0x80 ≤ (Char.ofNat n).toNat := by
  rw [toNat_ofNat valid]
  exact low

/-- A byte of ASCII stands for itself, and any other sequence for a character behind ASCII. -/
theorem sequence_cases (lead : UInt8) (rest : Bytes) :
    (IsAscii lead ∧ sequence lead rest = (Char.ofNat lead.toNat, 0)) ∨
      0x80 ≤ (sequence lead rest).1.toNat := by
  unfold sequence
  split
  · next h => exact .inl ⟨UInt8.lt_iff_toNat_lt.1 h, rfl⟩
  · right
    simp only [UInt8.lt_iff_toNat_lt, UInt8.reduceToNat] at *
    -- Where the sequence is broken off it stands for U+FFFD.
    repeat' split
    all_goals first | decide | skip
    case _ b _ _ =>
      have := tail_lt b
      exact le_toNat_ofNat (by omega) (by omega)
    case _ b second _ c _ _ =>
      have := tail_lt b
      have := tail_lt c
      have := tail_of_secondAllowed second
      exact le_toNat_ofNat (by omega) (by omega)
    case _ b second _ c _ _ d _ _ =>
      have := tail_lt b
      have := tail_lt c
      have := tail_lt d
      have := tail_of_secondAllowed second
      exact le_toNat_ofNat (by omega) (by omega)

end Sequence

section Lossy
variable {bs : Bytes}

theorem lossyChars_cons (lead : UInt8) (rest : Bytes) :
    lossyChars (lead :: rest) =
      (sequence lead rest).1 :: lossyChars (rest.drop (sequence lead rest).2) := by
  rw [lossyChars]

theorem mem_lossyChars {c : Char} (h : c ∈ lossyChars bs) :
    (∃ b ∈ bs, IsAscii b ∧ c = Char.ofNat b.toNat) ∨ 0x80 ≤ c.toNat := by
  induction hn : bs.length using Nat.strongRecOn generalizing bs with
  | ind n ih =>
    cases bs with
    | nil => simp [lossyChars] at h
    | cons lead rest =>
      rw [lossyChars_cons, List.mem_cons] at h
      rcases h with rfl | h
      · obtain ⟨ascii, eq⟩ | other := sequence_cases lead rest
        · exact .inl ⟨lead, List.mem_cons_self .., ascii, by rw [eq]⟩
        · exact .inr other
      · have shorter : (rest.drop (sequence lead rest).2).length < n := by
          rw [← hn, List.length_drop, List.length_cons]
          omega
        obtain ⟨b, hb, ascii, eq⟩ | other := ih _ shorter h rfl
        · exact .inl ⟨b, List.mem_cons_of_mem _ (List.mem_of_mem_drop hb), ascii, eq⟩
        · exact .inr other

theorem ascii_of_lossyChars (h : ∀ c ∈ lossyChars bs, c.toNat < 0x80) : ∀ b ∈ bs, IsAscii b := by
  induction bs with
  | nil => simp
  | cons lead rest ih =>
    rw [lossyChars_cons, List.forall_mem_cons] at h
    obtain ⟨ascii, eq⟩ | other := sequence_cases lead rest
    · rw [eq] at h
      rw [List.forall_mem_cons]
      exact ⟨ascii, ih h.2⟩
    · omega

theorem decode?_of_ascii (h : ∀ b ∈ bs, IsAscii b) : ∃ s, decode? bs = some s := by
  suffices written : encode (String.ofList (bs.map fun b => Char.ofNat b.toNat)) = bs from
    ⟨_, by rw [← decode?_encode, written]⟩
  rw [encode_ofList, List.flatMap_map]
  induction bs with
  | nil => rfl
  | cons b bs ih =>
    rw [List.forall_mem_cons] at h
    rw [List.flatMap_cons, ih h.2, encodeChar_ofNat h.1]
    rfl

/-- What holds of all bytes, and of all that are no ASCII, holds of them read and written again. -/
theorem forall_mem_encode_lossy {P : UInt8 → Prop} (other : ∀ b, ¬IsAscii b → P b)
    (h : ∀ b ∈ bs, P b) : ∀ b ∈ encode (lossy bs), P b := by
  intro b hb
  cases hd : decode? bs with
  | some s =>
    rw [lossy, hd, Option.getD_some, encode_of_decode? hd] at hb
    exact h b hb
  | none =>
    rw [lossy, hd, Option.getD_none, encode_ofList, List.mem_flatMap] at hb
    obtain ⟨c, hc, hb⟩ := hb
    obtain ⟨x, hx, ascii, rfl⟩ | behind := mem_lossyChars hc
    · rw [encodeChar_ofNat ascii, List.mem_singleton] at hb
      exact hb ▸ h x hx
    · obtain ⟨x, xs, eq, none⟩ := encodeChar_other behind
      exact other b (none b (eq ▸ hb))

/-- Bytes that are no text leave a trace. -/
theorem exists_mem_encode_lossy (h : decode? bs = none) : ∃ b ∈ encode (lossy bs), ¬IsAscii b := by
  rw [lossy, h, Option.getD_none, encode_ofList]
  by_cases small : ∀ c ∈ lossyChars bs, c.toNat < 0x80
  -- Were all of them ASCII, the bytes would be their own text.
  · obtain ⟨s, hs⟩ := decode?_of_ascii (ascii_of_lossyChars small)
    rw [h] at hs
    cases hs
  · simp only [Classical.not_forall, Nat.not_lt] at small
    obtain ⟨c, hc, large⟩ := small
    obtain ⟨b, bs, eq, none⟩ := encodeChar_other large
    exact ⟨b, List.mem_flatMap_of_mem hc (eq ▸ List.mem_cons_self ..), none b (List.mem_cons_self ..)⟩

end Lossy
end MiningClient.Utf8
