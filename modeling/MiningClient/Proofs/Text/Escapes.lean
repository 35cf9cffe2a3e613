import MiningClient.Text.Percent
import MiningClient.Text.Utf8

namespace MiningClient.Percent

section Digits

def hexDigits : Bytes × Bytes := (Utf8.encode "0123456789abcdef", Utf8.encode "0123456789ABCDEF")

def IsHex (b : UInt8) (n : Nat) : Prop := hexDigits.1[n]? = some b ∨ hexDigits.2[n]? = some b

instance (b : UInt8) (n : Nat) : Decidable (IsHex b n) := inferInstanceAs (Decidable (_ ∨ _))

variable {b v : UInt8} {n : Nat}

theorem IsHex.lt (h : IsHex b n) : n < 16 := by
  rcases h with h | h <;> exact (List.getElem?_eq_some_iff.1 h).1

/-- What holds of the digits in both cases holds of every digit. -/
theorem IsHex.of_table {P : UInt8 → Nat → Bool}
    (table : ∀ n < 16, hexDigits.1[n]?.all (P · n) = true ∧ hexDigits.2[n]?.all (P · n) = true)
    (h : IsHex b n) : P b n = true := by
  obtain ⟨lower, upper⟩ := table n h.lt
  rcases h with h | h
  · rwa [h] at lower
  · rwa [h] at upper

theorem hexDigit?_of_isHex (h : IsHex b n) : hexDigit? b = some (UInt8.ofNat n) :=
  of_decide_eq_true (h.of_table (P := fun b n => hexDigit? b = some (UInt8.ofNat n)) (by decide +kernel))

theorem isHex_of_hexDigit? (h : hexDigit? b = some v) : IsHex b v.toNat := by
  have table : ∀ i < 256,
      (hexDigit? (UInt8.ofNat i)).all (fun v => IsHex (UInt8.ofNat i) v.toNat) = true := by
    decide +kernel
  have known := table b.toNat b.toNat_lt
  rw [UInt8.ofNat_toNat, h] at known
  exact of_decide_eq_true known

end Digits

/-- The bytes begin with an escape. -/
def StartsEscape (bs : Bytes) : Prop :=
  ∃ high low h l rest, bs = percent :: high :: low :: rest ∧ IsHex high h ∧ IsHex low l

/-- What is read from left to right. An escape gives its byte, which is not looked at again; any other
byte gives itself. -/
inductive Reads : Bytes → Bytes → Prop
  | done : Reads [] []
  | escape {high low : UInt8} {h l : Nat} {rest bs : Bytes} (first : IsHex high h)
    (second : IsHex low l) (more : Reads rest bs) :
    Reads (percent :: high :: low :: rest) (UInt8.ofNat (16 * h + l) :: bs)
  | other {b : UInt8} {rest bs : Bytes} (plain : ¬StartsEscape (b :: rest)) (more : Reads rest bs) :
    Reads (b :: rest) (b :: bs)

theorem decode_escape {high low : UInt8} {h l : Nat} (first : IsHex high h) (second : IsHex low l)
    (rest : Bytes) :
    decode (percent :: high :: low :: rest) = UInt8.ofNat (16 * h + l) :: decode rest := by
  have byte : UInt8.ofNat h * 16 + UInt8.ofNat l = UInt8.ofNat (16 * h + l) := by
    rw [UInt8.ofNat_add, UInt8.ofNat_mul, UInt8.mul_comm]
    rfl
  rw [decode, if_pos rfl, hexDigit?_of_isHex first, hexDigit?_of_isHex second, ← byte]

theorem decode_other {b : UInt8} {rest : Bytes} (plain : ¬StartsEscape (b :: rest)) :
    decode (b :: rest) = b :: decode rest := by
  match rest with
  | [] => rfl
  | [_] => rfl
  | c :: d :: rest =>
    rw [decode]
    split
    · rename_i isPercent
      split
      · rename_i high low first second
        refine absurd ⟨c, d, _, _, rest, ?_, isHex_of_hexDigit? first, isHex_of_hexDigit? second⟩ plain
        rw [isPercent]
      · rfl
    · rfl

theorem reads_iff {text bs : Bytes} : Reads text bs ↔ decode text = bs := by
  constructor
  · intro h
    induction h with
    | done => rfl
    | escape first second _ ih => rw [decode_escape first second, ih]
    | other plain _ ih => rw [decode_other plain, ih]
  · rintro rfl
    -- an escape takes three bytes at once, so the induction is on the length
    induction hn : text.length using Nat.strongRecOn generalizing text with
    | ind n ih =>
      cases text with
      | nil => exact .done
      | cons b rest =>
        by_cases starts : StartsEscape (b :: rest)
        · obtain ⟨high, low, h, l, rest', same, first, second⟩ := starts
          obtain ⟨rfl, rfl⟩ := List.cons.inj same
          rw [decode_escape first second]
          refine .escape first second (ih rest'.length ?_ rfl)
          rw [← hn]
          simp only [List.length_cons]
          omega
        · rw [decode_other starts]
          refine .other starts (ih rest.length ?_ rfl)
          rw [← hn]
          simp

/-- A way to write bytes: each as an escape, with digits in either case, or as itself if it is visible and
no percent sign. -/
inductive Encodes (visible : UInt8 → Prop) : Bytes → Bytes → Prop
  | done : Encodes visible [] []
  | literal {b : UInt8} {bs text : Bytes} (shows : visible b) (plain : b ≠ percent)
    (more : Encodes visible bs text) : Encodes visible (b :: bs) (b :: text)
  | escape {b high low : UInt8} {h l : Nat} {bs text : Bytes} (first : IsHex high h)
    (second : IsHex low l) (counts : b.toNat = 16 * h + l) (more : Encodes visible bs text) :
    Encodes visible (b :: bs) (percent :: high :: low :: text)

variable {visible : UInt8 → Prop} {bs text : Bytes}

theorem Encodes.reads (h : Encodes visible bs text) : Reads text bs := by
  induction h with
  | done => exact .done
  | literal _ plain _ ih =>
    refine .other ?_ ih
    rintro ⟨_, _, _, _, _, same, -⟩
    exact plain (List.cons.inj same).1
  | @escape b _ _ _ _ _ _ first second counts _ ih =>
    rw [← b.ofNat_toNat, counts]
    exact .escape first second ih

end MiningClient.Percent
