import MiningClient.Number.Decimal

namespace MiningClient.Decimal

/-- Digits, at least one, that write the number. -/
structure IsDigits (cs : List Char) (n : Nat) : Prop where
  ne_nil : cs ≠ []
  digits : ∀ c ∈ cs, c.isDigit = true
  value : Nat.ofDigitChars 10 cs 0 = n

/-- Digits, with a sign in front of them or without. -/
inductive Writes : List Char → Int → Prop
  | plain {cs : List Char} {n : Nat} (digits : IsDigits cs n) : Writes cs n
  | plus {cs : List Char} {n : Nat} (digits : IsDigits cs n) : Writes ('+' :: cs) n
  | minus {cs : List Char} {n : Nat} (digits : IsDigits cs n) : Writes ('-' :: cs) (-n)

variable {cs : List Char}

theorem readDigits_eq_some_iff {acc n : Nat} :
    readDigits acc cs = some n ↔
      (∀ c ∈ cs, c.isDigit = true) ∧ Nat.ofDigitChars 10 cs acc = n := by
  -- The accumulator has the digits that came before.
  induction cs generalizing acc with
  | nil => simp [readDigits]
  | cons c cs ih =>
    rw [readDigits, List.forall_mem_cons, Nat.ofDigitChars_cons, Nat.mul_comm 10 acc]
    split
    · rename_i digit
      rw [ih, and_iff_right digit]
      rfl
    · rename_i other
      simp [other]

theorem natural?_eq_some_iff {n : Nat} : natural? cs = some n ↔ IsDigits cs n := by
  cases cs with
  | nil =>
    -- No digits are no number, although they would count as zero.
    refine iff_of_false (by simp [natural?]) ?_
    intro h
    exact h.ne_nil rfl
  | cons c cs =>
    rw [natural?, readDigits_eq_some_iff]
    · exact ⟨fun h => ⟨List.cons_ne_nil c cs, h.1, h.2⟩, fun h => ⟨h.digits, h.value⟩⟩
    · simp

theorem IsDigits.head_ne {c : Char} {n : Nat} (h : IsDigits (c :: cs) n) : c ≠ '+' ∧ c ≠ '-' := by
  have digit := h.digits c (List.mem_cons_self ..)
  constructor <;>
  · rintro rfl
    exact absurd digit (by decide)

theorem IsDigits.unsigned?_eq {n : Nat} (h : IsDigits cs n) : unsigned? cs = some n := by
  cases cs with
  | nil => exact absurd rfl h.ne_nil
  | cons c cs =>
    rw [unsigned?, natural?_eq_some_iff.2 h]
    rintro rest ⟨⟩
    exact h.head_ne.1 rfl

theorem signed?_eq_some_iff {n : Int} : signed? cs = some n ↔ Writes cs n := by
  constructor
  · intro h
    unfold signed? at h
    split at h
    · obtain ⟨_, size, rfl⟩ := Option.map_eq_some_iff.1 h
      obtain ⟨k, read, counted⟩ := Option.bind_eq_some_iff.1 size
      rw [← Option.some.inj counted]
      exact .minus (natural?_eq_some_iff.1 read)
    · obtain ⟨k, read, rfl⟩ := Option.map_eq_some_iff.1 h
      unfold unsigned? at read
      split at read
      · exact .plus (natural?_eq_some_iff.1 read)
      · exact .plain (natural?_eq_some_iff.1 read)
  · intro h
    cases h with
    | plus digits | minus digits =>
      have read := natural?_eq_some_iff.2 digits
      simp [signed?, unsigned?, read]
    | plain digits =>
      have read := natural?_eq_some_iff.2 digits
      cases cs with
      | nil => exact absurd rfl digits.ne_nil
      | cons c cs =>
        -- A digit in front is no sign, so the other cases are not met.
        obtain ⟨notPlus, notMinus⟩ := digits.head_ne
        simp [signed?, unsigned?, notPlus, notMinus, read]

theorem digits_eq (n : Nat) : digits n = Nat.toDigits 10 n := by
  have char : ∀ d < 10, Char.ofNat (48 + d) = d.digitChar := by decide
  induction n using digits.induct with
  | case1 n small => rw [digits, if_pos small, Nat.toDigits_of_lt_base small, char n small]
  | case2 n large ih =>
    rw [digits, if_neg large, ih, Nat.toDigits_of_base_le (by decide) (Nat.le_of_not_lt large),
      char _ (Nat.mod_lt n (by decide))]

theorem isDigits_digits (n : Nat) : IsDigits (digits n) n where
  ne_nil := by
    rw [digits_eq]
    exact Nat.toDigits_ne_nil
  digits := by
    rw [digits_eq]
    exact fun c mem => Nat.isDigit_of_mem_toDigits (by decide) (by decide) mem
  value := by rw [digits_eq, Nat.ofDigitChars_toDigits (by decide) (by decide)]

/-- No zeros stand in front. -/
theorem length_digits_of_head? {n : Nat} (h : (digits n).head? = some '0') : (digits n).length = 1 := by
  induction n using digits.induct with
  | case1 n small =>
    rw [digits, if_pos small]
    rfl
  | case2 n large ih =>
    rw [digits, if_neg large] at h
    have short : (digits (n / 10)).length = 1 := by
      refine ih ?_
      cases ds : digits (n / 10) with
      | nil =>
        rw [digits_eq] at ds
        exact absurd ds Nat.toDigits_ne_nil
      | cons d ds' =>
        rw [ds] at h
        exact h
    -- One digit that is a zero is the number zero, and that has no further digit.
    obtain ⟨d, one⟩ := List.length_eq_one_iff.1 short
    rw [one] at h
    obtain rfl : d = '0' := Option.some.inj h
    have zero : n / 10 = 0 := by
      rw [← Nat.ofDigitChars_toDigits (b := 10) (n := n / 10) (by decide) (by decide), ← digits_eq, one]
      rfl
    omega

theorem text_eq (n : Nat) : text n = toString n := by
  rw [text, digits_eq, Nat.toString_eq_ofList_toDigits]

end MiningClient.Decimal
