namespace MiningClient.Text

/-- The Unicode property White_Space. -/
def isBlank (c : Char) : Bool :=
  let n := c.toNat
  (0x09 ≤ n && n ≤ 0x0D) || n == 0x20 || n == 0x85 || n == 0xA0 || n == 0x1680 ||
    (0x2000 ≤ n && n ≤ 0x200A) || n == 0x2028 || n == 0x2029 || n == 0x202F || n == 0x205F ||
    n == 0x3000

def stripChars (p : Char → Bool) (cs : List Char) : List Char :=
  ((cs.dropWhile p).reverse.dropWhile p).reverse

def trim (s : String) : String := String.ofList (stripChars isBlank s.toList)

def dropTrailing (c : Char) (s : String) : String :=
  String.ofList (s.toList.reverse.dropWhile (· == c)).reverse

def dropLeading (c : Char) (s : String) : String := String.ofList (s.toList.dropWhile (· == c))

/-- Lower case of the letters A to Z; all else is kept. -/
def lowercase (s : String) : String := String.ofList (s.toList.map Char.toLower)

theorem toLower_of_bounds {c : Char} (h : c.toNat < 0x41 ∨ 0x5A < c.toNat) : c.toLower = c := by
  refine dif_neg ?_
  simp only [ge_iff_le, UInt32.le_iff_toNat_le, not_and]
  intro (low : 65 ≤ c.toNat) (high : c.toNat ≤ 90)
  omega

theorem toLower_cases (c : Char) :
    c.toLower = c ∨ (0x61 ≤ c.toLower.toNat ∧ c.toLower.toNat ≤ 0x7A) := by
  by_cases h : c.val ≥ 'A'.val ∧ c.val ≤ 'Z'.val
  · have moved : c.toLower.val = c.val + ('a'.val - 'A'.val) := congrArg Char.val (dif_pos h)
    refine .inr ?_
    simp only [Char.toNat, moved, UInt32.toNat_add]
    simp [UInt32.le_iff_toNat_le] at h ⊢
    omega
  · exact .inl (dif_neg h)

theorem toLower_toLower (c : Char) : c.toLower.toLower = c.toLower := by
  obtain h | ⟨low, -⟩ := toLower_cases c
  · rw [h, h]
  · exact toLower_of_bounds (.inr (by omega))

theorem lowercase_drop (s : String) (n : Nat) :
    lowercase (String.ofList ((lowercase s).toList.drop n)) =
      String.ofList ((lowercase s).toList.drop n) := by
  simp only [lowercase, String.toList_ofList, ← List.map_drop, List.map_map]
  congr 1
  exact List.map_congr_left fun c _ => toLower_toLower c

/-- The pieces of a text between the occurrences of `c`; there is always one. -/
def splitOn (c : Char) : List Char → List (List Char)
  | [] => [[]]
  | x :: xs =>
    if x = c then [] :: splitOn c xs
    else
      match splitOn c xs with
      | [] => [[x]]
      | piece :: pieces => (x :: piece) :: pieces

end MiningClient.Text
