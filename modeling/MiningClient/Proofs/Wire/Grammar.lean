import MiningClient.Wire.Key

namespace MiningClient.Wire

namespace Varint

/-- Digits in base 128, least significant first, with the high bit set on all but the last. There may be
more of them than the number needs. -/
inductive Spells : Nat → Bytes → Prop
  | last (b : UInt8) (low : b.toNat < 128) : Spells b.toNat [b]
  | more (b : UInt8) (high : 128 ≤ b.toNat) {n : Nat} {bs : Bytes} (rest : Spells n bs) :
    Spells (b.toNat - 128 + 128 * n) (b :: bs)

theorem two_le_limit (left : Nat) : 2 ≤ limit left := by
  induction left with
  | zero => exact Nat.le_refl 2
  | succ left ih =>
    rw [limit]
    omega

theorem readWithin_spelled {n : Nat} {bs : Bytes} (h : Spells n bs) {left : Nat}
    (short : bs.length ≤ left + 1) (small : n < limit left) (rest : Bytes) :
    readWithin (left + 1) (bs ++ rest) = some (n, rest) := by
  induction h generalizing left with
  | last b low =>
    -- In the last place only a digit below two keeps the number within 64 bits.
    have full : ¬(left = 0 ∧ 2 ≤ b.toNat) := by
      rintro ⟨rfl, high⟩
      rw [limit] at small
      omega
    rw [List.singleton_append, readWithin, if_pos low, if_neg full]
  | more b high rest' ih =>
    -- A digit that is not the last leaves a place for one more.
    rw [List.length_cons] at short
    obtain _ | left := left
    · cases rest' <;> simp at short
    · rw [limit] at small
      rw [List.cons_append, readWithin, if_neg (by omega), ih (by omega) (by omega)]
      rfl

theorem spelled_of_readWithin {left n : Nat} {bs rest : Bytes}
    (h : readWithin (left + 1) bs = some (n, rest)) :
    ∃ c, bs = c ++ rest ∧ Spells n c ∧ c.length ≤ left + 1 ∧ n < limit left := by
  -- The induction is on the places that are left for digits.
  induction left generalizing bs n with
  | zero =>
    obtain _ | ⟨b, tail⟩ := bs
    · cases h
    · rw [readWithin] at h
      split at h
      · rename_i low
        split at h
        · cases h
        · rename_i full
          cases h
          have small : b.toNat < limit 0 := by
            rw [limit]
            omega
          exact ⟨[b], rfl, .last b low, Nat.le_refl _, small⟩
      · cases h
  | succ left ih =>
    obtain _ | ⟨b, tail⟩ := bs
    · cases h
    · rw [readWithin] at h
      have hl := two_le_limit left
      split at h
      · rename_i low
        rw [if_neg (by omega)] at h
        cases h
        refine ⟨[b], rfl, .last b low, ?_, ?_⟩
        · simp
        · rw [limit]
          omega
      · rename_i high
        obtain ⟨⟨n, rest⟩, hr, he⟩ := Option.map_eq_some_iff.1 h
        cases he
        obtain ⟨c, rfl, spells, short, small⟩ := ih hr
        have hb := b.toNat_lt
        refine ⟨b :: c, rfl, .more b (by omega) spells, ?_, ?_⟩
        · rw [List.length_cons]
          omega
        · rw [limit]
          omega

end Varint

theorem exists_of_map_eq_ok {α β ε : Type} {f : α → β} {x : Except ε α} {b : β}
    (h : x.map f = .ok b) : ∃ a, x = .ok a ∧ f a = b := by
  cases x with
  | error e => cases h
  | ok a => exact ⟨a, rfl, Except.ok.inj h⟩

structure IsVarint (n : Nat) (bs : Bytes) : Prop where
  spells : Varint.Spells n bs
  short : bs.length ≤ 10
  small : n < UInt64.size

theorem IsVarint.read {n : Nat} {bs : Bytes} (h : IsVarint n bs) (rest : Bytes) :
    readVarint (bs ++ rest) = .ok (n, rest) := by
  have hr : Varint.read (bs ++ rest) = some (n, rest) :=
    Varint.readWithin_spelled h.spells h.short h.small rest
  rw [readVarint, hr]

theorem isVarint_of_read {n : Nat} {bs rest : Bytes} (h : readVarint bs = .ok (n, rest)) :
    ∃ c, bs = c ++ rest ∧ IsVarint n c := by
  cases hr : Varint.read bs with
  | none =>
    rw [readVarint, hr] at h
    cases h
  | some r =>
    rw [readVarint, hr] at h
    cases h
    obtain ⟨c, hbs, spells, short, small⟩ := Varint.spelled_of_readWithin hr
    exact ⟨c, hbs, spells, short, small⟩

theorem IsVarint.ne_nil {n : Nat} {bs : Bytes} (h : IsVarint n bs) : bs ≠ [] := by
  obtain ⟨spells, -, -⟩ := h
  cases spells <;> exact List.cons_ne_nil _ _

/-- A key has 32 bits, and its field number is not zero. -/
structure IsKey (key : Key) (bs : Bytes) : Prop where
  varint : IsVarint (key.number * 8 + key.wireType.number) bs
  low : 0 < key.number
  high : key.number * 8 + key.wireType.number < UInt32.size

theorem WireType.number_of_ofNumber? {n : Nat} {w : WireType} (h : WireType.ofNumber? n = some w) :
    w.number = n := by
  unfold WireType.ofNumber? at h
  split at h <;> cases h <;> rfl

theorem IsKey.read {key : Key} {bs : Bytes} (h : IsKey key bs) (rest : Bytes) :
    Key.read (bs ++ rest) = .ok (key, rest) := by
  obtain ⟨varint, low, high⟩ := h
  have hw : key.wireType.number < 8 := by cases key.wireType <;> decide
  have hd : (key.number * 8 + key.wireType.number) / 8 = key.number := by omega
  have hm : (key.number * 8 + key.wireType.number) % 8 = key.wireType.number := by omega
  simp only [Key.read, varint.read, hd, hm, WireType.ofNumber?_number]
  rw [if_neg (by omega), if_neg (by omega)]

theorem isKey_of_read {key : Key} {bs rest : Bytes} (h : Key.read bs = .ok (key, rest)) :
    ∃ c, bs = c ++ rest ∧ IsKey key c := by
  unfold Key.read at h
  split at h
  · cases h
  · rename_i n rest' hn
    split at h
    · cases h
    · rename_i small
      split at h
      · cases h
      · rename_i w hw
        split at h
        · cases h
        · rename_i positive
          cases h
          -- The number of the wire type is the rest by eight, so nothing of the key is lost.
          have he : n / 8 * 8 + w.number = n := by
            rw [WireType.number_of_ofNumber? hw]
            omega
          obtain ⟨c, hbs, varint⟩ := isVarint_of_read hn
          exact ⟨c, hbs, he.symm ▸ varint, Nat.pos_of_ne_zero positive, by simp only [he]; omega⟩

theorem takeBytes_of_length {n : Nat} {bs : Bytes} (h : bs.length = n) (rest : Bytes) :
    takeBytes n (bs ++ rest) = .ok (bs, rest) := by
  subst h
  simp [takeBytes]

theorem length_of_takeBytes {n : Nat} {bs taken rest : Bytes}
    (h : takeBytes n bs = .ok (taken, rest)) : bs = taken ++ rest ∧ taken.length = n := by
  unfold takeBytes at h
  split at h
  · cases h
  · rename_i enough
    cases h
    refine ⟨(List.take_append_drop n bs).symm, ?_⟩
    rw [List.length_take]
    omega

/-- What stands behind a key, up to the next one. A group holds records, and the key that ends it is
part of its value. Values nest less than `height` deep in one another. -/
inductive IsValue : Nat → Key → Bytes → Prop
  | varint {height number n : Nat} {v : Bytes} (spelled : IsVarint n v) :
    IsValue (height + 1) ⟨number, .varint⟩ v
  | sixtyFourBit {height number : Nat} {v : Bytes} (length : v.length = 8) :
    IsValue (height + 1) ⟨number, .sixtyFourBit⟩ v
  | thirtyTwoBit {height number : Nat} {v : Bytes} (length : v.length = 4) :
    IsValue (height + 1) ⟨number, .thirtyTwoBit⟩ v
  | lengthDelimited {height number : Nat} {length payload : Bytes}
    (spelled : IsVarint payload.length length) :
    IsValue (height + 1) ⟨number, .lengthDelimited⟩ (length ++ payload)
  | groupEnd {height number : Nat} {close : Bytes} (isKey : IsKey ⟨number, .endGroup⟩ close) :
    IsValue (height + 1) ⟨number, .startGroup⟩ close
  | groupField {height number : Nat} {key : Key} {k v rest : Bytes} (isKey : IsKey key k)
    (isValue : IsValue height key v) (more : IsValue (height + 1) ⟨number, .startGroup⟩ rest) :
    IsValue (height + 1) ⟨number, .startGroup⟩ (k ++ (v ++ rest))

theorem IsValue.wireType_ne {height : Nat} {key : Key} {v : Bytes} (h : IsValue height key v) :
    key.wireType ≠ .endGroup := by
  cases h <;> exact WireType.noConfusion

/-- Stepping over the value of a key comes to the same whatever stands behind it, and goes well where
values may nest `height` deep. -/
def Skipped (height : Nat) (key : Key) (v : Bytes) : Prop :=
  ∀ depth, ∃ result : Except Cause Unit, (height ≤ depth → result = .ok ()) ∧
    ∀ rest, skipField depth key (v ++ rest) = result.map fun _ => rest

/-- The same for what is left of a group. The bound on the number of its records does not matter. -/
def SkippedGroup (height number : Nat) (v : Bytes) : Prop :=
  ∀ depth, ∃ result : Except Cause Unit, (height ≤ depth → result = .ok ()) ∧
    ∀ rest fuel, (v ++ rest).length < fuel →
      skipGroup (skipField depth) number fuel (v ++ rest) = result.map fun _ => rest

section Skipped
variable {height number : Nat} {key : Key} {v : Bytes}

theorem skipped_of_flat (h : ∀ depth rest, skipField (depth + 1) key (v ++ rest) = .ok rest) :
    Skipped (height + 1) key v := by
  intro depth
  obtain _ | depth := depth
  · exact ⟨.error .tooDeep, by omega, fun rest => by rw [skipField]; rfl⟩
  · exact ⟨.ok (), fun _ => rfl, h depth⟩

theorem SkippedGroup.skipped (h : SkippedGroup height number v) :
    Skipped (height + 1) ⟨number, .startGroup⟩ v := by
  intro depth
  obtain _ | depth := depth
  -- At depth zero nothing can be opened, whatever is in it.
  · exact ⟨.error .tooDeep, by omega, fun rest => by rw [skipField]; rfl⟩
  · obtain ⟨result, ok, skips⟩ := h depth
    refine ⟨result, fun shallow => ok (Nat.le_of_succ_le_succ shallow), fun rest => ?_⟩
    rw [skipField]
    exact skips rest _ (Nat.lt_succ_self _)

theorem skippedGroup_end (isKey : IsKey ⟨number, .endGroup⟩ v) : SkippedGroup height number v := by
  intro depth
  refine ⟨.ok (), fun _ => rfl, fun rest fuel enough => ?_⟩
  obtain _ | fuel := fuel
  · omega
  · simp only [skipGroup, isKey.read, if_pos]
    rfl

theorem skippedGroup_field {k more : Bytes} (isKey : IsKey key k) (inside : key.wireType ≠ .endGroup)
    (field : Skipped height key v) (others : SkippedGroup height number more) :
    SkippedGroup height number (k ++ (v ++ more)) := by
  intro depth
  obtain ⟨first, first_ok, skips_first⟩ := field depth
  obtain ⟨last, last_ok, skips_last⟩ := others depth
  refine ⟨first.bind fun _ => last, ?_, fun rest fuel enough => ?_⟩
  · intro shallow
    rw [first_ok shallow, last_ok shallow]
    rfl
  · obtain _ | fuel := fuel
    · omega
    · have key_pos := List.length_pos_iff.2 isKey.varint.ne_nil
      simp only [List.append_assoc, List.length_append] at enough ⊢
      simp only [skipGroup, isKey.read, if_neg inside, skips_first (more ++ rest)]
      -- A fault in the first field is that of the group, and the others are not reached.
      cases first with
      | error e => rfl
      | ok => exact skips_last rest fuel (by rw [List.length_append]; omega)

end Skipped

theorem IsValue.skipped {height : Nat} {key : Key} {v : Bytes} (h : IsValue height key v) :
    Skipped height key v := by
  -- What is left of a group is stepped over by its own recursion, so it is carried along.
  suffices Skipped height key v ∧
      (key.wireType = .startGroup → SkippedGroup (height - 1) key.number v) from this.1
  induction h with
  | varint spelled =>
    refine ⟨skipped_of_flat fun depth rest => ?_, WireType.noConfusion⟩
    simp only [skipField, spelled.read]
    rfl
  | sixtyFourBit length =>
    refine ⟨skipped_of_flat fun depth rest => ?_, WireType.noConfusion⟩
    simp only [skipField, takeBytes_of_length length]
    rfl
  | thirtyTwoBit length =>
    refine ⟨skipped_of_flat fun depth rest => ?_, WireType.noConfusion⟩
    simp only [skipField, takeBytes_of_length length]
    rfl
  | lengthDelimited spelled =>
    refine ⟨skipped_of_flat fun depth rest => ?_, WireType.noConfusion⟩
    simp only [skipField, List.append_assoc, spelled.read, takeBytes_of_length rfl]
    rfl
  | @groupEnd height number close isKey =>
    have ends : SkippedGroup height number close := skippedGroup_end isKey
    exact ⟨ends.skipped, fun _ => ends⟩
  | groupField isKey isValue _ field others =>
    have goes := skippedGroup_field isKey isValue.wireType_ne field.1 (others.2 rfl)
    exact ⟨goes.skipped, fun _ => goes⟩

theorem IsValue.skip {height : Nat} {key : Key} {v : Bytes} (h : IsValue height key v) {depth : Nat}
    (shallow : height ≤ depth) (rest : Bytes) : skipField depth key (v ++ rest) = .ok rest := by
  obtain ⟨result, ok, skips⟩ := h.skipped depth
  rw [skips rest, ok shallow]
  rfl

theorem IsValue.unique {height height' : Nat} {key : Key} {v v' rest rest' : Bytes}
    (h : IsValue height key v) (h' : IsValue height' key v') (he : v ++ rest = v' ++ rest') :
    v = v' ∧ rest = rest' := by
  have first := h.skip (Nat.le_max_left height height') rest
  have second := h'.skip (Nat.le_max_right height height') rest'
  rw [he, second] at first
  cases first
  exact ⟨List.append_cancel_right he, rfl⟩

theorem isValue_of_skipGroup {depth : Nat}
    (field : ∀ {key : Key} {bs rest : Bytes}, skipField depth key bs = .ok rest →
      ∃ v, bs = v ++ rest ∧ IsValue depth key v)
    {fuel number : Nat} {bs rest : Bytes}
    (h : skipGroup (skipField depth) number fuel bs = .ok rest) :
    ∃ v, bs = v ++ rest ∧ IsValue (depth + 1) ⟨number, .startGroup⟩ v := by
  induction fuel generalizing bs with
  | zero => cases h
  | succ fuel ih =>
    rw [skipGroup] at h
    split at h
    · cases h
    · rename_i key inner hk
      obtain ⟨k, rfl, isKey⟩ := isKey_of_read hk
      split at h
      · rename_i ends
        split at h
        · rename_i same
          cases h
          obtain ⟨_, _⟩ := key
          cases ends
          cases same
          exact ⟨k, rfl, .groupEnd isKey⟩
        · cases h
      · split at h
        · cases h
        · rename_i later skipped
          obtain ⟨v, rfl, isValue⟩ := field skipped
          -- The rest of the group is a value of the group's own key.
          obtain ⟨v', rfl, more⟩ := ih h
          exact ⟨k ++ (v ++ v'), by simp, .groupField isKey isValue more⟩

theorem isValue_of_skip {depth : Nat} {key : Key} {bs rest : Bytes}
    (h : skipField depth key bs = .ok rest) : ∃ v, bs = v ++ rest ∧ IsValue depth key v := by
  induction depth generalizing key bs rest with
  | zero =>
    rw [skipField] at h
    cases h
  | succ depth ih =>
    -- The key tells how its value is stepped over.
    obtain ⟨number, wireType⟩ := key
    cases wireType with
    | varint =>
      obtain ⟨⟨n, rest⟩, hr, rfl⟩ := exists_of_map_eq_ok h
      obtain ⟨v, hbs, spelled⟩ := isVarint_of_read hr
      exact ⟨v, hbs, .varint spelled⟩
    | sixtyFourBit =>
      obtain ⟨⟨v, rest⟩, ht, rfl⟩ := exists_of_map_eq_ok h
      obtain ⟨hbs, length⟩ := length_of_takeBytes ht
      exact ⟨v, hbs, .sixtyFourBit length⟩
    | thirtyTwoBit =>
      obtain ⟨⟨v, rest⟩, ht, rfl⟩ := exists_of_map_eq_ok h
      obtain ⟨hbs, length⟩ := length_of_takeBytes ht
      exact ⟨v, hbs, .thirtyTwoBit length⟩
    | lengthDelimited =>
      simp only [skipField] at h
      split at h
      · cases h
      · rename_i n behind hr
        obtain ⟨⟨payload, rest⟩, ht, rfl⟩ := exists_of_map_eq_ok h
        obtain ⟨length, rfl, spelled⟩ := isVarint_of_read hr
        obtain ⟨rfl, rfl⟩ := length_of_takeBytes ht
        exact ⟨length ++ payload, by simp, .lengthDelimited spelled⟩
    | startGroup => exact isValue_of_skipGroup ih h
    | endGroup => cases h

end MiningClient.Wire
