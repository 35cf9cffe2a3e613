import MiningClient.Proofs.Wire.WellFormed

namespace MiningClient.Wire

namespace Codec
variable {γ : Type} {c : Codec γ} {depth : Nat} {wireType : WireType} {u u' : γ} {bs rest : Bytes}

theorem IsScalar.of_merge (h : c.IsScalar) (merged : c.merge depth wireType u bs = .ok (u', rest)) :
    ∃ v, bs = v ++ rest ∧ ∀ number, IsValue 1 ⟨number, wireType⟩ v := by
  obtain ⟨reader⟩ := h
  rename_i expected _ _ get
  -- A reader asks for its own wire type first, and takes no other.
  by_cases hw : wireType = expected
  · subst hw
    simp only [scalar, expect_self] at merged
    cases hg : get bs with
    | error e =>
      rw [hg] at merged
      cases merged
    | ok r =>
      rw [hg] at merged
      cases merged
      exact reader.sound hg
  · simp only [scalar, expect, if_neg hw] at merged
    cases merged

theorem Nests.of_merge {β : Type} [Message β] (h : c.Nests β)
    (merged : c.merge depth wireType u bs = .ok (u', rest)) :
    ∃ m m' : β, mergeNested depth wireType m bs = .ok (m', rest) := by
  cases h with
  | optional =>
    obtain ⟨⟨m', rest⟩, hm, he⟩ := exists_of_map_eq_ok merged
    cases he
    exact ⟨_, m', hm⟩
  | repeated =>
    obtain ⟨⟨m', rest⟩, hm, he⟩ := exists_of_map_eq_ok merged
    cases he
    exact ⟨_, m', hm⟩

/-- A field of one value, or of messages all of whose fields are such again. -/
class inductive Regular : {γ : Type} → Codec γ → Prop
  | scalar {γ : Type} {c : Codec γ} (isScalar : c.IsScalar) : Regular c
  | nested {γ β : Type} [Message β] {c : Codec γ} (nests : c.Nests β)
    (fields : ∀ f ∈ Message.fields (α := β), Regular f.codec) : Regular c

end Codec

/-- A type of messages with regular fields. -/
class RegularMessage (α : Type) [Message α] : Prop where
  codec : ∀ f ∈ Message.fields (α := α), f.codec.Regular := by
    simp only [Message.fields, List.forall_mem_cons, List.not_mem_nil, false_imp_iff, implies_true,
      and_true]
    repeat' apply And.intro
    all_goals infer_instance

namespace Codec

instance : text.Regular := .scalar (.mk exact_text)
instance : single.Regular := .scalar (.mk exact_single)
instance : unsigned.Regular := .scalar (.mk (exact_varint UInt32.ofNat))
instance : signed.Regular := .scalar (.mk (exact_varint Int32.ofNat))
instance : flag.Regular := .scalar (.mk (exact_varint (· != 0)))

variable {β : Type} [Message β] [regular : RegularMessage β]

instance : (optional (β := β)).Regular := .nested .optional regular.codec
instance : (repeated (β := β)).Regular := .nested .repeated regular.codec

end Codec

/-- A record that may stand in a well-formed sequence and does the same to every message. -/
structure Fits (α : Type) [Message α] (height : Nat) (key : Key) (r : Bytes) : Prop where
  isRecord : IsRecord height key r
  acts : ∀ depth, Acts α depth key.number r
  cons : ∀ {more : Bytes}, WellFormed α more → WellFormed α (r ++ more)

section
variable {α : Type} [Message α]

def ReadsFitting (α : Type) [Message α] (depth : Nat) : Prop :=
  ∀ (m m' : α) (bs rest : Bytes), mergeRecord depth m bs = .ok (m', rest) →
    ∃ height key r, bs = r ++ rest ∧ Fits α height key r

theorem ReadsFitting.wellFormed {depth : Nat} (reads : ReadsFitting α depth) {limit fuel : Nat}
    {m m' : α} {bs rest : Bytes} (h : mergeUntil depth limit fuel m bs = .ok (m', rest)) :
    ∃ c, bs = c ++ rest ∧ WellFormed α c := by
  induction fuel generalizing m bs with
  | zero =>
    cases h
    exact ⟨[], rfl, .nil⟩
  | succ fuel ih =>
    rw [Wire.mergeUntil] at h
    split at h
    · cases h
      exact ⟨[], rfl, .nil⟩
    · split at h
      · cases h
      · rename_i hr
        obtain ⟨height, key, r, rfl, fits⟩ := reads _ _ _ _ hr
        obtain ⟨c, rfl, wellFormed⟩ := ih h
        exact ⟨r ++ c, (List.append_assoc r c rest).symm, fits.cons wellFormed⟩

theorem mergeUntil_nil (depth limit fuel : Nat) (m : α) :
    mergeUntil depth limit fuel m [] = .ok (m, []) := by
  cases fuel with
  | zero => rfl
  | succ fuel => exact if_pos (Nat.zero_le limit)

/-- The bound on the number of records does not matter when it is not below the number of bytes. -/
theorem ReadsFitting.mergeUntil_eq {depth : Nat} (reads : ReadsFitting α depth)
    {limit fuel fuel' : Nat} {m : α} {bs : Bytes} (enough : bs.length ≤ fuel)
    (enough' : bs.length ≤ fuel') :
    mergeUntil depth limit fuel m bs = mergeUntil depth limit fuel' m bs := by
  induction fuel generalizing fuel' m bs with
  | zero =>
    obtain rfl := List.length_eq_zero_iff.1 (Nat.le_zero.1 enough)
    rw [mergeUntil_nil, mergeUntil_nil]
  | succ fuel ih =>
    cases fuel' with
    | zero =>
      obtain rfl := List.length_eq_zero_iff.1 (Nat.le_zero.1 enough')
      rw [mergeUntil_nil, mergeUntil_nil]
    | succ fuel' =>
      rw [mergeUntil, mergeUntil]
      split
      · rfl
      · split
        · rfl
        · rename_i hr
          obtain ⟨height, key, r, rfl, fits⟩ := reads _ _ _ _ hr
          have positive := List.length_pos_iff.2 fits.isRecord.ne_nil
          rw [List.length_append] at enough enough'
          exact ih (by omega) (by omega)

/-- A message with its length in front is read to its end from what fits at a lower depth. -/
theorem wellFormed_of_mergeNested {depth : Nat} (reads : ∀ lower < depth, ReadsFitting α lower)
    {wireType : WireType} {m m' : α} {bs rest : Bytes}
    (h : mergeNested depth wireType m bs = .ok (m', rest)) :
    wireType = .lengthDelimited ∧ ∃ length payload, bs = length ++ payload ++ rest ∧
      IsVarint payload.length length ∧ WellFormed α payload := by
  by_cases hw : wireType = .lengthDelimited
  · refine ⟨hw, ?_⟩
    simp only [mergeNested, hw, expect_self] at h
    split at h
    · cases h
    · rename_i depth
      split at h
      · cases h
      · rename_i n behind hv
        obtain ⟨length, rfl, spelled⟩ := isVarint_of_read hv
        split at h
        · cases h
        · split at h
          · cases h
          · rename_i hu
            split at h
            · rename_i hl
              cases h
              obtain ⟨payload, rfl, wellFormed⟩ := (reads depth (Nat.lt_succ_self _)).wellFormed hu
              -- The length in front is that of what was read, since what is left is the same.
              have hn : payload.length = n := by
                simp only [List.length_append] at *
                omega
              exact ⟨length, payload, by simp, hn ▸ spelled, wellFormed⟩
            · cases h
  · rw [mergeNested_other hw] at h
    cases h

end

theorem fits_of_flat {α : Type} [Message α] {height : Nat} {key : Key} {r : Bytes}
    (isRecord : IsRecord height key r) (flat : Flat α key) : Fits α height key r :=
  ⟨isRecord, flat.acts isRecord, .flat isRecord flat⟩

/-- What is read without a fault fits, whatever the depth. -/
theorem readsFitting (α : Type) [Message α] [regular : RegularMessage α] (depth : Nat) :
    ReadsFitting α depth := by
  induction depth using Nat.strongRecOn generalizing α with
  | _ depth ih =>
    intro m m' bs rest h
    unfold mergeRecord at h
    split at h
    · cases h
    · rename_i key behind hk
      -- First the key, which tells whether the message has such a field.
      obtain ⟨k, rfl, isKey⟩ := isKey_of_read hk
      split at h
      · rename_i f found
        split at h
        · cases h
        · rename_i merged
          cases h
          cases regular.codec f (Message.mem_of_field? found).1 with
          | scalar isScalar =>
            obtain ⟨v, rfl, isValue⟩ := isScalar.of_merge merged
            exact ⟨1, key, k ++ v, by simp, fits_of_flat ⟨isKey, isValue _⟩ (.scalar found isScalar)⟩
          | @nested _ β _ _ nests fields =>
            -- The inner message is of a regular type again, and it is read one level deeper.
            have : RegularMessage β := ⟨fields⟩
            obtain ⟨_, _, hn⟩ := nests.of_merge merged
            obtain ⟨hw, length, payload, rfl, spelled, inner⟩ :=
              wellFormed_of_mergeNested (fun lower deeper => ih lower deeper β) hn
            obtain ⟨number, _⟩ := key
            cases hw
            refine ⟨1, _, k ++ (length ++ payload), by simp, ⟨isKey, .lengthDelimited spelled⟩, ?_,
              .nested isKey spelled found nests inner⟩
            intro depth
            exact acts_known isKey found (nests.told (Told.mergeNested inner.told spelled depth))
      · rename_i unknown
        split at h
        · cases h
        · rename_i skipped
          cases h
          obtain ⟨v, rfl, isValue⟩ := isValue_of_skip skipped
          exact ⟨_, key, k ++ v, by simp, fits_of_flat ⟨isKey, isValue⟩ (.unknown unknown)⟩

def readInto {α : Type} [Message α] (m : α) (bs : Bytes) : Except Fault α :=
  (mergeUntil maxDepth 0 bs.length m bs).map (·.1)

theorem IsRecord.unique {height height' : Nat} {key key' : Key} {r r' rest rest' : Bytes}
    (h : IsRecord height key r) (h' : IsRecord height' key' r') (he : r ++ rest = r' ++ rest') :
    key = key' ∧ r = r' ∧ rest = rest' := by
  cases h with | @mk k v isKey isValue
  cases h' with | @mk k' v' isKey' isValue'
  rw [List.append_assoc, List.append_assoc] at he
  -- The keys are read alike, and then a value ends where its key says.
  have read := isKey.read (v ++ rest)
  rw [he, isKey'.read] at read
  obtain ⟨rfl, hv⟩ := Prod.mk.inj (Except.ok.inj read)
  obtain ⟨rfl, rfl⟩ := isValue'.unique isValue hv
  exact ⟨rfl, congrArg (· ++ v') (List.append_cancel_right he), rfl⟩

section
variable {α : Type} [Message α] [regular : RegularMessage α]
include regular

theorem readInto_step {bs : Bytes} (hbs : bs ≠ []) (m : α) :
    readInto m bs =
      match mergeRecord maxDepth m bs with
      | .error e => .error e
      | .ok (m, rest) => readInto m rest := by
  have reads := readsFitting α maxDepth
  obtain ⟨b, tail, rfl⟩ := List.exists_cons_of_ne_nil hbs
  rw [readInto, List.length_cons, mergeUntil, if_neg (by simp)]
  cases hr : mergeRecord maxDepth m (b :: tail) with
  | error e => rfl
  | ok read =>
    obtain ⟨m', rest⟩ := read
    obtain ⟨height, key, r, split, fits⟩ := reads _ _ _ _ hr
    have positive := List.length_pos_iff.2 fits.isRecord.ne_nil
    -- The first record is not empty, so the bound that is left is large enough.
    have total := congrArg List.length split
    rw [List.length_cons, List.length_append] at total
    exact congrArg _ (reads.mergeUntil_eq (by omega) (Nat.le_refl _))

theorem fits_of_readInto {height : Nat} {key : Key} {r rest : Bytes}
    (isRecord : IsRecord height key r) {m m' : α} (h : readInto m (r ++ rest) = .ok m') :
    ∃ m₁, Fits α height key r ∧ mergeRecord maxDepth m (r ++ rest) = .ok (m₁, rest) ∧
      readInto m₁ rest = .ok m' := by
  rw [readInto_step (by simp [isRecord.ne_nil])] at h
  split at h
  · cases h
  · rename_i m₁ behind hr
    obtain ⟨height', key', r', split, fits⟩ := readsFitting α maxDepth _ _ _ _ hr
    obtain ⟨rfl, rfl, rfl⟩ := isRecord.unique fits.isRecord split
    exact ⟨m₁, ⟨isRecord, fits.acts, fits.cons⟩, hr, h⟩

theorem Records.wellFormed {x : Bytes} (records : Records x) {rest : Bytes} {m m' : α}
    (h : readInto m (x ++ rest) = .ok m') : WellFormed α x := by
  induction records generalizing m with
  | nil => exact .nil
  | @cons height key r more isRecord _ ih =>
    rw [List.append_assoc] at h
    obtain ⟨m₁, fits, -, h⟩ := fits_of_readInto isRecord h
    exact fits.cons (ih h)

/-- Well-formed bytes are told to every message that they are read into. -/
theorem WellFormed.readInto {x : Bytes} (wellFormed : WellFormed α x) :
    (∃ g : α → α, ∀ m rest, readInto m (x ++ rest) = readInto (g m) rest) ∨
      ∃ fault, ∀ (m : α) rest, readInto m (x ++ rest) = .error fault := by
  cases wellFormed.told maxDepth with
  | changes g reads =>
    refine .inl ⟨g, fun m rest => ?_⟩
    obtain ⟨fuel, enough, he⟩ := reads m rest 0 _ (Nat.zero_le _) (Nat.le_refl _)
    rw [Wire.readInto, he, (readsFitting α maxDepth).mergeUntil_eq enough (Nat.le_refl _)]
    rfl
  | fails fault fails =>
    refine .inr ⟨fault, fun m rest => ?_⟩
    rw [Wire.readInto, fails m rest 0 _ (Nat.zero_le _) (Nat.le_refl _)]
    rfl

end

end MiningClient.Wire
