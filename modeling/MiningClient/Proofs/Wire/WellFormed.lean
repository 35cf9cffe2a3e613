import MiningClient.Proofs.Wire.Grammar
import MiningClient.Proofs.Wire.Lawful

namespace MiningClient.Wire

def Message.field? (α : Type) [Message α] (number : Nat) : Option (Field α) :=
  (Message.fields (α := α)).find? (·.number == number)

theorem Message.mem_of_field? {α : Type} [Message α] {number : Nat} {f : Field α}
    (h : Message.field? α number = some f) :
    f ∈ Message.fields (α := α) ∧ f.number = number := by
  unfold Message.field? at h
  have found := List.find?_some h
  exact ⟨List.mem_of_find?_eq_some h, beq_iff_eq.1 found⟩

theorem mergeNested_other {β : Type} [Message β] {wireType : WireType}
    (hw : wireType ≠ .lengthDelimited) (depth : Nat) (m : β) (bs : Bytes) :
    mergeNested depth wireType m bs =
      .error ⟨[], .unexpectedWireType wireType .lengthDelimited⟩ := by
  simp only [mergeNested, expect, if_neg hw]

namespace Codec

/-- A reader that takes the value of a wire type, whatever stands behind it. -/
structure Exact {β : Type} (wireType : WireType) (get : Bytes → Except Cause (β × Bytes)) :
    Prop where
  complete : ∀ {height number : Nat} {v : Bytes}, IsValue height ⟨number, wireType⟩ v →
    ∃ result : Except Cause β, ∀ rest, get (v ++ rest) = result.map (·, rest)
  sound : ∀ {bs rest : Bytes} {x : β}, get bs = .ok (x, rest) →
    ∃ v, bs = v ++ rest ∧ ∀ number, IsValue 1 ⟨number, wireType⟩ v

theorem exact_varint {β : Type} (f : Nat → β) :
    Exact .varint fun bs => (readVarint bs).map fun (n, rest) => (f n, rest) where
  complete h := by
    cases h with
    | varint spelled => exact ⟨.ok (f _), fun rest => by rw [spelled.read]; rfl⟩
  sound h := by
    obtain ⟨⟨n, rest⟩, hr, he⟩ := exists_of_map_eq_ok h
    cases he
    obtain ⟨v, hbs, spelled⟩ := isVarint_of_read hr
    exact ⟨v, hbs, fun _ => .varint spelled⟩

theorem exact_text : Exact .lengthDelimited readText where
  complete h := by
    cases h with
    | @lengthDelimited _ _ length payload spelled =>
      -- Whether the payload is text does not depend on what stands behind it.
      have read : ∀ rest, readDelimited (length ++ payload ++ rest) = .ok (payload, rest) := by
        intro rest
        rw [List.append_assoc, readDelimited, spelled.read]
        exact takeBytes_of_length rfl rest
      cases hd : Utf8.decode? payload with
      | none => exact ⟨.error .textNotUtf8, fun rest => by simp only [readText, read, hd]; rfl⟩
      | some s => exact ⟨.ok s, fun rest => by simp only [readText, read, hd]; rfl⟩
  sound h := by
    unfold readText at h
    split at h
    · cases h
    · rename_i payload rest hr
      split at h
      · cases h
        unfold readDelimited at hr
        split at hr
        · cases hr
        · rename_i n behind hv
          obtain ⟨length, rfl, spelled⟩ := isVarint_of_read hv
          obtain ⟨rfl, rfl⟩ := length_of_takeBytes hr
          exact ⟨length ++ payload, by simp, fun _ => .lengthDelimited spelled⟩
      · cases h

theorem exact_single : Exact .thirtyTwoBit readSingle where
  complete {_ _ v} h := by
    cases h with
    | thirtyTwoBit length =>
      -- Four bytes are read, whatever they are.
      match v, length with
      | [a, b, c, d], _ => exact ⟨.ok ⟨Bytes.toWord a b c d⟩, fun _ => rfl⟩
  sound {bs rest x} h := by
    match bs, h with
    | a :: b :: c :: d :: _, h =>
      cases h
      exact ⟨[a, b, c, d], rfl, fun _ => .thirtyTwoBit rfl⟩

/-- A field of one value that is no message. -/
inductive IsScalar : {γ : Type} → Codec γ → Prop
  | mk {γ : Type} [DecidableEq γ] {initial : γ} {wireType : WireType} {isDefault : γ → Bool}
    {put : γ → Bytes} {get : Bytes → Except Cause (γ × Bytes)} (reader : Exact wireType get) :
    IsScalar (scalar initial wireType isDefault put get)

/-- A field of messages of a type, one or many. -/
inductive Nests (β : Type) [Message β] : {γ : Type} → Codec γ → Prop
  | optional : Nests β (optional (β := β))
  | repeated : Nests β (repeated (β := β))

/-- Reading `v` into a field comes to the same change of its value, or to the same fault, whatever the
value is and whatever stands behind. -/
inductive Told {γ : Type} (c : Codec γ) (depth : Nat) (wireType : WireType) (v : Bytes) : Prop
  | changes (change : γ → γ)
    (reads : ∀ u rest, c.merge depth wireType u (v ++ rest) = .ok (change u, rest))
  | fails (fault : Fault) (fails : ∀ u rest, c.merge depth wireType u (v ++ rest) = .error fault)

section Told
variable {γ : Type} {c : Codec γ}

theorem IsScalar.told (h : c.IsScalar) {height number : Nat} {wireType : WireType} {v : Bytes}
    (isValue : IsValue height ⟨number, wireType⟩ v) (depth : Nat) : c.Told depth wireType v := by
  obtain ⟨reader⟩ := h
  rename_i expected _ _ get
  -- Another wire type is refused before the value is looked at.
  by_cases hw : wireType = expected
  · subst hw
    obtain ⟨result, reads⟩ := reader.complete isValue
    cases result with
    | ok x =>
      refine .changes (fun _ => x) fun _ rest => ?_
      simp only [scalar, expect_self, reads rest]
      rfl
    | error e =>
      refine .fails ⟨[], e⟩ fun _ rest => ?_
      simp only [scalar, expect_self, reads rest]
      rfl
  · refine .fails ⟨[], .unexpectedWireType wireType expected⟩ fun _ rest => ?_
    simp only [scalar, expect, if_neg hw]

theorem Nests.told_other {β : Type} [Message β] (h : c.Nests β) {wireType : WireType}
    (hw : wireType ≠ .lengthDelimited) (depth : Nat) (v : Bytes) : c.Told depth wireType v := by
  refine .fails ⟨[], .unexpectedWireType wireType .lengthDelimited⟩ fun u rest => ?_
  cases h with
  | optional => simp only [Codec.optional, mergeNested_other hw]; rfl
  | repeated => simp only [Codec.repeated, mergeNested_other hw]; rfl

/-- A field of messages is told by how its messages are read. -/
theorem Nests.told {β : Type} [Message β] (h : c.Nests β) {depth : Nat} {wireType : WireType}
    {v : Bytes}
    (inner :
      (∃ g : β → β, ∀ m rest, mergeNested depth wireType m (v ++ rest) = .ok (g m, rest)) ∨
        ∃ fault, ∀ (m : β) rest, mergeNested depth wireType m (v ++ rest) = .error fault) :
    c.Told depth wireType v := by
  obtain ⟨g, reads⟩ | ⟨fault, fails⟩ := inner
  · cases h with
    | optional =>
      refine .changes (fun u => some (g (u.getD Message.empty))) fun u rest => ?_
      simp only [Codec.optional, reads]
      rfl
    | repeated =>
      refine .changes (fun u => u ++ [g Message.empty]) fun u rest => ?_
      simp only [Codec.repeated, reads]
      rfl
  · refine .fails fault fun u rest => ?_
    cases h with
    | optional => simp only [Codec.optional, fails]; rfl
    | repeated => simp only [Codec.repeated, fails]; rfl

end Told
end Codec

inductive IsRecord (height : Nat) (key : Key) : Bytes → Prop
  | mk {k v : Bytes} (isKey : IsKey key k) (isValue : IsValue height key v) :
    IsRecord height key (k ++ v)

/-- Records one after another, whatever their fields are. -/
inductive Records : Bytes → Prop
  | nil : Records []
  | cons {height : Nat} {key : Key} {r rest : Bytes} (isRecord : IsRecord height key r)
    (more : Records rest) : Records (r ++ rest)

/-- No message is read from a record with the key: the number is of no field or of a field of one
value, or the wire type is not that of messages. -/
inductive Flat (α : Type) [Message α] (key : Key) : Prop
  | unknown (unknown : Message.field? α key.number = none)
  | scalar {f : Field α} (found : Message.field? α key.number = some f)
    (isScalar : f.codec.IsScalar)
  | mistyped {β : Type} [Message β] {f : Field α} (found : Message.field? α key.number = some f)
    (nests : f.codec.Nests β) (other : key.wireType ≠ .lengthDelimited)

/-- Records one after another, and what stands in the fields of messages is such a sequence again. -/
inductive WellFormed : (α : Type) → [Message α] → Bytes → Prop
  | nil {α : Type} [Message α] : WellFormed α []
  | flat {α : Type} [Message α] {height : Nat} {key : Key} {r rest : Bytes}
    (isRecord : IsRecord height key r) (flat : Flat α key) (more : WellFormed α rest) :
    WellFormed α (r ++ rest)
  | nested {α β : Type} [Message α] [Message β] {number : Nat} {k length payload rest : Bytes}
    {f : Field α} (isKey : IsKey ⟨number, .lengthDelimited⟩ k)
    (spelled : IsVarint payload.length length) (found : Message.field? α number = some f)
    (nests : f.codec.Nests β) (inner : WellFormed β payload) (more : WellFormed α rest) :
    WellFormed α (k ++ (length ++ payload) ++ rest)

theorem IsRecord.ne_nil {height : Nat} {key : Key} {r : Bytes} (h : IsRecord height key r) :
    r ≠ [] := by
  obtain ⟨isKey, -⟩ := h
  simp [isKey.varint.ne_nil]

/-- A change of the field of a number, or none when there is no such field. -/
inductive Changes (α : Type) [Message α] (number : Nat) : (α → α) → Prop
  | unknown (unknown : Message.field? α number = none) : Changes α number id
  | field {f : Field α} (found : Message.field? α number = some f) (change : f.β → f.β) :
    Changes α number fun m => f.set (change (f.get m)) m

section
variable {α : Type} [Message α]

/-- What a record with the field number does to a message, whatever is in it and stands behind. -/
inductive Acts (α : Type) [Message α] (depth number : Nat) (r : Bytes) : Prop
  | changes (g : α → α) (changes : Changes α number g)
    (reads : ∀ m rest, mergeRecord depth m (r ++ rest) = .ok (g m, rest))
  | fails (fault : Fault) (fails : ∀ (m : α) rest, mergeRecord depth m (r ++ rest) = .error fault)

/-- What bytes do to a message, whatever is in it and stands behind. -/
inductive Told (α : Type) [Message α] (depth : Nat) (bs : Bytes) : Prop
  | changes (g : α → α) (reads : ∀ m rest limit fuel, limit ≤ rest.length →
      (bs ++ rest).length ≤ fuel → ∃ fuel', rest.length ≤ fuel' ∧
        mergeUntil depth limit fuel m (bs ++ rest) = mergeUntil depth limit fuel' (g m) rest)
  | fails (fault : Fault) (fails : ∀ (m : α) rest limit fuel, limit ≤ rest.length →
      (bs ++ rest).length ≤ fuel → mergeUntil depth limit fuel m (bs ++ rest) = .error fault)

theorem mergeRecord_unknown {key : Key} {k : Bytes} (isKey : IsKey key k)
    (unknown : Message.field? α key.number = none) (depth : Nat) (m : α) (bs : Bytes) :
    mergeRecord depth m (k ++ bs) =
      ((skipField depth key bs).mapError fun e => ⟨[], e⟩).map fun rest => (m, rest) := by
  unfold Message.field? at unknown
  simp only [mergeRecord, isKey.read, unknown]
  cases skipField depth key bs <;> rfl

theorem mergeRecord_known {key : Key} {k : Bytes} (isKey : IsKey key k) {f : Field α}
    (found : Message.field? α key.number = some f) (depth : Nat) (m : α) (bs : Bytes) :
    mergeRecord depth m (k ++ bs) =
      ((f.codec.merge depth key.wireType (f.get m) bs).mapError
        (·.within (Message.name α) f.name)).map fun x => (f.set x.1 m, x.2) := by
  unfold Message.field? at found
  simp only [mergeRecord, isKey.read, found]
  cases f.codec.merge depth key.wireType (f.get m) bs <;> rfl

theorem acts_unknown {height : Nat} {key : Key} {k v : Bytes} (isKey : IsKey key k)
    (isValue : IsValue height key v) (unknown : Message.field? α key.number = none) (depth : Nat) :
    Acts α depth key.number (k ++ v) := by
  obtain ⟨result, -, skips⟩ := isValue.skipped depth
  cases result with
  | ok =>
    refine .changes id (.unknown unknown) fun m rest => ?_
    rw [List.append_assoc, mergeRecord_unknown isKey unknown, skips rest]
    rfl
  | error e =>
    refine .fails ⟨[], e⟩ fun m rest => ?_
    rw [List.append_assoc, mergeRecord_unknown isKey unknown, skips rest]
    rfl

theorem acts_known {key : Key} {k v : Bytes} {depth : Nat} {f : Field α} (isKey : IsKey key k)
    (found : Message.field? α key.number = some f) (told : f.codec.Told depth key.wireType v) :
    Acts α depth key.number (k ++ v) := by
  cases told with
  | changes change reads =>
    refine .changes _ (.field found change) fun m rest => ?_
    rw [List.append_assoc, mergeRecord_known isKey found, reads]
    rfl
  | fails fault fails =>
    refine .fails (fault.within (Message.name α) f.name) fun m rest => ?_
    rw [List.append_assoc, mergeRecord_known isKey found, fails]
    rfl

theorem Flat.acts {height : Nat} {key : Key} {r : Bytes} (flat : Flat α key)
    (isRecord : IsRecord height key r) (depth : Nat) : Acts α depth key.number r := by
  obtain ⟨isKey, isValue⟩ := isRecord
  cases flat with
  | unknown unknown => exact acts_unknown isKey isValue unknown depth
  | scalar found isScalar => exact acts_known isKey found (isScalar.told isValue depth)
  | mistyped found nests other => exact acts_known isKey found (nests.told_other other depth _)

theorem told_nil (depth : Nat) : Told α depth [] :=
  .changes id fun _ _ _ fuel _ enough => ⟨fuel, enough, rfl⟩

theorem mergeUntil_succ {limit : Nat} {bs : Bytes} (h : limit < bs.length) (depth fuel : Nat)
    (m : α) : mergeUntil depth limit (fuel + 1) m bs =
      (mergeRecord depth m bs).bind fun x => mergeUntil depth limit fuel x.1 x.2 := by
  rw [mergeUntil, if_neg (Nat.not_le.mpr h)]
  cases mergeRecord depth m bs <;> rfl

theorem Acts.told {depth number : Nat} {r bs : Bytes} (acts : Acts α depth number r) (hr : r ≠ [])
    (others : Told α depth bs) : Told α depth (r ++ bs) := by
  have positive := List.length_pos_iff.2 hr
  -- The record takes a step of the reading, and the bound goes down by one.
  have first : ∀ (m : α) (rest : Bytes) (limit fuel : Nat), limit ≤ rest.length →
      (r ++ bs ++ rest).length ≤ fuel → ∃ fuel', (bs ++ rest).length ≤ fuel' ∧
        mergeUntil depth limit fuel m (r ++ bs ++ rest) =
          (mergeRecord depth m (r ++ (bs ++ rest))).bind
            fun x => mergeUntil depth limit fuel' x.1 x.2 := by
    intro m rest limit fuel hlimit enough
    simp only [List.append_assoc, List.length_append] at enough ⊢
    obtain _ | fuel := fuel
    · omega
    · refine ⟨fuel, by omega, mergeUntil_succ ?_ depth fuel m⟩
      simp only [List.length_append]
      omega
  cases acts with
  | fails fault fails =>
    refine .fails fault fun m rest limit fuel hlimit enough => ?_
    obtain ⟨fuel', -, he⟩ := first m rest limit fuel hlimit enough
    rw [he, fails]
    rfl
  | changes g _ reads =>
    -- The record goes well, so what comes after it decides.
    cases others with
    | fails fault fails =>
      refine .fails fault fun m rest limit fuel hlimit enough => ?_
      obtain ⟨fuel', enough', he⟩ := first m rest limit fuel hlimit enough
      rw [he, reads]
      exact fails (g m) rest limit fuel' hlimit enough'
    | changes g' reads' =>
      refine .changes (g' ∘ g) fun m rest limit fuel hlimit enough => ?_
      obtain ⟨fuel', enough', he⟩ := first m rest limit fuel hlimit enough
      rw [he, reads]
      exact reads' (g m) rest limit fuel' hlimit enough'

/-- A message with its length in front is told by its own bytes. -/
theorem Told.mergeNested {length payload : Bytes} (told : ∀ depth, Told α depth payload)
    (spelled : IsVarint payload.length length) (depth : Nat) :
    (∃ g : α → α, ∀ m rest, mergeNested depth .lengthDelimited m (length ++ payload ++ rest) =
      .ok (g m, rest)) ∨
    ∃ fault, ∀ (m : α) rest,
      mergeNested depth .lengthDelimited m (length ++ payload ++ rest) = .error fault := by
  obtain _ | depth := depth
  · exact .inr ⟨⟨[], .tooDeep⟩, fun m rest => by simp only [Wire.mergeNested, expect_self]⟩
  · have opened : ∀ (m : α) (rest : Bytes),
        Wire.mergeNested (depth + 1) .lengthDelimited m (length ++ payload ++ rest) =
          (mergeUntil depth rest.length (payload ++ rest).length m (payload ++ rest)).bind fun x =>
            if x.2.length = rest.length then .ok x else .error ⟨[], .lengthExceeded⟩ := by
      intro m rest
      have limit : (payload ++ rest).length - payload.length = rest.length := by simp
      simp only [Wire.mergeNested, expect_self, List.append_assoc, spelled.read, limit]
      rw [if_neg (by simp)]
      cases mergeUntil depth rest.length (payload ++ rest).length m (payload ++ rest) <;> rfl
    cases told depth with
    | changes g reads =>
      refine .inl ⟨g, fun m rest => ?_⟩
      obtain ⟨fuel', -, he⟩ := reads m rest rest.length _ (Nat.le_refl _) (Nat.le_refl _)
      -- The message has been read to its end, so the reading stops there.
      have stops : mergeUntil depth rest.length fuel' (g m) rest = .ok (g m, rest) := by
        obtain _ | fuel' := fuel'
        · rfl
        · rw [mergeUntil, if_pos (Nat.le_refl _)]
      rw [opened, he, stops]
      exact if_pos rfl
    | fails fault fails =>
      refine .inr ⟨fault, fun m rest => ?_⟩
      rw [opened, fails m rest rest.length _ (Nat.le_refl _) (Nat.le_refl _)]
      rfl

end

theorem WellFormed.told {α : Type} [Message α] {bs : Bytes} (h : WellFormed α bs) (depth : Nat) :
    Told α depth bs := by
  -- A message in a field is read one level deeper, so the depth is general.
  induction h generalizing depth with
  | nil => exact told_nil depth
  | flat isRecord flat _ more => exact (flat.acts isRecord depth).told isRecord.ne_nil (more depth)
  | nested isKey spelled found nests _ _ inner more =>
    have nonempty := isKey.varint.ne_nil
    have message := nests.told (Told.mergeNested inner spelled depth)
    exact (acts_known isKey found message).told (by simp [nonempty]) (more depth)

end MiningClient.Wire
