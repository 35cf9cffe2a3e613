import Mathlib.Data.List.Forall2
import MiningClient.Proofs.Rpc.TrailerText
import MiningClient.Proofs.Text.Pieces

namespace MiningClient

/-- The characters of a token, in either case, and the double quote. -/
def IsToken (c : Char) : Prop :=
  c.isAlpha = true ∨ c.isDigit = true ∨ c ∈ "!\x22#$%&'*+-.^_\x60|~".toList

/-- A name as it may be written. -/
structure IsName (cs : List Char) : Prop where
  ne_nil : cs ≠ []
  token : ∀ c ∈ cs, IsToken c

/-- A value holds no control character but the tab. -/
def IsValue (cs : List Char) : Prop :=
  ∀ b ∈ Utf8.encode (String.ofList cs), b ≠ 0x7F ∧ (b < 0x20 → b = 0x09)

theorem isNameChar_toLower {c : Char} : isNameChar c.toLower = true ↔ IsToken c := by
  have alpha : c.isAlpha = (c.isUpper || c.isLower) := rfl
  by_cases upper : c.val ≥ 'A'.val ∧ c.val ≤ 'Z'.val
  -- The capital letters move to the lower case ones, and no other character moves.
  · have moved : c.toLower.val = c.val + ('a'.val - 'A'.val) := congrArg Char.val (dif_pos upper)
    have isUpper : c.isUpper = true := decide_eq_true upper
    have bounds : 'a'.val ≤ c.toLower.val ∧ c.toLower.val ≤ 'z'.val := by
      rw [moved]
      simp only [ge_iff_le, UInt32.le_iff_toNat_le, UInt32.toNat_add, Char.reduceVal,
        UInt32.reduceSub, UInt32.reduceToNat] at upper ⊢
      omega
    have isLower : c.toLower.isLower = true :=
      Bool.and_eq_true_iff.2 ⟨decide_eq_true bounds.1, decide_eq_true bounds.2⟩
    exact iff_of_true (by simp [isNameChar, isLower]) (.inl (by simp [alpha, isUpper]))
  · have same : c.toLower = c := dif_neg upper
    have notUpper : c.isUpper = false := decide_eq_false upper
    simp only [same, isNameChar, IsToken, alpha, notUpper, Bool.false_or, Bool.or_eq_true,
      List.contains_iff_mem, or_assoc]

theorem isValueByte_iff {b : UInt8} : isValueByte b = true ↔ b ≠ 0x7F ∧ (b < 0x20 → b = 0x09) := by
  simp only [isValueByte, Bool.or_eq_true, Bool.and_eq_true, beq_iff_eq, bne_iff_ne,
    decide_eq_true_eq, ← UInt8.toNat_inj, UInt8.le_iff_toNat_le, UInt8.lt_iff_toNat_lt, ne_eq,
    UInt8.reduceToNat]
  omega

theorem isHeaderName_lowercase {cs : List Char} (short : cs.length ≤ maxNameLength) :
    isHeaderName (Text.lowercase (String.ofList cs)).toList = true ↔ IsName cs := by
  simp only [isHeaderName, Text.lowercase, String.toList_ofList, Bool.and_eq_true,
    Bool.not_eq_true', List.isEmpty_eq_false_iff, ne_eq, List.map_eq_nil_iff, List.all_map,
    List.all_eq_true, Function.comp, isNameChar_toLower, List.length_map, decide_eq_true_eq]
  exact ⟨fun h => ⟨h.1.1, h.1.2⟩, fun h => ⟨⟨h.ne_nil, h.token⟩, short⟩⟩

namespace HeaderName
variable {cs : List Char}

theorem ofText?_eq_some (short : cs.length ≤ maxNameLength) {name : HeaderName} :
    ofText? (String.ofList cs) = some name ↔
      IsName cs ∧ name.text = Text.lowercase (String.ofList cs) := by
  -- A name carries the proof that its text is valid, so only the text is compared.
  obtain ⟨text, valid⟩ := name
  rw [← isHeaderName_lowercase short]
  unfold ofText?
  split
  · rename_i h
    simp [h, eq_comm]
  · rename_i h
    simp [h]

theorem ofText?_eq_none (short : cs.length ≤ maxNameLength) :
    ofText? (String.ofList cs) = none ↔ ¬IsName cs := by
  rw [← isHeaderName_lowercase short]
  unfold ofText?
  split <;> simp_all

end HeaderName

namespace HeaderValue
variable {cs : List Char}

theorem all_isValueByte : (Utf8.encode (String.ofList cs)).all isValueByte = true ↔ IsValue cs := by
  rw [List.all_eq_true]
  exact forall₂_congr fun b _ => isValueByte_iff

theorem ofText?_eq_some {value : HeaderValue} :
    ofText? (String.ofList cs) = some value ↔
      IsValue cs ∧ value.bytes = Utf8.encode (String.ofList cs) ∧ value.sensitive = false := by
  obtain ⟨bytes, sensitive, valid⟩ := value
  rw [← all_isValueByte]
  unfold ofText? ofBytes?
  split
  · rename_i h
    simp [h, eq_comm]
  · rename_i h
    simp [h]

theorem ofText?_eq_none : ofText? (String.ofList cs) = none ↔ ¬IsValue cs := by
  rw [← all_isValueByte]
  unfold ofText? ofBytes?
  split <;> simp_all

end HeaderValue

namespace Trailers

/-- The parts of a line around its first colon. -/
structure Cut (line before after : List Char) : Prop where
  joined : line = before ++ ':' :: after
  first : ':' ∉ before

/-- What a line says, or which rule it breaks. -/
inductive ReadsLine (line : List Char) :
    Except ProtocolError (Option (HeaderName × HeaderValue)) → Prop
  | blank (blank : ∀ c ∈ line, Text.isBlank c = true) : ReadsLine line (.ok none)
  | field {before after written said : List Char} {name : HeaderName} {value : HeaderValue}
    (cut : Cut line before after) (front : Text.Stripped Text.isBlank before written)
    (back : Text.Stripped Text.isBlank after said) (isName : IsName written) (isValue : IsValue said)
    (text : name.text = Text.lowercase (String.ofList written))
    (bytes : value.bytes = Utf8.encode (String.ofList said)) (plain : value.sensitive = false) :
    ReadsLine line (.ok (some (name, value)))
  | noColon (shows : ∃ c ∈ line, Text.isBlank c = false) (none : ':' ∉ line) :
    ReadsLine line (.error (.trailerWithoutColon (String.ofList line)))
  | badName {before after written : List Char} (cut : Cut line before after)
    (front : Text.Stripped Text.isBlank before written) (bad : ¬IsName written) :
    ReadsLine line (.error (.trailerName (String.ofList before)))
  | badValue {before after written said : List Char} (cut : Cut line before after)
    (front : Text.Stripped Text.isBlank before written)
    (back : Text.Stripped Text.isBlank after said) (isName : IsName written)
    (bad : ¬IsValue said) :
    ReadsLine line (.error (.trailerValue (Text.lowercase (String.ofList written))))

section Line
variable {line before after : List Char}

theorem splitColon_eq_some : splitColon line = some (before, after) ↔ Cut line before after := by
  constructor
  · intro h
    -- Each character that is no colon goes to the front part.
    induction line generalizing before with
    | nil => cases h
    | cons c line ih =>
      unfold splitColon at h
      split at h
      · rename_i same
        cases same
      · rename_i same
        cases same
        cases h
        exact ⟨rfl, List.not_mem_nil⟩
      · rename_i other same
        cases same
        rw [Option.map_eq_some_iff] at h
        obtain ⟨⟨name, value⟩, parts, eq⟩ := h
        cases eq
        obtain ⟨joined, first⟩ := ih parts
        refine ⟨by rw [joined]; rfl, ?_⟩
        rw [List.mem_cons, not_or]
        exact ⟨fun same => other same.symm, first⟩
  · rintro ⟨rfl, first⟩
    exact splitColon_append after first

theorem splitColon_eq_none : splitColon line = none ↔ ':' ∉ line := by
  constructor
  · intro h colon
    obtain ⟨before, after, joined, first⟩ := List.eq_append_cons_of_mem colon
    rw [joined, splitColon_append after first] at h
    cases h
  · intro h
    cases parts : splitColon line with
    | none => rfl
    | some x =>
      have cut := splitColon_eq_some.1 parts
      rw [cut.joined] at h
      exact absurd (List.mem_append_right _ (List.mem_cons_self ..)) h

theorem Cut.shows (cut : Cut line before after) : ∃ c ∈ line, Text.isBlank c = false :=
  ⟨':', cut.joined ▸ List.mem_append_right _ (List.mem_cons_self ..), by decide⟩

theorem all_isBlank_eq_false :
    line.all Text.isBlank = false ↔ ∃ c ∈ line, Text.isBlank c = false := by
  simp

/-- A line with a colon is read as its two parts, stripped of white space. -/
theorem parseLine_cut {written said : List Char} (cut : Cut line before after)
    (front : Text.Stripped Text.isBlank before written)
    (back : Text.Stripped Text.isBlank after said) :
    parseLine line =
      (HeaderName.ofText? (String.ofList written)).elim
        (.error (.trailerName (String.ofList before))) fun name =>
          (HeaderValue.ofText? (String.ofList said)).elim
            (.error (.trailerValue name.text)) fun value => .ok (some (name, value)) := by
  -- The colon shows, so the line is not blank.
  have shown := all_isBlank_eq_false.2 cut.shows
  rw [Text.stripped_iff] at front back
  rw [parseLine, if_neg (by simp [shown]), splitColon_eq_some.2 cut]
  simp only [Text.trim, String.toList_ofList, front, back]
  cases HeaderName.ofText? (String.ofList written) with
  | none => rfl
  | some name => cases HeaderValue.ofText? (String.ofList said) <;> rfl

theorem Cut.length_le (cut : Cut line before after) : before.length ≤ line.length := by
  rw [cut.joined, List.length_append]
  omega

theorem readsLine_parseLine (short : line.length ≤ maxNameLength) :
    ReadsLine line (parseLine line) := by
  cases blank : line.all Text.isBlank with
  | true =>
    rw [parseLine, if_pos blank]
    exact .blank (List.all_eq_true.1 blank)
  | false =>
    cases parts : splitColon line with
    | none =>
      rw [parseLine, if_neg (by simp [blank]), parts]
      exact .noColon (all_isBlank_eq_false.1 blank) (splitColon_eq_none.1 parts)
    | some x =>
      obtain ⟨before, after⟩ := x
      have cut := splitColon_eq_some.1 parts
      have front := Text.stripped_iff.2 (Eq.refl (Text.stripChars Text.isBlank before))
      have back := Text.stripped_iff.2 (Eq.refl (Text.stripChars Text.isBlank after))
      -- A part of a line that is not too long makes no name that is.
      have shorter := Nat.le_trans front.length_le (Nat.le_trans cut.length_le short)
      rw [parseLine_cut cut front back]
      cases named : HeaderName.ofText? (String.ofList (Text.stripChars Text.isBlank before)) with
      | none => exact .badName cut front ((HeaderName.ofText?_eq_none shorter).1 named)
      | some name =>
        obtain ⟨isName, text⟩ := (HeaderName.ofText?_eq_some shorter).1 named
        rw [Option.elim_some]
        cases valued : HeaderValue.ofText? (String.ofList (Text.stripChars Text.isBlank after)) with
        | none =>
          rw [text]
          exact .badValue cut front back isName (HeaderValue.ofText?_eq_none.1 valued)
        | some value =>
          obtain ⟨isValue, bytes, plain⟩ := HeaderValue.ofText?_eq_some.1 valued
          exact .field cut front back isName isValue text bytes plain

theorem parseLine_iff (short : line.length ≤ maxNameLength)
    {r : Except ProtocolError (Option (HeaderName × HeaderValue))} :
    parseLine line = r ↔ ReadsLine line r := by
  have fits : ∀ {before written after}, Cut line before after →
      Text.Stripped Text.isBlank before written → written.length ≤ maxNameLength :=
    fun cut front => Nat.le_trans front.length_le (Nat.le_trans cut.length_le short)
  constructor
  · rintro rfl
    exact readsLine_parseLine short
  · intro h
    cases h with
    | blank blank => rw [parseLine, if_pos (List.all_eq_true.2 blank)]
    | field cut front back isName isValue text bytes plain =>
      have name := (HeaderName.ofText?_eq_some (fits cut front)).2 ⟨isName, text⟩
      have value := HeaderValue.ofText?_eq_some.2 ⟨isValue, bytes, plain⟩
      simp only [parseLine_cut cut front back, name, value, Option.elim_some]
    | noColon shows none =>
      rw [parseLine, if_neg (by simp [all_isBlank_eq_false.2 shows]), splitColon_eq_none.2 none]
    -- The value is not looked at when the name is bad.
    | @badName before after written cut front bad =>
      have back := Text.stripped_iff.2 (Eq.refl (Text.stripChars Text.isBlank after))
      have name := (HeaderName.ofText?_eq_none (fits cut front)).2 bad
      simp only [parseLine_cut cut front back, name, Option.elim_none]
    | @badValue before after written said cut front back isName bad =>
      have judged := HeaderName.ofText?_eq_none (fits cut front)
      rw [parseLine_cut cut front back]
      cases read : HeaderName.ofText? (String.ofList written) with
      | none => exact absurd isName (judged.1 read)
      | some name =>
        have text := ((HeaderName.ofText?_eq_some (fits cut front)).1 read).2
        simp only [HeaderValue.ofText?_eq_none.2 bad, text, Option.elim_some, Option.elim_none]

/-- What a line is that breaks no rule. -/
def IsWellFormed (line : List Char) : Prop :=
  (∀ c ∈ line, Text.isBlank c = true) ∨
    ∃ before after written said, Cut line before after ∧
      Text.Stripped Text.isBlank before written ∧ Text.Stripped Text.isBlank after said ∧
      IsName written ∧ IsValue said

theorem isWellFormed_iff (short : line.length ≤ maxNameLength) :
    IsWellFormed line ↔ ∃ field, ReadsLine line (.ok field) := by
  constructor
  · rintro (blank | ⟨before, after, written, said, cut, front, back, isName, isValue⟩)
    · exact ⟨none, .blank blank⟩
    · have shorter := Nat.le_trans front.length_le (Nat.le_trans cut.length_le short)
      let name : HeaderName := ⟨_, (isHeaderName_lowercase shorter).2 isName⟩
      let value : HeaderValue := ⟨_, false, HeaderValue.all_isValueByte.2 isValue⟩
      exact ⟨some (name, value), .field cut front back isName isValue rfl rfl rfl⟩
  · rintro ⟨field, h⟩
    cases h with
    | blank blank => exact .inl blank
    | field cut front back isName isValue =>
      exact .inr ⟨_, _, _, _, cut, front, back, isName, isValue⟩

end Line

/-- The lines of a text, without the carriage returns that end them. -/
def IsLines (text : List Char) (lines : List (List Char)) : Prop :=
  ∃ raw, Text.IsSplit '\n' text raw ∧ List.Forall₂ (Text.EndsStripped (· == '\r')) raw lines

theorem isLines_iff {text : List Char} {lines : List (List Char)} :
    IsLines text lines ↔ (Text.splitOn '\n' text).map dropReturns = lines := by
  -- To strip the returns is a function, so the relation can be read as an equation.
  have returns : Text.EndsStripped (· == '\r') = fun raw line => dropReturns raw = line :=
    funext₂ fun _ _ => propext Text.endsStripped_iff
  have stripped : ∀ raw : List (List Char),
      List.Forall₂ (Text.EndsStripped (· == '\r')) raw lines ↔ raw.map dropReturns = lines := by
    intro raw
    rw [returns, ← List.forall₂_map_left_iff (f := dropReturns), List.forall₂_eq_eq_eq]
  simp only [IsLines, Text.isSplit_iff, stripped, exists_eq_left']

theorem IsLines.length_le {text line : List Char} {lines : List (List Char)}
    (h : IsLines text lines) (mem : line ∈ lines) : line.length ≤ text.length := by
  rw [← isLines_iff.1 h, List.mem_map] at mem
  obtain ⟨raw, piece, rfl⟩ := mem
  have core : Text.EndsStripped (· == '\r') raw (dropReturns raw) := Text.endsStripped_iff.2 rfl
  exact Nat.le_trans core.length_le (Text.length_le_of_mem_splitOn piece)

end Trailers

namespace Metadata

/-- The metadata are the fields in their order, those of a name together where it was first. -/
structure Collects (m : Metadata) (fields : List (HeaderName × HeaderValue)) : Prop where
  names : m.entries.map (·.name) = (fields.map (·.1)).eraseDups
  values : ∀ e ∈ m.entries, e.values = (fields.filter (·.1 = e.name)).map (·.2)

theorem mem_addTo {name : HeaderName} {value : HeaderValue} {es : List Entry} {e : Entry}
    (distinct : (es.map (·.name)).Nodup) (h : e ∈ addTo name value es) :
    (e ∈ es ∧ e.name ≠ name) ∨
    (e.name = name ∧ ∃ old ∈ es, old.name = name ∧ e.values = old.values ++ [value]) ∨
    (e = ⟨name, value, []⟩ ∧ name ∉ es.map (·.name)) := by
  induction es with
  | nil => simpa [addTo] using h
  | cons x es ih =>
    rw [List.map_cons, List.nodup_cons] at distinct
    by_cases same : x.name = name
    · rw [addTo, if_pos same, List.mem_cons] at h
      obtain rfl | rest := h
      · exact .inr (.inl ⟨same, x, List.mem_cons_self .., same, by simp [Entry.values]⟩)
      -- Names stand in the metadata once, so no later entry has this one.
      · have differs : e.name ≠ name := by
          intro other
          rw [same, ← other] at distinct
          exact distinct.1 (List.mem_map_of_mem rest)
        exact .inl ⟨List.mem_cons_of_mem _ rest, differs⟩
    · rw [addTo, if_neg same, List.mem_cons] at h
      obtain rfl | rest := h
      · exact .inl ⟨List.mem_cons_self .., same⟩
      · obtain ⟨old, differs⟩ | ⟨named, old, mem, grown⟩ | ⟨new, absent⟩ := ih distinct.2 rest
        · exact .inl ⟨List.mem_cons_of_mem _ old, differs⟩
        · exact .inr (.inl ⟨named, old, List.mem_cons_of_mem _ mem, grown⟩)
        · refine .inr (.inr ⟨new, ?_⟩)
          rw [List.map_cons, List.mem_cons, not_or]
          exact ⟨Ne.symm same, absent⟩

theorem collects_empty : Collects ∅ [] := ⟨rfl, fun _ he => nomatch he⟩

theorem Collects.append {m : Metadata} {fields : List (HeaderName × HeaderValue)}
    (h : m.Collects fields) (f : HeaderName × HeaderValue) :
    (m.append f.1 f.2).Collects (fields ++ [f]) where
  names := by
    have added : (m.append f.1 f.2).entries.map (·.name) = _ := names_addTo f.1 f.2 m.entries
    have known : f.1 ∈ (fields.map (·.1)).eraseDups ↔ f.1 ∈ fields.map (·.1) := List.mem_eraseDups
    rw [added, h.names, List.map_append, List.map_singleton, List.eraseDups_append]
    by_cases old : f.1 ∈ fields.map (·.1)
    · rw [if_pos (known.2 old)]
      simp [List.removeAll, old]
    · have alone : [f.1].eraseDups = [f.1] := rfl
      rw [if_neg (fun mem => old (known.1 mem))]
      simp [List.removeAll, old, alone]
  values := by
    intro e he
    rw [List.filter_append, List.map_append]
    obtain ⟨old, differs⟩ | ⟨named, old, mem, same, grown⟩ | ⟨rfl, absent⟩ := mem_addTo m.distinct he
    · simp [h.values e old, Ne.symm differs]
    · simp [grown, h.values old mem, named, same]
    · rw [h.names, List.mem_eraseDups] at absent
      have none : fields.filter (·.1 = f.1) = [] := by
        rw [List.filter_eq_nil_iff]
        intro g hg
        simp only [decide_eq_true_eq]
        rintro same
        exact absent (same ▸ List.mem_map_of_mem hg)
      simp [none, Entry.values]

theorem collects_ofList (fields : List (HeaderName × HeaderValue)) :
    (ofList fields).Collects fields := by
  -- The fold is generalized to what was collected before.
  suffices grows : ∀ (rest known : List (HeaderName × HeaderValue)) (m : Metadata),
      m.Collects known → (rest.foldl (fun m f => m.append f.1 f.2) m).Collects (known ++ rest) from
    grows fields [] ∅ collects_empty
  intro rest
  induction rest with
  | nil =>
    intro known m h
    rw [List.append_nil]
    exact h
  | cons f rest ih =>
    intro known m h
    have grown := ih (known ++ [f]) (m.append f.1 f.2) (h.append f)
    rw [List.append_assoc] at grown
    exact grown

/-- There is one way only to collect fields. -/
theorem Collects.unique {m m' : Metadata} {fields : List (HeaderName × HeaderValue)}
    (h : m.Collects fields) (h' : m'.Collects fields) : m = m' := by
  let said (e : Entry) : HeaderName × List HeaderValue := (e.name, e.values)
  let collected (name : HeaderName) := (name, (fields.filter (·.1 = name)).map (·.2))
  have entries : ∀ {m : Metadata}, m.Collects fields →
      m.entries.map said = ((fields.map (·.1)).eraseDups).map collected := by
    intro m h
    rw [← h.names, List.map_map]
    exact List.map_congr_left fun e he => Prod.ext rfl (h.values e he)
  -- The first value and the further ones together tell which is which.
  have injective : ∀ e e' : Entry, said e = said e' → e = e' := by
    rintro ⟨name, first, more⟩ ⟨name', first', more'⟩ same
    simp_all [said, Entry.values]
  have same : m.entries = m'.entries :=
    List.map_injective_iff.2 injective ((entries h).trans (entries h').symm)
  cases m
  cases m'
  simp_all

end Metadata

namespace Trailers
open List (Forall₂)

/-- What a payload says, or why it is refused: it is no text, or a line breaks a rule that no line
before it breaks. -/
inductive Reads (payload : Bytes) : Except ProtocolError Metadata → Prop
  | notText (none : ∀ text, Utf8.encode text ≠ payload) : Reads payload (.error .trailersNotUtf8)
  | metadata {text : String} {lines : List (List Char)}
    {fields : List (Option (HeaderName × HeaderValue))} {m : Metadata}
    (encoded : Utf8.encode text = payload) (isLines : IsLines text.toList lines)
    (reads : Forall₂ (fun line field => ReadsLine line (.ok field)) lines fields)
    (collects : m.Collects (fields.filterMap id)) : Reads payload (.ok m)
  | broken {text : String} {good more : List (List Char)} {line : List Char}
    {e : ProtocolError} (encoded : Utf8.encode text = payload)
    (isLines : IsLines text.toList (good ++ line :: more))
    (first : ∀ line ∈ good, IsWellFormed line) (breaks : ReadsLine line (.error e)) :
    Reads payload (.error e)

theorem exists_forall₂ {α β : Type} {R : α → β → Prop} {as : List α} (h : ∀ a ∈ as, ∃ b, R a b) :
    ∃ bs, Forall₂ R as bs := by
  induction as with
  | nil => exact ⟨[], .nil⟩
  | cons a as ih =>
    rw [List.forall_mem_cons] at h
    obtain ⟨b, first⟩ := h.1
    obtain ⟨bs, rest⟩ := ih h.2
    exact ⟨b :: bs, .cons first rest⟩

theorem parseLines_append {raw : List (List Char)}
    {fields : List (Option (HeaderName × HeaderValue))}
    (h : Forall₂ (fun line field => parseLine line = .ok field) (raw.map dropReturns) fields)
    (m : Metadata) (rest : List (List Char)) :
    parseLines m (raw ++ rest) =
      parseLines ((fields.filterMap id).foldl (fun m f => m.append f.1 f.2) m) rest := by
  induction raw generalizing fields m with
  | nil =>
    cases h
    rfl
  | cons line raw ih =>
    rw [List.map_cons] at h
    cases h with
    | @cons _ field _ fields first others =>
      rw [List.cons_append, parseLines, first]
      cases field with
      | none => exact ih others m
      | some f => exact ih others (m.append f.1 f.2)

section Payload
variable {payload : Bytes} {text : String} {lines : List (List Char)}

theorem parse_encode (encoded : Utf8.encode text = payload) :
    parse payload = parseLines ∅ (Text.splitOn '\n' text.toList) := by
  rw [parse, ← encoded, Utf8.decode?_encode]

theorem length_le_encode (text : String) : text.toList.length ≤ (Utf8.encode text).length := by
  rw [Utf8.encode_eq]
  induction text.toList with
  | nil => exact Nat.le_refl _
  | cons c cs ih =>
    have size := Char.utf8Size_pos c
    rw [List.flatMap_cons, List.length_append, List.length_cons, String.length_utf8EncodeChar]
    omega

/-- In a payload that is not too long no name is too long. -/
theorem short_line (short : payload.length < 65536) (encoded : Utf8.encode text = payload)
    (isLines : IsLines text.toList lines) : ∀ line ∈ lines, line.length ≤ maxNameLength := by
  intro line mem
  have inText := isLines.length_le mem
  have inPayload := length_le_encode text
  rw [encoded] at inPayload
  unfold maxNameLength
  omega

theorem wellFormed_or_broken (short : ∀ line ∈ lines, line.length ≤ maxNameLength) :
    (∀ line ∈ lines, IsWellFormed line) ∨
      ∃ good line more e, lines = good ++ line :: more ∧ (∀ line ∈ good, IsWellFormed line) ∧
        ReadsLine line (.error e) := by
  induction lines with
  | nil => exact .inl (List.forall_mem_nil _)
  | cons line lines ih =>
    rw [List.forall_mem_cons] at short
    have reads := readsLine_parseLine short.1
    cases outcome : parseLine line with
    | error e =>
      rw [outcome] at reads
      exact .inr ⟨[], line, lines, e, rfl, List.forall_mem_nil _, reads⟩
    | ok field =>
      rw [outcome] at reads
      have fine := (isWellFormed_iff short.1).2 ⟨field, reads⟩
      obtain all | ⟨good, bad, more, e, rfl, first, breaks⟩ := ih short.2
      · exact .inl (List.forall_mem_cons.2 ⟨fine, all⟩)
      · exact .inr ⟨line :: good, bad, more, e, rfl, List.forall_mem_cons.2 ⟨fine, first⟩, breaks⟩

theorem exists_reads (short : payload.length < 65536) : ∃ r, Reads payload r := by
  cases decoded : Utf8.decode? payload with
  | none =>
    refine ⟨_, .notText fun text encoded => ?_⟩
    rw [← encoded, Utf8.decode?_encode] at decoded
    cases decoded
  | some text =>
    have encoded := Utf8.encode_of_decode? decoded
    have isLines := isLines_iff.2 (Eq.refl ((Text.splitOn '\n' text.toList).map dropReturns))
    have shortLines := short_line short encoded isLines
    -- Either every line is read, or the first bad one decides.
    obtain all | ⟨good, line, more, e, split, first, breaks⟩ := wellFormed_or_broken shortLines
    · obtain ⟨fields, reads⟩ := exists_forall₂ fun line mem =>
        (isWellFormed_iff (shortLines line mem)).1 (all line mem)
      exact ⟨_, .metadata encoded isLines reads (Metadata.collects_ofList _)⟩
    · rw [split] at isLines
      exact ⟨_, .broken encoded isLines first breaks⟩

theorem parse_of_reads (short : payload.length < 65536) {r : Except ProtocolError Metadata}
    (h : Reads payload r) : parse payload = r := by
  cases h with
  | notText none =>
    cases decoded : Utf8.decode? payload with
    | none => rw [parse, decoded]
    | some text => exact absurd (Utf8.encode_of_decode? decoded) (none text)
  | @metadata text lines fields m encoded isLines reads collects =>
    have shortLines := short_line short encoded isLines
    have outcomes : Forall₂ (fun line field => parseLine line = .ok field) lines fields := by
      rw [List.forall₂_iff_zip] at reads ⊢
      exact ⟨reads.1, fun mem => (parseLine_iff (shortLines _ (List.of_mem_zip mem).1)).2 (reads.2 mem)⟩
    rw [← isLines_iff.1 isLines] at outcomes
    have parsed := parseLines_append outcomes ∅ []
    rw [List.append_nil] at parsed
    rw [parse_encode encoded, parsed, parseLines]
    exact congrArg Except.ok ((Metadata.collects_ofList _).unique collects)
  | @broken text good more line e encoded isLines first breaks =>
    have shortLines := short_line short encoded isLines
    simp only [List.forall_mem_append, List.forall_mem_cons] at shortLines
    obtain ⟨shortGood, shortLine, -⟩ := shortLines
    obtain ⟨fields, outcomes⟩ :
        ∃ fields, Forall₂ (fun line field => parseLine line = .ok field) good fields :=
      exists_forall₂ fun line mem => by
        obtain ⟨field, reads⟩ := (isWellFormed_iff (shortGood line mem)).1 (first line mem)
        exact ⟨field, (parseLine_iff (shortGood line mem)).2 reads⟩
    -- The good lines come from a front part of the raw ones, and the bad line is the next.
    obtain ⟨raw, rest, split, rfl, tail⟩ := List.map_eq_append_iff.1 (isLines_iff.1 isLines)
    obtain ⟨bad, after, rfl, rfl, -⟩ := List.map_eq_cons_iff.1 tail
    rw [parse_encode encoded, split, parseLines_append outcomes, parseLines,
      (parseLine_iff shortLine).2 breaks]

end Payload

/-- The payloads that are read are those whose lines are blank or hold a name, a colon and a value; they
are read as their fields. Any other is refused for the first line that breaks a rule. -/
theorem parse_iff_reads (payload : Bytes) (short : payload.length < 65536) :
    (∀ r, parse payload = r ↔ Reads payload r) ∧
    ((∃ m, parse payload = .ok m) ↔
      ∃ text lines, Utf8.encode text = payload ∧ IsLines text.toList lines ∧
        ∀ line ∈ lines, IsWellFormed line) := by
  have reads : ∀ r, parse payload = r ↔ Reads payload r := by
    intro r
    constructor
    · rintro rfl
      obtain ⟨r, h⟩ := exists_reads short
      rw [parse_of_reads short h]
      exact h
    · exact parse_of_reads short
  refine ⟨reads, ?_⟩
  constructor
  · rintro ⟨m, parsed⟩
    cases (reads _).1 parsed with
    | metadata encoded isLines =>
      refine ⟨_, _, encoded, isLines, ?_⟩
      obtain all | ⟨good, line, more, e, rfl, first, breaks⟩ :=
        wellFormed_or_broken (short_line short encoded isLines)
      · exact all
      · have refused := parse_of_reads short (.broken encoded isLines first breaks)
        rw [parsed] at refused
        cases refused
  · rintro ⟨text, lines, encoded, isLines, all⟩
    have shortLines := short_line short encoded isLines
    obtain ⟨fields, said⟩ := exists_forall₂ fun line mem =>
      (isWellFormed_iff (shortLines line mem)).1 (all line mem)
    exact ⟨_, (reads _).2 (.metadata encoded isLines said (Metadata.collects_ofList _))⟩

/-- The third line is refused for its name, although its value breaks a rule too, and the fourth line
another. -/
theorem parse_iff_reads_bad_name :
    (Utf8.encode "A: 1\r\n\r\nb b:\x7F\nc").length < 65536 ∧
      Reads (Utf8.encode "A: 1\r\n\r\nb b:\x7F\nc") (.error (.trailerName "b b")) := by
  have short : (Utf8.encode "A: 1\r\n\r\nb b:\x7F\nc").length < 65536 := by decide +kernel
  have refused : parse (Utf8.encode "A: 1\r\n\r\nb b:\x7F\nc") = .error (.trailerName "b b") := by
    rw [parse_encode rfl]
    decide +kernel
  exact ⟨short, ((parse_iff_reads _ short).1 _).1 refused⟩

end Trailers
end MiningClient
