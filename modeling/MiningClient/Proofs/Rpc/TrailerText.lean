import MiningClient.Proofs.Text.Lossy
import MiningClient.Proofs.Text.Pieces
import MiningClient.Rpc.Trailers

namespace MiningClient

namespace Text

theorem mem_trim {s : String} {c : Char} (h : c ∈ (trim s).toList) : c ∈ s.toList := by
  rw [trim, stripChars, String.toList_ofList, List.mem_reverse] at h
  have h := (List.dropWhile_sublist _).mem h
  rw [List.mem_reverse] at h
  exact (List.dropWhile_sublist _).mem h

theorem trim_space (cs : List Char) : trim (String.ofList (' ' :: cs)) = trim (String.ofList cs) := by
  simp only [trim, stripChars, String.toList_ofList]
  rw [List.dropWhile_cons_of_pos (by decide)]

theorem splitOn_line {c : Char} {line : List Char} (rest : List Char) (h : c ∉ line) :
    splitOn c (line ++ c :: rest) = line :: splitOn c rest := by
  induction line with
  | nil => rw [List.nil_append, splitOn, if_pos rfl]
  | cons x line ih =>
    rw [List.mem_cons, not_or] at h
    rw [List.cons_append, splitOn, if_neg (Ne.symm h.1), ih h.2]

end Text

section Name
variable {c : Char}

/-- The characters of a name show, and are no colon and no upper case letter. -/
theorem isNameChar_bounds (h : isNameChar c = true) :
    0x21 ≤ c.toNat ∧ c.toNat ≤ 0x7E ∧ c.toNat ≠ 0x3A ∧ (c.toNat < 0x41 ∨ 0x5A < c.toNat) := by
  unfold isNameChar at h
  simp only [Bool.or_eq_true, List.contains_iff_mem] at h
  obtain (lower | digit) | mark := h
  · have bounds : (decide (97 ≤ c.toNat) && decide (c.toNat ≤ 122)) = true := lower
    simp only [Bool.and_eq_true, decide_eq_true_eq] at bounds
    omega
  · have bounds : (decide (48 ≤ c.toNat) && decide (c.toNat ≤ 57)) = true := digit
    simp only [Bool.and_eq_true, decide_eq_true_eq] at bounds
    omega
  -- The marks are a short list and are checked one by one.
  · have marks : "!\x22#$%&'*+-.^_\x60|~".toList.all (fun c => decide (0x21 ≤ c.toNat ∧
        c.toNat ≤ 0x7E ∧ c.toNat ≠ 0x3A ∧ (c.toNat < 0x41 ∨ 0x5A < c.toNat))) = true := by decide
    exact of_decide_eq_true (List.all_eq_true.1 marks c mark)

theorem isBlank_of_bounds (low : 0x21 ≤ c.toNat) (high : c.toNat ≤ 0x7E) :
    Text.isBlank c = false := by
  simp only [Text.isBlank, Bool.or_eq_false_iff, Bool.and_eq_false_iff, decide_eq_false_iff_not,
    beq_eq_false_iff_ne]
  omega

end Name

namespace HeaderName
variable (name : HeaderName)

theorem ne_nil : name.text.toList ≠ [] := by
  have h := name.valid
  simp only [isHeaderName, Bool.and_eq_true] at h
  intro empty
  rw [empty] at h
  exact absurd h.1.1 (by decide)

theorem isNameChar_of_mem {c : Char} (hc : c ∈ name.text.toList) : isNameChar c = true := by
  have h := name.valid
  simp only [isHeaderName, Bool.and_eq_true, List.all_eq_true] at h
  exact h.1.2 c hc

theorem isBlank_eq_false {c : Char} (hc : c ∈ name.text.toList) : Text.isBlank c = false :=
  have bounds := isNameChar_bounds (name.isNameChar_of_mem hc)
  isBlank_of_bounds bounds.1 bounds.2.1

theorem not_mem {c : Char} (h : isNameChar c = false) : c ∉ name.text.toList := by
  intro hc
  rw [name.isNameChar_of_mem hc] at h
  cases h

theorem trim_text : Text.trim name.text = name.text :=
  Text.IsTrim.trim_eq ⟨fun _ hc => name.isBlank_eq_false (List.mem_of_mem_head? hc),
    fun _ hc => name.isBlank_eq_false (List.mem_of_getLast? hc)⟩

theorem lowercase_text : Text.lowercase name.text = name.text := by
  have same : name.text.toList.map Char.toLower = name.text.toList.map id :=
    List.map_congr_left fun c hc =>
      Text.toLower_of_bounds (isNameChar_bounds (name.isNameChar_of_mem hc)).2.2.2
  rw [Text.lowercase, same, List.map_id, String.ofList_toList]

theorem ofText?_text : ofText? name.text = some name := by
  have same := name.lowercase_text
  unfold ofText?
  rw [dif_pos (by rw [same]; exact name.valid)]
  simp only [same]

end HeaderName

theorem isValueByte_of_not_ascii {b : UInt8} (h : ¬Utf8.IsAscii b) : isValueByte b = true := by
  have large : 0x80 ≤ b.toNat := Nat.le_of_not_lt h
  have notDelete : b ≠ 0x7F := by
    rintro rfl
    exact absurd large (by decide)
  have low : 0x20 ≤ b := UInt8.le_iff_toNat_le.2 (Nat.le_trans (by decide) large)
  simp [isValueByte, notDelete, low]

namespace HeaderValue
variable (v : HeaderValue)

def lossy : String := Utf8.lossy v.bytes

theorem isValueByte_lossy : ∀ b ∈ Utf8.encode v.lossy, isValueByte b = true :=
  Utf8.forall_mem_encode_lossy (fun _ => isValueByte_of_not_ascii) (List.all_eq_true.1 v.valid)

/-- Control characters stay away from the text of a value. -/
theorem not_mem_lossy {c : Char} (ascii : c.toNat < 0x80)
    (control : isValueByte (UInt8.ofNat c.toNat) = false) : c ∉ v.lossy.toList := by
  intro hc
  have hb : UInt8.ofNat c.toNat ∈ Utf8.encode v.lossy :=
    Utf8.mem_encode.2 ⟨c, hc, by rw [Utf8.encodeChar_ascii ascii]; exact List.mem_singleton_self _⟩
  rw [v.isValueByte_lossy _ hb] at control
  cases control

theorem valid_trim : (Utf8.encode (Text.trim v.lossy)).all isValueByte = true := by
  rw [List.all_eq_true]
  intro b hb
  obtain ⟨c, hc, hb⟩ := Utf8.mem_encode.1 hb
  exact v.isValueByte_lossy b (Utf8.mem_encode.2 ⟨c, Text.mem_trim hc, hb⟩)

def trimmed : HeaderValue where
  bytes := Utf8.encode (Text.trim v.lossy)
  valid := v.valid_trim

theorem bytes_trimmed : v.trimmed.bytes = Utf8.encode (Text.trim v.lossy) := by rw [trimmed]

theorem ofText?_trim : ofText? (Text.trim v.lossy) = some v.trimmed := by
  rw [ofText?, ofBytes?, dif_pos v.valid_trim, trimmed]

end HeaderValue

namespace Metadata

def Entry.trimmed (e : Entry) : Entry :=
  { e with first := e.first.trimmed, more := e.more.map HeaderValue.trimmed }

theorem names_trimmed (es : List Entry) :
    (es.map Entry.trimmed).map (·.name) = es.map (·.name) := by
  rw [List.map_map]
  exact List.map_congr_left fun e _ => by rw [Function.comp, Entry.trimmed]

/-- The metadata with each value trimmed. -/
def trimmed (m : Metadata) : Metadata where
  entries := m.entries.map Entry.trimmed
  distinct := (names_trimmed m.entries).symm ▸ m.distinct

theorem toList_trimmed (m : Metadata) :
    m.trimmed.toList = m.toList.map fun f => (f.1, f.2.trimmed) := by
  simp [toList, trimmed, List.flatMap_map, List.map_flatMap, Entry.trimmed, Entry.values,
    Function.comp_def]

theorem get?_trimmed (m : Metadata) (name : String) :
    m.trimmed.get? name = (m.get? name).map HeaderValue.trimmed := by
  simp only [get?, trimmed, List.find?_map, Option.map_map]
  rfl

theorem addTo_of_new {name : HeaderName} (value : HeaderValue) {es : List Entry}
    (h : name ∉ es.map (·.name)) : addTo name value es = es ++ [⟨name, value, []⟩] := by
  induction es with
  | nil => rfl
  | cons e es ih =>
    rw [List.map_cons, List.mem_cons, not_or] at h
    rw [addTo, if_neg (Ne.symm h.1), ih h.2]
    rfl

theorem addTo_last (e : Entry) (value : HeaderValue) {es : List Entry}
    (h : e.name ∉ es.map (·.name)) :
    addTo e.name value (es ++ [e]) = es ++ [{ e with more := e.more ++ [value] }] := by
  induction es with
  | nil => rw [List.nil_append, addTo, if_pos rfl]; rfl
  | cons x es ih =>
    rw [List.map_cons, List.mem_cons, not_or] at h
    rw [List.cons_append, addTo, if_neg (Ne.symm h.1), ih h.2]
    rfl

theorem foldl_addTo_last (e : Entry) (values : List HeaderValue) {es : List Entry}
    (h : e.name ∉ es.map (·.name)) :
    values.foldl (fun es value => addTo e.name value es) (es ++ [e]) =
      es ++ [{ e with more := e.more ++ values }] := by
  induction values generalizing e with
  | nil => simp
  | cons value values ih =>
    rw [List.foldl_cons, addTo_last e value h]
    refine (ih { e with more := e.more ++ [value] } h).trans ?_
    simp

theorem foldl_addTo (es known : List Entry) (distinct : ((known ++ es).map (·.name)).Nodup) :
    (es.flatMap fun e => e.values.map (e.name, ·)).foldl (fun es f => addTo f.1 f.2 es) known =
      known ++ es := by
  induction es generalizing known with
  | nil => simp
  | cons e es ih =>
    -- The names are distinct, so this one is not among those known.
    have new : e.name ∉ known.map (·.name) := by
      intro h
      rw [List.map_append, List.map_cons, List.nodup_append] at distinct
      exact distinct.2.2 _ h _ (List.mem_cons_self ..) rfl
    rw [List.flatMap_cons, List.foldl_append, Entry.values, List.map_cons, List.foldl_cons,
      addTo_of_new e.first new, List.foldl_map,
      foldl_addTo_last ⟨e.name, e.first, []⟩ e.more new, List.nil_append, ih]
    · simp
    · simpa using distinct

theorem entries_foldl (fields : List (HeaderName × HeaderValue)) (m : Metadata) :
    (fields.foldl (fun m f => m.append f.1 f.2) m).entries =
      fields.foldl (fun es f => addTo f.1 f.2 es) m.entries := by
  induction fields generalizing m with
  | nil => rfl
  | cons f fields ih => exact ih (m.append f.1 f.2)

theorem ofList_toList (m : Metadata) : ofList m.toList = m := by
  have h := foldl_addTo m.entries [] m.distinct
  obtain ⟨es, distinct⟩ := m
  have same : (ofList (toList ⟨es, distinct⟩)).entries = es := (entries_foldl _ _).trans h
  cases hm : ofList (toList ⟨es, distinct⟩) with
  | mk es' distinct' =>
    rw [hm] at same
    subst same
    rfl

end Metadata

namespace Trailers

theorem dropReturns_line {line : List Char} (h : '\r' ∉ line) :
    dropReturns (line ++ ['\r']) = line := by
  refine Text.endsStripped_iff.1 ⟨⟨['\r'], rfl, by simp⟩, fun c hc => ?_⟩
  rw [beq_eq_false_iff_ne]
  rintro rfl
  exact h (List.mem_of_getLast? hc)

theorem splitColon_append {name : List Char} (value : List Char) (h : ':' ∉ name) :
    splitColon (name ++ ':' :: value) = some (name, value) := by
  induction name with
  | nil => rfl
  | cons c name ih =>
    rw [List.mem_cons, not_or] at h
    rw [List.cons_append, splitColon, ih h.2]
    · rfl
    · exact fun eq => h.1 eq.symm

/-- A line without what ends it. -/
def lineChars (f : HeaderName × HeaderValue) : List Char :=
  f.1.text.toList ++ ':' :: ' ' :: f.2.lossy.toList

theorem toList_line (f : HeaderName × HeaderValue) :
    (line f.1 f.2).toList = lineChars f ++ ['\r'] ++ ['\n'] := by
  simp [line, lineChars, HeaderValue.lossy]

theorem not_mem_lineChars {c : Char} (f : HeaderName × HeaderValue) (name : isNameChar c = false)
    (ascii : c.toNat < 0x80) (control : isValueByte (UInt8.ofNat c.toNat) = false) :
    c ∉ lineChars f := by
  have colon : c ≠ ':' := by
    rintro rfl
    exact absurd control (by decide)
  have space : c ≠ ' ' := by
    rintro rfl
    exact absurd control (by decide)
  simp [lineChars, f.1.not_mem name, f.2.not_mem_lossy ascii control, colon, space]

theorem parseLine_lineChars (f : HeaderName × HeaderValue) :
    parseLine (lineChars f) = .ok (some (f.1, f.2.trimmed)) := by
  obtain ⟨name, value⟩ := f
  -- A name has a character, and it shows.
  have shown : (lineChars (name, value)).all Text.isBlank = false := by
    cases h : name.text.toList with
    | nil => exact absurd h name.ne_nil
    | cons c cs => simp [lineChars, h, name.isBlank_eq_false (h ▸ List.mem_cons_self ..)]
  have colon : splitColon (lineChars (name, value)) =
      some (name.text.toList, ' ' :: value.lossy.toList) :=
    splitColon_append _ (name.not_mem (by decide))
  rw [parseLine, if_neg (by simp [shown]), colon]
  simp only [String.ofList_toList, name.trim_text, name.ofText?_text, Text.trim_space,
    value.ofText?_trim]

theorem parseLines_text (fields : List (HeaderName × HeaderValue)) (m : Metadata) :
    parseLines m (Text.splitOn '\n' (fields.flatMap fun f => lineChars f ++ ['\r'] ++ ['\n'])) =
      .ok (fields.foldl (fun m f => m.append f.1 f.2.trimmed) m) := by
  induction fields generalizing m with
  | nil => rfl
  | cons f fields ih =>
    -- Neither names nor values hold what ends a line.
    have noReturn : '\r' ∉ lineChars f := not_mem_lineChars f (by decide) (by decide) (by decide)
    have noNewline : '\n' ∉ lineChars f ++ ['\r'] := by
      simp [not_mem_lineChars f (c := '\n') (by decide) (by decide) (by decide)]
    rw [List.flatMap_cons, List.append_assoc, List.singleton_append,
      Text.splitOn_line _ noNewline, parseLines, dropReturns_line noReturn, parseLine_lineChars]
    exact ih (m.append f.1 f.2.trimmed)

theorem parse_text (m : Metadata) : parse (Utf8.encode (text m)) = .ok m.trimmed := by
  have chars : (text m).toList = m.toList.flatMap fun f => lineChars f ++ ['\r'] ++ ['\n'] := by
    rw [text, String.toList_join, List.flatMap_map]
    simp only [toList_line]
  rw [parse, Utf8.decode?_encode]
  simp only [chars]
  rw [parseLines_text, ← m.trimmed.ofList_toList, m.toList_trimmed, Metadata.ofList,
    List.foldl_map]

end Trailers
end MiningClient
