import MiningClient.Proofs.Rpc.Reading
import MiningClient.Proofs.Rpc.TrailerText
import MiningClient.Proofs.Text.Pieces

namespace MiningClient

namespace HeaderValue

/-- A value comes back as it was exactly when it is text without white space around it. -/
theorem bytes_trimmed_eq_iff (v : HeaderValue) :
    v.trimmed.bytes = v.bytes ↔ ∃ s, Utf8.decode? v.bytes = some s ∧ Text.IsTrim s := by
  rw [bytes_trimmed]
  constructor
  · intro h
    -- The bytes are those of the trimmed text, so they are text and it is trimmed.
    refine ⟨Text.trim v.lossy, ?_, Text.isTrim_trim _⟩
    rw [← h, Utf8.decode?_encode]
  · rintro ⟨s, decoded, trim⟩
    have read : v.lossy = s := by rw [lossy, Utf8.lossy, decoded, Option.getD_some]
    rw [read, trim.trim_eq, Utf8.encode_of_decode? decoded]

theorem eq_of_bytes {v w : HeaderValue} (bytes : v.bytes = w.bytes)
    (sensitive : v.sensitive = w.sensitive) : v = w := by
  cases v
  cases w
  simp_all

theorem trimmed_of_read {s : String} {v : HeaderValue} (h : ofText? (Text.trim s) = some v) :
    v.trimmed = v := by
  unfold ofText? ofBytes? at h
  split at h
  · obtain rfl := Option.some.inj h
    refine eq_of_bytes ?_ rfl
    rw [bytes_trimmed_eq_iff]
    exact ⟨Text.trim s, Utf8.decode?_encode _, Text.isTrim_trim s⟩
  · cases h

end HeaderValue

namespace Metadata

/-- What metadata say: the names in their order, each with its values in theirs. Which values are not
to be shown is left out. -/
def said (m : Metadata) : List (HeaderName × List Bytes) :=
  m.entries.map fun e => (e.name, e.values.map (·.bytes))

theorem said_trimmed (m : Metadata) :
    m.trimmed.said =
      m.entries.map fun e => (e.name, e.values.map fun v => Utf8.encode (Text.trim v.lossy)) := by
  simp [said, trimmed, Entry.trimmed, Entry.values, Function.comp_def, HeaderValue.bytes_trimmed]

theorem said_trimmed_eq_iff (m : Metadata) :
    m.trimmed.said = m.said ↔
      ∀ f ∈ m.toList, ∃ s, Utf8.decode? f.2.bytes = some s ∧ Text.IsTrim s := by
  have values : ∀ e : Entry, e.values.map (fun v => Utf8.encode (Text.trim v.lossy)) =
      e.values.map (·.bytes) ↔ ∀ v ∈ e.values, ∃ s, Utf8.decode? v.bytes = some s ∧ Text.IsTrim s := by
    intro e
    rw [List.map_inj_left]
    refine forall₂_congr fun v _ => ?_
    rw [← v.bytes_trimmed_eq_iff, v.bytes_trimmed]
  rw [said_trimmed, said, List.map_inj_left]
  simp only [Prod.mk.injEq, true_and, values, toList, List.mem_flatMap, List.mem_map]
  constructor
  · rintro h _ ⟨e, he, v, hv, rfl⟩
    exact h e he v hv
  · intro h e he v hv
    exact h (e.name, v) ⟨e, he, v, hv, rfl⟩

/-- Metadata that come back as they are, sensitive values and all. -/
def IsTrimmed (m : Metadata) : Prop := ∀ f ∈ m.toList, f.2.trimmed = f.2

theorem IsTrimmed.trimmed_eq {m : Metadata} (h : m.IsTrimmed) : m.trimmed = m := by
  rw [← m.trimmed.ofList_toList, toList_trimmed]
  have same : (m.toList.map fun f => (f.1, f.2.trimmed)) = m.toList := by
    refine (List.map_congr_left fun f hf => ?_).trans (List.map_id _)
    rw [h f hf]
    rfl
  rw [same, ofList_toList]

theorem mem_fields_append {name : HeaderName} {value : HeaderValue} {es : List Entry}
    {f : HeaderName × HeaderValue}
    (h : f ∈ (addTo name value es).flatMap fun e => e.values.map (e.name, ·)) :
    f ∈ (es.flatMap fun e => e.values.map (e.name, ·)) ∨ f = (name, value) := by
  induction es with
  | nil => simpa [addTo, Entry.values] using h
  | cons e es ih =>
    rw [List.flatMap_cons, List.mem_append]
    by_cases same : e.name = name
    · rw [addTo, if_pos same, List.flatMap_cons, List.mem_append] at h
      -- The value joins those of its name, at the end.
      have grown : (Entry.values { e with more := e.more ++ [value] }).map (e.name, ·) =
          e.values.map (e.name, ·) ++ [(name, value)] := by simp [Entry.values, same]
      rw [grown, List.mem_append, List.mem_singleton] at h
      rcases h with (old | new) | rest
      · exact .inl (.inl old)
      · exact .inr new
      · exact .inl (.inr rest)
    · rw [addTo, if_neg same, List.flatMap_cons, List.mem_append] at h
      rcases h with old | rest
      · exact .inl (.inl old)
      · exact (ih rest).imp_left .inr

theorem isTrimmed_empty : IsTrimmed ∅ := fun _ hf => nomatch hf

theorem IsTrimmed.append {m : Metadata} (h : m.IsTrimmed) (name : HeaderName) {value : HeaderValue}
    (trimmed : value.trimmed = value) : (m.append name value).IsTrimmed := by
  intro f hf
  rcases mem_fields_append hf with old | rfl
  · exact h f old
  · exact trimmed

end Metadata

namespace Trailers

theorem trimmed_of_parseLine {cs : List Char} {name : HeaderName} {value : HeaderValue}
    (h : parseLine cs = .ok (some (name, value))) : value.trimmed = value := by
  unfold parseLine at h
  -- Of the ways through the reader only one gives a field.
  split at h
  · cases h
  · split at h
    · cases h
    · split at h
      · cases h
      · split at h
        · cases h
        · rename_i read
          cases h
          exact HeaderValue.trimmed_of_read read

theorem isTrimmed_of_parseLines {lines : List (List Char)} {m p : Metadata} (known : m.IsTrimmed)
    (h : parseLines m lines = .ok p) : p.IsTrimmed := by
  induction lines generalizing m with
  | nil =>
    cases h
    exact known
  | cons cs lines ih =>
    unfold parseLines at h
    split at h
    · cases h
    · exact ih known h
    · rename_i read
      exact ih (known.append _ (trimmed_of_parseLine read)) h

theorem isTrimmed_of_parse {payload : Bytes} {p : Metadata} (h : parse payload = .ok p) :
    p.IsTrimmed := by
  unfold parse at h
  split at h
  · cases h
  · exact isTrimmed_of_parseLines Metadata.isTrimmed_empty h

end Trailers

namespace Decoder

/-- Drained, a decoder that holds the frame of some trailers yields them, trimmed, and nothing else. -/
theorem drain_ofTrailers (m : Metadata)
    (fits : (Utf8.encode (Trailers.text m)).length < UInt32.size) :
    drain (push {} (Frame.ofTrailers m)) = ([.trailers m.trimmed], none, {}) := by
  have held : push {} (Frame.ofTrailers m) =
      ⟨Frame.write Frame.trailerFlag (Utf8.encode (Trailers.text m)) ++ []⟩ := by
    rw [List.append_nil]
    rfl
  have first : next (push {} (Frame.ofTrailers m)) = (.ok (some (.trailers m.trimmed)), {}) := by
    rw [held, Body.next_write Frame.trailerFlag [] fits, if_neg (by decide), if_pos (by decide),
      Trailers.parse_text]
    rfl
  have second : next {} = (.ok none, {}) := rfl
  -- The frame was all that there was, so the next call finds nothing.
  have done : drain {} = ([], none, {}) := by
    rw [drain]
    split <;> rename_i answered <;> rw [second] at answered <;> cases answered
    rfl
  rw [drain]
  split <;> rename_i answered <;> rw [first] at answered <;> cases answered
  rw [done]

end Decoder

namespace Metadata

/-- Trailers are read back, from their frame and nothing besides, as their names with their values in
order, each value read as text and trimmed. They are the trailers that were written when, and only
when, their values are text without white space around it; and so are trailers that were read. -/
theorem trailers_read_back (m : Metadata)
    (fits : (Utf8.encode (Trailers.text m)).length < UInt32.size) :
    (∃ p : Metadata,
      Decoder.drain (Decoder.push {} (Frame.ofTrailers m)) = ([.trailers p], none, {}) ∧
      p.said = m.entries.map (fun e =>
        (e.name, e.values.map fun v => Utf8.encode (Text.trim (Utf8.lossy v.bytes)))) ∧
      (p.said = m.said ↔ ∀ f ∈ m.toList, ∃ s, Utf8.decode? f.2.bytes = some s ∧ Text.IsTrim s)) ∧
    ∀ payload, Trailers.parse payload = .ok m →
      Trailers.parse (Utf8.encode (Trailers.text m)) = .ok m ∧
      Decoder.drain (Decoder.push {} (Frame.ofTrailers m)) = ([.trailers m], none, {}) := by
  refine ⟨⟨m.trimmed, Decoder.drain_ofTrailers m fits, m.said_trimmed, m.said_trimmed_eq_iff⟩, ?_⟩
  intro payload read
  have same : m.trimmed = m := (Trailers.isTrimmed_of_parse read).trimmed_eq
  have text := Trailers.parse_text m
  have drained := Decoder.drain_ofTrailers m fits
  rw [same] at text drained
  exact ⟨text, drained⟩

/-- One name with two values: the first is no text and stands in white space, the second is text with a
colon and a space in it. -/
theorem trailers_read_back_lossy :
    ∃ (m p : Metadata) (name : HeaderName),
      m.said = [(name, [[0x20, 0xFF, 0x09], [0x61, 0x3A, 0x20, 0x62]])] ∧
      Decoder.drain (Decoder.push {} (Frame.ofTrailers m)) = ([.trailers p], none, {}) ∧
      p.said = [(name, [[0xEF, 0xBF, 0xBD], [0x61, 0x3A, 0x20, 0x62]])] := by
  let name : HeaderName := ⟨"x-a", by decide⟩
  let m : Metadata :=
    ⟨[⟨name, ⟨[0x20, 0xFF, 0x09], false, by decide⟩, [⟨[0x61, 0x3A, 0x20, 0x62], false, by decide⟩]⟩],
      by decide⟩
  have fits : (Utf8.encode (Trailers.text m)).length < UInt32.size := by decide +kernel
  obtain ⟨⟨p, drained, said, -⟩, -⟩ := trailers_read_back m fits
  refine ⟨m, p, name, rfl, drained, said.trans ?_⟩
  decide +kernel

end Metadata

end MiningClient
