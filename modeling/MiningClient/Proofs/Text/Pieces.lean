import MiningClient.Text.Blank

namespace MiningClient.Text

structure IsSplit (c : Char) (cs : List Char) (pieces : List (List Char)) : Prop where
  nonempty : pieces ≠ []
  free : ∀ piece ∈ pieces, c ∉ piece
  joined : [c].intercalate pieces = cs

theorem splitOn_eq (c : Char) (cs : List Char) : splitOn c cs = cs.splitOn c := by
  induction cs with
  | nil => rfl
  | cons x xs ih =>
    rw [List.splitOn_cons_eq_if_modifyHead, splitOn, ih]
    by_cases same : x = c
    · simp [same]
    · cases rest : xs.splitOn c with
      | nil => exact absurd rest (List.splitOn_ne_nil c xs)
      | cons piece pieces => simp [same]

theorem not_mem_of_mem_splitOn {c : Char} {cs piece : List Char} (h : piece ∈ splitOn c cs) :
    c ∉ piece := by
  induction cs generalizing piece with
  | nil =>
    rw [splitOn, List.mem_singleton] at h
    simp [h]
  | cons x xs ih =>
    rw [splitOn] at h
    split at h
    · obtain rfl | h := List.mem_cons.1 h
      · exact List.not_mem_nil
      · exact ih h
    · rename_i differs
      -- `x` goes to the front of the first piece.
      have first : ∀ p, c ∉ p → c ∉ x :: p := by
        intro p hp
        simp [Ne.symm differs, hp]
      split at h
      · rw [List.mem_singleton.1 h]
        exact first [] List.not_mem_nil
      · rename_i p ps rest
        rw [rest] at ih
        obtain rfl | h := List.mem_cons.1 h
        · exact first p (ih (List.mem_cons_self ..))
        · exact ih (List.mem_cons_of_mem p h)

theorem isSplit_iff {c : Char} {cs : List Char} {pieces : List (List Char)} :
    IsSplit c cs pieces ↔ splitOn c cs = pieces := by
  constructor
  · intro h
    rw [splitOn_eq, ← h.joined]
    exact List.splitOn_intercalate c h.free h.nonempty
  · rintro rfl
    refine ⟨?_, fun piece => not_mem_of_mem_splitOn, ?_⟩
    · rw [splitOn_eq]
      exact List.splitOn_ne_nil c cs
    · rw [splitOn_eq]
      exact List.intercalate_splitOn c

theorem splitOn_append (c : Char) (cs cs' : List Char) :
    splitOn c (cs ++ c :: cs') = splitOn c cs ++ splitOn c cs' := by
  induction cs with
  | nil => simp [splitOn]
  | cons x cs ih =>
    rw [List.cons_append, splitOn, splitOn, ih]
    split
    · rfl
    · cases pieces : splitOn c cs with
      | nil =>
        rw [splitOn_eq] at pieces
        exact absurd pieces (List.splitOn_ne_nil c cs)
      | cons piece pieces => rfl

theorem length_le_of_mem_splitOn {c : Char} {cs piece : List Char} (h : piece ∈ splitOn c cs) :
    piece.length ≤ cs.length := by
  induction cs generalizing piece with
  | nil => simp_all [splitOn]
  | cons x xs ih =>
    have tails : ∀ p ∈ splitOn c xs, p.length ≤ xs.length := fun p => ih
    rw [splitOn] at h
    split at h
    · obtain rfl | h := List.mem_cons.1 h
      · exact Nat.zero_le _
      · exact Nat.le_succ_of_le (tails piece h)
    · split at h
      · simp_all
      · rename_i p ps rest
        rw [rest, List.forall_mem_cons] at tails
        obtain rfl | h := List.mem_cons.1 h
        · exact Nat.succ_le_succ tails.1
        · exact Nat.le_succ_of_le (tails.2 piece h)

structure EndsStripped (p : Char → Bool) (cs core : List Char) : Prop where
  rest : ∃ after, cs = core ++ after ∧ ∀ c ∈ after, p c = true
  last : ∀ c ∈ core.getLast?, p c = false

/-- The text without what `p` holds of at both its ends. -/
structure Stripped (p : Char → Bool) (cs core : List Char) : Prop where
  rest : ∃ before after, cs = before ++ core ++ after ∧ (∀ c ∈ before, p c = true) ∧
    ∀ c ∈ after, p c = true
  first : ∀ c ∈ core.head?, p c = false
  last : ∀ c ∈ core.getLast?, p c = false

section
variable {p : Char → Bool} {cs core : List Char}

theorem head?_dropWhile {c : Char} (h : c ∈ (cs.dropWhile p).head?) : p c = false := by
  have stops := List.head?_dropWhile_not p cs
  rw [Option.mem_def.1 h] at stops
  exact stops

theorem dropWhile_append {before : List Char} (all : ∀ c ∈ before, p c = true)
    (first : ∀ c ∈ core.head?, p c = false) : (before ++ core).dropWhile p = core := by
  rw [List.dropWhile_append_of_pos all]
  cases core with
  | nil => rfl
  | cons c cs => exact List.dropWhile_cons_of_neg (by simp [first c rfl])

theorem EndsStripped.length_le (h : EndsStripped p cs core) : core.length ≤ cs.length := by
  obtain ⟨after, rfl, -⟩ := h.rest
  simp

theorem Stripped.length_le (h : Stripped p cs core) : core.length ≤ cs.length := by
  obtain ⟨before, after, rfl, -, -⟩ := h.rest
  simp only [List.length_append]
  omega

theorem endsStripped_iff :
    EndsStripped p cs core ↔ (cs.reverse.dropWhile p).reverse = core := by
  constructor
  · rintro ⟨⟨after, rfl, all⟩, last⟩
    have dropped : (after.reverse ++ core.reverse).dropWhile p = core.reverse := by
      refine dropWhile_append (fun c hc => all c (List.mem_reverse.1 hc)) ?_
      rw [List.head?_reverse]
      exact last
    rw [List.reverse_append, dropped, List.reverse_reverse]
  · rintro rfl
    refine ⟨⟨(cs.reverse.takeWhile p).reverse, ?_, ?_⟩, ?_⟩
    · rw [← List.reverse_append, List.takeWhile_append_dropWhile, List.reverse_reverse]
    · intro c hc
      exact List.all_eq_true.1 List.all_takeWhile c (List.mem_reverse.1 hc)
    · intro c hc
      rw [List.getLast?_reverse] at hc
      exact head?_dropWhile hc

theorem stripped_iff : Stripped p cs core ↔ stripChars p cs = core := by
  rw [stripChars, ← endsStripped_iff]
  constructor
  · rintro ⟨⟨before, after, rfl, all, all'⟩, first, last⟩
    rw [List.append_assoc]
    cases core with
    | nil =>
      -- nothing is left already when the front is stripped
      have both : ∀ c ∈ before ++ after, p c = true :=
        fun c hc => (List.mem_append.1 hc).elim (all c) (all' c)
      have gone : (before ++ after ++ []).dropWhile p = [] := dropWhile_append both (by simp)
      rw [List.append_nil] at gone
      exact ⟨⟨[], gone, by simp⟩, last⟩
    | cons c rest =>
      have front : (before ++ (c :: rest ++ after)).dropWhile p = c :: rest ++ after :=
        dropWhile_append all first
      exact ⟨⟨after, front, all'⟩, last⟩
  · rintro ⟨⟨after, kept, all⟩, last⟩
    refine ⟨⟨cs.takeWhile p, after, ?_, ?_, all⟩, ?_, last⟩
    · rw [List.append_assoc, ← kept, List.takeWhile_append_dropWhile]
    · exact List.all_eq_true.1 List.all_takeWhile
    · intro c hc
      have stops : c ∈ (cs.dropWhile p).head? := by
        rw [kept, List.head?_append, Option.mem_def.1 hc]
        rfl
      exact head?_dropWhile stops

end

/-- The text neither begins nor ends with white space. -/
structure IsTrim (s : String) : Prop where
  first : ∀ c ∈ s.toList.head?, isBlank c = false
  last : ∀ c ∈ s.toList.getLast?, isBlank c = false

instance (s : String) : Decidable (IsTrim s) :=
  decidable_of_iff (s.toList.head?.any isBlank = false ∧ s.toList.getLast?.any isBlank = false)
    (by
      rw [Option.any_eq_false, Option.any_eq_false]
      exact ⟨fun h => ⟨h.1, h.2⟩, fun h => ⟨h.first, h.last⟩⟩)

theorem IsTrim.trim_eq {s : String} (h : IsTrim s) : trim s = s := by
  have whole : Stripped isBlank s.toList s.toList :=
    ⟨⟨[], [], (List.append_nil _).symm, List.forall_mem_nil _, List.forall_mem_nil _⟩, h.first, h.last⟩
  rw [trim, stripped_iff.1 whole, String.ofList_toList]

theorem stripped_trim (s : String) : Stripped isBlank s.toList (trim s).toList := by
  rw [stripped_iff, trim, String.toList_ofList]

theorem isTrim_trim (s : String) : IsTrim (trim s) :=
  ⟨(stripped_trim s).first, (stripped_trim s).last⟩

end MiningClient.Text
