import MiningClient.Proofs.Number.Written
import MiningClient.Settings.Json
import MiningClient.Text.Json
import Mathlib.Data.List.Forall2
import Mathlib.Data.List.TakeDrop

namespace MiningClient.Text.Json
open Settings.Json (isSpace skip readUnit readChar readChars readText readKey listLayout objectLayout)

/-- A number is written without a zero in front of other digits. -/
def readNumber (cs : List Char) : Option (Nat × List Char) :=
  let (digits, rest) := cs.span Char.isDigit
  if digits.head? = some '0' ∧ digits.length ≠ 1 then none
  else (Decimal.natural? digits).map fun n => (n, rest)

/-- A value with at most so many brackets around each other. -/
def readValue : Nat → List Char → Option (Json × List Char)
  | _, '\x22' :: cs => (readText cs).map fun (s, cs) => (.text s, cs)
  | _, 't' :: 'r' :: 'u' :: 'e' :: cs => some (.flag true, cs)
  | _, 'f' :: 'a' :: 'l' :: 's' :: 'e' :: cs => some (.flag false, cs)
  | depth + 1, '[' :: cs =>
    (listLayout.read (readValue depth) cs).map fun (items, cs) => (.list items, cs)
  | depth + 1, '\x7b' :: cs =>
    (objectLayout.read (objectLayout.readMember readKey (readValue depth)) cs).map
      fun (fields, cs) => (.object fields, cs)
  | _, cs => (readNumber cs).map fun (n, cs) => (.number n, cs)

/-- The value that a whole text writes. -/
def read? (text : String) : Option Json :=
  (readValue text.length (skip text.toList)).bind fun (j, cs) => if skip cs = [] then some j else none

section Texts
variable {cs rest : List Char}

theorem readChar_escapeChar (c : Char) (cs : List Char) :
    readChar (escapeChar c ++ cs) = some (c, cs) := by
  unfold escapeChar
  by_cases known : c ∈ ['\x22', '\\', '\x08', '\x0c', '\n', '\r', '\t']
  · simp only [List.mem_cons, List.not_mem_nil, or_false] at known
    rcases known with rfl | rfl | rfl | rfl | rfl | rfl | rfl <;> rfl
  · simp only [List.mem_cons, List.not_mem_nil, or_false, not_or] at known
    obtain ⟨quote, backslash, h₁, h₂, h₃, h₄, h₅⟩ := known
    simp only [quote, backslash, h₁, h₂, h₃, h₄, h₅, decide_false, Bool.or_self, Bool.false_eq_true,
      if_false]
    split
    · rename_i control
      -- There are only so many control characters, so each of their codes is looked at.
      have table : ∀ n < 32, Radix.read? 16 ('0' :: '0' :: hexPair n) = some n ∧ n.isValidChar := by
        decide
      obtain ⟨code, valid⟩ := table c.toNat control
      have unit : readUnit ('0' :: '0' :: hexPair c.toNat ++ cs) = some (c.toNat, cs) := by
        rw [hexPair, List.cons_append, List.cons_append, List.cons_append, List.cons_append, readUnit]
        exact congrArg (Option.map fun n => (n, cs)) code
      show Settings.Json.readNumbered ('0' :: '0' :: hexPair c.toNat ++ cs) = _
      rw [Settings.Json.readNumbered, unit]
      simp only [Option.bind_some, valid, if_true, Char.ofNat_toNat]
    · rename_i plain
      have seen : ¬c < ' ' := plain
      unfold readChar
      split <;> simp_all

/-- Nothing that stands for a character begins with the quote that ends the text. -/
theorem escapeChar_cons (c : Char) : ∃ d ds, escapeChar c = d :: ds ∧ d ≠ '\x22' := by
  unfold escapeChar
  split
  · exact ⟨_, _, rfl, by decide⟩
  · rename_i other
    repeat' split
    all_goals
      refine ⟨_, _, rfl, ?_⟩
      first | decide | simpa using fun quote => other (by simp [quote])

theorem readChars_escaped (s : List Char) {most : Nat} (enough : s.length ≤ most) (cs : List Char) :
    readChars most (s.flatMap escapeChar ++ '\x22' :: cs) = some (s, cs) := by
  induction s generalizing most with
  | nil => cases most <;> rfl
  | cons c s ih =>
    obtain ⟨most, rfl⟩ : ∃ n, most = n + 1 := ⟨most - 1, by rw [List.length_cons] at enough; omega⟩
    obtain ⟨d, ds, written, other⟩ := escapeChar_cons c
    have first := readChar_escapeChar c (s.flatMap escapeChar ++ '\x22' :: cs)
    rw [List.flatMap_cons, List.append_assoc]
    rw [written, List.cons_append] at first ⊢
    rw [readChars, first]
    · exact congrArg (Option.map fun read => (c :: read.1, read.2)) (ih (Nat.le_of_succ_le_succ enough))
    · simpa using other

theorem toList_quoted (s : String) :
    (quoted s).toList = '\x22' :: (s.toList.flatMap escapeChar ++ ['\x22']) := by
  rw [quoted, String.toList_ofList]
  rfl

theorem length_le_escaped (s : List Char) : s.length ≤ (s.flatMap escapeChar).length := by
  induction s with
  | nil => exact Nat.le_refl _
  | cons c s ih =>
    obtain ⟨d, ds, written, -⟩ := escapeChar_cons c
    rw [List.flatMap_cons, written, List.length_append, List.length_cons, List.length_cons]
    omega

theorem readText_quoted (s : String) (cs : List Char) :
    readText (s.toList.flatMap escapeChar ++ '\x22' :: cs) = some (s, cs) := by
  have enough : s.toList.length ≤ (s.toList.flatMap escapeChar ++ '\x22' :: cs).length := by
    have := length_le_escaped s.toList
    rw [List.length_append]
    omega
  rw [readText, readChars_escaped _ enough]
  exact congrArg (fun t => some (t, cs)) String.ofList_toList

end Texts

/-- Where a number ends: what follows is no digit. -/
def Ends (rest : List Char) : Prop := ∀ c, rest.head? = some c → c.isDigit = false

theorem ends_cons {c : Char} (h : c.isDigit = false) (cs : List Char) : Ends (c :: cs) := by
  rintro _ ⟨⟩
  exact h

theorem skip_blanks {blanks : List Char} (h : ∀ c ∈ blanks, isSpace c = true) (cs : List Char) :
    skip (blanks ++ cs) = skip cs := List.dropWhile_append_of_pos h

theorem skip_cons {c : Char} (h : isSpace c = false) (cs : List Char) : skip (c :: cs) = c :: cs := by
  rw [skip, List.dropWhile_cons_of_neg (by simp [h])]

theorem ends_blanks {blanks : List Char} (h : ∀ c ∈ blanks, isSpace c = true) {cs : List Char}
    (ends : Ends cs) : Ends (blanks ++ cs) := by
  cases blanks with
  | nil => exact ends
  | cons c blanks =>
    refine ends_cons ?_ _
    have space := h c (List.mem_cons_self ..)
    simp only [isSpace, Bool.or_eq_true, beq_iff_eq] at space
    rcases space with ((rfl | rfl) | rfl) | rfl <;> rfl

/-- Whatever may follow it, the part is read as the item. It is not taken for a blank or for the end. -/
structure IsRead {α : Type} (l : Layout) (item : List Char → Option (α × List Char)) (a : α)
    (part : List Char) : Prop where
  head : ∃ c cs, part = c :: cs ∧ isSpace c = false ∧ c ≠ l.close
  read : ∀ rest, Ends rest → item (part ++ rest) = some (a, rest)

/-- Blanks do not count, and no comma is expected behind the last item. -/
structure IsPlain (l : Layout) : Prop where
  skips : l.skip = skip
  trailing : l.trailingComma = false
  close : l.close ≠ ',' ∧ isSpace l.close = false ∧ l.close.isDigit = false

theorem isPlain_list : IsPlain listLayout := ⟨rfl, rfl, by decide⟩

theorem isPlain_object : IsPlain objectLayout := ⟨rfl, rfl, by decide⟩

section Brackets
variable {α : Type} {l : Layout} {item : List Char → Option (α × List Char)} {as : List α}
  {part : List Char} {parts : List (List Char)} {a : α} {blanks blanks' : List Char}

theorem closed?_blanks (plain : IsPlain l) (h : ∀ c ∈ blanks, isSpace c = true) (rest : List Char) :
    l.closed? (blanks ++ l.close :: rest) = some rest := by
  rw [Layout.closed?, plain.skips, skip_blanks h, skip_cons plain.close.2.1]
  exact if_pos (beq_self_eq_true _)

theorem closed?_other (plain : IsPlain l) (h : ∀ c ∈ blanks, isSpace c = true) {c : Char}
    (seen : isSpace c = false) (other : c ≠ l.close) (rest : List Char) :
    l.closed? (blanks ++ c :: rest) = none := by
  rw [Layout.closed?, plain.skips, skip_blanks h, skip_cons seen]
  exact if_neg (by simpa using other)

/-- What is printed between the brackets: the parts with a comma and blanks between them. -/
def joined (blanks : List Char) (parts : List (List Char)) : List Char :=
  parts.flatMap fun part => ',' :: (blanks ++ part)

theorem readItems_joined (plain : IsPlain l) (space : ∀ c ∈ blanks, isSpace c = true)
    (space' : ∀ c ∈ blanks', isSpace c = true) (first : IsRead l item a part)
    (others : List.Forall₂ (IsRead l item) as parts) {most : Nat} (enough : as.length < most)
    (rest : List Char) :
    l.readItems item most
      (blanks ++ part ++ joined blanks parts ++ (blanks' ++ l.close :: rest)) = some (a :: as, rest) := by
  induction others generalizing a part most with
  | nil =>
    obtain ⟨most, rfl⟩ : ∃ n, most = n + 1 := ⟨most - 1, by omega⟩
    have ends : Ends (blanks' ++ l.close :: rest) := ends_blanks space' (ends_cons plain.close.2.2 _)
    obtain ⟨c, cs, rfl, seen, -⟩ := first.head
    have read := first.read _ ends
    rw [Layout.readItems, plain.skips, joined, List.flatMap_nil, List.append_nil, List.append_assoc,
      skip_blanks space, List.cons_append, skip_cons seen, ← List.cons_append, read, Option.bind_some]
    simp only [closed?_blanks plain space']
  | @cons next nextPart as parts here _ ih =>
    obtain ⟨most, rfl⟩ : ∃ n, most = n + 1 := ⟨most - 1, by omega⟩
    have fewer : as.length < most := by
      rw [List.length_cons] at enough
      omega
    have more := ih here fewer
    obtain ⟨c, cs, rfl, seen, -⟩ := first.head
    -- Behind the item is a comma, which neither continues it nor closes the list.
    have read := first.read (',' :: (blanks ++ nextPart ++ joined blanks parts ++
      (blanks' ++ l.close :: rest))) (ends_cons rfl _)
    have comma (cs : List Char) : l.closed? ([] ++ ',' :: cs) = none :=
      closed?_other plain (List.forall_mem_nil _) rfl (Ne.symm plain.close.1) cs
    simp only [List.nil_append] at comma
    have whole : blanks ++ c :: cs ++ joined blanks (nextPart :: parts) ++ (blanks' ++ l.close :: rest) =
        blanks ++ (c :: cs ++ ',' :: (blanks ++ nextPart ++ joined blanks parts ++
          (blanks' ++ l.close :: rest))) := by
      simp only [joined, List.flatMap_cons, List.append_assoc, List.cons_append]
    rw [whole, Layout.readItems, plain.skips, skip_blanks space, List.cons_append, skip_cons seen,
      ← List.cons_append, read, Option.bind_some]
    simp only [comma, skip_cons (show isSpace ',' = false from rfl), plain.trailing,
      Bool.false_eq_true, if_false, more, Option.map_some]

theorem length_le_joined (blanks : List Char) (parts : List (List Char)) :
    parts.length ≤ (joined blanks parts).length := by
  induction parts with
  | nil => exact Nat.le_refl _
  | cons part parts ih =>
    rw [joined, List.flatMap_cons, List.length_append, List.length_cons, List.length_cons]
    have : (joined blanks parts).length = (parts.flatMap fun part => ',' :: (blanks ++ part)).length := rfl
    omega

theorem read_joined (plain : IsPlain l) (space : ∀ c ∈ blanks, isSpace c = true)
    (space' : ∀ c ∈ blanks', isSpace c = true) (first : IsRead l item a part)
    (others : List.Forall₂ (IsRead l item) as parts) (rest : List Char) :
    l.read item (blanks ++ part ++ joined blanks parts ++ (blanks' ++ l.close :: rest)) =
      some (a :: as, rest) := by
  have enough : as.length <
      (blanks ++ part ++ joined blanks parts ++ (blanks' ++ l.close :: rest)).length := by
    have := length_le_joined blanks parts
    simp only [List.length_append, List.length_cons, others.length_eq]
    omega
  have items := readItems_joined plain space space' first others enough rest
  obtain ⟨c, cs, rfl, seen, other⟩ := first.head
  have opened : l.closed? (blanks ++ c :: cs ++ joined blanks parts ++
      (blanks' ++ l.close :: rest)) = none := by
    rw [List.append_assoc, List.append_assoc, List.cons_append]
    exact closed?_other plain space seen other _
  rw [Layout.read, opened]
  exact items

end Brackets

section Printed
variable {α : Type} {l : Layout} {item : List Char → Option (α × List Char)} {as : List α}
  {parts : List String}

/-- A new line and the blanks in front of what stands on it. -/
def margin (depth : Nat) : List Char := '\n' :: List.replicate (2 * depth) ' '

theorem isSpace_margin (depth : Nat) : ∀ c ∈ margin depth, isSpace c = true := by
  intro c hc
  obtain rfl | hc := List.mem_cons.1 hc
  · rfl
  · rw [List.eq_of_mem_replicate hc]
    rfl

theorem intercalate_cons (sep part : List Char) (parts : List (List Char)) :
    sep.intercalate (part :: parts) = part ++ parts.flatMap (sep ++ ·) := by
  induction parts generalizing part with
  | nil => simp
  | cons next parts ih =>
    rw [List.intercalate_cons_cons, ih, List.flatMap_cons, List.append_assoc, List.append_assoc]

theorem toList_enclose_cons (opening closing : String) (depth : Nat) (part : String)
    (parts : List String) :
    (enclose opening closing depth (part :: parts)).toList = opening.toList ++
      (margin (depth + 1) ++ part.toList ++ joined (margin (depth + 1)) (parts.map String.toList) ++
        (margin depth ++ closing.toList)) := by
  have line (depth : Nat) : (newline depth).toList = margin depth := String.toList_ofList
  rw [enclose, if_neg (by simp)]
  simp only [String.toList_append, String.toList_intercalate, line, List.map_cons, intercalate_cons,
    List.append_assoc, joined]
  rfl

/-- What is printed in brackets is read as the items that were printed. -/
theorem read_enclose (plain : IsPlain l) (opening : Char) (depth : Nat)
    (each : List.Forall₂ (IsRead l item) as (parts.map String.toList)) :
    ∃ inner, (enclose (String.singleton opening) (String.singleton l.close) depth parts).toList =
        opening :: inner ∧ ∀ rest, l.read item (inner ++ rest) = some (as, rest) := by
  cases parts with
  | nil =>
    cases each
    refine ⟨[l.close], by simp [enclose], fun rest => ?_⟩
    have closed : l.closed? ([] ++ l.close :: rest) = some rest :=
      closed?_blanks plain (List.forall_mem_nil _) rest
    rw [List.nil_append] at closed
    rw [List.singleton_append, Layout.read, closed]
  | cons part parts =>
    cases each with
    | cons first others =>
      refine ⟨_, by rw [toList_enclose_cons, String.toList_singleton, List.singleton_append], ?_⟩
      intro rest
      have items := read_joined plain (isSpace_margin (depth + 1)) (isSpace_margin depth) first others rest
      simpa only [String.toList_singleton, List.append_assoc, List.singleton_append] using items

end Printed

theorem readNumber_text (n : Nat) {rest : List Char} (ends : Ends rest) :
    readNumber ((Decimal.text n).toList ++ rest) = some (n, rest) := by
  have written := Decimal.isDigits_digits n
  have stops : rest.takeWhile Char.isDigit = [] ∧ rest.dropWhile Char.isDigit = rest := by
    cases rest with
    | nil => exact ⟨rfl, rfl⟩
    | cons c rest =>
      have other := ends c rfl
      rw [List.takeWhile_cons, List.dropWhile_cons, other]
      exact ⟨rfl, rfl⟩
  have cut : (Decimal.digits n ++ rest).span Char.isDigit = (Decimal.digits n, rest) := by
    rw [List.span_eq_takeWhile_dropWhile, List.takeWhile_append_of_pos written.digits,
      List.dropWhile_append_of_pos written.digits, stops.1, stops.2, List.append_nil]
  rw [Decimal.text, String.toList_ofList, readNumber, cut]
  simp only [Decimal.natural?_eq_some_iff.2 written, Option.map_some]
  exact if_neg fun zero => zero.2 (Decimal.length_digits_of_head? zero.1)

theorem toList_render_flag (depth : Nat) (b : Bool) :
    (render depth (.flag b)).toList = if b then ['t', 'r', 'u', 'e'] else ['f', 'a', 'l', 's', 'e'] := by
  rw [render]
  cases b <;> rfl

theorem renderItems_eq (depth : Nat) (items : List Json) :
    renderItems depth items = items.map (render depth) := by
  induction items with
  | nil => rw [renderItems, List.map_nil]
  | cons item items ih => rw [renderItems, List.map_cons, ih]

def renderField (depth : Nat) (field : String × Json) : String :=
  quoted field.1 ++ ": " ++ render depth field.2

theorem renderFields_eq (depth : Nat) (fields : List (String × Json)) :
    renderFields depth fields = fields.map (renderField depth) := by
  induction fields with
  | nil => rw [renderFields, List.map_nil]
  | cons field fields ih =>
    obtain ⟨name, j⟩ := field
    rw [renderFields, List.map_cons, ih, renderField]

/-- No value begins with a blank or with a bracket that closes. -/
theorem render_cons (depth : Nat) (j : Json) :
    ∃ c cs, (render depth j).toList = c :: cs ∧ isSpace c = false ∧ c ≠ ']' := by
  cases j with
  | text s => exact ⟨_, _, by rw [render, toList_quoted], rfl, by decide⟩
  | number n =>
    have written := Decimal.isDigits_digits n
    cases shape : Decimal.digits n with
    | nil => exact absurd shape written.ne_nil
    | cons d ds =>
      have digit := written.digits d (shape ▸ List.mem_cons_self ..)
      refine ⟨d, ds, by rw [render, Decimal.text, String.toList_ofList, shape], ?_, ?_⟩
      · by_contra space
        simp only [isSpace, Bool.not_eq_false, Bool.or_eq_true, beq_iff_eq] at space
        rcases space with ((rfl | rfl) | rfl) | rfl <;> cases digit
      · rintro rfl
        cases digit
  | flag b =>
    rw [toList_render_flag]
    cases b
    · exact ⟨'f', _, rfl, rfl, by decide⟩
    · exact ⟨'t', _, rfl, rfl, by decide⟩
  | list items =>
    refine ⟨'[', ((render depth (.list items)).toList).tail, ?_, rfl, by decide⟩
    rw [render, enclose]
    split <;> simp
  | object fields =>
    refine ⟨'\x7b', ((render depth (.object fields)).toList).tail, ?_, rfl, by decide⟩
    rw [render, enclose]
    split <;> simp

/-- What is printed between brackets is shorter than what is printed with them. -/
theorem length_lt_enclose {part : String} {parts : List String} (h : part ∈ parts)
    (opening closing : String) (depth : Nat) :
    part.length < (enclose opening closing depth parts).length := by
  cases parts with
  | nil => cases h
  | cons first parts =>
    rw [← String.length_toList, ← String.length_toList, toList_enclose_cons]
    simp only [List.length_append, margin, List.length_cons]
    obtain rfl | h := List.mem_cons.1 h
    · omega
    · have inside : part.toList.length ≤ (joined (margin (depth + 1)) (parts.map String.toList)).length := by
        obtain ⟨before, after, rfl⟩ := List.append_of_mem h
        simp only [joined, List.map_append, List.map_cons, List.flatMap_append, List.flatMap_cons,
          List.length_append, List.length_cons]
        omega
      simp only [margin] at inside
      omega

theorem isRead_field {most depth : Nat} {field : String × Json}
    (value : ∀ rest, Ends rest →
      readValue most ((render depth field.2).toList ++ rest) = some (field.2, rest)) :
    IsRead objectLayout (objectLayout.readMember readKey (readValue most)) field
      (renderField depth field).toList := by
  obtain ⟨name, j⟩ := field
  have shape : (renderField depth (name, j)).toList = '\x22' :: (name.toList.flatMap escapeChar ++
      '\x22' :: ':' :: ' ' :: (render depth j).toList) := by
    rw [renderField, String.toList_append, String.toList_append, toList_quoted]
    simp
  rw [shape]
  refine ⟨⟨_, _, rfl, rfl, by decide⟩, fun rest ends => ?_⟩
  obtain ⟨c, cs, written, seen, -⟩ := render_cons depth j
  have read := value rest ends
  rw [written] at read
  have key : readKey ('\x22' :: (name.toList.flatMap escapeChar ++ '\x22' :: ':' :: ' ' :: c :: cs) ++ rest) =
      some (name, ':' :: ' ' :: (c :: cs ++ rest)) := by
    rw [List.cons_append, List.append_assoc]
    exact readText_quoted name _
  have colon (cs : List Char) : objectLayout.skip (':' :: cs) = ':' :: cs :=
    skip_cons (show isSpace ':' = false from rfl) cs
  have blank : objectLayout.skip ([' '] ++ (c :: cs ++ rest)) = c :: cs ++ rest :=
    (skip_blanks (by simp [isSpace]) _).trans (skip_cons seen _)
  rw [List.singleton_append] at blank
  rw [written, Layout.readMember, key, Option.bind_some]
  simp only [colon, blank, read, Option.map_some]

/-- A value is read as it was printed, by one who expects as many brackets as it has characters. -/
theorem readValue_render (most : Nat) (j : Json) (depth : Nat) (enough : (render depth j).length ≤ most)
    {rest : List Char} (ends : Ends rest) :
    readValue most ((render depth j).toList ++ rest) = some (j, rest) := by
  induction most generalizing j depth rest with
  | zero =>
    obtain ⟨c, cs, written, -⟩ := render_cons depth j
    rw [← String.length_toList, written] at enough
    cases enough
  | succ most ih =>
    cases j with
    | text s =>
      rw [render, toList_quoted, List.cons_append, List.append_assoc, List.singleton_append, readValue,
        readText_quoted]
      rfl
    | number n =>
      have written := readNumber_text n ends
      obtain ⟨d, ds, shape⟩ := List.exists_cons_of_ne_nil (Decimal.isDigits_digits n).ne_nil
      have digit := (Decimal.isDigits_digits n).digits d (shape ▸ List.mem_cons_self ..)
      rw [render]
      rw [Decimal.text, String.toList_ofList, shape, List.cons_append] at written ⊢
      rw [readValue, written]
      · rfl
      -- None of the other values begins with a digit.
      all_goals
        intros
        rename_i same
        obtain ⟨rfl, -⟩ := List.cons.inj same
        cases digit
    | flag b =>
      rw [toList_render_flag]
      cases b <;> rw [readValue.eq_def] <;> rfl
    | list items =>
      have each : List.Forall₂ (IsRead listLayout (readValue most)) items
          ((renderItems (depth + 1) items).map String.toList) := by
        rw [renderItems_eq, List.map_map, List.forall₂_map_right_iff, List.forall₂_same]
        intro item mem
        have inside : (render (depth + 1) item).length < (render depth (.list items)).length := by
          rw [render, renderItems_eq]
          exact length_lt_enclose (List.mem_map_of_mem mem) _ _ _
        exact ⟨render_cons _ _, fun rest ends => ih item (depth + 1) (by omega) ends⟩
      obtain ⟨inner, printed, read⟩ := read_enclose isPlain_list '[' depth each
      have printed : (render depth (.list items)).toList = '[' :: inner := by
        rw [render]
        exact printed
      rw [printed, List.cons_append, readValue, read]
      rfl
    | object fields =>
      have each : List.Forall₂
          (IsRead objectLayout (objectLayout.readMember readKey (readValue most))) fields
          ((renderFields (depth + 1) fields).map String.toList) := by
        rw [renderFields_eq, List.map_map, List.forall₂_map_right_iff, List.forall₂_same]
        intro field mem
        have inside : (renderField (depth + 1) field).length < (render depth (.object fields)).length := by
          rw [render, renderFields_eq]
          exact length_lt_enclose (List.mem_map_of_mem mem) _ _ _
        refine isRead_field fun rest ends => ih field.2 (depth + 1) ?_ ends
        rw [renderField, String.length_append] at inside
        omega
      obtain ⟨inner, printed, read⟩ := read_enclose isPlain_object '\x7b' depth each
      have printed : (render depth (.object fields)).toList = '\x7b' :: inner := by
        rw [render]
        exact printed
      rw [printed, List.cons_append, readValue, read]
      rfl

theorem read?_pretty (j : Json) : read? j.pretty = some j := by
  obtain ⟨c, cs, written, seen, -⟩ := render_cons 0 j
  have nothing : Ends [] := nofun
  have read := readValue_render (render 0 j).length j 0 (Nat.le_refl _) nothing
  rw [List.append_nil] at read
  rw [read?, pretty, written, skip_cons seen, ← written, read]
  rfl

end MiningClient.Text.Json
