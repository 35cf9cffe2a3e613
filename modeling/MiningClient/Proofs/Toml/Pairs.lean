import Mathlib.Data.List.TakeDrop
import MiningClient.Proofs.Number.Written
import MiningClient.Proofs.Toml.Quoting
import MiningClient.Toml.Document

namespace MiningClient

namespace Toml

structure IsBare (key : String) : Prop where
  ne_empty : key.toList ≠ []
  names : ∀ c ∈ key.toList, isNameChar c = true

/-- What stands behind the equals sign, up to the end of the line, is read as the value. -/
def Writes (cs : List Char) (value : Scalar) : Prop :=
  ∀ rest, readTerm maxDepth (skipSpaces (cs ++ '\n' :: rest)) = some (.scalar value, '\n' :: rest)

structure Pair where
  key : String
  written : List Char
  value : Scalar

def Pair.line (p : Pair) : List Char :=
  p.key.toList ++ [' ', '=', ' '] ++ p.written ++ ['\n']

def Pair.statement (p : Pair) : Statement := .pair ⟨[], p.key⟩ (.scalar p.value)

def Pair.entry (p : Pair) : String × Node := (p.key, .scalar p.value)

structure Pair.Valid (p : Pair) : Prop where
  bare : IsBare p.key
  writes : Writes p.written p.value

section Values
variable {cs rest : List Char}

theorem readTerm_eq {c : Char} (list : c ≠ '[') (table : c ≠ '\x7b') :
    readTerm maxDepth (c :: cs) = (readScalar (c :: cs)).map fun (s, cs) => (.scalar s, cs) := by
  rw [maxDepth, readTerm.eq_def]
  split <;> simp_all

theorem writes_text (text : String) : Writes (writeText text) (.text text) := by
  intro rest
  have read : readText (writeText text ++ '\n' :: rest) = some (text, '\n' :: rest) := by
    refine readText_writeText text fun s => ?_
    unfold Style.quote
    split <;> simp
  -- The quote in front keeps the value from being read as a list or a table.
  obtain ⟨tail, opening⟩ : ∃ tail, writeText text ++ '\n' :: rest =
      (Style.choose text.toList).quote :: tail := by
    rw [writeText, Style.write, Style.mark_eq_cons]
    exact ⟨_, rfl⟩
  have quote : (Style.choose text.toList).quote = '\x22' ∨
      (Style.choose text.toList).quote = '\x27' := by
    unfold Style.quote
    split
    · exact .inl rfl
    · exact .inr rfl
  rw [opening] at read ⊢
  generalize (Style.choose text.toList).quote = q at quote read
  have here : skipSpaces (q :: tail) = q :: tail := by
    rcases quote with rfl | rfl <;> rfl
  have quoted : readScalar (q :: tail) = some (.text text, '\n' :: rest) := by
    have first : (q :: tail).head? = some '\x22' ∨ (q :: tail).head? = some '\x27' :=
      quote.imp (congrArg some) (congrArg some)
    rw [readScalar, if_pos first, read]
    rfl
  rw [here, readTerm_eq, quoted]
  · rfl
  · rcases quote with rfl | rfl <;> decide
  · rcases quote with rfl | rfl <;> decide

theorem isWordChar_of_isDigit {c : Char} (h : c.isDigit = true) : isWordChar c = true := by
  simp [isWordChar, Char.isAlphanum, h]

theorem grouped?_of_digits (ne : cs ≠ []) (digits : ∀ c ∈ cs, c.isDigit = true) :
    grouped? Char.isDigit cs = some cs := by
  induction cs with
  | nil => exact absurd rfl ne
  | cons c cs ih =>
    obtain ⟨digit, digits⟩ := List.forall_mem_cons.1 digits
    cases cs with
    | nil => rw [grouped?, if_pos digit]
    | cons d ds =>
      have plain : d ≠ '_' := by
        rintro rfl
        exact absurd (digits '_' (List.mem_cons_self ..)) (by decide)
      rw [grouped?, if_pos digit, ih (List.cons_ne_nil d ds) digits, Option.map_some]
      · simp
      · simp [plain]

/-- Nothing but digits is no date and no time. -/
theorem moment_of_digits (digits : ∀ c ∈ cs, c.isDigit = true) : Moment.read? cs = none := by
  -- A date has a hyphen and a time a colon where `cs` has a digit or nothing.
  have stops : ∀ (mark : Char) (n : Nat), mark.isDigit = false →
      readChar mark (cs.drop n) = none := by
    intro mark n other
    cases left : cs.drop n with
    | nil => rfl
    | cons c rest =>
      have digit := digits c (List.mem_of_mem_drop (left ▸ List.mem_cons_self ..))
      refine if_neg ?_
      rintro rfl
      rw [digit] at other
      cases other
  have date : Date.read cs = none := by
    unfold Date.read readDigits
    split
    · cases Decimal.natural? (cs.take 4) with
      | none => rfl
      | some year => simp [stops '-' 4 (by decide)]
    · rfl
  have time : Time.read cs = none := by
    unfold Time.read readDigits
    split
    · cases Decimal.natural? (cs.take 2) with
      | none => rfl
      | some hour => simp [stops ':' 2 (by decide)]
    · rfl
  rw [Moment.read?, date, time]

theorem splitSign_of_ne {c : Char} (plus : c ≠ '+') (minus : c ≠ '-') :
    Decimal.splitSign (c :: cs) = (false, c :: cs) := by
  unfold Decimal.splitSign
  split
  · exact absurd (by simp_all) minus
  · exact absurd (by simp_all) plus
  · rfl

theorem plain?_digits (n : Nat) : plain? (Decimal.digits n) = some (Decimal.digits n) := by
  have written := Decimal.isDigits_digits n
  rw [plain?, grouped?_of_digits written.ne_nil written.digits, Option.bind_some, if_neg]
  rintro ⟨long, zero⟩
  exact long (Decimal.length_digits_of_head? zero)

/-- The other bases have a letter behind the first digit. -/
theorem integer?_of_isDigits {n : Nat} (written : Decimal.IsDigits cs n)
    (plain : plain? cs = some cs) (fits : Decimal.fits64 n = true) :
    integer? cs = some (n : Int) := by
  have read : Decimal.natural? cs = some n := Decimal.natural?_eq_some_iff.2 written
  -- A start like `0x` has a letter as its second character.
  have letter : ∀ {c d : Char} {rest : List Char}, c.isDigit = false → cs ≠ d :: c :: rest := by
    rintro c d rest no rfl
    rw [written.digits c (by simp)] at no
    cases no
  have sign : Decimal.splitSign cs = (false, cs) := by
    obtain ⟨c, cs, rfl⟩ := List.exists_cons_of_ne_nil written.ne_nil
    exact splitSign_of_ne written.head_ne.1 written.head_ne.2
  unfold integer?
  split
  · exact absurd rfl (letter (by decide))
  · exact absurd rfl (letter (by decide))
  · exact absurd rfl (letter (by decide))
  · have counted : (do let a ← Decimal.natural? cs; pure (a : Int)) = some (n : Int) := by
      rw [read]
      rfl
    rw [sign]
    simp only [plain]
    rw [Option.bind_some, counted, Option.map_some, Option.bind_some]
    exact if_pos fits

theorem ofWord?_of_isDigits {n : Nat} (written : Decimal.IsDigits cs n)
    (plain : plain? cs = some cs) (fits : Decimal.fits64 n = true) :
    Scalar.ofWord? cs = some (.integer n) := by
  have word : ∀ {c : Char} {rest : List Char}, c.isDigit = false → cs ≠ c :: rest := by
    rintro c rest no rfl
    rw [written.digits c (List.mem_cons_self ..)] at no
    cases no
  unfold Scalar.ofWord?
  split
  · exact absurd rfl (word (by decide))
  · exact absurd rfl (word (by decide))
  · rw [moment_of_digits written.digits, integer?_of_isDigits written plain fits]
    rfl

theorem writes_digits {n : Nat} (fits : Decimal.fits64 n = true) :
    Writes (Decimal.digits n) (.integer n) := by
  intro rest
  have written := Decimal.isDigits_digits n
  have word : splitWord (Decimal.digits n ++ '\n' :: rest) = (Decimal.digits n, '\n' :: rest) := by
    have words : (Decimal.digits n ++ '\n' :: rest).span isWordChar =
        (Decimal.digits n, '\n' :: rest) := by
      have all : ∀ c ∈ Decimal.digits n, isWordChar c = true := fun c mem =>
        isWordChar_of_isDigit (written.digits c mem)
      have ends : isWordChar '\n' = false := by decide
      rw [List.span_eq_takeWhile_dropWhile, List.takeWhile_append_of_pos all,
        List.dropWhile_append_of_pos all]
      simp [ends]
    simp only [splitWord, words]
    rfl
  have value := ofWord?_of_isDigits written (plain?_digits n) fits
  obtain ⟨c, cs, start⟩ := List.exists_cons_of_ne_nil written.ne_nil
  have digit := written.digits c (start ▸ List.mem_cons_self ..)
  rw [start] at word value ⊢
  have other : ∀ d : Char, d.isDigit = false → c ≠ d := by
    rintro d no rfl
    rw [digit] at no
    cases no
  have here : skipSpaces (c :: cs ++ '\n' :: rest) = c :: cs ++ '\n' :: rest := by
    have plain : isSpace c = false := by simp [isSpace, other ' ' (by decide), other '\t' (by decide)]
    simp [skipSpaces, plain]
  have scalar : readScalar (c :: cs ++ '\n' :: rest) = some (.integer n, '\n' :: rest) := by
    rw [readScalar, if_neg]
    · simp only [word, value, Option.map_some]
    · simp [other '\x22' (by decide), other '\x27' (by decide)]
  rw [here, List.cons_append, readTerm_eq (other _ (by decide)) (other _ (by decide)),
    ← List.cons_append, scalar]
  rfl

end Values

section Lines
variable {p : Pair} {ps : List Pair} {rest : List Char}

theorem isSpace_of_isNameChar {c : Char} (h : isNameChar c = true) : isSpace c = false := by
  rw [Bool.eq_false_iff]
  intro space
  simp only [isSpace, Bool.or_eq_true, beq_iff_eq] at space
  rcases space with rfl | rfl <;> exact absurd h (by decide)

theorem readKey_of_isBare {key : String} (bare : IsBare key) :
    readKey maxDepth (key.toList ++ ' ' :: '=' :: rest) = some (⟨[], key⟩, '=' :: rest) := by
  obtain ⟨c, cs, start⟩ := List.exists_cons_of_ne_nil bare.ne_empty
  have name : isNameChar c = true := bare.names c (start ▸ List.mem_cons_self ..)
  have here : skipSpaces (key.toList ++ ' ' :: '=' :: rest) = key.toList ++ ' ' :: '=' :: rest := by
    simp [skipSpaces, start, isSpace_of_isNameChar name]
  have whole : (key.toList ++ ' ' :: '=' :: rest).span isNameChar =
      (key.toList, ' ' :: '=' :: rest) := by
    have ends : isNameChar ' ' = false := by decide
    rw [List.span_eq_takeWhile_dropWhile, List.takeWhile_append_of_pos bare.names,
      List.dropWhile_append_of_pos bare.names]
    simp [ends]
  have read : readName (key.toList ++ ' ' :: '=' :: rest) = some (key, ' ' :: '=' :: rest) := by
    simp only [readName, whole, if_neg bare.ne_empty, String.ofList_toList]
  rw [maxDepth, readKey, here, read]
  rfl

theorem readStatement_line (valid : p.Valid) :
    readStatement (p.line ++ rest) = some (p.statement, '\n' :: rest) := by
  have shape : p.line ++ rest = p.key.toList ++ ' ' :: '=' :: ' ' :: (p.written ++ '\n' :: rest) := by
    simp [Pair.line]
  have key : readKey maxDepth (p.key.toList ++ ' ' :: '=' :: ' ' :: (p.written ++ '\n' :: rest)) =
      some (⟨[], p.key⟩, '=' :: ' ' :: (p.written ++ '\n' :: rest)) := readKey_of_isBare valid.bare
  obtain ⟨c, cs, start⟩ := List.exists_cons_of_ne_nil valid.bare.ne_empty
  have name : isNameChar c = true := valid.bare.names c (start ▸ List.mem_cons_self ..)
  have blank : skipSpaces (' ' :: (p.written ++ '\n' :: rest)) =
      skipSpaces (p.written ++ '\n' :: rest) := rfl
  have pair : readPair (readTerm maxDepth) (p.line ++ rest) =
      some ((⟨[], p.key⟩, .scalar p.value), '\n' :: rest) := by
    rw [shape, readPair, key]
    simp only [Option.bind_some, blank, valid.writes rest, Option.map_some]
  unfold readStatement
  split
  · rename_i same
    rw [shape, start] at same
    -- No key begins with a bracket, so the line heads no table.
    obtain rfl : c = '[' := (List.cons.inj same).1
    exact absurd name (by decide)
  · rename_i same
    rw [shape, start] at same
    obtain rfl : c = '[' := (List.cons.inj same).1
    exact absurd name (by decide)
  · rw [pair]
    rfl

theorem readStatements_lines (valid : ∀ p ∈ ps, p.Valid) {most : Nat} (enough : ps.length < most) :
    readStatements most (ps.flatMap Pair.line) = some (ps.map Pair.statement) := by
  induction ps generalizing most with
  | nil =>
    obtain ⟨most, rfl⟩ := Nat.exists_eq_add_one.2 enough
    rfl
  | cons p ps ih =>
    obtain ⟨most, rfl⟩ := Nat.exists_eq_add_one.2 (Nat.zero_lt_of_lt enough)
    obtain ⟨valid_p, valid_ps⟩ := List.forall_mem_cons.1 valid
    have rest := ih valid_ps (Nat.lt_of_succ_lt_succ enough)
    have statement : readStatement (p.line ++ ps.flatMap Pair.line) =
        some (p.statement, '\n' :: ps.flatMap Pair.line) := readStatement_line valid_p
    have here : skipLines false (p.line ++ ps.flatMap Pair.line) =
        p.line ++ ps.flatMap Pair.line := by
      obtain ⟨c, cs, start⟩ := List.exists_cons_of_ne_nil valid_p.bare.ne_empty
      have name : isNameChar c = true := valid_p.bare.names c (start ▸ List.mem_cons_self ..)
      have other : ∀ d : Char, isNameChar d = false → c ≠ d := by
        rintro d no rfl
        rw [name] at no
        cases no
      simp only [Pair.line, start, List.cons_append, List.append_assoc]
      rw [skipLines.eq_def]
      simp [other '\n' (by decide), other '\r' (by decide), other '#' (by decide),
        isSpace_of_isNameChar name]
    have some_char : p.line ++ ps.flatMap Pair.line ≠ [] := by simp [Pair.line]
    have ends : endLine ('\n' :: ps.flatMap Pair.line) = some (ps.flatMap Pair.line) := rfl
    rw [List.flatMap_cons, readStatements]
    simp only [here, if_neg some_char, statement, ends, rest, Option.bind_some, Option.map_some,
      List.map_cons]

end Lines

section Entries
variable {ps : List Pair}

theorem lookup_eq_none {entries : List (String × Node)} {key : String}
    (h : key ∉ entries.map Prod.fst) : entries.lookup key = none := by
  rw [List.lookup_eq_none_iff]
  intro e mem
  rw [bne_iff_ne]
  rintro rfl
  exact h (List.mem_map_of_mem mem)

theorem add_statement {entries : List (String × Node)} {p : Pair}
    (fresh : p.key ∉ entries.map Prod.fst) :
    Document.add ⟨⟨.header, entries⟩, []⟩ p.statement =
      some ⟨⟨.header, entries ++ [p.entry]⟩, []⟩ := by
  have none := lookup_eq_none fresh
  simp [Document.add, Pair.statement, Term.node?, Table.define, Table.within, Table.get?, Table.put,
    none, Pair.entry]

theorem foldlM_add {entries : List (String × Node)}
    (distinct : (entries.map Prod.fst ++ ps.map Pair.key).Nodup) :
    (ps.map Pair.statement).foldlM Document.add ⟨⟨.header, entries⟩, []⟩ =
      some ⟨⟨.header, entries ++ ps.map Pair.entry⟩, []⟩ := by
  induction ps generalizing entries with
  | nil => simp
  | cons p ps ih =>
    have shifted : (entries.map Prod.fst ++ (p :: ps).map Pair.key) =
        (entries ++ [p.entry]).map Prod.fst ++ ps.map Pair.key := by simp [Pair.entry]
    have fresh : p.key ∉ entries.map Prod.fst := by
      intro mem
      exact (List.nodup_append.1 distinct).2.2 _ mem _ (List.mem_cons_self ..) rfl
    rw [shifted] at distinct
    rw [List.map_cons, List.foldlM_cons, add_statement fresh, Option.bind_eq_bind, Option.bind_some,
      ih distinct]
    simp

theorem settleEntries_scalars : settleEntries (ps.map Pair.entry) = some (ps.map Pair.entry) := by
  induction ps with
  | nil => rfl
  | cons p ps ih =>
    rw [List.map_cons, settleEntries, Pair.entry, Node.settle, ih]
    rfl

theorem isMoment_eq_false (bare : ∀ p ∈ ps, IsBare p.key) :
    isMoment (ps.map Pair.entry) = false := by
  cases ps with
  | nil => rfl
  | cons p ps =>
    have other : p.key ≠ momentKey := by
      intro same
      have name := (bare p (List.mem_cons_self ..)).names '$' (by rw [same]; decide)
      exact absurd name (by decide)
    simp [isMoment, Pair.entry, other]

theorem read?_lines (valid : ∀ p ∈ ps, p.Valid) (distinct : (ps.map Pair.key).Nodup) :
    Document.read? (String.ofList (ps.flatMap Pair.line)) = some (ps.map Pair.entry) := by
  have unmarked : (ps.flatMap Pair.line).head? ≠ some '\ufeff' := by
    cases ps with
    | nil => simp
    | cons p ps =>
      have bare := (valid p (List.mem_cons_self ..)).bare
      obtain ⟨c, cs, start⟩ := List.exists_cons_of_ne_nil bare.ne_empty
      have name : isNameChar c = true := bare.names c (start ▸ List.mem_cons_self ..)
      simp only [List.flatMap_cons, Pair.line, start, List.cons_append, List.head?_cons]
      rintro ⟨⟩
      exact absurd name (by decide)
  -- Each line has a character at least, so there are as many steps as lines.
  have enough : ps.length < (ps.flatMap Pair.line).length + 1 := by
    have each : ∀ ps : List Pair, ps.length ≤ (ps.flatMap Pair.line).length := by
      intro ps
      induction ps with
      | nil => exact Nat.le_refl 0
      | cons p ps ih =>
        simp only [List.flatMap_cons, List.length_append, List.length_cons, Pair.line]
        omega
    exact Nat.lt_succ_of_le (each ps)
  have statements : Statement.readAll (String.ofList (ps.flatMap Pair.line)) =
      some (ps.map Pair.statement) := by
    simp only [Statement.readAll, String.toList_ofList, if_neg unmarked]
    exact readStatements_lines valid enough
  have added : (ps.map Pair.statement).foldlM Document.add ⟨⟨.header, []⟩, []⟩ =
      some ⟨⟨.header, [] ++ ps.map Pair.entry⟩, []⟩ := foldlM_add (by simpa using distinct)
  have bare : ∀ p ∈ ps, IsBare p.key := fun p mem => (valid p mem).bare
  rw [Document.read?, statements, Option.bind_some]
  have start : ({} : Document) = ⟨⟨.header, []⟩, []⟩ := rfl
  rw [start, added, Option.bind_some, List.nil_append]
  simp only [isMoment_eq_false bare, Bool.false_eq_true, if_false]
  exact settleEntries_scalars

end Entries
end Toml
end MiningClient
