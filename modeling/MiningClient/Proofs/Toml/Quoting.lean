import Mathlib.Data.List.Basic
import MiningClient.Toml.Quoted

namespace MiningClient.Toml

variable {s : Style} {run : Nat} {body text rest : List Char}

namespace Style

/-- So many quotes may stand in a row between the quotes. -/
def mostQuotes (s : Style) : Nat := if s.manyLines then 2 else 0

/-- Behind `run` quotes in a row the body shows the text. -/
inductive Shows (s : Style) : Nat → List Char → List Char → Prop
  | done {run : Nat} : Shows s run [] []
  | quote {run : Nat} {body text : List Char} (few : run < s.mostQuotes)
    (more : Shows s (run + 1) body text) : Shows s run (s.quote :: body) (s.quote :: text)
  | plain {run : Nat} {c : Char} {body text : List Char} (other : c ≠ s.quote)
    (literal : s.escapes = true → c ≠ '\\') (allowed : s.allows c = true)
    (more : Shows s 0 body text) : Shows s run (c :: body) (c :: text)
  | escape {run : Nat} {e c : Char} {body text : List Char} (escapes : s.escapes = true)
    (meant : Text.escaped? e = some c) (more : Shows s 0 body text) :
    Shows s run ('\\' :: e :: body) (c :: text)
  | code {run : Nat} {d₁ d₂ d₃ d₄ c : Char} {body text : List Char} (escapes : s.escapes = true)
    (digits : ∀ d ∈ [d₁, d₂, d₃, d₄], d.isAlphanum = true)
    (meant : Text.charOfHex? [d₁, d₂, d₃, d₄] = some c) (more : Shows s 0 body text) :
    Shows s run ('\\' :: 'u' :: d₁ :: d₂ :: d₃ :: d₄ :: body) (c :: text)

theorem quote_ne_backslash (s : Style) : s.quote ≠ '\\' := by
  unfold quote
  split <;> decide

theorem allows_quote (s : Style) : s.allows s.quote = true := by
  unfold allows quote
  split <;> rfl

theorem mark_eq_cons (s : Style) :
    s.mark = s.quote :: List.replicate (if s.manyLines then 2 else 0) s.quote := by
  unfold mark
  cases s.manyLines <;> rfl

/-- Letters and digits are neither quotes nor backslashes. -/
theorem ne_quote_of_isAlphanum (s : Style) {d : Char} (h : d.isAlphanum = true) :
    d ≠ s.quote ∧ d ≠ '\\' := by
  have plain : s.quote.isAlphanum = false := by
    unfold quote
    split <;> decide
  constructor
  · rintro rfl
    rw [plain] at h
    cases h
  · rintro rfl
    exact absurd h (by decide)

theorem closing?_few {cs : List Char} (few : (cs.takeWhile (· == s.quote)).length ≤ s.mostQuotes) :
    s.closing? cs = none := by
  unfold mostQuotes at few
  unfold Style.closing?
  cases lines : s.manyLines with
  | true =>
    rw [lines, if_pos rfl] at few
    simp only [if_true]
    rw [if_neg (by omega)]
  | false =>
    rw [lines, if_neg Bool.false_ne_true] at few
    simp only [Bool.false_eq_true, if_false]
    rw [if_neg (by omega)]

theorem closing?_of_ne {c : Char} {cs : List Char} (h : c ≠ s.quote) : s.closing? (c :: cs) = none :=
  closing?_few (by simp [h])

theorem split_cons (c : Char) (cs : List Char) :
    s.split (c :: cs) =
      match s.closing? (c :: cs) with
      | some ending => some ending
      | none =>
        if s.escapes && c == '\\' then
          match cs with
          | [] => none
          | e :: cs => (s.split cs).map fun (body, rest) => (c :: e :: body, rest)
        else (s.split cs).map fun (body, rest) => (c :: body, rest) :=
  split.eq_def s (c :: cs)

theorem split_cons_of_ne {c : Char} {cs : List Char} (h : c ≠ s.quote)
    (literal : s.escapes = true → c ≠ '\\') :
    s.split (c :: cs) = (s.split cs).map fun (body, rest) => (c :: body, rest) := by
  have plain : (s.escapes && c == '\\') = false := by
    cases escapes : s.escapes with
    | true => simpa using literal escapes
    | false => rfl
  simp [split_cons, closing?_of_ne h, plain]

theorem split_backslash (escapes : s.escapes = true) (e : Char) (cs : List Char) :
    s.split ('\\' :: e :: cs) =
      (s.split cs).map fun (body, rest) => ('\\' :: e :: body, rest) := by
  simp [split_cons, closing?_of_ne s.quote_ne_backslash.symm, escapes]

theorem Shows.quotes_le (h : s.Shows run body text) (le : run ≤ s.mostQuotes) :
    run + (body.takeWhile (· == s.quote)).length ≤ s.mostQuotes := by
  induction h with
  | done => exact le
  | quote few more ih =>
    have := ih few
    simp only [List.takeWhile_cons, beq_self_eq_true, if_true, List.length_cons]
    omega
  | plain other => simpa [other] using le
  | escape | code =>
    -- An escape begins with a backslash, which ends the run of quotes.
    have : ('\\' == s.quote) = false := beq_false_of_ne s.quote_ne_backslash.symm
    simpa [this] using le

/-- A few quotes and the mark close a body of those quotes. -/
theorem closing?_quotes {k : Nat} (few : k ≤ s.mostQuotes) (ends : rest.head? ≠ some s.quote) :
    s.closing? (List.replicate k s.quote ++ s.mark ++ rest) =
      some (List.replicate k s.quote, rest) := by
  have after : rest.takeWhile (· == s.quote) = [] := by
    cases rest with
    | nil => rfl
    | cons c rest =>
      have other : ¬c = s.quote := by simpa using ends
      simp [other]
  -- `k` quotes of the text and those that close it stand in one run.
  have marked : (List.replicate k s.quote ++ s.mark ++ rest).takeWhile (· == s.quote) =
      List.replicate k s.quote ++ s.mark := by
    rw [List.takeWhile_append_of_pos, after, List.append_nil]
    simp [mark]
  unfold mostQuotes at few
  unfold Style.closing?
  rw [marked]
  cases lines : s.manyLines with
  | true =>
    have le : k ≤ 2 := by simpa [lines] using few
    have three : s.mark = List.replicate 3 s.quote := by simp [mark, lines]
    have least : min (k + 3) 5 = k + 3 := by omega
    have kept : min k 2 = k := by omega
    simp [three, least, kept, List.drop_append]
  | false =>
    have none : k = 0 := by simpa [lines] using few
    have one : s.mark = [s.quote] := by simp [mark, lines]
    simp [none, one]

/-- Only where nothing but quotes is left of the body does it end. -/
theorem Shows.closing? (h : s.Shows run body text) (le : run ≤ s.mostQuotes)
    (ends : rest.head? ≠ some s.quote) :
    s.closing? (body ++ s.mark ++ rest) =
      if body.all (· == s.quote) then some (body, rest) else none := by
  have few := h.quotes_le le
  split
  · rename_i all
    have quotes : body = List.replicate body.length s.quote :=
      List.eq_replicate_of_mem fun c mem => eq_of_beq (List.all_eq_true.1 all c mem)
    rw [quotes] at few ⊢
    refine closing?_quotes ?_ ends
    simpa using Nat.le_trans (Nat.le_add_left ..) few
  · rename_i other
    -- A character that is no quote ends the run.
    have inside : (body ++ s.mark ++ rest).takeWhile (· == s.quote) =
        body.takeWhile (· == s.quote) := by
      rw [List.append_assoc, List.takeWhile_append, if_neg]
      intro whole
      rw [← (List.takeWhile_prefix _).eq_of_length whole] at other
      exact other List.all_takeWhile
    refine closing?_few ?_
    rw [inside]
    exact Nat.le_trans (Nat.le_add_left ..) few

theorem Shows.split (h : s.Shows run body text) (le : run ≤ s.mostQuotes)
    (ends : rest.head? ≠ some s.quote) : s.split (body ++ s.mark ++ rest) = some (body, rest) := by
  induction h with
  | done =>
    have closed := (Shows.done : s.Shows 0 [] []).closing? (Nat.zero_le _) ends
    rw [List.nil_append, mark_eq_cons, List.cons_append] at closed ⊢
    rw [split_cons, closed]
    simp
  | @quote run body text few more ih =>
    -- If the text is closed from here, its body is quotes only.
    have closed := Shows.closing? (.quote few more) le ends
    simp only [List.cons_append] at closed ⊢
    have plain : (s.escapes && s.quote == '\\') = false := by simp [s.quote_ne_backslash]
    rw [split_cons, closed, plain, ih few]
    split
    · rename_i same
      split at same
      · exact same.symm
      · cases same
    · rfl
  | plain other literal allowed more ih =>
    rw [List.cons_append, List.cons_append, split_cons_of_ne other literal, ih (Nat.zero_le _)]
    rfl
  | escape escapes meant more ih =>
    simp only [List.cons_append]
    rw [split_backslash escapes, ih (Nat.zero_le _)]
    rfl
  | @code run d₁ d₂ d₃ d₄ c body text escapes digits meant more ih =>
    simp only [List.forall_mem_cons] at digits
    obtain ⟨a₁, a₂, a₃, a₄, -⟩ := digits
    have step : ∀ {d : Char} (cs : List Char), d.isAlphanum = true →
        s.split (d :: cs) = (s.split cs).map fun (body, rest) => (d :: body, rest) := fun cs a =>
      split_cons_of_ne (s.ne_quote_of_isAlphanum a).1 fun _ => (s.ne_quote_of_isAlphanum a).2
    simp only [List.cons_append]
    rw [split_backslash escapes, step _ a₁, step _ a₂, step _ a₃, step _ a₄, ih (Nat.zero_le _)]
    rfl

/-- No escape but one of these is behind a backslash, so the backslash ends no line. -/
theorem endsLine_of_escaped? {e c : Char} {cs : List Char} (h : Text.escaped? e = some c) :
    endsLine (e :: cs) = false := by
  have other : e ≠ ' ' ∧ e ≠ '\t' ∧ e ≠ '\n' := by
    refine ⟨?_, ?_, ?_⟩ <;>
    · rintro rfl
      cases h
  simp [endsLine, isSpace, other]

theorem unescape_of_ne {c : Char} {cs : List Char} (h : c ≠ '\\') (allowed : s.allows c = true) :
    s.unescape false (c :: cs) = (s.unescape false cs).map (c :: ·) := by
  rw [unescape.eq_def]
  simp [h, allowed]

theorem unescape_escape {e c : Char} {cs : List Char} (h : Text.escaped? e = some c) :
    s.unescape false ('\\' :: e :: cs) = (s.unescape false cs).map (c :: ·) := by
  rw [unescape.eq_def]
  simp [endsLine_of_escaped? h, h]

theorem unescape_code {d₁ d₂ d₃ d₄ c : Char} {cs : List Char}
    (h : Text.charOfHex? [d₁, d₂, d₃, d₄] = some c) :
    s.unescape false ('\\' :: 'u' :: d₁ :: d₂ :: d₃ :: d₄ :: cs) =
      (s.unescape false cs).map (c :: ·) := by
  have ends : ∀ cs, endsLine ('u' :: cs) = false := fun cs => rfl
  have letter : Text.escaped? 'u' = none := rfl
  rw [unescape.eq_def]
  simp [ends, letter, h]

theorem Shows.unescape (h : s.Shows run body text) (escapes : s.escapes = true) :
    s.unescape false body = some text := by
  induction h with
  | done => rfl
  | quote few more ih =>
    rw [unescape_of_ne s.quote_ne_backslash s.allows_quote, ih]
    rfl
  | plain other literal allowed more ih =>
    rw [unescape_of_ne (literal escapes) allowed, ih]
    rfl
  | escape _ meant more ih =>
    rw [unescape_escape meant, ih]
    rfl
  | code _ _ meant more ih =>
    rw [unescape_code meant, ih]
    rfl

theorem Shows.literal (h : s.Shows run body text) (escapes : s.escapes = false) :
    body = text ∧ body.all s.allows = true := by
  induction h with
  | done => exact ⟨rfl, rfl⟩
  | quote few more ih =>
    obtain ⟨rfl, allowed⟩ := ih
    exact ⟨rfl, by rw [List.all_cons, s.allows_quote, allowed, Bool.and_self]⟩
  | plain other literal allowed more ih =>
    obtain ⟨rfl, rest⟩ := ih
    exact ⟨rfl, by rw [List.all_cons, allowed, rest, Bool.and_self]⟩
  | escape escapes' | code escapes' =>
    rw [escapes] at escapes'
    cases escapes'

theorem Shows.no_return (h : s.Shows run body text) : '\r' ∉ body := by
  have quote : '\r' ≠ s.quote := by
    unfold Style.quote
    split <;> decide
  have letter : ∀ {d : Char}, d.isAlphanum = true → '\r' ≠ d := by
    rintro d a rfl
    exact absurd a (by decide)
  induction h with
  | done => exact List.not_mem_nil
  | quote few more ih => exact List.not_mem_cons_of_ne_of_not_mem quote ih
  | plain other literal allowed more ih =>
    refine List.not_mem_cons_of_ne_of_not_mem ?_ ih
    rintro rfl
    simp [allows, isPlain] at allowed
  | escape escapes meant more ih =>
    refine List.not_mem_cons_of_ne_of_not_mem (by decide) (List.not_mem_cons_of_ne_of_not_mem ?_ ih)
    rintro rfl
    cases meant
  | code escapes digits meant more ih =>
    simp only [List.forall_mem_cons] at digits
    obtain ⟨a₁, a₂, a₃, a₄, -⟩ := digits
    simp [letter a₁, letter a₂, letter a₃, letter a₄, ih]

theorem unifyLineEnds_eq_self {cs : List Char} (h : '\r' ∉ cs) : unifyLineEnds cs = cs := by
  induction cs using unifyLineEnds.induct with
  | case1 => rfl
  | case2 cs ih => exact absurd (List.mem_cons_self ..) h
  | case3 c cs other ih =>
    rw [unifyLineEnds, ih (List.not_mem_of_not_mem_cons h)]
    exact other

/-- A line end right behind the opening quotes of many lines is none of the text. -/
theorem Shows.decode (h : s.Shows run body text) {start : List Char}
    (first : start = [] ∧ body.head? ≠ some '\n' ∨ start = ['\n'] ∧ s.manyLines = true) :
    s.decode (start ++ body) = some text := by
  have meant : (if s.escapes then s.unescape false body
      else if body.all s.allows then some body else none) = some text := by
    cases escapes : s.escapes with
    | true => simpa using h.unescape escapes
    | false =>
      obtain ⟨same, allowed⟩ := h.literal escapes
      rw [if_pos allowed, same]
      simp
  obtain ⟨rfl, other⟩ | ⟨rfl, lines⟩ := first
  · rw [Style.decode, List.nil_append, unifyLineEnds_eq_self h.no_return, if_neg other]
    simpa using meant
  · have unified : unifyLineEnds ('\n' :: body) = '\n' :: body :=
      unifyLineEnds_eq_self (List.not_mem_cons_of_ne_of_not_mem (by decide) h.no_return)
    rw [Style.decode, List.singleton_append, unified, lines]
    exact meant

/-- Of what is not plain, every control character is written by its code. -/
theorem allows_of_not_isControl {c : Char} (h : isControl c = false) (line : c ≠ '\n') :
    s.allows c = true := by
  have plain : isPlain c = true := by
    by_cases tab : c = '\t'
    · rw [tab]
      rfl
    · simp only [isControl, Bool.or_eq_false_iff, Bool.and_eq_false_iff, decide_eq_false_iff_not,
        bne_eq_false_iff_eq, tab, line, or_false, beq_eq_false_iff_ne, Char.not_lt] at h
      simp [isPlain, h]
  simp [allows, plain]

/-- The code of a control character is four digits that are read as it. -/
theorem hexText_of_isControl {c : Char} (h : isControl c = true) :
    ∃ d₁ d₂ d₃ d₄, hexText c.toNat = [d₁, d₂, d₃, d₄] ∧
      (∀ d ∈ [d₁, d₂, d₃, d₄], d.isAlphanum = true) ∧
      Text.charOfHex? [d₁, d₂, d₃, d₄] = some c := by
  have small : c.toNat < 128 := by
    simp only [isControl, Bool.or_eq_true, Bool.and_eq_true, decide_eq_true_eq, beq_iff_eq] at h
    obtain ⟨⟨low, -⟩, -⟩ | rfl := h
    · have low : c.toNat < 32 := UInt32.lt_iff_toNat_lt.1 low
      omega
    · decide
  have table : ∀ n < 128, (hexText n).length = 4 ∧ (hexText n).all Char.isAlphanum = true ∧
      Text.charOfHex? (hexText n) = some (Char.ofNat n) := by decide +kernel
  obtain ⟨four, digits, meant⟩ := table c.toNat small
  obtain ⟨d₁, d₂, d₃, d₄, written⟩ := List.length_eq_four.1 four
  rw [written] at digits meant
  exact ⟨d₁, d₂, d₃, d₄, written, List.all_eq_true.1 digits, by rw [meant, Char.ofNat_toNat]⟩

theorem Shows.escapeChar {c : Char} (escapes : s.escapes = true) (other : c ≠ s.quote)
    (more : s.Shows 0 body text) : s.Shows run (Toml.escapeChar c ++ body) (c :: text) := by
  unfold Toml.escapeChar
  by_cases known : c ∈ ['\x08', '\t', '\n', '\x0c', '\r', '\\']
  · simp only [List.mem_cons, List.not_mem_nil, or_false] at known
    rcases known with rfl | rfl | rfl | rfl | rfl | rfl <;> exact .escape escapes rfl more
  · simp only [List.mem_cons, List.not_mem_nil, or_false, not_or] at known
    obtain ⟨h₁, h₂, line, h₃, h₄, backslash⟩ := known
    simp only [beq_iff_eq, h₁, h₂, line, h₃, h₄, backslash, if_false]
    split
    · rename_i control
      obtain ⟨d₁, d₂, d₃, d₄, written, digits, meant⟩ := hexText_of_isControl control
      rw [written]
      exact .code escapes digits meant more
    · rename_i plain
      have plain : isControl c = false := by simpa using plain
      exact .plain other (fun _ => backslash) (allows_of_not_isControl plain line) more

theorem shows_escape (manyLines : Bool) (run : Nat) (cs : List Char) :
    Shows ⟨true, manyLines⟩ run (escape manyLines run cs) cs := by
  induction cs generalizing run with
  | nil => exact .done
  | cons c cs ih =>
    unfold escape
    by_cases quote : c = '\x22'
    · subst quote
      rw [if_pos (by decide)]
      split
      · rename_i few
        simp only [Bool.and_eq_true, decide_eq_true_eq] at few
        refine .quote (s := ⟨true, manyLines⟩) ?_ (ih _)
        simp [mostQuotes, few]
      · exact .escape rfl rfl (ih 0)
    · rw [if_neg (by simpa using quote)]
      split
      · rename_i line
        simp only [Bool.and_eq_true, beq_iff_eq] at line
        obtain ⟨rfl, rfl⟩ := line
        exact .plain (by decide) (fun _ => by decide) (by decide) (ih 0)
      · exact Shows.escapeChar rfl quote (ih 0)

theorem tripled_of_cons {q a : Char} {cs : List Char} (h : tripled q (a :: cs) = false) :
    tripled q cs = false := by
  rcases cs with _ | ⟨b, _ | ⟨c, cs⟩⟩
  · rfl
  · rfl
  · rw [tripled, Bool.or_eq_false_iff] at h
    exact h.2

theorem tripled_of_append {q : Char} {cs cs' : List Char} (h : tripled q (cs ++ cs') = false) :
    tripled q cs' = false := by
  induction cs with
  | nil => exact h
  | cons a cs ih => exact ih (tripled_of_cons h)

/-- Without escapes a text is shown whose characters may stand there and whose quotes close nothing. -/
theorem shows_literal {cs : List Char} (literal : s.escapes = false) (le : run ≤ s.mostQuotes)
    (allowed : ∀ c ∈ cs, s.allows c = true)
    (few : if s.manyLines then tripled s.quote (List.replicate run s.quote ++ cs) = false
      else s.quote ∉ cs) :
    s.Shows run cs cs := by
  have escapes : ∀ c : Char, s.escapes = true → c ≠ '\\' := fun c h => by
    rw [literal] at h
    cases h
  induction cs generalizing run with
  | nil => exact .done
  | cons c cs ih =>
    obtain ⟨allowed_c, allowed_cs⟩ := List.forall_mem_cons.1 allowed
    by_cases quote : c = s.quote
    · subst quote
      cases lines : s.manyLines with
      | false =>
        rw [lines] at few
        exact absurd (List.mem_cons_self ..) few
      | true =>
        rw [lines, if_pos rfl] at few
        have most : s.mostQuotes = 2 := by simp [mostQuotes, lines]
        have lt : run < s.mostQuotes := by
          refine Nat.lt_of_le_of_ne le fun full => ?_
          rw [full, most] at few
          simp [tripled] at few
        refine .quote lt (ih lt allowed_cs ?_)
        rw [lines, if_pos rfl, List.replicate_succ', List.append_assoc]
        exact few
    · refine .plain quote (escapes c) allowed_c (ih (Nat.zero_le _) allowed_cs ?_)
      cases lines : s.manyLines with
      | false =>
        rw [lines] at few
        exact List.not_mem_of_not_mem_cons few
      | true =>
        rw [lines, if_pos rfl] at few
        exact tripled_of_cons (tripled_of_append few)

/-- In the style that is chosen the text is shown, and only over many lines may it have a line end that
is not escaped. -/
theorem shows_choose (cs : List Char) :
    (choose cs).Shows 0 (if (choose cs).escapes then escape (choose cs).manyLines 0 cs else cs) cs := by
  have allowed : ∀ manyLines, (!cs.any isControl) = true → (manyLines = false → '\n' ∉ cs) →
      ∀ c ∈ cs, Style.allows ⟨false, manyLines⟩ c = true := by
    intro manyLines bare lines c mem
    have plain : isControl c = false := by
      simp only [Bool.not_eq_true', List.any_eq_false, Bool.not_eq_true] at bare
      exact bare c mem
    by_cases line : c = '\n'
    · subst line
      cases manyLines with
      | true => rfl
      | false => exact absurd mem (lines rfl)
    · exact allows_of_not_isControl plain line
  unfold choose
  simp only
  split
  · exact shows_escape false 0 cs
  split
  · rename_i literal
    simp only [Bool.and_eq_true, Bool.not_eq_true', List.contains_eq_mem, decide_eq_false_iff_not]
      at literal
    obtain ⟨⟨bare, lines⟩, quote⟩ := literal
    exact shows_literal rfl (Nat.zero_le _) (allowed false (by simpa using bare) fun _ => lines) quote
  split
  · exact shows_escape true 0 cs
  split
  · rename_i literal
    simp only [Bool.and_eq_true, Bool.not_eq_true'] at literal
    obtain ⟨bare, few⟩ := literal
    refine shows_literal rfl (Nat.zero_le _) (allowed true (by simpa using bare) nofun) ?_
    exact few
  · exact shows_escape _ 0 cs

/-- A body that begins with a line end is over many lines, and the text has that line end. -/
theorem Shows.line (h : s.Shows run body text) (line : body.head? = some '\n') :
    s.manyLines = true ∧ '\n' ∈ text := by
  cases h with
  | done => cases line
  | quote =>
    have quote : s.quote ≠ '\n' := by
      unfold Style.quote
      split <;> decide
    exact absurd (Option.some.inj line) quote
  | plain _ _ allowed =>
    obtain rfl := Option.some.inj line
    have lines : s.manyLines = true := by simpa [allows, isPlain] using allowed
    exact ⟨lines, List.mem_cons_self ..⟩
  | escape | code => cases line

/-- What is written in a style that shows it so is read in that style. -/
theorem read_write {cs : List Char}
    (h : s.Shows 0 (if s.escapes then escape s.manyLines 0 cs else cs) cs)
    (ends : rest.head? ≠ some s.quote) :
    ∃ body, s.write cs = s.mark ++ body ∧ s.read (body ++ rest) = some (String.ofList cs, rest) ∧
      (s.manyLines = false → ∀ tail, body ++ rest ≠ s.quote :: s.quote :: tail) := by
  generalize shown : (if s.escapes then escape s.manyLines 0 cs else cs) = body at h
  let start := if s.manyLines && cs.contains '\n' then ['\n'] else []
  have written : s.write cs = s.mark ++ (start ++ body ++ s.mark) := by
    simp only [write, shown, List.append_assoc, start]
  have closed : s.split (body ++ s.mark ++ rest) = some (body, rest) := h.split (Nat.zero_le _) ends
  have first : start = [] ∧ body.head? ≠ some '\n' ∨ start = ['\n'] ∧ s.manyLines = true := by
    by_cases lines : s.manyLines = true ∧ '\n' ∈ cs
    · exact .inr ⟨by simp [start, lines], lines.1⟩
    · refine .inl ⟨?_, fun line => lines (h.line line)⟩
      simpa [start] using lines
  have taken : s.split (start ++ body ++ s.mark ++ rest) = some (start ++ body, rest) := by
    obtain ⟨none, -⟩ | ⟨line, -⟩ := first
    · rw [none]
      exact closed
    · have other : '\n' ≠ s.quote ∧ '\n' ≠ '\\' := by
        unfold quote
        split <;> decide
      rw [line]
      simp only [List.cons_append, List.nil_append] at closed ⊢
      rw [split_cons_of_ne other.1 fun _ => other.2, closed]
      rfl
  refine ⟨_, written, ?_, ?_⟩
  · rw [read, taken]
    simp only [Option.bind_some, h.decode first, Option.map_some]
  · intro single tail same
    -- On one line the body has no quote of its own.
    have none : start = [] := by simp [start, single]
    have mark : s.mark = [s.quote] := by simp [Style.mark, single]
    have few := h.quotes_le (Nat.zero_le _)
    rw [none, mark] at same
    rw [mostQuotes, single] at few
    cases body with
    | nil =>
      obtain rfl : rest = s.quote :: tail := (List.cons.inj same).2
      exact ends rfl
    | cons c body =>
      obtain rfl : c = s.quote := (List.cons.inj same).1
      simp at few

end Style

theorem readText_mark (s : Style) {cs : List Char}
    (single : s.manyLines = false → ∀ tail, cs ≠ s.quote :: s.quote :: tail) :
    readText (s.mark ++ cs) = s.read cs := by
  obtain ⟨escapes, manyLines⟩ := s
  cases manyLines with
  | true => cases escapes <;> rfl
  | false =>
    have single := single rfl
    have mark : Style.mark ⟨escapes, false⟩ = [Style.quote ⟨escapes, false⟩] := rfl
    rw [mark, List.singleton_append]
    unfold readText
    cases escapes with
    | true =>
      split
      · rename_i same
        exact absurd (List.cons.inj same).2 (single _)
      · rename_i same
        cases (List.cons.inj same).1
      · rfl
    | false =>
      split
      · rename_i same
        cases (List.cons.inj same).1
      · rename_i same
        exact absurd (List.cons.inj same).2 (single _)
      · rfl

/-- Whatever the text, what is written for it is read as it, up to where it ends. -/
theorem readText_writeText (text : String) {rest : List Char}
    (ends : ∀ s : Style, rest.head? ≠ some s.quote) :
    readText (writeText text ++ rest) = some (text, rest) := by
  obtain ⟨body, written, read, single⟩ := Style.read_write (Style.shows_choose text.toList) (ends _)
  rw [writeText, written, List.append_assoc, readText_mark _ single, read, String.ofList_toList]

end MiningClient.Toml
