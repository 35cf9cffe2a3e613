import MiningClient.Proofs.Storage.TwoCells

namespace MiningClient

namespace TokenFile

/-- The token of a text is what white space surrounds in it, if that is not empty. -/
theorem tokenOf_eq_some_iff {text token : String} :
    tokenOf text = some token ↔
      token ≠ "" ∧ Text.Stripped Text.isBlank text.toList token.toList := by
  -- To strip is a function of the text, so there is one trimmed text.
  have trimmed : Text.Stripped Text.isBlank text.toList token.toList ↔ Text.trim text = token := by
    rw [Text.stripped_iff, Text.trim, ← String.toList_inj, String.toList_ofList]
  rw [trimmed, tokenOf]
  constructor
  · intro h
    split at h
    · cases h
    · rename_i notBlank
      obtain rfl := Option.some.inj h
      exact ⟨notBlank, rfl⟩
  · rintro ⟨notBlank, rfl⟩
    exact if_neg notBlank

theorem tokenOf_eq_self_iff {token : String} :
    tokenOf token = some token ↔ token ≠ "" ∧ Text.IsTrim token := by
  rw [tokenOf_eq_some_iff]
  refine and_congr_right fun _ => ?_
  exact ⟨fun h => ⟨h.first, h.last⟩, fun h => by simpa only [h.trim_eq] using Text.stripped_trim token⟩

/-- A token that was read is read again as it is. -/
theorem tokenOf_bind_tokenOf (stored : Option String) :
    (stored.bind tokenOf).bind tokenOf = stored.bind tokenOf := by
  cases read : stored.bind tokenOf with
  | none => rfl
  | some token =>
    -- A token that was read has no white space left to strip.
    obtain ⟨text, -, token_of⟩ := Option.bind_eq_some_iff.1 read
    obtain ⟨notBlank, stripped⟩ := tokenOf_eq_some_iff.1 token_of
    rw [Option.bind_some, tokenOf_eq_self_iff]
    exact ⟨notBlank, stripped.first, stripped.last⟩

end TokenFile

namespace Credentials
open TokenFile

/-- What the slot holds after a use of a store, if the use does not fail. -/
def Use.written {σ : Type} (stored : Option String) : Use σ → Option String
  | .set token => some token
  | .clear => none
  | .restore | .meanwhile _ => stored

/-- The last token written and not cleared since; before that, what was stored at first. -/
def lastWritten {σ : Type} (stored : Option String) (uses : List (Use σ)) : Option String :=
  uses.foldl Use.written stored

def Use.isOwn {σ : Type} : Use σ → Bool
  | .meanwhile _ => false
  | _ => true

structure Outcome.IsFine (o : Outcome) : Prop where
  result : o.result = .ok ()
  quiet : o.notices = []

theorem Outcome.isFine_iff {o : Outcome} :
    o.IsFine ↔ o.result.toBool = true ∧ o.notices.isEmpty = true := by
  rw [List.isEmpty_iff]
  refine ⟨fun fine => ⟨by rw [fine.result]; rfl, fine.quiet⟩, fun ⟨succeeded, quiet⟩ => ⟨?_, quiet⟩⟩
  cases h : o.result with
  | error e =>
    rw [h] at succeeded
    cases succeeded
  | ok => rfl

instance (o : Outcome) : Decidable o.IsFine := decidable_of_iff _ Outcome.isFine_iff.symm

section
variable {c : Credentials TokenFile} {stored : Option String}

theorem restore_of_holds (h : c.slot.Holds stored) :
    restore c.slot = (⟨stored.bind tokenOf, c.slot⟩, none) := by
  have loaded : Slot.load c.slot = .ok (stored.bind tokenOf) := h.load
  rw [restore, loaded]

theorem clear_of_holds (h : c.slot.Holds stored) :
    ∃ c', c.clear = (.ok (), c') ∧ c'.token = none ∧ c'.slot.Holds none := by
  obtain ⟨tree, cleared, gone⟩ := h.clear
  have cleared : Slot.clear c.slot = (.ok (), { c.slot with tree }) := cleared
  exact ⟨⟨none, { c.slot with tree }⟩, by rw [Credentials.clear, cleared], rfl, gone⟩

theorem clear_of_clear (gone : c.slot.Holds none) (forgotten : c.token = none) :
    c.clear = (.ok (), c) := by
  have cleared : Slot.clear c.slot = (.ok (), c.slot) := clear_of_none gone
  rw [Credentials.clear, cleared, ← forgotten]

theorem set_eq_ok {token : String} (h : (c.set token).1 = .ok ()) :
    ∃ slot, c.slot.store token = (.ok (), slot) ∧ (c.set token).2 = ⟨some token, slot⟩ := by
  unfold Credentials.set at h ⊢
  change ∃ slot, Slot.store token c.slot = (.ok (), slot) ∧ _
  generalize Slot.store token c.slot = stored at h
  obtain ⟨e | ⟨⟩, slot⟩ := stored
  · cases h
  · exact ⟨slot, rfl, rfl⟩

/-- A use that does not fail leaves the token file as written, and the memory with a token that is read
as the file is. -/
theorem use_holds (h : c.slot.Holds stored) {u : Use TokenFile} (own : u.isOwn = true)
    (fine : (c.use u).2.IsFine) :
    (c.use u).1.slot.Holds (u.written stored) ∧
      (c.use u).1.token.bind tokenOf = (u.written stored).bind tokenOf := by
  cases u with
  | restore =>
    simp only [use, restore_of_holds h, Use.written]
    exact ⟨h, tokenOf_bind_tokenOf stored⟩
  | set token =>
    -- The use did not fail, so the token was written.
    obtain ⟨slot, written, reached⟩ := set_eq_ok fine.result
    have used : (c.use (.set token)).1 = ⟨some token, slot⟩ := reached
    rw [used]
    exact ⟨(holds_of_store written).1, rfl⟩
  | clear =>
    obtain ⟨c', cleared, forgotten, gone⟩ := clear_of_holds h
    simp only [use, cleared, Use.written]
    exact ⟨gone, by rw [forgotten]⟩
  | meanwhile slot => cases own

/-- The run so far has left the token file as it was written last. -/
theorem after_holds (h : c.slot.Holds stored) {uses : List (Use TokenFile)}
    (own : ∀ u ∈ uses, u.isOwn = true) (fine : ∀ o ∈ c.outcomes uses, o.IsFine) :
    (c.after uses).slot.Holds (lastWritten stored uses) ∧
      (uses ≠ [] →
        (c.after uses).token.bind tokenOf = (lastWritten stored uses).bind tokenOf) := by
  -- What is stored changes with each use, so it is general in the induction.
  induction uses generalizing c stored with
  | nil => exact ⟨h, fun ne => absurd rfl ne⟩
  | cons u us ih =>
    obtain ⟨own_u, own_us⟩ := List.forall_mem_cons.1 own
    obtain ⟨fine_u, fine_us⟩ := List.forall_mem_cons.1 fine
    obtain ⟨holds, alike⟩ := use_holds h own_u fine_u
    obtain ⟨holds_after, alike_after⟩ := ih holds own_us fine_us
    refine ⟨holds_after, fun _ => ?_⟩
    cases us with
    | nil => exact alike
    | cons u' us' => exact alike_after (by simp)

end

/-- A run of uses of which none fails, on a token file that only they write. A restart after it reads the
token that was written last, or the one that was there at first, without the white space around it, and
finds none if nothing else is in the file or if it was cleared. It keeps the token held before exactly
when there is none or it is not blank and has no white space around it; a second restart changes nothing,
and neither does a second clearing. A token that is set stands in place of all that was in the file, in a
folder that is there then, and missing folders are no reason to fail. -/
theorem token_persists {f : TokenFile} {stored : Option String} (starts : f.Holds stored)
    (memory : Option String) {uses : List (Use TokenFile)} (own : ∀ u ∈ uses, u.isOwn = true)
    (fine : ∀ o ∈ (Credentials.mk memory f).outcomes uses, o.IsFine) :
    let reached := (Credentials.mk memory f).after uses
    let restarted := (restore reached.slot).1
    (restore reached.slot).2 = none ∧
    (∀ token, restarted.token = some token ↔ ∃ text, lastWritten stored uses = some text ∧
      token ≠ "" ∧ Text.Stripped Text.isBlank text.toList token.toList) ∧
    (uses ≠ [] → (restarted.token = reached.token ↔
      ∀ token, reached.token = some token → token ≠ "" ∧ Text.IsTrim token)) ∧
    (restore restarted.slot).1 = restarted ∧
    (reached.clear.1 = .ok () ∧ reached.clear.2.clear = reached.clear) ∧
    (∀ token slot, reached.set token = (.ok (), ⟨some token, slot⟩) →
      slot.tree.read slot.path = .ok (Utf8.encode token) ∧
        ∃ entries, slot.tree.find slot.folder = .ok (some (.folder entries))) ∧
    (reached.slot.tree.IsOpen reached.slot.folder fileName →
      ∀ token, (reached.set token).1 = .ok ()) := by
  intro reached restarted
  obtain ⟨holds, alike⟩ := after_holds (c := ⟨memory, f⟩) starts own fine
  have restored : restore reached.slot = (⟨(lastWritten stored uses).bind tokenOf, reached.slot⟩, none) :=
    restore_of_holds holds
  have token_eq : restarted.token = (lastWritten stored uses).bind tokenOf :=
    congrArg (·.1.token) restored
  refine ⟨congrArg Prod.snd restored, fun token => ?_, fun used => ?_, ?_, ?_, ?_, ?_⟩
  · rw [token_eq, Option.bind_eq_some_iff]
    exact exists_congr fun text => and_congr_right fun _ => tokenOf_eq_some_iff
  · rw [token_eq, ← alike used]
    change reached.token.bind tokenOf = reached.token ↔ _
    cases reached.token with
    | none => simp
    | some token => simp [tokenOf_eq_self_iff]
  · have same : restarted.slot = reached.slot := congrArg (·.1.slot) restored
    rw [same]
  · obtain ⟨c', cleared, forgotten, gone⟩ := clear_of_holds holds
    have cleared : reached.clear = (.ok (), c') := cleared
    rw [cleared]
    exact ⟨rfl, clear_of_clear gone forgotten⟩
  · intro token slot set
    have succeeded : (reached.set token).1 = .ok () := by rw [set]
    obtain ⟨slot', written, kept⟩ := set_eq_ok succeeded
    rw [set] at kept
    obtain rfl : slot = slot' := congrArg Credentials.slot kept
    obtain ⟨there, -, folder⟩ := holds_of_store written
    exact ⟨there, folder⟩
  · intro way token
    obtain ⟨slot, written⟩ := store_of_isOpen way token
    have written : Slot.store token reached.slot = (.ok (), slot) := written
    rw [Credentials.set, written]

section Example

/-- Folders that are not there yet. -/
def newFile : TokenFile := { folder := "home/data" }

/-- A long token, and then one with white space around it. -/
def paddedUses : List (Use TokenFile) := [.restore, .set "a-longer-token", .set "\u2003axe\n"]

theorem token_persists_padded :
    newFile.Holds none ∧ (∀ u ∈ paddedUses, u.isOwn = true) ∧
      (∀ o ∈ (Credentials.mk none newFile).outcomes paddedUses, o.IsFine) ∧
      let reached := (Credentials.mk none newFile).after paddedUses
      reached.token = some "\u2003axe\n" ∧ (restore reached.slot).1.token = some "axe" ∧
        (restore reached.slot).1.token ≠ reached.token := by
  have starts : newFile.Holds none := by
    have missing : newFile.tree.locate newFile.path = .error .notFound := by rfl
    exact Tree.read_eq_notFound_iff.2 (.inl missing)
  have own : ∀ u ∈ paddedUses, u.isOwn = true := by simp [paddedUses, Use.isOwn]
  have fine : ∀ o ∈ (Credentials.mk none newFile).outcomes paddedUses, o.IsFine := by decide +kernel
  have held : ((Credentials.mk none newFile).after paddedUses).token = some "\u2003axe\n" := by
    decide +kernel
  obtain ⟨-, reads, keeps, -⟩ := token_persists starts none own fine
  have stripped : Text.Stripped Text.isBlank "\u2003axe\n".toList "axe".toList :=
    Text.stripped_iff.2 (by decide)
  refine ⟨starts, own, fine, held, (reads "axe").2 ⟨_, rfl, by decide, stripped⟩, ?_⟩
  rw [Ne, keeps (by simp [paddedUses]), held]
  exact fun trim => absurd (trim _ rfl).2 (by decide)

end Example

end Credentials
end MiningClient
