import MiningClient.Log
import MiningClient.Proofs.Storage.Seen
import MiningClient.Storage.Credentials

namespace MiningClient

open Slot.Seen (held read)

namespace Credentials

/-- What can be done to a store and its slot. -/
inductive Use (σ : Type)
  /-- The store is given up for one restored from its slot. -/
  | restore
  | set (token : String)
  | clear
  /-- Someone else leaves the slot like this. -/
  | meanwhile (slot : σ)

structure Outcome where
  result : Except Error Unit := .ok ()
  notices : List Notice := []

section
variable {σ : Type} [Slot σ]

def use (c : Credentials σ) : Use σ → Credentials σ × Outcome
  | .restore =>
    let (c, fault) := restore c.slot
    (c, { notices := (fault.map .tokenUnreadable).toList })
  | .set token =>
    let (result, c) := c.set token
    (c, { result })
  | .clear =>
    let (result, c) := c.clear
    (c, { result })
  | .meanwhile slot => ({ c with slot }, {})

def after (c : Credentials σ) (uses : List (Use σ)) : Credentials σ :=
  uses.foldl (fun c u => (c.use u).1) c

/-- Each use with the store that it comes to. -/
def moments : Credentials σ → List (Use σ) → List (Credentials σ × Use σ)
  | _, [] => []
  | c, u :: us => (c, u) :: moments (c.use u).1 us

def outcomes (c : Credentials σ) (uses : List (Use σ)) : List Outcome :=
  (c.moments uses).map fun x => (x.1.use x.2).2

end

inductive Deed
  | restore (refusal : Option StorageFault)
  | set (token : String) (refusal : Option StorageFault)
  | clear (refusal : Option StorageFault)
  | meanwhile (slot : Option String)
  deriving DecidableEq

/-- The token in memory and the token in the slot. -/
structure Cells where
  memory : Option String
  slot : Option String
  deriving DecidableEq

/-- What a deed does to the two cells, where a token in the slot is read as `read` says. -/
def Cells.act (read : Option String → Option String) (c : Cells) : Deed → Cells
  | .restore none => { c with memory := read c.slot }
  | .restore (some _) => { c with memory := none }
  | .set token none => ⟨some token, some token⟩
  | .set _ (some _) => c
  | .clear none => ⟨none, none⟩
  | .clear (some _) => { c with memory := none }
  | .meanwhile slot => { c with slot }

namespace Deed

def outcome : Deed → Outcome
  | set _ (some e) | clear (some e) => { result := .error (.credential e) }
  | restore (some e) => { notices := [.tokenUnreadable e] }
  | _ => {}

/-- What a deed other than a restoration does to the token in memory. -/
def remembered (memory : Option String) : Deed → Option String
  | set token none => some token
  | clear _ => none
  | _ => memory

def isRestore : Deed → Bool
  | restore _ => true
  | _ => false

/-- The deed keeps two cells in step that hold this token. -/
def KeepsStep (token : Option String) : Deed → Prop
  | restore refusal | clear refusal => refusal = none
  | set _ _ => True
  | meanwhile slot => slot = token

end Deed

theorem Cells.memory_act (read : Option String → Option String) (c : Cells) {d : Deed}
    (h : d.isRestore = false) : (c.act read d).memory = d.remembered c.memory := by
  cases d with
  | restore refusal => cases h
  | set token refusal => cases refusal <;> rfl
  | clear refusal => cases refusal <;> rfl
  | meanwhile slot => rfl

/-- Where reading gives back what was stored, cells in step stay so. -/
theorem Cells.act_in_step {read : Option String → Option String} (faithful : ∀ t, read t = t)
    {c : Cells} (h : c.memory = c.slot) {d : Deed} (keeps : d.KeepsStep c.slot) :
    (c.act read d).memory = (c.act read d).slot := by
  rcases d with ⟨_ | _⟩ | ⟨_, _ | _⟩ | ⟨_ | _⟩ | slot
  · exact faithful c.slot
  -- A refused restoration is no deed that keeps step.
  · cases keeps
  · rfl
  · exact h
  · rfl
  · cases keeps
  · exact h.trans keeps.symm

section
variable {σ : Type} [Slot σ] [Slot.Seen σ]

def cells (c : Credentials σ) : Cells := ⟨c.token, held c.slot⟩

def refusal? {α : Type} : Except StorageFault α → Option StorageFault
  | .ok _ => none
  | .error e => some e

theorem refusal?_eq_none_iff {r : Except StorageFault Unit} : refusal? r = none ↔ r = .ok () := by
  cases r <;> simp [refusal?]

theorem refusal?_eq_some_iff {r : Except StorageFault Unit} {e : StorageFault} :
    refusal? r = some e ↔ r = .error e := by
  cases r <;> simp [refusal?]

def deed (c : Credentials σ) : Use σ → Deed
  | .restore => .restore (refusal? (Slot.load c.slot))
  | .set token => .set token (refusal? (Slot.store token c.slot).1)
  | .clear => .clear (refusal? (Slot.clear c.slot).1)
  | .meanwhile slot => .meanwhile (held slot)

def deeds (c : Credentials σ) (uses : List (Use σ)) : List Deed :=
  (c.moments uses).map fun x => x.1.deed x.2

variable (c : Credentials σ)

theorem use_cells (u : Use σ) :
    (c.use u).1.cells = c.cells.act (read σ) (c.deed u) ∧ (c.use u).2 = (c.deed u).outcome := by
  cases u with
  | restore =>
    simp only [use, deed, restore]
    cases h : Slot.load c.slot with
    | error e => exact ⟨rfl, rfl⟩
    | ok token =>
      -- What is read is what the slot is seen to hold.
      have hread := Slot.Seen.load_ok c.slot token h
      exact ⟨by rw [hread]; rfl, rfl⟩
  | set token =>
    have hok := Slot.Seen.store_ok token c.slot
    have herror := Slot.Seen.store_error token c.slot
    simp only [use, deed, Credentials.set]
    generalize Slot.store token c.slot = r at hok herror
    obtain ⟨e | ⟨⟩, slot⟩ := r
    · exact ⟨congrArg (Cells.mk c.token) (herror e rfl), rfl⟩
    · exact ⟨congrArg (Cells.mk (some token)) (hok rfl), rfl⟩
  | clear =>
    have hok := Slot.Seen.clear_ok c.slot
    have herror := Slot.Seen.clear_error c.slot
    simp only [use, deed, Credentials.clear]
    generalize Slot.clear c.slot = r at hok herror
    obtain ⟨e | ⟨⟩, slot⟩ := r
    · exact ⟨congrArg (Cells.mk none) (herror e rfl), rfl⟩
    · exact ⟨congrArg (Cells.mk none) (hok rfl), rfl⟩
  | meanwhile slot => exact ⟨rfl, rfl⟩

theorem after_cells (uses : List (Use σ)) :
    (c.after uses).cells = (c.deeds uses).foldl (Cells.act (read σ)) c.cells := by
  induction uses generalizing c with
  | nil => rfl
  | cons u us ih =>
    change ((c.use u).1.after us).cells = _
    rw [ih, (c.use_cells u).1]
    rfl

theorem outcomes_eq (uses : List (Use σ)) :
    c.outcomes uses = (c.deeds uses).map Deed.outcome := by
  rw [outcomes, deeds, List.map_map]
  exact List.map_congr_left fun x _ => (x.1.use_cells x.2).2

/-- Without a restoration, the token in memory is told by the deeds alone. -/
theorem token_after {uses : List (Use σ)} (h : ∀ d ∈ c.deeds uses, d.isRestore = false) :
    (c.after uses).token = (c.deeds uses).foldl Deed.remembered c.token := by
  induction uses generalizing c with
  | nil => rfl
  | cons u us ih =>
    obtain ⟨hu, hus⟩ := List.forall_mem_cons.1 h
    -- Without a restoration the slot has no part in what is remembered.
    have hremembered : (c.use u).1.token = (c.deed u).remembered c.token := by
      have act := Cells.memory_act (read σ) c.cells hu
      rw [← (c.use_cells u).1] at act
      exact act
    change ((c.use u).1.after us).token = ((c.use u).1.deeds us).foldl _ _
    rw [ih (c.use u).1 hus, hremembered]

theorem in_step_after (faithful : ∀ t, read σ t = t) (h : c.token = held c.slot)
    {uses : List (Use σ)}
    (keeps : ∀ x ∈ c.moments uses, (x.1.deed x.2).KeepsStep (held x.1.slot)) :
    (c.after uses).token = held (c.after uses).slot := by
  induction uses generalizing c with
  | nil => exact h
  | cons u us ih =>
    -- The use is judged by what the slot holds when it is made.
    obtain ⟨hu, hus⟩ := List.forall_mem_cons.1 keeps
    refine ih (c.use u).1 ?_ hus
    have step := Cells.act_in_step faithful (c := c.cells) h hu
    rwa [← (c.use_cells u).1] at step

/-- A store turns two cells as the table says, whatever the slot refuses and whoever writes it; its
results and warnings are those of the table, and whether it holds a token is told by the memory alone,
which only a restoration makes look at the slot. Where the slot gives tokens back as stored, memory and
slot agree from a restoration that was not refused, while no clearing and no further restoration is
refused and nobody else writes another token. -/
theorem two_cells (uses : List (Use σ)) :
    (c.after uses).cells = (c.deeds uses).foldl (Cells.act (read σ)) c.cells ∧
    c.outcomes uses = (c.deeds uses).map Deed.outcome ∧
    (c.after uses).isAuthenticated = (c.after uses).cells.memory.isSome ∧
    ((∀ d ∈ c.deeds uses, d.isRestore = false) →
      (c.after uses).token = (c.deeds uses).foldl Deed.remembered c.token) ∧
    ((∀ t, read σ t = t) → refusal? (Slot.load c.slot) = none →
      (∀ x ∈ (restore c.slot).1.moments uses, (x.1.deed x.2).KeepsStep (held x.1.slot)) →
      let reached := (restore c.slot).1.after uses
      reached.token = held reached.slot ∧ reached.isAuthenticated = (held reached.slot).isSome) := by
  refine ⟨c.after_cells uses, c.outcomes_eq uses, rfl, c.token_after, ?_⟩
  intro faithful readable keeps reached
  -- The restoration is itself a use, and it reads the slot without changing it.
  have restored : (restore c.slot).1.token = held (restore c.slot).1.slot := by
    have turned := (c.use_cells .restore).1
    simp only [deed, readable, Cells.act, faithful] at turned
    have memory := congrArg Cells.memory turned
    have slot := congrArg Cells.slot turned
    exact memory.trans slot.symm
  have agree := in_step_after _ faithful restored keeps
  exact ⟨agree, congrArg Option.isSome agree⟩

/-- A slot that someone else locks stays in step with the memory. A file in place of the folder keeps a
token file from being written and from being cleared, and a missing folder does not. -/
theorem two_cells_refused :
    let locked : Use GuardedSlot := .meanwhile { token := some "old", denyStore := some "full" }
    let reached := (restore (σ := GuardedSlot) { token := some "old" }).1.after [locked, .set "new"]
    let barred : Credentials TokenFile :=
      ⟨some "old", { folder := "home", tree := ⟨.folder [("home", .file [])]⟩ }⟩
    let missing : Credentials TokenFile := ⟨none, { folder := "home" }⟩
    (reached.token = held reached.slot ∧ reached.isAuthenticated = true) ∧
      (barred.after [.set "new", .clear]).cells = ⟨none, none⟩ ∧
      (missing.after [.set " axe\n", .restore]).cells = ⟨some "axe", some " axe\n"⟩ := by
  intro locked reached barred missing
  refine ⟨?_, ?_, ?_⟩
  · obtain ⟨-, -, -, -, in_step⟩ :=
      two_cells (⟨none, { token := some "old" }⟩ : Credentials GuardedSlot) [locked, .set "new"]
    refine in_step (fun _ => rfl) rfl ?_
    simp only [moments, List.forall_mem_cons]
    exact ⟨rfl, trivial, List.forall_mem_nil _⟩
  · obtain ⟨cells, -⟩ := two_cells barred [.set "new", .clear]
    have deeds : barred.deeds [.set "new", .clear] =
        [.set "new" (some .alreadyExists), .clear (some .notADirectory)] := by decide +kernel
    rw [cells, deeds]
    decide +kernel
  · obtain ⟨cells, -⟩ := two_cells missing [.set " axe\n", .restore]
    have deeds : missing.deeds [.set " axe\n", .restore] = [.set " axe\n" none, .restore none] := by
      decide +kernel
    rw [cells, deeds]
    decide +kernel

end
end Credentials
end MiningClient
