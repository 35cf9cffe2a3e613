import MiningClient.Proofs.State.Moves

namespace MiningClient.Shared
variable {α : Type}

/-- The handle that was there at the start, or one that was made since. -/
def Opened (log : List (Entry α)) (n : Nat) : Prop := n = 0 ∨ ∃ m, cloning m n ∈ log

def IsOpen (log : List (Entry α)) (n : Nat) : Prop := Opened log n ∧ closing n ∉ log

/-- How the log and the observable agree about the handles. -/
structure Handles (log : List (Entry α)) (s : Shared α) : Prop where
  counted : s.cell.handles = s.handles.length
  distinct : s.handles.Nodup
  mem_iff : ∀ n, n ∈ s.handles ↔ IsOpen log n
  known : ∀ n, Opened log n ∨ closing n ∈ log → n < s.nextHandle

namespace Handles
variable {log : List (Entry α)} {s s' : Shared α}

theorem start (a : α) : Handles [] (start a) where
  counted := rfl
  distinct := by simp [Shared.start]
  mem_iff := by simp [Shared.start, IsOpen, Opened]
  known := by simp [Shared.start, Opened]

theorem opened_snoc {e : Entry α} {n : Nat} :
    Opened (log ++ [e]) n ↔ Opened log n ∨ ∃ m, e = cloning m n := by
  simp only [Opened, List.mem_append, List.mem_singleton, exists_or, or_assoc, eq_comm]

theorem closing_mem_snoc {e : Entry α} {n : Nat} :
    closing n ∈ log ++ [e] ↔ closing n ∈ log ∨ e = closing n := by
  rw [List.mem_append, List.mem_singleton, eq_comm]

theorem aside {e : Entry α} (h : Handles log s) (notCloning : ∀ m n, e ≠ cloning m n)
    (notClosing : ∀ n, e ≠ closing n) (counted : s'.cell.handles = s.cell.handles)
    (handles : s'.handles = s.handles) (next : s'.nextHandle = s.nextHandle) :
    Handles (log ++ [e]) s' := by
  have opened (n : Nat) : Opened (log ++ [e]) n ↔ Opened log n := by
    rw [opened_snoc]
    exact or_iff_left fun ⟨m, he⟩ => notCloning m n he
  have closed (n : Nat) : closing n ∈ log ++ [e] ↔ closing n ∈ log := by
    rw [closing_mem_snoc]
    exact or_iff_left (notClosing n)
  refine ⟨?_, handles ▸ h.distinct, fun n => ?_, fun n hn => ?_⟩
  · rw [counted, handles, h.counted]
  · rw [handles, h.mem_iff, IsOpen, IsOpen, opened, closed]
  · rw [opened, closed] at hn
    rw [next]
    exact h.known n hn

theorem handles_eq_zero_iff (h : Handles log s) : s.cell.handles = 0 ↔ ∀ n, ¬IsOpen log n := by
  rw [h.counted, List.length_eq_zero_iff, List.eq_nil_iff_forall_not_mem]
  exact forall_congr' fun n => not_congr (h.mem_iff n)

theorem lt_nextHandle (h : Handles log s) {n : Nat} (hn : n ∈ s.handles) : n < s.nextHandle :=
  h.known n (.inl ((h.mem_iff n).1 hn).1)

theorem cloned (h : Handles log s) (n : Nat) :
    Handles (log ++ [cloning n s.nextHandle])
      { cell := s.cell.addHandle
        handles := s.handles ++ [s.nextHandle]
        nextHandle := s.nextHandle + 1 } := by
  have opened (k : Nat) : Opened (log ++ [cloning n s.nextHandle]) k ↔
      Opened log k ∨ k = s.nextHandle := by
    rw [opened_snoc]
    simp [eq_comm]
  have closed (k : Nat) : closing k ∈ log ++ [cloning n s.nextHandle] ↔ closing k ∈ log := by
    rw [closing_mem_snoc]
    simp
  refine ⟨?_, ?_, fun k => ?_, fun k hk => ?_⟩
  · simp [Observable.addHandle, h.counted]
  · rw [List.nodup_append]
    refine ⟨h.distinct, by simp, fun a ha b hb => ?_⟩
    rw [List.mem_singleton.1 hb]
    exact Nat.ne_of_lt (h.lt_nextHandle ha)
  · rw [IsOpen, opened, closed, List.mem_append, List.mem_singleton, h.mem_iff, IsOpen]
    by_cases hk : k = s.nextHandle
    · subst hk
      -- A handle that is only made now cannot have been closed.
      have unclosed : closing s.nextHandle ∉ log := fun hc => Nat.lt_irrefl _ (h.known _ (.inr hc))
      simp [unclosed]
    · simp [hk]
  · rw [opened, closed, or_right_comm] at hk
    obtain hk | rfl := hk
    · exact Nat.lt_succ_of_lt (h.known k hk)
    · exact Nat.lt_succ_self _

theorem closed (h : Handles log s) {n : Nat} (hn : n ∈ s.handles) :
    Handles (log ++ [closing n])
      { s with cell := s.cell.dropHandle, handles := s.handles.erase n } := by
  have opened (k : Nat) : Opened (log ++ [closing n]) k ↔ Opened log k := by
    rw [opened_snoc]
    simp
  have closed (k : Nat) : closing k ∈ log ++ [closing n] ↔ closing k ∈ log ∨ k = n := by
    rw [closing_mem_snoc]
    simp [eq_comm]
  refine ⟨?_, h.distinct.erase n, fun k => ?_, fun k hk => ?_⟩
  · simp [Observable.dropHandle, h.counted, List.length_erase_of_mem hn]
  · rw [h.distinct.mem_erase_iff, h.mem_iff, IsOpen, IsOpen, opened, closed, not_or]
    exact ⟨fun hk => ⟨hk.2.1, hk.2.2, hk.1⟩, fun hk => ⟨hk.2.2, hk.1, hk.2.1⟩⟩
  · rw [opened, closed, ← or_assoc] at hk
    obtain hk | rfl := hk
    · exact h.known k hk
    · exact h.lt_nextHandle hn

theorem move {a : Action α} {out : Output α} (h : Handles log s) (move : Move s a out s') :
    Handles (log ++ [(a, out)]) s' := by
  -- Only a clone and a close touch the handles.
  cases move with
  | silent _ _ silent =>
    refine h.aside ?_ ?_ rfl rfl rfl
    · rintro m n ⟨⟩
      cases silent
    · rintro n ⟨⟩
      cases silent
  | published _ _ _ _ publishes =>
    obtain ⟨notCloning, notClosing, -⟩ := ne_of_published? publishes
    exact h.aside notCloning notClosing rfl rfl rfl
  | cloned n => exact h.cloned n
  | closed n there => exact h.closed there
  | subscribed | received | dropped => exact h.aside (by simp) (by simp) rfl rfl rfl

end Handles
end MiningClient.Shared
