import MiningClient.Proofs.Storage.Folders
import MiningClient.Storage.TokenFile

namespace MiningClient

/-- A slot with a token that can be seen from outside. Writing that is refused leaves the token as it
was, and reading that is not refused gives what `read` makes of it. -/
class Slot.Seen (σ : Type) [Slot σ] where
  held : σ → Option String
  read : Option String → Option String := id
  load_ok : ∀ slot token, Slot.load slot = .ok token → token = read (held slot)
  store_ok : ∀ token slot, (Slot.store token slot).1 = .ok () →
    held (Slot.store token slot).2 = some token
  store_error : ∀ token slot e, (Slot.store token slot).1 = .error e →
    held (Slot.store token slot).2 = held slot
  clear_ok : ∀ slot, (Slot.clear slot).1 = .ok () → held (Slot.clear slot).2 = none
  clear_error : ∀ slot e, (Slot.clear slot).1 = .error e → held (Slot.clear slot).2 = held slot

instance : Slot.Seen MemorySlot where
  held slot := slot.token
  load_ok _ _ h := (Except.ok.inj h).symm
  store_ok _ _ _ := rfl
  store_error _ _ _ h := nomatch h
  clear_ok _ _ := rfl
  clear_error _ _ h := nomatch h

instance : Slot.Seen GuardedSlot where
  held slot := slot.token
  load_ok slot token h := by
    simp only [Slot.load] at h
    split at h
    · cases h
    · exact (Except.ok.inj h).symm
  store_ok token slot h := by
    simp only [Slot.store] at h ⊢
    split at h
    · cases h
    · rfl
  store_error token slot e h := by
    simp only [Slot.store] at h ⊢
    split at h
    · rfl
    · cases h
  clear_ok slot h := by
    simp only [Slot.clear] at h ⊢
    split at h
    · cases h
    · rfl
  clear_error slot e h := by
    simp only [Slot.clear] at h ⊢
    split at h
    · rfl
    · cases h

namespace TokenFile

theorem isName_fileName : Path.IsName fileName := ⟨by decide, by decide⟩

theorem steps_path (f : TokenFile) :
    Path.steps f.path = Path.steps f.folder ++ [.down fileName] :=
  Path.steps_join f.folder isName_fileName

theorem steps_path_ne_nil (f : TokenFile) : Path.steps f.path ≠ [] := by
  rw [steps_path]
  simp

/-- The file is there with this text, or there is none. -/
def Holds (f : TokenFile) : Option String → Prop
  | some text => f.tree.read f.path = .ok (Utf8.encode text)
  | none => f.tree.read f.path = .error .notFound

section Holds
variable {f : TokenFile} {stored : Option String}

theorem Holds.load (h : f.Holds stored) : f.load = .ok (stored.bind tokenOf) := by
  cases stored with
  | none => simp only [TokenFile.load, show f.tree.read f.path = _ from h, Option.bind_none]
  | some text =>
    simp only [TokenFile.load, show f.tree.read f.path = _ from h, Utf8.decode?_encode,
      Option.bind_some]

theorem clear_of_none (h : f.Holds none) : f.clear = (.ok (), f) := by
  simp only [TokenFile.clear, Tree.delete_eq_notFound_iff.2 h]

theorem Holds.clear (h : f.Holds stored) :
    ∃ tree, f.clear = (.ok (), { f with tree }) ∧ Holds { f with tree } none := by
  cases stored with
  | none => exact ⟨f.tree, clear_of_none h, h⟩
  | some text =>
    obtain ⟨tree, deleted, gone⟩ := Tree.delete_of_read f.steps_path_ne_nil h
    exact ⟨tree, by simp only [TokenFile.clear, deleted], gone⟩

/-- What a store that succeeds has done. -/
theorem store_eq_ok_iff {token : String} {f' : TokenFile} :
    f.store token = (.ok (), f') ↔ ∃ tree tree', f.tree.makeFolder f.folder = (.ok (), tree) ∧
      tree.write f.path (Utf8.encode token) = .ok tree' ∧ { f with tree := tree' } = f' := by
  unfold store
  obtain ⟨e | ⟨⟩, tree⟩ := f.tree.makeFolder f.folder
  · simp
  · cases written : tree.write f.path (Utf8.encode token) <;> simp [written]

/-- The token is written in place of all that the file held, and in a folder that is there then. -/
theorem holds_of_store {token : String} {f' : TokenFile} (h : f.store token = (.ok (), f')) :
    f'.Holds (some token) ∧ f'.folder = f.folder ∧
      ∃ entries, f'.tree.find f'.folder = .ok (some (.folder entries)) := by
  obtain ⟨tree, tree', -, written, rfl⟩ := store_eq_ok_iff.1 h
  exact ⟨(Tree.read_write written).1, rfl, Tree.find_of_write isName_fileName written⟩

/-- Missing folders do not keep a token from being written. -/
theorem store_of_isOpen (h : f.tree.IsOpen f.folder fileName) (token : String) :
    ∃ f', f.store token = (.ok (), f') := by
  obtain ⟨tree, tree', made, written⟩ := Tree.write_of_isOpen isName_fileName h (Utf8.encode token)
  exact ⟨_, store_eq_ok_iff.2 ⟨tree, tree', made, written, rfl⟩⟩

/-- A store that fails finds no file that it could read, and leaves none. -/
theorem not_read_of_store {token : String} {f' : TokenFile} {e : StorageFault}
    (h : f.store token = (.error e, f')) (content : Bytes) :
    f.tree.read f.path ≠ .ok content ∧ f'.tree.read f'.path ≠ .ok content := by
  unfold store at h
  rcases made : f.tree.makeFolder f.folder with ⟨e' | ⟨⟩, tree⟩
  · simp only [made] at h
    cases h
    exact Tree.not_read_of_makeFolder isName_fileName made content
  · simp only [made] at h
    -- The folder is there now, so it was the writing that failed.
    cases written : tree.write f.path (Utf8.encode token) with
    | ok tree' =>
      simp only [written] at h
      cases h
    | error e' =>
      simp only [written] at h
      cases h
      have unread : tree.read f.path ≠ .ok content := by
        intro read
        obtain ⟨tree', there⟩ := Tree.write_of_read read (Utf8.encode token)
        cases written.symm.trans there
      refine ⟨fun read => unread ?_, unread⟩
      -- The folder of a file that can be read is there, so that making it changes nothing.
      obtain ⟨entries, folder⟩ := Tree.find_of_read_join isName_fileName read
      rw [Tree.makeFolder_of_folder folder] at made
      obtain rfl := (Prod.mk.inj made).2
      exact read

/-- The text of the file, if there is one that can be read. -/
def text? (f : TokenFile) : Option String :=
  match f.tree.read f.path with
  | .ok content => Utf8.decode? content
  | .error _ => none

theorem Holds.text? (h : f.Holds stored) : f.text? = stored := by
  cases stored with
  | none => simp only [TokenFile.text?, show f.tree.read f.path = _ from h]
  | some text => simp only [TokenFile.text?, show f.tree.read f.path = _ from h, Utf8.decode?_encode]

theorem text?_of_not_read (h : ∀ content, f.tree.read f.path ≠ .ok content) : f.text? = none := by
  unfold TokenFile.text?
  split
  · rename_i content read
    exact absurd read (h content)
  · rfl

theorem eq_of_load {token : Option String} (h : f.load = .ok token) : token = f.text?.bind tokenOf := by
  unfold load at h
  unfold TokenFile.text?
  split at h
  · rename_i missing
    rw [missing]
    exact (Except.ok.inj h).symm
  · cases h
  · rename_i content read
    rw [read]
    cases decoded : Utf8.decode? content with
    | none =>
      simp only [decoded] at h
      cases h
    | some text =>
      simp only [decoded, Option.bind_some] at h ⊢
      exact (Except.ok.inj h).symm

/-- A clearing that succeeds leaves no file, and one that fails leaves all as it was. -/
theorem clear_cases (f : TokenFile) :
    (f.clear.1 = .ok () ∧ f.clear.2.Holds none) ∨ ∃ e, f.clear = (.error e, f) := by
  unfold clear
  cases deleted : f.tree.delete f.path with
  | error e =>
    cases e with
    | notFound => exact .inl ⟨rfl, Tree.delete_eq_notFound_iff.1 deleted⟩
    | _ => exact .inr ⟨_, rfl⟩
  | ok tree =>
    obtain ⟨place, located, ⟨content, file⟩, -⟩ := Tree.delete_eq_ok_iff.1 deleted
    have read := Tree.read_eq_ok_iff.2 ⟨place, located, file⟩
    obtain ⟨tree', again, gone⟩ := Tree.delete_of_read f.steps_path_ne_nil read
    -- There is one outcome of deleting only.
    obtain rfl := Except.ok.inj (deleted.symm.trans again)
    exact .inl ⟨rfl, gone⟩

end Holds

/-- The file is seen by its text, from which reading takes the token. -/
instance : Slot.Seen TokenFile where
  held := text?
  read stored := stored.bind tokenOf
  load_ok _ _ := eq_of_load
  store_ok token f h := by
    have stored : f.store token = (.ok (), (f.store token).2) := Prod.ext h rfl
    exact (holds_of_store stored).1.text?
  store_error token f e h := by
    have failed : f.store token = (.error e, (f.store token).2) := Prod.ext h rfl
    have unread := not_read_of_store failed
    have before := text?_of_not_read fun content => (unread content).1
    have after := text?_of_not_read fun content => (unread content).2
    show text? (f.store token).2 = text? f
    rw [after, before]
  clear_ok f h := by
    obtain ⟨-, gone⟩ | ⟨e, failed⟩ := f.clear_cases
    · exact gone.text?
    · have failed : (Slot.clear f).1 = .error e := congrArg Prod.fst failed
      cases failed.symm.trans h
  clear_error f e h := by
    obtain ⟨succeeded, -⟩ | ⟨e', failed⟩ := f.clear_cases
    · cases succeeded.symm.trans h
    · have failed : Slot.clear f = (.error e', f) := failed
      rw [failed]

end TokenFile
end MiningClient
