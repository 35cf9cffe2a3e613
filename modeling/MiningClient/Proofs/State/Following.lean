import MiningClient.State.Observable

namespace MiningClient.Observable
variable {α : Type}

/-- A follower that has not left, with what it has not received yet. -/
structure Follows (o : Observable α) (id : Nat) (kept : List α) : Prop where
  found : o.subscriptions.find? (·.id == id) = some { id, queue := kept }
  known : id < o.nextId

theorem Follows.queue_eq {o : Observable α} {id : Nat} {kept : List α} (h : o.Follows id kept) :
    o.queue id = kept := by
  simp only [Observable.queue, h.found, Option.map_some, Option.getD_some]

@[simp] theorem value_publish (o : Observable α) (a : α) : (o.publish a).value = a := rfl

@[simp] theorem value_update (o : Observable α) (f : α → α) : (o.update f).value = f o.value := rfl

theorem find?_map_of_found {ss : List (Subscription α)} {id : Nat} {s : Subscription α}
    (f : Subscription α → Subscription α) (hf : ∀ s, (f s).id = s.id)
    (h : ss.find? (·.id == id) = some s) : (ss.map f).find? (·.id == id) = some (f s) := by
  have he : ((fun s : Subscription α => s.id == id) ∘ f) = fun s => s.id == id := by
    funext s
    simp only [Function.comp_apply, hf]
  rw [List.find?_map, he, h]
  rfl

theorem find?_live {ss : List (Subscription α)} {id : Nat} {s : Subscription α}
    (h : ss.find? (·.id == id) = some s) (hs : s.live = true) :
    (ss.filter (·.live)).find? (·.id == id) = some s := by
  obtain ⟨hid, before, rest, rfl, hbefore⟩ := List.find?_eq_some_iff_append.mp h
  rw [List.filter_append, List.filter_cons_of_pos hs]
  refine List.find?_eq_some_iff_append.mpr ⟨hid, before.filter (·.live), _, rfl, ?_⟩
  intro a ha
  exact hbefore a (List.mem_filter.mp ha).1

theorem Follows.publish {o : Observable α} {id : Nat} {kept : List α} (h : o.Follows id kept)
    (a : α) : (o.publish a).Follows id (kept ++ [a]) := by
  refine ⟨?_, h.known⟩
  have hl := find?_live h.found rfl
  exact find?_map_of_found (fun s => { s with queue := s.queue ++ [a] }) (fun _ => rfl) hl

theorem Follows.subscribe {o : Observable α} {id : Nat} {kept : List α} (h : o.Follows id kept) :
    o.subscribe.2.Follows id kept := by
  refine ⟨?_, Nat.lt_succ_of_lt h.known⟩
  change List.find? _ (o.subscriptions ++ _) = _
  rw [List.find?_append, h.found]
  rfl

theorem Follows.unsubscribe {o : Observable α} {id other : Nat} {kept : List α}
    (h : o.Follows id kept) (hne : id ≠ other) : (o.unsubscribe other).Follows id kept := by
  refine ⟨?_, h.known⟩
  have hf := find?_map_of_found (fun s => if s.id = other then { s with live := false } else s)
    (fun s => by split <;> rfl) h.found
  rw [if_neg hne] at hf
  exact hf

theorem Follows.setQueue {o : Observable α} {id other : Nat} {kept : List α}
    (h : o.Follows id kept) (hne : id ≠ other) (q : List α) :
    (o.setQueue other q).Follows id kept := by
  refine ⟨?_, h.known⟩
  have hf := find?_map_of_found (fun s => if s.id = other then { s with queue := q } else s)
    (fun s => by split <;> rfl) h.found
  rw [if_neg hne] at hf
  exact hf

theorem Follows.setQueue_self {o : Observable α} {id : Nat} {kept : List α} (h : o.Follows id kept)
    (q : List α) : (o.setQueue id q).Follows id q := by
  refine ⟨?_, h.known⟩
  have hf := find?_map_of_found (fun s => if s.id = id then { s with queue := q } else s)
    (fun s => by split <;> rfl) h.found
  rw [if_pos rfl] at hf
  exact hf

/-- The followers of `o'` are among those of `o`, and who had left is not back. -/
structure Within (o' o : Observable α) : Prop where
  nextId : o'.nextId = o.nextId
  older : ∀ s ∈ o'.subscriptions,
    ∃ t ∈ o.subscriptions, t.id = s.id ∧ (t.live = false → s.live = false)

theorem within_refl (o : Observable α) : o.Within o := ⟨rfl, fun s hs => ⟨s, hs, rfl, id⟩⟩

theorem within_publish (o : Observable α) (a : α) : (o.publish a).Within o := by
  refine ⟨rfl, fun s hs => ?_⟩
  obtain ⟨t, ht, rfl⟩ := List.mem_map.1 hs
  exact ⟨t, (List.mem_filter.1 ht).1, rfl, id⟩

theorem within_unsubscribe (o : Observable α) (id : Nat) : (o.unsubscribe id).Within o := by
  refine ⟨rfl, fun s hs => ?_⟩
  obtain ⟨t, ht, rfl⟩ := List.mem_map.1 hs
  refine ⟨t, ht, ?_⟩
  split
  · exact ⟨rfl, fun _ => rfl⟩
  · exact ⟨rfl, fun h => h⟩

theorem within_setQueue (o : Observable α) (id : Nat) (q : List α) :
    (o.setQueue id q).Within o := by
  refine ⟨rfl, fun s hs => ?_⟩
  obtain ⟨t, ht, rfl⟩ := List.mem_map.1 hs
  refine ⟨t, ht, ?_⟩
  split <;> exact ⟨rfl, fun h => h⟩

theorem mem_subscribe {o : Observable α} {s : Subscription α}
    (h : s ∈ o.subscribe.2.subscriptions) : s ∈ o.subscriptions ∨ s.id = o.nextId := by
  obtain h | h := List.mem_append.1 h
  · exact .inl h
  · rw [List.mem_singleton.1 h]
    exact .inr rfl

/-- The numbers of the followers have been given out. -/
def Known (o : Observable α) : Prop := ∀ s ∈ o.subscriptions, s.id < o.nextId

theorem Known.within {o o' : Observable α} (h : o.Known) (hw : o'.Within o) : o'.Known := by
  intro s hs
  obtain ⟨t, ht, hid, -⟩ := hw.older s hs
  rw [hw.nextId, ← hid]
  exact h t ht

theorem Known.subscribe {o : Observable α} (h : o.Known) : o.subscribe.2.Known := by
  intro s hs
  obtain hs | hs := mem_subscribe hs
  · exact Nat.lt_succ_of_lt (h s hs)
  · rw [hs]
    exact Nat.lt_succ_self _

theorem Known.follows {o : Observable α} (h : o.Known) :
    o.subscribe.2.Follows o.nextId [o.value] := by
  refine ⟨?_, Nat.lt_succ_self _⟩
  -- Nobody has the new number yet, so the newcomer at the end is found.
  have others : o.subscriptions.find? (·.id == o.nextId) = none := by
    rw [List.find?_eq_none]
    intro s hs
    simpa using Nat.ne_of_lt (h s hs)
  change List.find? _ (o.subscriptions ++ _) = _
  rw [List.find?_append, others, Option.none_or]
  exact List.find?_cons_of_pos (beq_self_eq_true o.nextId)

theorem follows_subscribe {o : Observable α} (h : o.subscriptions = []) :
    o.subscribe.2.Follows o.nextId [o.value] := by
  apply Known.follows
  intro s hs
  rw [h] at hs
  cases hs

/-- A follower that has left, and whose number is not given out again. -/
structure Gone (o : Observable α) (id : Nat) : Prop where
  left : ∀ s ∈ o.subscriptions, s.id = id → s.live = false
  known : id < o.nextId

theorem Gone.within {o o' : Observable α} {id : Nat} (h : o.Gone id) (hw : o'.Within o) :
    o'.Gone id := by
  refine ⟨fun s hs hid => ?_, hw.nextId ▸ h.known⟩
  obtain ⟨t, ht, same, left⟩ := hw.older s hs
  exact left (h.left t ht (same.trans hid))

theorem Gone.subscribe {o : Observable α} {id : Nat} (h : o.Gone id) : o.subscribe.2.Gone id := by
  refine ⟨fun s hs hid => ?_, Nat.lt_succ_of_lt h.known⟩
  obtain hs | hs := mem_subscribe hs
  · exact h.left s hs hid
  · exact absurd (hid.symm.trans hs) (Nat.ne_of_lt h.known)

theorem Follows.gone {o : Observable α} {id : Nat} {kept : List α} (h : o.Follows id kept) :
    (o.unsubscribe id).Gone id := by
  refine ⟨fun s hs hid => ?_, h.known⟩
  obtain ⟨t, ht, rfl⟩ := List.mem_map.1 hs
  split
  · rfl
  -- Only the one that leaves is written to.
  · rename_i hne
    rw [if_neg hne] at hid
    exact absurd hid hne

end MiningClient.Observable
