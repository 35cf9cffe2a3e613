import MiningClient.Proofs.State.Handles

namespace MiningClient.Shared
variable {α : Type}

/-- The values that the entries publish, when `last` is what was published before. -/
def published (last : α) : List (Entry α) → List α
  | [] => []
  | e :: log =>
    match published? last e with
    | some v => v :: published v log
    | none => published last log

/-- What the last entry that publishes has published, or else what there was at the start. -/
def lastPublished (start : α) (log : List (Entry α)) : α := (published start log).getLast?.getD start

def received (id : Nat) (log : List (Entry α)) : List α := log.filterMap (received? id)

def IsLive (log : List (Entry α)) (id : Nat) : Prop :=
  (∃ n, subscribing n id ∈ log) ∧ dropping id ∉ log

theorem published_append (last : α) (log later : List (Entry α)) :
    published last (log ++ later) = published last log ++ published (lastPublished last log) later := by
  induction log generalizing last with
  | nil => rfl
  | cons e log ih =>
    rw [List.cons_append, published, published, lastPublished, published]
    -- An entry that publishes is what the later ones begin with.
    cases published? last e with
    | none => exact ih last
    | some v =>
      rw [List.getLast?_cons, Option.getD_some, List.cons_append]
      exact congrArg (v :: ·) (ih v)

theorem lastPublished_append (start : α) (log later : List (Entry α)) :
    lastPublished start (log ++ later) = lastPublished (lastPublished start log) later := by
  rw [lastPublished, published_append, List.getLast?_append, Option.getD_or]
  rfl

theorem published_singleton (last : α) (e : Entry α) :
    published last [e] = (published? last e).toList := by
  rw [published, published]
  cases published? last e <;> rfl

theorem lastPublished_singleton (last : α) (e : Entry α) :
    lastPublished last [e] = (published? last e).getD last := by
  rw [lastPublished, published_singleton]
  cases published? last e <;> rfl

theorem received_snoc (id : Nat) (log : List (Entry α)) (e : Entry α) :
    received id (log ++ [e]) = received id log ++ (received? id e).toList := by
  rw [received, List.filterMap_append]
  cases h : received? id e <;> simp [received, h]

theorem split_snoc {β : Type} {l before after : List β} {e x : β}
    (h : l ++ [e] = before ++ x :: after) :
    (l = before ∧ e = x ∧ after = []) ∨ ∃ rest, after = rest ++ [e] ∧ l = before ++ x :: rest := by
  obtain rfl | ⟨rest, y, rfl⟩ := List.eq_nil_or_concat after
  · obtain ⟨rfl, hx⟩ := List.append_inj' h rfl
    exact .inl ⟨rfl, List.cons.inj hx |>.1, rfl⟩
  · rw [List.concat_eq_append, ← List.cons_append, ← List.append_assoc] at h
    obtain ⟨rfl, hx⟩ := List.append_inj' h rfl
    exact .inr ⟨rest, by rw [List.concat_eq_append, (List.cons.inj hx).1], rfl⟩

section Step
variable {s s' : Shared α} {a : Action α} {out : Output α}

theorem Move.value (h : Move s a out s') :
    s'.cell.value = (published? s.cell.value (a, out)).getD s.cell.value := by
  cases h with
  | silent _ _ silent => rw [published?_of_silent silent]; rfl
  | published _ _ _ v publishes => rw [publishes]; rfl
  | subscribed | cloned | closed | received | dropped => rfl

theorem Move.known (h : Move s a out s') (known : s.cell.Known) : s'.cell.Known := by
  cases h with
  | silent => exact known
  | published _ _ _ v => exact known.within (s.cell.within_publish v)
  | subscribed => exact known.subscribe
  | cloned | closed => exact known
  | received id _ _ _ rest => exact known.within (s.cell.within_setQueue id rest)
  | dropped id => exact known.within (s.cell.within_unsubscribe id)

theorem Move.follows {id : Nat} {kept : List α} (h : Move s a out s')
    (follows : s.cell.Follows id kept) (stays : (a, out) ≠ dropping id) :
    ∃ kept', s'.cell.Follows id kept' ∧ (received? id (a, out)).toList ++ kept' =
      kept ++ (published? s.cell.value (a, out)).toList := by
  cases h with
  | silent _ _ silent =>
    rw [received?_of_silent silent, published?_of_silent silent]
    exact ⟨kept, follows, by simp⟩
  | published n use out v publishes =>
    rw [publishes]
    exact ⟨kept ++ [v], follows.publish v, rfl⟩
  | subscribed => exact ⟨kept, follows.subscribe, by simp [received?, published?]⟩
  | cloned | closed => exact ⟨kept, ⟨follows.found, follows.known⟩, by simp [received?, published?]⟩
  | received id' use out v rest live gives queued =>
    -- What another one receives comes from a queue of its own.
    by_cases same : id' = id
    · subst same
      rw [follows.queue_eq] at queued
      subst queued
      refine ⟨rest, follows.setQueue_self rest, ?_⟩
      simp [received?, published?, gives]
    · refine ⟨kept, follows.setQueue (Ne.symm same) rest, ?_⟩
      simp [received?, published?, same]
  | dropped id' live =>
    have other : id ≠ id' := by
      rintro rfl
      exact stays rfl
    exact ⟨kept, follows.unsubscribe other, by simp [received?, published?, Output.given?]⟩

theorem Move.gone {id : Nat} (h : Move s a out s') (gone : s.cell.Gone id) : s'.cell.Gone id := by
  cases h with
  | silent => exact gone
  | published _ _ _ v => exact gone.within (s.cell.within_publish v)
  | subscribed => exact gone.subscribe
  | cloned | closed => exact ⟨gone.left, gone.known⟩
  | received id' _ _ _ rest => exact gone.within (s.cell.within_setQueue id' rest)
  | dropped id' => exact gone.within (s.cell.within_unsubscribe id')

theorem Move.stranger {id : Nat} (h : Move s a out s') (dead : s.cell.isLive id = false) :
    received? id (a, out) = none ∧ (a, out) ≠ dropping id := by
  cases h with
  | silent _ _ silent =>
    refine ⟨received?_of_silent silent, ?_⟩
    rintro ⟨⟩
    cases silent
  | published | subscribed | cloned | closed =>
    refine ⟨rfl, ?_⟩
    rintro ⟨⟩
  | received id' _ _ _ _ live =>
    have other := Observable.ne_of_isLive live dead
    refine ⟨if_neg other, ?_⟩
    rintro ⟨⟩
    exact other rfl
  | dropped id' live =>
    have other := Observable.ne_of_isLive live dead
    refine ⟨if_neg other, ?_⟩
    rintro ⟨⟩
    exact other rfl

/-- A number that has not been given out is given to the next subscription, if to any. -/
theorem Move.fresh {id : Nat} (h : Move s a out s') (known : s.cell.Known)
    (new : s.cell.nextId ≤ id) :
    ((∃ n, (a, out) = subscribing n id) ∧ s'.cell.Follows id [s.cell.value]) ∨
      ((∀ n, (a, out) ≠ subscribing n id) ∧ s'.cell.nextId ≤ id) := by
  cases h with
  | silent _ _ silent =>
    refine .inr ⟨?_, new⟩
    rintro n ⟨⟩
    cases silent
  | published n use out v publishes =>
    exact .inr ⟨fun m => (ne_of_published? publishes).2.2 m id, new⟩
  | subscribed n =>
    -- The number is the next one, or is still to come.
    by_cases next : s.cell.nextId = id
    · subst next
      exact .inl ⟨⟨n, rfl⟩, known.follows⟩
    · refine .inr ⟨?_, Nat.lt_of_le_of_ne new next⟩
      rintro _ ⟨⟩
      exact next rfl
  | cloned | closed | received | dropped =>
    refine .inr ⟨?_, new⟩
    rintro n ⟨⟩

/-- A number that has been given out is given out to no other subscription. -/
theorem Move.ne_subscribing {id : Nat} (h : Move s a out s') (known : id < s.cell.nextId) (n : Nat) :
    (a, out) ≠ subscribing n id := by
  cases h with
  | silent _ _ silent =>
    rintro ⟨⟩
    cases silent
  | published _ _ _ _ publishes => exact (ne_of_published? publishes).2.2 n id
  | subscribed =>
    rintro ⟨⟩
    exact Nat.lt_irrefl _ known
  | cloned | closed | received | dropped => rintro ⟨⟩

theorem Move.leaves {id : Nat} {kept : List α}
    (h : Move s (.subscription id .unsubscribe) .done s') (follows : s.cell.Follows id kept) :
    s'.cell.Gone id := by
  cases h with
  | silent _ _ silent => cases silent
  | received _ _ _ _ _ _ gives => cases gives
  | dropped => exact follows.gone

end Step

/-- How the log and the observable agree about the subscription. It has not begun, or it is given what
the log publishes since it began, or it has been dropped. -/
inductive Standing (start : α) (log : List (Entry α)) (o : Observable α) (id : Nat) : Prop
  | fresh (new : o.nextId ≤ id) (never : ∀ n, subscribing n id ∉ log) (stayed : dropping id ∉ log)
    (nothing : received id log = [])
  | heard (kept : List α) (follows : o.Follows id kept) (stayed : dropping id ∉ log)
    (hears : ∀ before n after, log = before ++ subscribing n id :: after →
      received id log ++ kept =
        lastPublished start before :: published (lastPublished start before) after)
  | gone (gone : o.Gone id) (dropped : dropping id ∈ log)

section Standing
variable {start : α} {log : List (Entry α)} {s s' : Shared α} {a : Action α} {out : Output α}
  {id : Nat}

theorem not_mem_snoc {β : Type} {l : List β} {x e : β} (h : x ∉ l) (he : e ≠ x) : x ∉ l ++ [e] := by
  rw [List.mem_append, List.mem_singleton, not_or]
  exact ⟨h, Ne.symm he⟩

theorem Standing.move (h : Standing start log s.cell id) (move : Move s a out s')
    (value : s.cell.value = lastPublished start log) (known : s.cell.Known) :
    Standing start (log ++ [(a, out)]) s'.cell id := by
  cases h with
  | fresh new never stayed nothing =>
    obtain ⟨silent, notDropped⟩ := move.stranger (known.isLive new)
    have nothing' : received id (log ++ [(a, out)]) = [] := by
      rw [received_snoc, nothing, silent]
      rfl
    have stayed' := not_mem_snoc stayed notDropped
    obtain ⟨⟨n, begins⟩, follows⟩ | ⟨other, new'⟩ := move.fresh known new
    · refine .heard _ follows stayed' ?_
      intro before m after split
      -- It begins nowhere but at the end.
      obtain ⟨rfl, -, rfl⟩ | ⟨rest, -, rfl⟩ := split_snoc split
      · rw [nothing', value]
        rfl
      · exact absurd (List.mem_append_right _ (List.mem_cons_self ..)) (never m)
    · exact .fresh new' (fun n => not_mem_snoc (never n) (other n)) stayed' nothing'
  | heard kept follows stayed hears =>
    by_cases drops : (a, out) = dropping id
    · cases drops
      exact .gone (move.leaves follows) (List.mem_append_right _ (List.mem_singleton_self _))
    · obtain ⟨kept', follows', same⟩ := move.follows follows drops
      refine .heard kept' follows' (not_mem_snoc stayed drops) ?_
      intro before n after split
      obtain ⟨-, begins, -⟩ | ⟨rest, rfl, rfl⟩ := split_snoc split
      -- It has begun already, and begins only once.
      · exact absurd begins (move.ne_subscribing follows.known n)
      · have last : s.cell.value = lastPublished (lastPublished start before) rest := by
          rw [value, lastPublished_append]
          rfl
        rw [received_snoc, List.append_assoc, same, ← List.append_assoc, hears before n rest rfl, last,
          published_append, published_singleton, List.cons_append]
  | gone gone dropped => exact .gone (move.gone gone) (List.mem_append_left _ dropped)

end Standing

/-- What is so at the start and stays so. -/
structure Sound (start : α) (log : List (Entry α)) (s : Shared α) : Prop where
  value : s.cell.value = lastPublished start log
  known : s.cell.Known
  handles : Handles log s
  standing : ∀ id, Standing start log s.cell id

namespace Sound
variable {first : α} {log : List (Entry α)} {s s' : Shared α} {a : Action α} {out : Output α}

theorem start (first : α) : Sound first [] (start first) where
  value := rfl
  known := by simp [Shared.start, Observable.Known]
  handles := .start first
  standing id := .fresh (Nat.zero_le id) (by simp) (by simp) rfl

theorem move (h : Sound first log s) (move : Move s a out s') : Sound first (log ++ [(a, out)]) s' where
  value := by rw [move.value, lastPublished_append, lastPublished_singleton, h.value]
  known := move.known h.known
  handles := h.handles.move move
  standing id := (h.standing id).move move h.value h.known

theorem run (h : Sound first log s) (actions : List (Action α)) :
    Sound first (log ++ (s.run actions).1) (s.run actions).2 := by
  induction actions generalizing log s with
  | nil =>
    rw [Shared.run, List.append_nil]
    exact h
  | cons a actions ih =>
    have hrest := ih (h.move (s.step_moves a))
    rw [List.append_assoc, List.singleton_append] at hrest
    exact hrest

theorem step_handle (h : Sound first log s) {n : Nat} (hn : IsOpen log n) {use : HandleUse α} :
    s.step (.handle n use) = s.onHandle n use := if_pos ((h.handles.mem_iff n).2 hn)

theorem isLive (h : Sound first log s) {id : Nat} (live : IsLive log id) :
    s.cell.isLive id = true := by
  obtain ⟨⟨n, begun⟩, stays⟩ := live
  cases h.standing id with
  | fresh _ never => exact absurd begun (never n)
  | heard _ follows => exact follows.isLive
  | gone _ dropped => exact absurd dropped stays

end Sound

theorem run_append (s : Shared α) (actions more : List (Action α)) :
    (s.run (actions ++ more)).1 = (s.run actions).1 ++ ((s.run actions).2.run more).1 := by
  induction actions generalizing s with
  | nil => rfl
  | cons a actions ih => exact congrArg _ (ih (s.step a).2)

/-- What is so when a run from `start` has left this log. -/
structure Delivers (start : α) (log : List (Entry α)) (s : Shared α) : Prop where
  hears : ∀ before n id after, log = before ++ subscribing n id :: after → dropping id ∉ log →
    received id log ++ s.cell.queue id =
      lastPublished start before :: published (lastPublished start before) after
  get : ∀ n, IsOpen log n → s.step (.handle n .get) = (.value (lastPublished start log), s)
  update : ∀ n f, IsOpen log n →
    s.step (.handle n (.update f)) = s.step (.handle n (.set (f (lastPublished start log))))
  accepted : ∀ n f v, IsOpen log n → f (lastPublished start log) = some v →
    s.step (.handle n (.updateIf f)) = (.published true, (s.step (.handle n (.set v))).2)
  declined : ∀ n f, IsOpen log n → f (lastPublished start log) = none →
    s.step (.handle n (.updateIf f)) = (.published false, s)
  tries : ∀ id, IsLive log id →
    (s.step (.subscription id .tryReceive)).1 = .tried (s.cell.queue id).head?
  gives : ∀ id v rest, IsLive log id → s.cell.queue id = v :: rest →
    ∀ use ∈ [SubscriptionUse.receive, .next], (s.step (.subscription id use)).1 = .received (.value v)
  pending : ∀ id, IsLive log id → s.cell.queue id = [] → (∃ n, IsOpen log n) →
    ∀ use ∈ [SubscriptionUse.receive, .next], s.step (.subscription id use) = (.received .pending, s)
  closed : ∀ id, IsLive log id → ∀ use ∈ [SubscriptionUse.receive, .next],
    ((s.step (.subscription id use)).1 = .received .closed ↔
      s.cell.queue id = [] ∧ ∀ n, ¬IsOpen log n)

section Next
variable {s : Shared α} {id : Nat}

theorem step_receiving (live : s.cell.isLive id = true) {use : SubscriptionUse}
    (receiving : use ∈ [SubscriptionUse.receive, .next]) :
    s.step (.subscription id use) =
      (.received (s.cell.receive id).1, { s with cell := (s.cell.receive id).2 }) := by
  rw [step, if_pos live]
  simp only [List.mem_cons, List.not_mem_nil, or_false] at receiving
  obtain rfl | rfl := receiving <;> rfl

theorem step_tryReceive (live : s.cell.isLive id = true) :
    (s.step (.subscription id .tryReceive)).1 = .tried (s.cell.queue id).head? := by
  rw [step, if_pos live, onSubscription, Observable.tryReceive]
  cases s.cell.queue id <;> rfl

end Next

theorem Sound.delivers {first : α} {log : List (Entry α)} {s : Shared α} (h : Sound first log s) :
    Delivers first log s where
  hears before n id after split stays := by
    cases h.standing id with
    | fresh _ never =>
      rw [split] at never
      exact absurd (List.mem_append_right _ (List.mem_cons_self ..)) (never n)
    | heard kept follows _ hears =>
      rw [follows.queue_eq]
      exact hears before n after split
    | gone _ dropped => exact absurd dropped stays
  get n hn := by
    rw [h.step_handle hn, onHandle, h.value]
  update n f hn := by
    rw [h.step_handle hn, h.step_handle hn, onHandle, onHandle, Observable.update, h.value]
  accepted n f v hn hf := by
    rw [← h.value] at hf
    rw [h.step_handle hn, h.step_handle hn, onHandle, onHandle, Observable.updateIf, hf]
  declined n f hn hf := by
    rw [← h.value] at hf
    rw [h.step_handle hn, onHandle, Observable.updateIf, hf]
  tries id live := step_tryReceive (h.isLive live)
  gives id v rest live queued use receiving := by
    rw [step_receiving (h.isLive live) receiving, receive_cons queued]
  pending id live empty there use receiving := by
    -- As long as a handle is open, more may come.
    have left : ¬s.cell.handles = 0 := fun none =>
      there.elim fun n hn => h.handles.handles_eq_zero_iff.1 none n hn
    rw [step_receiving (h.isLive live) receiving, receive_nil empty, if_neg left]
  closed id live use receiving := by
    rw [step_receiving (h.isLive live) receiving, ← h.handles.handles_eq_zero_iff]
    cases queued : s.cell.queue id with
    | nil =>
      rw [receive_nil queued]
      by_cases none : s.cell.handles = 0 <;> simp [none]
    | cons v rest =>
      rw [receive_cons queued]
      simp

/-- Whatever is done, each subscription that is not dropped is given the value at its beginning and all
that is published afterwards, through whatever handle, once and in order; the handles show what was
published last, and updates begin with it; and what was given before stays as it was. -/
theorem run_delivers (first : α) (actions : List (Action α)) :
    let r := (start first).run actions
    Delivers first r.1 r.2 ∧ ∀ more, r.1 <+: ((start first).run (actions ++ more)).1 := by
  intro r
  constructor
  · exact (Sound.run (.start first) actions).delivers
  · intro more
    rw [run_append]
    exact List.prefix_append _ _

example : ((start 0).run [.handle 0 .subscribe, .handle 0 .clone, .handle 1 (.update (· + 5)),
      .handle 0 (.updateIf fun _ => none), .subscription 0 .tryReceive, .handle 0 .close,
      .subscription 0 .next, .subscription 0 .receive, .handle 1 .close, .subscription 0 .next]).1.map
        Prod.snd =
    [.subscribed 0, .opened 1, .done, .published false, .tried (some 0), .done, .received (.value 5),
      .received .pending, .done, .received .closed] := by decide

end MiningClient.Shared
