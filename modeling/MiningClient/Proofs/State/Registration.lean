import MiningClient.Proofs.State.Independence
import MiningClient.Proofs.State.Publication
import Mathlib.Data.List.DropRight
import Mathlib.Data.List.Nodup

namespace MiningClient

namespace Observable
variable {α : Type}

/-- The numbers of the subscriptions, in the order in which they were registered. -/
def registered (o : Observable α) : List Nat := o.subscriptions.map (·.id)

theorem count_eq (o : Observable α) : o.count = o.registered.length := by
  rw [count, registered, List.length_map]

theorem registered_subscribe (o : Observable α) :
    o.subscribe.2.registered = o.registered ++ [o.nextId] := by
  rw [registered, subscribe, List.map_append]
  rfl

theorem registered_publish (o : Observable α) (a : α) :
    (o.publish a).registered = (o.subscriptions.filter (·.live)).map (·.id) := by
  rw [registered, publish, List.map_map]
  rfl

theorem map_id_map {ss : List (Subscription α)} {f : Subscription α → Subscription α}
    (numbers : ∀ t, (f t).id = t.id) : (ss.map f).map (·.id) = ss.map (·.id) := by
  rw [List.map_map]
  exact List.map_congr_left fun t _ => numbers t

theorem registered_unsubscribe (o : Observable α) (id : Nat) :
    (o.unsubscribe id).registered = o.registered := map_id_map fun t => by split <;> rfl

theorem registered_setQueue (o : Observable α) (id : Nat) (q : List α) :
    (o.setQueue id q).registered = o.registered := map_id_map fun t => by split <;> rfl

end Observable

namespace Shared
variable {α : Type}

/-- The subscription that an entry begins. -/
def begun? : Entry α → Option Nat
  | (.handle _ .subscribe, .subscribed id) => some id
  | _ => none

/-- The subscription that an entry ends. -/
def dropped? : Entry α → Option Nat
  | (.subscription id .unsubscribe, .done) => some id
  | _ => none

/-- The entry of something that was published. -/
def publishes : Entry α → Bool
  | (.handle _ (.set _), .done) => true
  | (.handle _ (.update _), .done) => true
  | (.handle _ (.updateIf _), .published true) => true
  | _ => false

def begun (log : List (Entry α)) : List Nat := log.filterMap begun?

def dropped (log : List (Entry α)) : List Nat := log.filterMap dropped?

/-- The subscriptions that were begun and not dropped, in order. -/
def living (log : List (Entry α)) : List Nat := (begun log).filter (· ∉ dropped log)

/-- The entries up to the last one that publishes. -/
def uptoLast (log : List (Entry α)) : List (Entry α) := log.rdropWhile fun e => !publishes e

/-- The entries after the last one that publishes. -/
def sinceLast (log : List (Entry α)) : List (Entry α) := log.rtakeWhile fun e => !publishes e

section Entries
variable {log : List (Entry α)} {e : Entry α} {last v : α} {a : Action α} {out : Output α} {id : Nat}

theorem uptoLast_append_sinceLast (log : List (Entry α)) : uptoLast log ++ sinceLast log = log :=
  List.rdropWhile_append_rtakeWhile

theorem uptoLast_snoc (h : publishes e = true) : uptoLast (log ++ [e]) = log ++ [e] :=
  List.rdropWhile_concat_neg _ _ _ (by simp [h])

theorem sinceLast_snoc (h : publishes e = true) : sinceLast (log ++ [e]) = [] :=
  List.rtakeWhile_concat_neg _ _ _ (by simp [h])

theorem uptoLast_snoc_of_not (h : publishes e = false) : uptoLast (log ++ [e]) = uptoLast log :=
  List.rdropWhile_concat_pos _ _ _ (by simp [h])

theorem sinceLast_snoc_of_not (h : publishes e = false) : sinceLast (log ++ [e]) = sinceLast log ++ [e] :=
  List.rtakeWhile_concat_pos _ _ _ (by simp [h])

theorem begun_append (log later : List (Entry α)) : begun (log ++ later) = begun log ++ begun later :=
  List.filterMap_append

theorem dropped_append (log later : List (Entry α)) :
    dropped (log ++ later) = dropped log ++ dropped later := List.filterMap_append

theorem begun_snoc (h : begun? e = none) : begun (log ++ [e]) = begun log := by
  rw [begun, List.filterMap_append, List.filterMap_cons_none h]
  exact List.append_nil _

theorem dropped_snoc (h : dropped? e = none) : dropped (log ++ [e]) = dropped log := by
  rw [dropped, List.filterMap_append, List.filterMap_cons_none h]
  exact List.append_nil _

/-- The entry begins and ends no subscription, and nothing is published. -/
def IsAside (e : Entry α) : Prop := begun? e = none ∧ dropped? e = none ∧ publishes e = false

theorem isAside_of_silent (h : out.IsSilent) : IsAside (a, out) := by
  refine ⟨?_, ?_, ?_⟩
  · unfold begun?
    split
    · rename_i heq
      cases heq
      cases h
    · rfl
  · unfold dropped?
    split
    · rename_i heq
      cases heq
      cases h
    · rfl
  · unfold publishes
    split
    -- An output that publishes is not silent, so only the last alternative is left.
    case h_4 => rfl
    all_goals
      rename_i heq
      cases heq
      cases h

theorem isAside_of_given {use : SubscriptionUse} (h : out.given? = some v) :
    IsAside (.subscription id use, out) := by
  refine ⟨rfl, ?_, rfl⟩
  unfold dropped?
  split
  · rename_i heq
    cases heq
    cases h
  · rfl

theorem of_published? {n : Nat} {use : HandleUse α} (h : published? last (.handle n use, out) = some v) :
    begun? (.handle n use, out) = none ∧ dropped? (.handle n use, out) = none ∧
      publishes (.handle n use, out) = true := by
  unfold published? at h
  split at h
  case h_4 => cases h
  all_goals
    rename_i heq
    cases heq
    exact ⟨rfl, rfl, rfl⟩

/-- The subscriptions of the last publication and those since, less the dropped ones, are those that
are left. -/
theorem filter_registered (log : List (Entry α)) :
    (living (uptoLast log) ++ begun (sinceLast log)).filter (· ∉ dropped log) = living log := by
  have earlier : ∀ id ∈ dropped (uptoLast log), id ∈ dropped log := by
    intro id h
    rw [← uptoLast_append_sinceLast log, dropped_append]
    exact List.mem_append_left _ h
  -- To drop from the list early or late is the same, since the later drops include the earlier.
  have upto : (living (uptoLast log)).filter (· ∉ dropped log) =
      (begun (uptoLast log)).filter (· ∉ dropped log) := by
    rw [living, List.filter_filter]
    refine List.filter_congr fun id _ => ?_
    by_cases gone : id ∈ dropped log
    · simp [gone]
    · simp [gone, mt (earlier id) gone]
  rw [List.filter_append, upto, ← List.filter_append, ← begun_append, uptoLast_append_sinceLast]
  rfl

end Entries

/-- How the log and the observable agree about the subscriptions. -/
structure Registry (log : List (Entry α)) (s : Shared α) : Prop where
  registered : s.cell.registered = living (uptoLast log) ++ begun (sinceLast log)
  live : ∀ t ∈ s.cell.subscriptions, t.live = true ↔ t.id ∉ dropped log
  distinct : (begun log).Nodup
  known : ∀ id ∈ begun log, id < s.cell.nextId
  ended : ∀ id ∈ dropped log, id ∈ begun log

namespace Registry
variable {log : List (Entry α)} {s s' : Shared α} {e : Entry α}

theorem start (a : α) : Registry [] (start a) where
  registered := rfl
  live := by simp [Shared.start]
  distinct := .nil
  known := by simp [begun]
  ended := by simp [dropped]

/-- A publication removes those that were dropped. -/
theorem registered_publish (h : Registry log s) (v : α) :
    (s.cell.publish v).registered = s.cell.registered.filter (· ∉ dropped log) := by
  rw [Observable.registered_publish, Observable.registered, List.filter_map]
  congr 1
  refine List.filter_congr fun t ht => ?_
  rw [Function.comp_apply, Bool.eq_iff_iff, h.live t ht, decide_eq_true_eq]

theorem aside (h : Registry log s) (aside : IsAside e)
    (registered : s'.cell.registered = s.cell.registered) (next : s'.cell.nextId = s.cell.nextId)
    (live : ∀ t' ∈ s'.cell.subscriptions,
      ∃ t ∈ s.cell.subscriptions, t.id = t'.id ∧ t.live = t'.live) :
    Registry (log ++ [e]) s' := by
  obtain ⟨noneBegun, noneDropped, silent⟩ := aside
  refine ⟨?_, ?_, ?_, ?_, ?_⟩
  · rw [registered, h.registered, uptoLast_snoc_of_not silent, sinceLast_snoc_of_not silent,
      begun_snoc noneBegun]
  · intro t' ht'
    obtain ⟨t, ht, id, same⟩ := live t' ht'
    rw [dropped_snoc noneDropped, ← id, ← same]
    exact h.live t ht
  · rw [begun_snoc noneBegun]
    exact h.distinct
  · rw [begun_snoc noneBegun, next]
    exact h.known
  · rw [begun_snoc noneBegun, dropped_snoc noneDropped]
    exact h.ended

theorem publish (h : Registry log s) {n : Nat} {use : HandleUse α} {out : Output α} {v : α}
    (publishing : published? s.cell.value (.handle n use, out) = some v) :
    Registry (log ++ [(.handle n use, out)]) { s with cell := s.cell.publish v } := by
  obtain ⟨noneBegun, noneDropped, publishes⟩ := of_published? publishing
  have begun : Shared.begun (log ++ [(.handle n use, out)]) = Shared.begun log := begun_snoc noneBegun
  have dropped : Shared.dropped (log ++ [(.handle n use, out)]) = Shared.dropped log :=
    dropped_snoc noneDropped
  refine ⟨?_, ?_, begun ▸ h.distinct, begun ▸ h.known, ?_⟩
  -- Nothing is since the last publication any more: whoever is left was there at this one.
  · rw [h.registered_publish, h.registered, filter_registered, uptoLast_snoc publishes,
      sinceLast_snoc publishes, living, living, begun, dropped]
    exact (List.append_nil _).symm
  · intro t' ht'
    obtain ⟨t, ht, rfl⟩ := List.mem_map.1 ht'
    rw [dropped]
    exact h.live t (List.mem_filter.1 ht).1
  · rw [begun, dropped]
    exact h.ended

theorem subscribe (h : Registry log s) (n : Nat) :
    Registry (log ++ [subscribing n s.cell.nextId]) { s with cell := s.cell.subscribe.2 } := by
  have begun : Shared.begun (log ++ [subscribing n s.cell.nextId]) =
      Shared.begun log ++ [s.cell.nextId] := begun_append _ _
  have dropped : Shared.dropped (log ++ [subscribing n s.cell.nextId]) = Shared.dropped log :=
    dropped_snoc rfl
  -- The number is new, so it was not dropped before either.
  have new : s.cell.nextId ∉ Shared.begun log := fun old => Nat.lt_irrefl _ (h.known _ old)
  refine ⟨?_, ?_, ?_, ?_, ?_⟩
  · rw [uptoLast_snoc_of_not rfl, sinceLast_snoc_of_not rfl, begun_append, ← List.append_assoc,
      ← h.registered]
    exact s.cell.registered_subscribe
  · intro t ht
    rw [dropped]
    obtain ht | ht := List.mem_append.1 ht
    · exact h.live t ht
    · rw [List.mem_singleton.1 ht]
      exact iff_of_true rfl (mt (h.ended _) new)
  · rw [begun, ← List.concat_eq_append]
    exact h.distinct.concat new
  · intro id hid
    rw [begun, List.mem_append, List.mem_singleton] at hid
    obtain hid | rfl := hid
    · exact Nat.lt_succ_of_lt (h.known id hid)
    · exact Nat.lt_succ_self _
  · intro id hid
    rw [dropped] at hid
    rw [begun]
    exact List.mem_append_left _ (h.ended id hid)

theorem mem_begun (h : Registry log s) {t : Subscription α} (ht : t ∈ s.cell.subscriptions) :
    t.id ∈ begun log := by
  have there : t.id ∈ s.cell.registered := List.mem_map_of_mem ht
  rw [h.registered] at there
  rw [← uptoLast_append_sinceLast log, begun_append]
  obtain there | there := List.mem_append.1 there
  · exact List.mem_append_left _ (List.mem_filter.1 there).1
  · exact List.mem_append_right _ there

theorem drop (h : Registry log s) {id : Nat} (live : s.cell.isLive id = true) :
    Registry (log ++ [dropping id]) { s with cell := s.cell.unsubscribe id } := by
  obtain ⟨t, ht, rfl, -⟩ := Observable.exists_of_isLive live
  have begun : Shared.begun (log ++ [dropping t.id]) = Shared.begun log := begun_snoc rfl
  have dropped : Shared.dropped (log ++ [dropping t.id]) = Shared.dropped log ++ [t.id] :=
    dropped_append _ _
  refine ⟨?_, ?_, begun ▸ h.distinct, begun ▸ h.known, ?_⟩
  · rw [uptoLast_snoc_of_not rfl, sinceLast_snoc_of_not rfl, begun_snoc rfl]
    exact (s.cell.registered_unsubscribe t.id).trans h.registered
  -- It stays registered, and only the mark that it is live is taken from it.
  · intro u' hu'
    obtain ⟨u, hu, rfl⟩ := List.mem_map.1 hu'
    rw [dropped, List.mem_append, List.mem_singleton]
    split
    · rename_i same
      simp [same]
    · rename_i other
      simp [other, h.live u hu]
  · intro id hid
    rw [dropped, List.mem_append, List.mem_singleton] at hid
    rw [begun]
    obtain hid | rfl := hid
    · exact h.ended id hid
    · exact h.mem_begun ht

theorem move {a : Action α} {out : Output α} (h : Registry log s) (move : Move s a out s') :
    Registry (log ++ [(a, out)]) s' := by
  have same : ∀ t' ∈ s.cell.subscriptions,
      ∃ t ∈ s.cell.subscriptions, t.id = t'.id ∧ t.live = t'.live := fun t ht => ⟨t, ht, rfl, rfl⟩
  cases move with
  | silent _ _ silent => exact h.aside (isAside_of_silent silent) rfl rfl same
  | published _ _ _ _ publishes => exact h.publish publishes
  | subscribed n => exact h.subscribe n
  | cloned | closed => exact h.aside ⟨rfl, rfl, rfl⟩ rfl rfl same
  | received id _ _ _ rest _ gives =>
    refine h.aside (isAside_of_given gives) (s.cell.registered_setQueue id rest) rfl ?_
    intro t' ht'
    obtain ⟨t, ht, rfl⟩ := List.mem_map.1 ht'
    refine ⟨t, ht, ?_⟩
    -- A receipt changes the queue of a subscription and keeps whether it is live.
    split <;> exact ⟨rfl, rfl⟩
  | dropped _ live => exact h.drop live

theorem run (h : Registry log s) (actions : List (Action α)) :
    Registry (log ++ (s.run actions).1) (s.run actions).2 := by
  induction actions generalizing log s with
  | nil =>
    rw [Shared.run, List.append_nil]
    exact h
  | cons a actions ih =>
    have hrest := ih (h.move (s.step_moves a))
    rw [List.append_assoc, List.singleton_append] at hrest
    exact hrest

end Registry

theorem mem_begun_iff {log : List (Entry α)} {id : Nat} :
    id ∈ begun log ↔ ∃ n, subscribing n id ∈ log := by
  rw [begun, List.mem_filterMap]
  constructor
  · rintro ⟨e, he, begins⟩
    unfold begun? at begins
    split at begins
    · cases begins
      exact ⟨_, he⟩
    · cases begins
  · rintro ⟨n, he⟩
    exact ⟨_, he, rfl⟩

theorem mem_dropped_iff {log : List (Entry α)} {id : Nat} : id ∈ dropped log ↔ dropping id ∈ log := by
  rw [dropped, List.mem_filterMap]
  constructor
  · rintro ⟨e, he, ends⟩
    unfold dropped? at ends
    split at ends
    · cases ends
      exact he
    · cases ends
  · intro he
    exact ⟨_, he, rfl⟩

theorem mem_living_iff {log : List (Entry α)} {id : Nat} : id ∈ living log ↔ IsLive log id := by
  rw [living, List.mem_filter, decide_eq_true_eq, mem_begun_iff, mem_dropped_iff, IsLive]

section Step
variable {s s' : Shared α} {a : Action α} {out : Output α}

theorem Move.eq_publish (h : Move s a out s') (publishes : publishes (a, out) = true) :
    ∃ v, s' = { s with cell := s.cell.publish v } := by
  cases h with
  | silent _ _ silent =>
    rw [(isAside_of_silent silent).2.2] at publishes
    cases publishes
  | published _ _ _ v => exact ⟨v, rfl⟩
  | subscribed | cloned | closed | received | dropped => cases publishes

/-- Nobody is removed but by a publication. -/
theorem Move.registered_eq (h : Move s a out s') (silent : Shared.publishes (a, out) = false) :
    s'.cell.registered = s.cell.registered ++ begun [(a, out)] := by
  cases h with
  | silent _ _ silent => simp [begun, (isAside_of_silent silent).1]
  | published _ _ _ _ publishing =>
    rw [(of_published? publishing).2.2] at silent
    cases silent
  | subscribed => exact s.cell.registered_subscribe
  | cloned | closed => exact (List.append_nil _).symm
  | received id _ _ _ rest => exact (s.cell.registered_setQueue id rest).trans (List.append_nil _).symm
  | dropped id => exact (s.cell.registered_unsubscribe id).trans (List.append_nil _).symm

end Step

theorem given_drop {id other : Nat} (ne : other ≠ id) (s : Shared α) (actions more : List (Action α)) :
    given other (s.run (actions ++ .subscription id .unsubscribe :: more)).1 =
      given other (s.run (actions ++ more)).1 := by
  obtain ⟨same, -⟩ := given_run ne more ((s.run actions).2.without_drop id)
  have own : given? other (.subscription id .unsubscribe,
      ((s.run actions).2.step (.subscription id .unsubscribe)).1) = none := if_neg (Ne.symm ne)
  rw [run_append, run_append, given_append, given_append, run, given_cons, own]
  exact congrArg _ same

/-- The account of the subscriptions when a run from `start` has left this log. -/
structure Accounts (start : α) (log : List (Entry α)) (s : Shared α) : Prop where
  distinct : (begun log).Nodup
  live : ∀ id, id ∈ living log ↔ IsLive log id
  registered : s.cell.registered = living (uptoLast log) ++ begun (sinceLast log)
  counts : ∀ n, IsOpen log n → s.step (.handle n .count) =
    (.counted ((living (uptoLast log)).length + (begun (sinceLast log)).length), s)
  sets : ∀ n v, IsOpen log n → publishes (.handle n (.set v), (s.step (.handle n (.set v))).1) = true
  updates : ∀ n f, IsOpen log n →
    publishes (.handle n (.update f), (s.step (.handle n (.update f))).1) = true
  decides : ∀ n f, IsOpen log n →
    publishes (.handle n (.updateIf f), (s.step (.handle n (.updateIf f))).1) =
      (f (lastPublished start log)).isSome
  removes : ∀ a, publishes (a, (s.step a).1) = true →
    (s.step a).2.cell.registered = s.cell.registered.filter (· ∉ dropped log) ∧
      (s.step a).2.cell.count = (living log).length
  keeps : ∀ a, publishes (a, (s.step a).1) = false →
    (s.step a).2.cell.registered = s.cell.registered ++ begun [(a, (s.step a).1)]

theorem Sound.accounts {first : α} {log : List (Entry α)} {s : Shared α} (h : Sound first log s)
    (registry : Registry log s) : Accounts first log s where
  distinct := registry.distinct
  live _ := mem_living_iff
  registered := registry.registered
  counts n hn := by
    rw [h.step_handle hn, onHandle, Observable.count_eq, registry.registered, List.length_append]
  sets n v hn := by
    rw [h.step_handle hn]
    rfl
  updates n f hn := by
    rw [h.step_handle hn]
    rfl
  decides n f hn := by
    -- The function is given the value that was published last.
    rw [h.step_handle hn, onHandle, Observable.updateIf, ← h.value]
    cases f s.cell.value <;> rfl
  removes a publishes := by
    obtain ⟨v, next⟩ := (s.step_moves a).eq_publish publishes
    rw [next, Observable.count_eq, registry.registered_publish]
    refine ⟨rfl, ?_⟩
    rw [registry.registered, filter_registered]
  keeps a silent := (s.step_moves a).registered_eq silent

/-- Whatever is done, the number of subscriptions is that of those which had not been dropped when a
value was last published and of those which began after that. A publication removes those that were
dropped and no others, nothing else removes any, and what a subscription is given does not depend on
whether and when another one is dropped. -/
theorem subscriptions_accounted (first : α) (actions : List (Action α)) :
    Accounts first ((start first).run actions).1 ((start first).run actions).2 ∧
      ∀ id other, other ≠ id → ∀ more,
        given other ((start first).run (actions ++ .subscription id .unsubscribe :: more)).1 =
          given other ((start first).run (actions ++ more)).1 := by
  constructor
  · exact (Sound.run (.start first) actions).accounts (Registry.run (.start first) actions)
  · intro id other ne more
    exact given_drop ne (start first) actions more

/-- The second of two hears of the next value and of nothing before it, be the first dropped or not. -/
theorem subscriptions_accounted_dropped :
    let begin : List (Action Nat) := [.handle 0 .subscribe, .handle 0 .subscribe]
    let more : List (Action Nat) :=
      [.subscription 1 .tryReceive, .handle 0 (.set 7), .subscription 1 .next, .subscription 1 .receive]
    1 ≠ 0 ∧ given 1 ((start 5).run (begin ++ .subscription 0 .unsubscribe :: more)).1 =
      given 1 ((start 5).run (begin ++ more)).1 ∧
    given 1 ((start 5).run (begin ++ more)).1 =
      [(.tryReceive, .tried (some 5)), (.next, .received (.value 7)), (.receive, .received .pending)] :=
  ⟨by decide, (subscriptions_accounted 5 _).2 0 1 (by decide) _, rfl⟩

example : ((start 0).run [.handle 0 .subscribe, .handle 0 .subscribe, .subscription 0 .unsubscribe,
      .handle 0 (.updateIf fun _ => none), .handle 0 .count, .handle 0 (.set 1), .handle 0 .count,
      .handle 0 .subscribe, .handle 0 .count]).1.map Prod.snd =
    [.subscribed 0, .subscribed 1, .done, .published false, .counted 2, .done, .counted 1,
      .subscribed 2, .counted 2] := by decide

end Shared
end MiningClient
