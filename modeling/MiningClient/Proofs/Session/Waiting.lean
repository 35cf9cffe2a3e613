import MiningClient.Proofs.Session.Watching

namespace MiningClient.Session.Machine
variable {σ : Type}

/-- Every waiting task has been numbered, and so has its place among the followers. -/
structure Numbered (m : Machine σ) : Prop where
  waiters : ∀ w ∈ m.waiters,
    w.id < m.nextTask ∧ w.subscription < (w.awaited.cell m.core).nextId
  followers : ∀ awaited, (Awaited.cell awaited m.core).Known

namespace Numbered
variable {m m' : Machine σ}

theorem fresh (credentials : Credentials σ) : (Machine.fresh credentials).Numbered where
  waiters w hw := by cases hw
  followers awaited s hs := by cases awaited <;> cases hs

theorem within (h : m.Numbered) (hw : ∀ w ∈ m'.waiters, w ∈ m.waiters)
    (hn : m.nextTask ≤ m'.nextTask)
    (hc : ∀ awaited, (Awaited.cell awaited m'.core).Within (awaited.cell m.core)) : m'.Numbered where
  waiters w hmem := by
    obtain ⟨hid, hsubscription⟩ := h.waiters w (hw w hmem)
    rw [(hc w.awaited).nextId]
    exact ⟨Nat.lt_of_lt_of_le hid hn, hsubscription⟩
  followers awaited := (h.followers awaited).within (hc awaited)

theorem subscribe (h : m.Numbered) (feed : Core.Feed) :
    Numbered { m with core := (m.core.subscribe feed).2 } where
  waiters w hmem := by
    obtain ⟨hid, hsubscription⟩ := h.waiters w hmem
    refine ⟨hid, ?_⟩
    rw [Awaited.cell_subscribe]
    split
    · exact Nat.lt_succ_of_lt hsubscription
    · exact hsubscription
  followers awaited := by
    rw [Awaited.cell_subscribe]
    split
    · exact (h.followers awaited).subscribe
    · exact h.followers awaited

theorem joined (h : m.Numbered) (awaited : Awaited) : (m.joined awaited).Numbered where
  waiters w hmem := by
    rcases List.mem_append.mp hmem with hmem | hmem
    · obtain ⟨hid, hsubscription⟩ := (h.subscribe awaited.feed).waiters w hmem
      exact ⟨Nat.lt_succ_of_lt hid, hsubscription⟩
    · obtain rfl := List.mem_singleton.mp hmem
      refine ⟨Nat.lt_succ_self _, ?_⟩
      change (m.core.subscribe awaited.feed).1 < (awaited.cell (m.core.subscribe awaited.feed).2).nextId
      rw [Awaited.subscribe_feed, Awaited.cell_subscribe, if_pos rfl]
      exact Nat.lt_succ_self _
  followers := (h.subscribe awaited.feed).followers

theorem withCell (h : m.Numbered) {awaited : Awaited} {o : Observable awaited.Value}
    (ho : o.Within (awaited.cell m.core)) :
    Numbered { m with core := awaited.withCell m.core o } := by
  refine h.within (fun w hw => hw) (Nat.le_refl _) fun other => ?_
  by_cases hsame : other = awaited
  · subst hsame
    rw [Awaited.cell_withCell]
    exact ho
  · rw [Awaited.cell_withCell_of_ne hsame]
    exact (other.cell m.core).within_refl

theorem unsubscribe (h : m.Numbered) (feed : Core.Feed) (id : Nat) :
    Numbered { m with core := m.core.unsubscribe id feed } := by
  refine h.within (fun w hw => hw) (Nat.le_refl _) fun awaited => ?_
  rw [Awaited.cell_unsubscribe]
  split
  · exact (awaited.cell m.core).within_unsubscribe id
  · exact (awaited.cell m.core).within_refl

theorem without (h : m.Numbered) (id : Nat) :
    Numbered { m with waiters := m.waiters.filter (·.id != id) } :=
  h.within (fun _ hw => (List.mem_filter.mp hw).1) (Nat.le_refl _)
    fun awaited => (awaited.cell m.core).within_refl

theorem pollWaiter (h : m.Numbered) (id : Nat) : (m.pollWaiter id).1.Numbered := by
  have hc := m.pollWaiter_looks id
  generalize m.pollWaiter id = r at hc
  cases hc with
  | gone => exact h
  | returned w => exact (h.without id).withCell ((w.awaited.cell m.core).within_unsubscribe _)
  | stayed w => exact h.withCell ((w.awaited.cell m.core).within_setQueue _ _)

variable [Slot σ]

theorem step (hs : m.Sound) (h : m.Numbered) (e : Event) : (m.step e).1.Numbered := by
  cases hq : e.isQuiet with
  | true =>
    cases e with
    | start | pollRun | pollLoad | reset => cases hq
    | await awaited => exact (h.joined awaited).pollWaiter m.nextTask
    | pollWaiter id => exact h.pollWaiter id
    | dropWaiter id =>
      change (m.dropWaiter id).Numbered
      unfold Machine.dropWaiter
      cases m.waiters.find? (·.id == id) with
      | none => exact h
      | some w => exact (h.unsubscribe w.awaited.feed w.subscription).without id
    | follow feed => exact h.subscribe feed
    | leave feed id =>
      change (m.leave feed id).Numbered
      unfold Machine.leave
      split
      · exact h
      · exact h.unsubscribe feed id
  | false =>
    have hn := (m.step_grown e).nextTask
    by_cases he : e = .reset
    · subst he
      refine h.within (fun w hw => hw) hn fun awaited => ?_
      cases awaited <;> exact Observable.within_publish _ _
    · refine h.within (fun w hw => (hs.writes hq he .ready).2 ▸ hw) hn fun awaited => ?_
      have hwrites := (hs.writes hq he awaited).1
      generalize awaited.cell (m.step e).1.core = o at hwrites
      cases hwrites with
      | nothing => exact Observable.within_refl _
      | value v => exact Observable.within_publish _ v

theorem after (hs : m.Sound) (h : m.Numbered) (es : List Event) : (m.after es).Numbered := by
  induction es generalizing m with
  | nil => exact h
  | cons e es ih => exact ih (hs.step e) (h.step hs e)

end Numbered

variable {m : Machine σ}

/-- A task that begins to wait has the value at its call in hand. -/
theorem Numbered.attends (h : m.Numbered) (awaited : Awaited) :
    (m.joined awaited).Attends m.nextTask (awaited.cell m.core).nextId awaited
      [(awaited.cell m.core).value] := by
  have hsubscription := awaited.subscribe_feed m.core
  refine ⟨?_, Nat.lt_succ_self _, ?_, ?_⟩
  · have hnone : m.waiters.find? (·.id == m.nextTask) = none := by
      rw [List.find?_eq_none]
      intro w hw
      simpa using Nat.ne_of_lt (h.waiters w hw).1
    change List.find? _ (m.waiters ++ _) = _
    rw [List.find?_append, hnone, Option.none_or, hsubscription]
    exact List.find?_cons_of_pos (beq_self_eq_true m.nextTask)
  · intro w hw hawaited hplace
    rcases List.mem_append.mp hw with hw | hw
    -- All who waited before have an older place.
    · have hknown := (h.waiters w hw).2
      rw [hawaited, hplace] at hknown
      exact absurd hknown (Nat.lt_irrefl _)
    · rw [List.mem_singleton.mp hw]
  · change (awaited.cell (m.core.subscribe awaited.feed).2).Follows _ _
    rw [Awaited.cell_subscribe, if_pos rfl]
    exact (h.followers awaited).follows

theorem Advance.finished {run : Run} {i : Option ItemsReply} {a : Option AccountReply}
    {r : Machine σ × List Effect} (h : Advance m run i a r) {id : Nat} {ending : Ending}
    (hx : .finished id ending ∈ r.2) : id = run.id := by
  cases h with
  | waiting => cases hx
  | failed e =>
    rcases List.mem_cons.mp hx with hx | hx
    · cases hx
    · cases List.mem_singleton.mp hx
      rfl
  | discarded =>
    cases List.mem_singleton.mp hx
    rfl
  | opened =>
    rcases List.mem_append.mp hx with hx | hx
    · obtain ⟨_, _, hx⟩ := List.mem_map.mp hx
      cases hx
    · cases List.mem_singleton.mp hx
      rfl

theorem PollLoad.not_finished {run : Nat} {place : Place} {reply : Option PlacesReply}
    {r : Machine σ × List Effect} (h : PollLoad m run place reply r) (id : Nat) (ending : Ending) :
    .finished id ending ∉ r.2 := by
  have hfirst : ∀ l, .finished id ending ∉ firstFetch l place := by
    intro l hx
    unfold firstFetch at hx
    split at hx
    · cases hx
    · cases List.mem_singleton.mp hx
  cases h with
  | gone => exact List.not_mem_nil
  | waiting l | dropped l => exact hfirst l
  | settled l _ result =>
    intro hx
    rcases List.mem_append.mp hx with hx | hx
    · exact hfirst l hx
    · cases result with
      | ok => cases hx
      | error e => cases List.mem_singleton.mp hx

variable [Slot σ]

theorem Done.not_finished {id : Nat} (h : m.Done (.run id)) {e : Event} (he : e ≠ .pollWaiter id)
    (ending : Ending) : .finished id ending ∉ (m.step e).2 := by
  intro hx
  obtain ⟨hknown, hno⟩ := h
  cases hq : e.isQuiet with
  | true =>
    cases e with
    | start | pollRun | pollLoad | reset => cases hq
    | await awaited =>
      -- A task that is just created has a number not used before.
      have hid := ((m.joined awaited).pollWaiter_looks m.nextTask).finished hx
      exact Nat.ne_of_lt hknown hid
    | pollWaiter other => exact he (by rw [(m.pollWaiter_looks other).finished hx])
    | dropWaiter | follow | leave => cases hx
  | false =>
    have hc := m.step_cases e
    generalize m.step e = r at hc hx
    cases hc with
    | quiet quiet =>
      rw [hq] at quiet
      cases quiet
    | answered =>
      cases List.mem_singleton.mp hx
      exact Nat.lt_irrefl _ hknown
    | begun i a _ _ advance =>
      rcases List.mem_append.mp hx with hx | hx
      · rcases fetched_of_asked hx with hx | hx <;> cases hx
      · exact Nat.ne_of_lt hknown (advance.finished hx)
    | missed | reset => cases hx
    | polled i a run member _ advance => exact hno run member (advance.finished hx).symm
    | load run place reply load => exact load.not_finished id ending hx

/-- What a task that begins to wait in `m` is offered: the value at its call, and those published
since. -/
def offered (m : Machine σ) (awaited : Awaited) (es : List Event) : List awaited.Value :=
  (awaited.cell m.core).value :: (m.trace (.await awaited :: es)).flatMap (Moment.published awaited)

theorem offered_nil (m : Machine σ) (awaited : Awaited) :
    m.offered awaited [] = [(awaited.cell m.core).value] := by
  change _ :: (Moment.published awaited ⟨m, .await awaited⟩ ++ []) = _
  rw [published_quiet rfl, List.append_nil]

theorem offered_snoc (m : Machine σ) (awaited : Awaited) (es : List Event) (e : Event) :
    m.offered awaited (es ++ [e]) = m.offered awaited es ++
      Moment.published awaited ⟨m.after (.await awaited :: es), e⟩ := by
  rw [offered, ← List.cons_append, trace_append, List.flatMap_append, ← List.cons_append]
  exact congrArg _ (List.append_nil _)

omit [Slot σ] in
theorem mem_dropWaiter {id : Nat} {w : Waiter} (h : w ∈ (m.dropWaiter id).waiters) :
    w ∈ m.waiters ∧ w.id ≠ id := by
  unfold dropWaiter at h
  cases hf : m.waiters.find? (·.id == id) with
  | none =>
    simp only [hf] at h
    exact ⟨h, by simpa using List.find?_eq_none.mp hf w h⟩
  | some other =>
    simp only [hf] at h
    exact ⟨(List.mem_filter.mp h).1, by simpa using (List.mem_filter.mp h).2⟩

omit [Slot σ] in
theorem waiters_leave (m : Machine σ) (feed : Core.Feed) (id : Nat) :
    (m.leave feed id).waiters = m.waiters := by
  unfold leave
  split <;> rfl

theorem waiter_origin (hs : m.Sound) (e : Event) :
    ∀ w ∈ (m.step e).1.waiters, w ∈ m.waiters ∨ w.id = m.nextTask := by
  intro w hw
  have hpoll : ∀ (n : Machine σ) (id : Nat), w ∈ (n.pollWaiter id).1.waiters → w ∈ n.waiters := by
    intro n id hw
    have hc := n.pollWaiter_looks id
    generalize n.pollWaiter id = r at hc hw
    cases hc with
    | gone | stayed => exact hw
    | returned => exact (List.mem_filter.mp hw).1
  cases hq : e.isQuiet with
  | true =>
    cases e with
    | start | pollRun | pollLoad | reset => cases hq
    | await awaited =>
      rcases List.mem_append.mp (hpoll (m.joined awaited) m.nextTask hw) with hw | hw
      · exact .inl hw
      · rw [List.mem_singleton.mp hw]
        exact .inr rfl
    | pollWaiter id => exact .inl (hpoll m id hw)
    | dropWaiter id => exact .inl (mem_dropWaiter hw).1
    | follow feed => exact .inl hw
    | leave feed id => exact .inl (m.waiters_leave feed id ▸ hw)
  | false =>
    by_cases he : e = .reset
    · subst he
      exact .inl hw
    · exact .inl ((hs.writes hq he .ready).2 ▸ hw)

/-- The task `id` waits no more. -/
structure Absent (m : Machine σ) (id : Nat) : Prop where
  done : m.Done (.run id)
  gone : ∀ w ∈ m.waiters, w.id ≠ id

theorem Absent.step (hs : m.Sound) {id : Nat} (h : m.Absent id) (e : Event) :
    (m.step e).1.Absent id ∧ ∀ ending, .finished id ending ∉ (m.step e).2 := by
  refine ⟨⟨h.done.run_step e, fun w hw => ?_⟩, fun ending hx => ?_⟩
  · rcases waiter_origin hs e w hw with hw | hw
    · exact h.gone w hw
    · rw [hw]
      exact Nat.ne_of_gt h.done.1
  · by_cases he : e = .pollWaiter id
    · subst he
      -- A poll of a task that is gone finds nobody.
      have hnone : m.waiters.find? (·.id == id) = none := by
        rw [List.find?_eq_none]
        intro w hw
        simpa using h.gone w hw
      have hx : .finished id ending ∈ (m.pollWaiter id).2 := hx
      simp only [Machine.pollWaiter, hnone] at hx
      cases hx
    · exact h.done.not_finished he ending hx

/-- How the task that begins to wait in `m` stands behind these events. -/
inductive Stands (m : Machine σ) (awaited : Awaited) (es : List Event) : Prop
  | waiting (subscription : Nat) (dropped kept : List awaited.Value)
    (split : m.offered awaited es = dropped ++ kept)
    (unwanted : dropped.find? awaited.wants = none)
    (attends : (m.after (.await awaited :: es)).Attends m.nextTask subscription awaited kept)
    (silent : ∀ ending, .finished m.nextTask ending ∉ m.effects (.await awaited :: es))
  | returned (v : awaited.Value) (first : (m.offered awaited es).find? awaited.wants = some v)
    (absent : (m.after (.await awaited :: es)).Absent m.nextTask)
    (once : ∀ ending, .finished m.nextTask ending ∈ m.effects (.await awaited :: es) ↔
      ending = awaited.ending v)
  | left (dropped : .dropWaiter m.nextTask ∈ es)
    (absent : (m.after (.await awaited :: es)).Absent m.nextTask)
    (silent : ∀ ending, .finished m.nextTask ending ∉ m.effects (.await awaited :: es))

theorem Sound.await_done (hs : m.Sound) (awaited : Awaited) (es : List Event) :
    (m.after (.await awaited :: es)).Done (.run m.nextTask) := by
  have hstill := (m.joined_still awaited).trans
    ((m.joined awaited).pollWaiter_still m.nextTask).1
  have hdone : (m.step (.await awaited)).1.Done (.run m.nextTask) := by
    refine ⟨Nat.lt_of_lt_of_le (Nat.lt_succ_self _)
      ((m.joined awaited).pollWaiter_still m.nextTask).1.nextTask, fun r hr => ?_⟩
    have hr : r ∈ m.runs := hstill.runs ▸ hr
    exact Nat.ne_of_lt (hs.runs_known r hr)
  exact hdone.after (hs.step _) es

theorem Attends.stands {awaited : Awaited} {es : List Event} {n : Machine σ}
    {subscription : Nat} {dropped kept : List awaited.Value}
    (h : n.Attends m.nextTask subscription awaited kept)
    (split : m.offered awaited es = dropped ++ kept)
    (unwanted : dropped.find? awaited.wants = none)
    (after : m.after (.await awaited :: es) = (n.pollWaiter m.nextTask).1)
    (done : (m.after (.await awaited :: es)).Done (.run m.nextTask)) {F : List Effect}
    (effects : m.effects (.await awaited :: es) = F ++ (n.pollWaiter m.nextTask).2)
    (silent : ∀ ending, .finished m.nextTask ending ∉ F) : m.Stands awaited es := by
  have hpolled := h.polled
  generalize hr : n.pollWaiter m.nextTask = r at hpolled after effects
  cases hpolled with
  | returned v first gone =>
    refine .returned v ?_ ⟨done, after ▸ gone⟩ fun ending => ?_
    · rw [split, List.find?_append, unwanted, Option.none_or, first]
    · rw [effects, List.mem_append, or_iff_right (silent ending), List.mem_singleton,
        Effect.finished.injEq, and_iff_right rfl]
  | stayed none attends =>
    -- What has been looked at is dropped, and none of it was wanted.
    refine .waiting subscription (dropped ++ kept) [] ?_ ?_ (after ▸ attends) fun ending => ?_
    · rw [split, List.append_nil]
    · rw [List.find?_append, unwanted, none, Option.none_or]
    · rw [effects, List.append_nil]
      exact silent ending

theorem Stands.snoc (hs : m.Sound) {awaited : Awaited} {es : List Event}
    (h : m.Stands awaited es) (e : Event) : m.Stands awaited (es ++ [e]) := by
  have hs' : (m.after (.await awaited :: es)).Sound := hs.after _
  have hafter := m.after_snoc (.await awaited :: es) e
  have heffects := m.effects_snoc (.await awaited :: es) e
  have hfinished : ∀ ending, .finished m.nextTask ending ∈ m.effects (.await awaited :: (es ++ [e])) ↔
      .finished m.nextTask ending ∈ m.effects (.await awaited :: es) ∨
        .finished m.nextTask ending ∈ ((m.after (.await awaited :: es)).step e).2 := by
    intro ending
    rw [← List.mem_append, ← heffects]
    rfl
  cases h with
  | waiting subscription dropped kept split unwanted attends silent =>
    -- The event is the task's own poll, its own end, or somebody else's.
    by_cases hpoll : e = .pollWaiter m.nextTask
    · subst hpoll
      refine attends.stands ?_ unwanted hafter (hs.await_done awaited _) heffects silent
      rw [offered_snoc, published_quiet rfl, List.append_nil, split]
    · have hsilent : ∀ ending,
          .finished m.nextTask ending ∉ m.effects (.await awaited :: (es ++ [e])) := by
        intro ending
        rw [hfinished, not_or]
        exact ⟨silent ending, (hs.await_done awaited es).not_finished hpoll ending⟩
      by_cases hdrop : e = .dropWaiter m.nextTask
      · subst hdrop
        refine .left (List.mem_append_right _ (List.mem_singleton.mpr rfl))
          ⟨hs.await_done awaited _, ?_⟩ hsilent
        exact hafter ▸ fun w hw => (mem_dropWaiter hw).2
      · refine .waiting subscription dropped
          (kept ++ Moment.published awaited ⟨m.after (.await awaited :: es), e⟩) ?_ unwanted
          (hafter ▸ attends.step hs' hpoll hdrop) hsilent
        rw [offered_snoc, split, List.append_assoc]
  | returned v first absent once =>
    obtain ⟨habsent, hnone⟩ := absent.step hs' e
    refine .returned v ?_ (hafter ▸ habsent) fun ending => ?_
    · rw [offered_snoc, List.find?_append, first, Option.some_or]
    · rw [hfinished, or_iff_left (hnone ending), once]
  | left dropped absent silent =>
    obtain ⟨habsent, hnone⟩ := absent.step hs' e
    refine .left (List.mem_append_left _ dropped) (hafter ▸ habsent) fun ending => ?_
    rw [hfinished, not_or]
    exact ⟨silent ending, hnone ending⟩

theorem Sound.stands (hs : m.Sound) (hn : m.Numbered) (awaited : Awaited) (es : List Event) :
    m.Stands awaited es := by
  -- The stages follow one another, so the induction is on the last event.
  induction es using List.reverseRecOn with
  | nil =>
    have hsplit : m.offered awaited [] = [] ++ [(awaited.cell m.core).value] :=
      m.offered_nil awaited
    exact (hn.attends awaited).stands hsplit rfl rfl (hs.await_done awaited [])
      (List.append_nil _) fun _ => List.not_mem_nil
  | append_singleton es e ih => exact ih.snoc hs e

/-- What becomes of the task that begins to wait in `m`, by what it is offered. -/
structure Waited (m : Machine σ) (awaited : Awaited) (es : List Event) : Prop where
  returned : ∀ ending, .finished m.nextTask ending ∈ m.effects (.await awaited :: es) →
    ∃ v, (m.offered awaited es).find? awaited.wants = some v ∧ ending = awaited.ending v
  pending : .dropWaiter m.nextTask ∉ es → (m.offered awaited es).find? awaited.wants = none →
    (∃ w ∈ (m.after (.await awaited :: es)).waiters, w.id = m.nextTask) ∧
      ((m.after (.await awaited :: es)).step (.pollWaiter m.nextTask)).2 = []
  next : .dropWaiter m.nextTask ∉ es → ∀ v, (m.offered awaited es).find? awaited.wants = some v →
    .finished m.nextTask (awaited.ending v) ∈ m.effects (.await awaited :: es) ∨
      ((m.after (.await awaited :: es)).step (.pollWaiter m.nextTask)).2 =
        [.finished m.nextTask (awaited.ending v)]

theorem Stands.waited {awaited : Awaited} {es : List Event} (h : m.Stands awaited es) :
    m.Waited awaited es := by
  cases h with
  | waiting subscription dropped kept split unwanted attends silent =>
    -- Of the values offered, those dropped were unwanted.
    have hfind : (m.offered awaited es).find? awaited.wants = kept.find? awaited.wants := by
      rw [split, List.find?_append, unwanted, Option.none_or]
    have hpoll : ((m.after (.await awaited :: es)).step (.pollWaiter m.nextTask)).2 = _ :=
      attends.effects_poll
    rw [← hfind] at hpoll
    refine ⟨fun ending hx => absurd hx (silent ending), fun _ hnone => ?_, fun _ v hsome => .inr ?_⟩
    · rw [hpoll, hnone]
      exact ⟨⟨_, attends.member, rfl⟩, rfl⟩
    · rw [hpoll, hsome]
      rfl
  | returned v first absent once =>
    refine ⟨fun ending hx => ⟨v, first, (once ending).mp hx⟩, fun _ hnone => ?_, fun _ v' hv => ?_⟩
    · rw [first] at hnone
      cases hnone
    · rw [first] at hv
      obtain rfl := Option.some.inj hv
      exact .inl ((once _).mpr rfl)
  | left dropped absent silent =>
    exact ⟨fun ending hx => absurd hx (silent ending), fun stays => absurd dropped stays,
      fun stays => absurd dropped stays⟩

theorem mem_offered {awaited : Awaited} {es : List Event} {v : awaited.Value}
    (h : v ∈ m.offered awaited es) : ∃ before later, .await awaited :: es = before ++ later ∧
      v = (awaited.cell (m.after before).core).value := by
  rcases List.mem_cons.mp h with rfl | h
  · exact ⟨[], _, rfl, rfl⟩
  · obtain ⟨t, ht, hv⟩ := List.mem_flatMap.mp h
    obtain ⟨before, e, later, hsplit, rfl⟩ := mem_trace ht
    refine ⟨before ++ [e], later, hsplit.trans (List.append_cons before e later), ?_⟩
    rw [after_snoc]
    unfold Moment.published at hv
    split at hv
    · exact List.mem_singleton.mp hv
    · cases hv

/-- Since the last reset one run has started both loads, and they have ended with these statuses. -/
def Settles (ts : List (Moment σ)) (loads : Loads) : Prop :=
  ∃ run, ∀ place, ∃ reply, Brings ts run place reply ∧ loads.status place = .ofReply reply

theorem Remembers.settles {ts : List (Moment σ)} (h : m.Remembers ts)
    (hsettled : m.core.loads.value.isSettled) : Settles ts m.core.loads.value := by
  have hended : ∀ place, m.core.loads.value.status place ≠ .pending := by
    obtain ⟨hmine, hgamble⟩ := Bool.and_eq_true_iff.mp hsettled
    intro place
    cases place
    · exact bne_iff_ne.mp hmine
    · exact bne_iff_ne.mp hgamble
  obtain ⟨run, _, hmine, -⟩ := h.settled .mine (hended .mine)
  refine ⟨run, fun place => ?_⟩
  obtain ⟨run', reply, hbrings, hstatus⟩ := h.settled place (hended place)
  obtain rfl := h.one_run hmine.started hbrings.started
  exact ⟨reply, hbrings, hstatus⟩

/-- A task that waits, from whatever time on, ends with the first value it waits for among those it
is offered, at the latest when it looks next; without one it waits on. And the loads that it ends
with were those of one run, which ended in one session. -/
theorem waiting_ends_with_first (credentials : Credentials σ) (before : List Event)
    (awaited : Awaited) (es : List Event) :
    let m := (fresh credentials).after before
    m.Waited awaited es ∧
      ∀ loads, .finished m.nextTask (.locations loads) ∈ m.effects (.await awaited :: es) →
        ∃ ts later, (fresh credentials).trace (before ++ .await awaited :: es) = ts ++ later ∧
          Settles ts loads := by
  intro m
  have hs : (fresh credentials).Sound := .fresh credentials
  have hn : m.Numbered := (Numbered.fresh credentials).after hs before
  have hwaited := ((hs.after before).stands hn awaited es).waited
  refine ⟨hwaited, fun loads hx => ?_⟩
  obtain ⟨v, hfirst, hending⟩ := hwaited.returned _ hx
  cases awaited with
  | ready => cases hending
  | locations =>
    obtain rfl : loads = v := by injection hending
    -- The value was in the cell after some of the events, and is judged by the moments before.
    obtain ⟨past, later, hsplit, hv⟩ := mem_offered (List.mem_of_find?_eq_some hfirst)
    have hv : loads = (m.after past).core.loads.value := hv
    refine ⟨(fresh credentials).trace (before ++ past), (m.after past).trace later, ?_, ?_⟩
    · rw [hsplit, ← List.append_assoc, trace_append, after_append]
    · have hremembers := (Remembers.fresh credentials).after hs (before ++ past)
      rw [List.nil_append, after_append] at hremembers
      rw [hv]
      exact hremembers.settles (hv ▸ List.find?_some hfirst)

/-- The session is open for a while, and the task looks only when it is over. -/
example :
    let m := fresh ({ slot := ⟨none⟩ } : Credentials MemorySlot)
    ((m.after [.await .ready, .start (some (.ok [])) (some (.ok {})), .reset]).step
      (.pollWaiter 0)).2 = [.finished 0 .ready] := rfl

end MiningClient.Session.Machine
