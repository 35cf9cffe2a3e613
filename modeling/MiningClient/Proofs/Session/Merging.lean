import MiningClient.Proofs.Session.Chapter
import MiningClient.Proofs.Session.Isolation
import MiningClient.Proofs.Session.Opening

namespace MiningClient

theorem GameState.eq_of_places {s s' : GameState} (hf : s.firstScreen = s'.firstScreen)
    (hp : ∀ place, s.places place = s'.places place) : s = s' := by
  cases s
  cases s'
  rw [GameState.mk.injEq]
  exact ⟨hf, hp .mine, hp .gamble⟩

theorem Loads.eq_of_status {l l' : Loads} (h : ∀ place, l.status place = l'.status place) :
    l = l' := by
  cases l
  cases l'
  rw [Loads.mk.injEq]
  exact ⟨h .mine, h .gamble⟩

namespace Session

/-- The reply to a load that comes with the event. -/
def Event.placesReply? (run : Nat) (place : Place) : Event → Option PlacesReply
  | pollLoad run' place' reply => if run' = run ∧ place' = place then reply else none
  | _ => none

/-- How a load ends among these events: the first reply is the one that it takes. -/
def endOf (run : Nat) (place : Place) (es : List Event) : Option PlacesReply :=
  es.findSome? (Event.placesReply? run place)

theorem endOf_cons (run : Nat) (place : Place) (e : Event) (es : List Event) :
    endOf run place (e :: es) = (e.placesReply? run place).or (endOf run place es) :=
  Run.findSome?_cons_or _ e es

namespace Core
variable (c : Core) {place other : Place} (reply : PlacesReply)

theorem status_settled_self : (c.settled place reply).loads.value.status place = .ofReply reply := by
  cases reply <;> exact Loads.status_mark_self _ _ _

theorem status_settled_of_ne (h : other ≠ place) :
    (c.settled place reply).loads.value.status other = c.loads.value.status other := by
  cases reply <;> exact Loads.status_mark_of_ne _ _ h

theorem firstScreen_settled :
    (c.settled place reply).state.value.firstScreen = c.state.value.firstScreen := by
  cases reply with
  | ok locations => exact GameState.firstScreen_withPlaces _ place locations
  | error e => rfl

theorem places_settled_self (h : c.state.value.places place = none) :
    (c.settled place reply).state.value.places place = reply.toOption := by
  cases reply with
  | ok locations => exact GameState.places_withPlaces_self _ place locations
  | error e => exact h

theorem places_settled_of_ne (h : other ≠ place) :
    (c.settled place reply).state.value.places other = c.state.value.places other := by
  cases reply with
  | ok locations => exact GameState.places_withPlaces_of_ne _ locations h
  | error e => rfl

theorem phase_settled : (c.settled place reply).phase = c.phase := by
  cases reply <;> rfl

theorem generation_settled : (c.settled place reply).generation = c.generation := by
  cases reply <;> rfl

end Core

namespace Machine
variable {σ : Type}

/-- The session shows the first screen it was opened with, and the places whose loads have ended so. -/
structure Shows (m : Machine σ) (screen : GameState) (ends : Place → Option PlacesReply) : Prop where
  phase : m.core.phase = .ready
  ready : m.core.ready.value = true
  items : m.core.state.value.items = screen.items
  index : m.core.state.value.index = screen.index
  account : m.core.state.value.account = screen.account
  places : ∀ place, m.core.state.value.places place = (ends place).bind Except.toOption
  loads : ∀ place, m.core.loads.value.status place = (ends place).elim .pending .ofReply

theorem Shows.same {m m' : Machine σ} {screen : GameState} {ends : Place → Option PlacesReply}
    (h : m.Shows screen ends) (hf : m.core.state.value.firstScreen = screen.firstScreen)
    (h' : m'.Shows screen ends) (hf' : m'.core.state.value.firstScreen = screen.firstScreen) :
    m.core.state.value = m'.core.state.value ∧ m.core.loads.value = m'.core.loads.value := by
  -- Neither side has anything that the screen and the ends do not tell.
  have hplaces : ∀ place,
      m.core.state.value.places place = m'.core.state.value.places place :=
    fun place => (h.places place).trans (h'.places place).symm
  have hloads : ∀ place, m.core.loads.value.status place = m'.core.loads.value.status place :=
    fun place => (h.loads place).trans (h'.loads place).symm
  exact ⟨GameState.eq_of_places (hf.trans hf'.symm) hplaces, Loads.eq_of_status hloads⟩

/-- The loads of the run that opened the session, as far as they have ended. A load that has not ended
is still there, and it is of the present generation. -/
structure Merging (m : Machine σ) (id : Nat) (screen : GameState)
    (ends : Place → Option PlacesReply) : Prop where
  phase : m.core.phase = .ready
  screen : m.core.state.value.firstScreen = screen.firstScreen
  going : ∀ place, ends place = none →
    ∃ l ∈ m.loads, l.run = id ∧ l.place = place ∧ l.generation = m.core.generation
  ended : ∀ place reply, ends place = some reply →
    (∀ l ∈ m.loads, isLoad id place l = false) ∧
      m.core.state.value.places place = reply.toOption ∧
      m.core.loads.value.status place = .ofReply reply

namespace Merging
variable {m : Machine σ} {id : Nat} {screen : GameState} {ends : Place → Option PlacesReply}

theorem shows (hs : m.Sound) (h : m.Merging id screen ends) : m.Shows screen ends := by
  -- A load that has not ended is still there, and such a load is pending.
  have hpending : ∀ place, ends place = none → m.core.loads.value.status place = .pending := by
    intro place hn
    obtain ⟨l, hl, -, rfl, hg⟩ := h.going place hn
    exact (hs.loads_pending l hl hg).2
  refine ⟨h.phase, hs.coherent.ready.mpr h.phase, ?_, ?_, ?_, ?_, ?_⟩
  · rw [GameState.items, GameState.items, h.screen]
  · rw [GameState.index, GameState.index, h.screen]
  · rw [GameState.account, GameState.account, h.screen]
  · intro place
    cases he : ends place with
    | none =>
      -- Places whose load is pending are not there.
      have hm := hs.coherent.merged place
      rw [hpending place he] at hm
      simpa using hm
    | some reply => exact (h.ended place reply he).2.1
  · intro place
    cases he : ends place with
    | none => exact hpending place he
    | some reply => exact (h.ended place reply he).2.2

theorem load_iff (hs : m.Sound) (h : m.Merging id screen ends) {l : Load} (hl : l ∈ m.loads)
    (hn : ends l.place = none) : l.run = id ↔ l.generation = m.core.generation := by
  obtain ⟨l', hl', hrun, hplace, hg⟩ := h.going l.place hn
  have : Std.Symm Load.Apart := ⟨fun _ _ h he => ⟨(h he.symm).1.symm, (h he.symm).2.symm⟩⟩
  -- Loads for the same places that are not one and the same differ in both.
  by_cases he : l = l'
  · rw [he]
    exact ⟨fun _ => hg, fun _ => hrun⟩
  · obtain ⟨hgen, hid⟩ := hs.loads_apart.forall hl hl' he hplace.symm
    rw [← hg, ← hrun]
    exact ⟨fun hr => absurd hr hid, fun hr => absurd hr hgen⟩

theorem of_same {m' : Machine σ} (h : m.Merging id screen ends)
    (hp : m'.core.phase = m.core.phase) (hg : m'.core.generation = m.core.generation)
    (hs : m'.core.state.value = m.core.state.value)
    (hl : m'.core.loads.value = m.core.loads.value) (hloads : m'.loads = m.loads) :
    m'.Merging id screen ends where
  phase := hp.trans h.phase
  screen := by rw [hs]; exact h.screen
  going := by rw [hg, hloads]; exact h.going
  ended := by rw [hs, hl, hloads]; exact h.ended

theorem advanced {run : Run} {i : Option ItemsReply} {a : Option AccountReply}
    {r : Machine σ × List Effect} (hs : (m.withRun run).Sound) (h : m.Merging id screen ends)
    (ha : Advance m run i a r) : r.1.Merging id screen ends := by
  -- A run of this generation would have kept the phase from being ready.
  have hpast : m.core.generation ≠ run.generation := by
    intro hg
    have hp := (hs.alone hg).1
    rw [h.phase] at hp
    cases hp
  have hcore := ha.core_of_over hpast
  cases ha.opening hs with
  | none _ loads =>
    exact h.of_same (by rw [hcore]) (by rw [hcore]) (by rw [hcore]) (by rw [hcore]) loads
  | one _ _ closed => exact absurd h.phase closed

theorem withLoadStarted (h : m.Merging id screen ends) (run : Nat) (place : Place) :
    (m.withLoadStarted run place).Merging id screen ends where
  phase := h.phase
  screen := h.screen
  going p he := by
    obtain ⟨l, hl, hkey⟩ := h.going p he
    exact ⟨_, List.mem_map_of_mem hl, by split <;> exact hkey⟩
  ended p reply he := by
    obtain ⟨hgone, hx⟩ := h.ended p reply he
    refine ⟨?_, hx⟩
    intro l hl
    obtain ⟨l', hl', rfl⟩ := List.mem_map.mp hl
    have hno := hgone l' hl'
    split <;> exact hno

theorem withoutLoad (h : m.Merging id screen ends) {run : Nat} {place : Place}
    (hno : ends place = none → run ≠ id) : (m.withoutLoad run place).Merging id screen ends where
  phase := h.phase
  screen := h.screen
  going p he := by
    obtain ⟨l, hl, hrun, rfl, hg⟩ := h.going p he
    refine ⟨l, List.mem_filter.mpr ⟨hl, ?_⟩, hrun, rfl, hg⟩
    -- The load that is taken away is another than this one.
    rw [Bool.not_eq_true', ← Bool.not_eq_true, isLoad_iff]
    rintro ⟨hr, rfl⟩
    exact hno he (hr.symm.trans hrun)
  ended p reply he := by
    obtain ⟨hgone, hx⟩ := h.ended p reply he
    exact ⟨fun l hl => hgone l (List.mem_filter.mp hl).1, hx⟩

theorem settled (h : m.Merging id screen ends) {place : Place} (hnone : ends place = none)
    (hfree : m.core.state.value.places place = none) (result : PlacesReply)
    {ends' : Place → Option PlacesReply} (hself : ends' place = some result)
    (hother : ∀ p, p ≠ place → ends' p = ends p) :
    Merging { m.withoutLoad id place with core := m.core.settled place result } id screen ends' where
  phase := (Core.phase_settled _ _).trans h.phase
  screen := (Core.firstScreen_settled _ _).trans h.screen
  going p he := by
    have hp : p ≠ place := by
      rintro rfl
      rw [hself] at he
      cases he
    rw [hother p hp] at he
    obtain ⟨l, hl, hrun, rfl, hg⟩ := h.going p he
    refine ⟨l, List.mem_filter.mpr ⟨hl, ?_⟩, hrun, rfl, hg.trans (Core.generation_settled _ _).symm⟩
    -- What still goes on is for other places, and is not taken away.
    rw [Bool.not_eq_true', ← Bool.not_eq_true, isLoad_iff]
    exact fun hk => hp hk.2
  ended p reply he := by
    -- The end shows in its own places, and the others are as before.
    by_cases hp : p = place
    · subst hp
      rw [hself] at he
      cases he
      refine ⟨?_, Core.places_settled_self _ _ hfree, Core.status_settled_self _ _⟩
      intro l hl
      simpa using (List.mem_filter.mp hl).2
    · rw [hother p hp] at he
      obtain ⟨hgone, hplaces, hstatus⟩ := h.ended p reply he
      exact ⟨fun l hl => hgone l (List.mem_filter.mp hl).1,
        (Core.places_settled_of_ne _ _ hp).trans hplaces,
        (Core.status_settled_of_ne _ _ hp).trans hstatus⟩

/-- The ends that are known after the event. -/
def endsWith (id : Nat) (ends : Place → Option PlacesReply) (e : Event) :
    Place → Option PlacesReply :=
  fun p => (ends p).or (e.placesReply? id p)

theorem endsWith_eq {e : Event} (h : ∀ p, ends p = none → e.placesReply? id p = none) :
    endsWith id ends e = ends := by
  funext p
  cases he : ends p with
  | none => rw [endsWith, he, h p he, Option.none_or]
  | some x => rw [endsWith, he, Option.some_or]

theorem endsWith_pollLoad {run : Nat} {place : Place} {reply : Option PlacesReply}
    (h : ends place = none → run ≠ id) : endsWith id ends (.pollLoad run place reply) = ends := by
  apply endsWith_eq
  intro p he
  rw [Event.placesReply?, if_neg]
  rintro ⟨rfl, rfl⟩
  exact h he rfl

theorem pollLoad (hs : m.Sound) (h : m.Merging id screen ends) {run : Nat} {place : Place}
    {reply : Option PlacesReply} {r : Machine σ × List Effect} (hl : PollLoad m run place reply r) :
    r.1.Merging id screen (endsWith id ends (.pollLoad run place reply)) := by
  cases hl with
  | gone reply none =>
    rw [endsWith_pollLoad]
    · exact h
    · rintro he rfl
      obtain ⟨l, hl, hkey⟩ := h.going place he
      have hno := none l hl
      rw [isLoad_iff.mpr ⟨hkey.1, hkey.2.1⟩] at hno
      cases hno
  | waiting =>
    have hno : ∀ p, ends p = none → (Event.pollLoad run place none).placesReply? id p = none :=
      fun _ _ => ite_self none
    rw [endsWith_eq hno]
    exact h.withLoadStarted run place
  | dropped l found result past =>
    obtain ⟨hmem, rfl, rfl, -⟩ := hs.loadFound found
    -- A load of an earlier generation is not the opening run's while that one goes on.
    have hno : ends l.place = none → l.run ≠ id := by
      intro he hid
      exact past ((h.load_iff hs hmem he).mp hid).symm
    rw [endsWith_pollLoad hno]
    exact h.withoutLoad hno
  | settled l found result now =>
    obtain ⟨hmem, rfl, rfl, -⟩ := hs.loadFound found
    obtain ⟨-, hpending⟩ := hs.loads_pending l hmem now.symm
    -- Only a load that goes on is pending, and of this generation it is the opening run's.
    have hnone : ends l.place = none := by
      cases he : ends l.place with
      | none => rfl
      | some x =>
        have hx := (h.ended l.place x he).2.2
        rw [hpending] at hx
        cases x <;> cases hx
    have hid : l.run = id := (h.load_iff hs hmem hnone).mpr now.symm
    subst hid
    have hfree : m.core.state.value.places l.place = none := by
      have hm := hs.coherent.merged l.place
      rw [hpending] at hm
      simpa using hm
    refine h.settled hnone hfree result ?_ ?_
    · rw [endsWith, hnone, Option.none_or, Event.placesReply?, if_pos ⟨rfl, rfl⟩]
    · intro p hp
      rw [endsWith, Event.placesReply?, if_neg fun hk => hp hk.2.symm, Option.or_none]

variable [Slot σ]

theorem step (hs : m.Sound) (h : m.Merging id screen ends) {e : Event} (he : e ≠ .reset) :
    (m.step e).1.Merging id screen (endsWith id ends e) := by
  have hc := m.step_cases e
  generalize m.step e = r at hc
  cases hc with
  | quiet hq still =>
    have hno : ∀ p, ends p = none → e.placesReply? id p = none := by
      intro p _
      cases e <;> first | rfl | cases hq
    rw [endsWith_eq hno]
    exact h.of_same still.phase still.generation still.state still.loaded still.loads
  | answered =>
    rw [endsWith_eq fun _ _ => rfl]
    exact h.of_same rfl rfl rfl rfl rfl
  | begun _ _ _ closed => exact absurd h.phase closed
  | missed =>
    rw [endsWith_eq fun _ _ => rfl]
    exact h
  | polled _ _ run _ found advance =>
    -- The phase is ready, so no run of this generation is there to be polled.
    have hw : (m.withoutRun run.id).Merging id screen ends := h.of_same rfl rfl rfl rfl rfl
    rw [endsWith_eq fun _ _ => rfl]
    exact hw.advanced (hs.resumed found) advance
  | load _ _ _ load => exact h.pollLoad hs load
  | reset => exact absurd rfl he

theorem after (hs : m.Sound) (h : m.Merging id screen ends) (es : List Event)
    (hr : .reset ∉ es) :
    (m.after es).Merging id screen fun p => (ends p).or (endOf id p es) := by
  induction es generalizing m ends with
  | nil =>
    have hends : (fun p => (ends p).or (endOf id p [])) = ends := by
      funext p
      exact Option.or_none
    rw [hends]
    exact h
  | cons e es ih =>
    obtain ⟨he, hes⟩ := not_or.mp (List.mem_cons.not.mp hr)
    have hends : (fun p => (ends p).or (endOf id p (e :: es))) =
        fun p => (endsWith id ends e p).or (endOf id p es) := by
      funext p
      rw [endOf_cons, endsWith, Option.or_assoc]
    rw [hends]
    exact ih (hs.step e) (h.step hs (Ne.symm he)) hes

end Merging

/-- How a step publishes a first screen: one call returns with it, and both its loads go on. -/
structure Opened (m : Machine σ) (r : Machine σ × List Effect) (id : Nat) : Prop where
  returned : .finished id (.run (.ok .initialized)) ∈ r.2
  screen : ∃ items account, r.1.core.state.value = GameState.withFirstScreen {} items account
  merging : r.1.Merging id r.1.core.state.value fun _ => none

theorem Advance.publishes {m : Machine σ} {run : Run} {i : Option ItemsReply}
    {a : Option AccountReply} {r : Machine σ × List Effect} (hs : (m.withRun run).Sound)
    (h : Advance m run i a r) (closed : m.core.phase ≠ .ready) (ready : r.1.core.phase = .ready) :
    Opened m r run.id := by
  cases h with
  | waiting => exact absurd ready closed
  | failed e =>
    refine absurd ready ?_
    change (m.core.fail run.generation e).phase ≠ .ready
    unfold Core.fail
    split
    · exact Phase.noConfusion
    · exact closed
  | discarded => exact absurd ready closed
  | opened items account _ now =>
    -- Before anything is published the state is that of the beginning.
    have hstate : m.core.state.value = {} := (hs.coherent.blank closed).1
    refine ⟨List.mem_append_right _ (List.mem_singleton.mpr rfl), ⟨items, account, ?_⟩, ?_⟩
    · change m.core.state.value.withFirstScreen items account = _
      rw [hstate]
    · refine ⟨rfl, rfl, ?_, ?_⟩
      · intro place _
        refine ⟨⟨run.id, place, run.generation, false⟩, List.mem_append_right _ ?_, rfl, rfl,
          now.symm⟩
        cases place <;> simp [loadsOf]
      · intro place reply he
        cases he

variable [Slot σ]

theorem step_opened {m : Machine σ} (hs : m.Sound) {e : Event} (closed : m.core.phase ≠ .ready)
    (ready : (m.step e).1.core.phase = .ready) : ∃ id, Opened m (m.step e) id := by
  have hc := m.step_cases e
  generalize m.step e = r at hc ready
  cases hc with
  | quiet _ still => exact absurd (still.phase ▸ ready) closed
  | answered | missed => exact absurd ready closed
  | begun i a free closed advance =>
    -- Only the advance of a run can have made the phase ready.
    obtain ⟨returned, screen, merging⟩ :=
      advance.publishes (hs.begun free closed) Phase.noConfusion ready
    exact ⟨_, List.mem_append_right _ returned, screen, merging⟩
  | polled _ _ run _ found advance =>
    obtain ⟨returned, screen, merging⟩ := advance.publishes (hs.resumed found) closed ready
    exact ⟨_, returned, screen, merging⟩
  | load _ _ _ load => exact absurd (load.opened.2 ▸ ready) closed
  | reset => cases ready

/-- Once a call has published the first screen, and as long as there is no reset, the session shows
that screen and, of each kind of places, how the call's own load of them has ended. So it shows the
same whatever else happens, and in whatever order the two loads end. -/
theorem merges_confluent (credentials : Credentials σ) (before : List Event) (e : Event)
    (closed : ((fresh credentials).after before).core.phase ≠ .ready)
    (ready : (((fresh credentials).after before).step e).1.core.phase = .ready) :
    let opening := ((fresh credentials).after before).step e
    ∃ id, .finished id (.run (.ok .initialized)) ∈ opening.2 ∧
      (∃ items account, opening.1.core.state.value = GameState.withFirstScreen {} items account) ∧
      (∀ es, .reset ∉ es →
        (opening.1.after es).Shows opening.1.core.state.value fun place => endOf id place es) ∧
      ∀ es es', .reset ∉ es → .reset ∉ es' → (∀ place, endOf id place es = endOf id place es') →
        (opening.1.after es).core.state.value = (opening.1.after es').core.state.value ∧
          (opening.1.after es).core.loads.value = (opening.1.after es').core.loads.value := by
  intro opening
  have hs : ((fresh credentials).after before).Sound := sound_after credentials before
  have hs' : opening.1.Sound := hs.step e
  obtain ⟨id, returned, screen, merging⟩ := step_opened hs closed ready
  -- At the opening neither load has ended, so the ends are those of the later events alone.
  have hmerging : ∀ es, .reset ∉ es →
      (opening.1.after es).Merging id opening.1.core.state.value fun place => endOf id place es :=
    fun es hr => merging.after hs' es hr
  refine ⟨id, returned, screen, fun es hr => (hmerging es hr).shows (hs'.after es), ?_⟩
  intro es es' hr hr' hends
  have h := hmerging es hr
  have h' := hmerging es' hr'
  rw [show (fun place => endOf id place es) = fun place => endOf id place es' from funext hends] at h
  exact (h.shows (hs'.after es)).same h.screen (h'.shows (hs'.after es')) h'.screen

/-- The mines come, a call comes too late, and the gambling places cannot be loaded. -/
def mineFirst : List Event :=
  [.pollLoad 0 .mine (some (.ok [⟨{}, true⟩])), .start none none,
    .pollLoad 0 .gamble (some (.error .unauthenticated))]

def gambleFirst : List Event :=
  [.pollLoad 0 .gamble (some (.error .unauthenticated)), .start none none,
    .pollLoad 0 .mine (some (.ok [⟨{}, true⟩]))]

theorem merges_confluent_orders :
    let credentials : Credentials MemorySlot := { slot := ⟨none⟩ }
    let opening := (fresh credentials).step (.start (some (.ok [])) (some (.ok {})))
    (fresh credentials).core.phase ≠ .ready ∧ opening.1.core.phase = .ready ∧
      .reset ∉ mineFirst ∧ .reset ∉ gambleFirst ∧
      (opening.1.after mineFirst).core.state.value = (opening.1.after gambleFirst).core.state.value ∧
      (opening.1.after mineFirst).core.loads.value = ⟨.loaded, .failed⟩ := by
  intro credentials opening
  have closed : (fresh credentials).core.phase ≠ .ready := Phase.noConfusion
  have ready : opening.1.core.phase = .ready := rfl
  have hm : .reset ∉ mineFirst := by simp [mineFirst]
  have hg : .reset ∉ gambleFirst := by simp [gambleFirst]
  obtain ⟨id, returned, -, shows, same⟩ := merges_confluent credentials [] _ closed ready
  -- The only call of the run has the first number.
  have hid : id = 0 := by
    have returned : Effect.finished id (.run (.ok .initialized)) ∈ [.fetched .items,
      .fetched .account, .finished 0 (.run (.ok .initialized))] := returned
    simpa using returned
  subst hid
  have hends : ∀ place, endOf 0 place mineFirst = endOf 0 place gambleFirst := by
    intro place
    cases place <;> rfl
  refine ⟨closed, ready, hm, hg, (same _ _ hm hg hends).1, ?_⟩
  exact Loads.eq_of_status fun place => ((shows _ hm).loads place).trans (by cases place <;> rfl)

end Machine
end Session
end MiningClient
