import MiningClient.Proofs.Session.Calls

namespace MiningClient.Session

/-- The loads that a call with the first screen starts. -/
def bothLoads (id : Nat) : List (Nat × Place) := [(id, .mine), (id, .gamble)]

namespace Load

theorem newKeys_of_old {before after : List Load} (h : ∀ l ∈ after, ∃ l' ∈ before, l.key = l'.key) :
    newKeys before after = [] := by
  apply List.filter_eq_nil_iff.mpr
  intro k hk
  obtain ⟨l, hl, rfl⟩ := List.mem_map.mp hk
  obtain ⟨l', hl', hkey⟩ := h l hl
  have hmem : l.key ∈ before.map Load.key := hkey ▸ List.mem_map_of_mem hl'
  simp [hmem]

theorem newKeys_loadsOf {before : List Load} {run : Run} (h : ∀ l ∈ before, run.id ≠ l.run) :
    newKeys before (before ++ Machine.loadsOf run) = bothLoads run.id := by
  have hold : newKeys before before = [] := newKeys_of_old fun l hl => ⟨l, hl, rfl⟩
  -- No load of this run was there before, so both its keys are new.
  have hnew : ∀ place, (run.id, place) ∉ before.map Load.key := by
    intro place hmem
    obtain ⟨l, hl, hkey⟩ := List.mem_map.mp hmem
    exact h l hl (congrArg Prod.fst hkey).symm
  unfold newKeys at hold ⊢
  rw [List.map_append, List.filter_append, hold, List.nil_append]
  apply List.filter_eq_self.mpr
  intro k hk
  have hk : k ∈ bothLoads run.id := hk
  simp only [bothLoads, List.mem_cons, List.not_mem_nil, or_false] at hk
  rcases hk with rfl | rfl <;> simp [hnew]

end Load

namespace Machine
variable {σ : Type}

/-- How many loads of a kind of places have not asked for them yet. A load asks when it goes on for the
first time. -/
def unasked (m : Machine σ) (place : Place) : Nat :=
  m.loads.countP fun l => l.place == place && !l.started

theorem filterMap_waking {α : Type} (f : Effect → Option α)
    (hready : ∀ id, f (.finished id .ready) = none)
    (hloads : ∀ id l, f (.finished id (.locations l)) = none) {effects : List Effect}
    (h : ∀ x ∈ effects, IsWaking x) : effects.filterMap f = [] := by
  apply List.filterMap_eq_nil_iff.mpr
  intro x hx
  obtain ⟨id, rfl | ⟨l, rfl⟩⟩ := h x hx
  · exact hready id
  · exact hloads id l

theorem fetches_of_waking {effects : List Effect} (h : ∀ x ∈ effects, IsWaking x) :
    effects.filterMap Effect.fetch? = [] :=
  filterMap_waking _ (fun _ => rfl) (fun _ _ => rfl) h

theorem fetches_asked (i : Option ItemsReply) :
    (askedFetches i).filterMap Effect.fetch? =
      .items :: if (errorOf? i).isNone then [.account] else [] := by
  unfold askedFetches
  split <;> rfl

theorem opened_asked (i : Option ItemsReply) : (askedFetches i).filterMap Effect.opened? = [] := by
  unfold askedFetches
  split <;> rfl

theorem filterMap_repeated {α : Type} (f : Effect → Option α)
    (hf : ∀ notice, f (.noticed notice) = none) (ids : List UInt32) :
    (ids.map fun id => Effect.noticed (.repeatedItem id)).filterMap f = [] := by
  apply List.filterMap_eq_nil_iff.mpr
  intro x hx
  obtain ⟨id, -, rfl⟩ := List.mem_map.mp hx
  exact hf _

theorem Advance.fetches {m : Machine σ} {run : Run} {i : Option ItemsReply}
    {a : Option AccountReply} {r : Machine σ × List Effect} (h : Advance m run i a r) :
    r.2.filterMap Effect.fetch? = [] := by
  -- Both fetches were made by the call; to go on makes none.
  cases h with
  | waiting | failed | discarded => rfl
  | opened items account =>
    rw [List.filterMap_append, filterMap_repeated _ fun _ => rfl]
    rfl

/-- Whether a step of a run publishes the first screen. -/
inductive Opening (m : Machine σ) (run : Run) (r : Machine σ × List Effect) : Prop
  | none (opened : r.2.filterMap Effect.opened? = []) (loads : r.1.loads = m.loads)
    (stays : m.core.phase = .ready → r.1.core.phase = .ready)
  | one (opened : r.2.filterMap Effect.opened? = [run.id])
    (loads : r.1.loads = m.loads ++ loadsOf run) (closed : m.core.phase ≠ .ready)
    (ready : r.1.core.phase = .ready)

theorem Advance.opening {m : Machine σ} {run : Run} {i : Option ItemsReply}
    {a : Option AccountReply} {r : Machine σ × List Effect} (hs : (m.withRun run).Sound)
    (h : Advance m run i a r) : Opening m run r := by
  cases h with
  | waiting run' => exact .none rfl rfl id
  | failed e =>
    refine .none rfl rfl ?_
    intro hp
    change (m.core.fail run.generation e).phase = .ready
    unfold Core.fail
    split
    -- A failure is written by a run of this generation only, and then the phase was not ready.
    · rename_i hg
      obtain ⟨hi, -⟩ := hs.alone hg
      rw [hp] at hi
      cases hi
    · exact hp
  | discarded => exact .none rfl rfl id
  | opened items account _ now =>
    -- A run that may publish is the one that the phase tells of.
    obtain ⟨hi, -⟩ := hs.alone now
    refine .one ?_ rfl ?_ rfl
    · rw [List.filterMap_append, filterMap_repeated _ fun _ => rfl]
      rfl
    · rw [hi]
      exact Phase.noConfusion

theorem PollLoad.opened {m : Machine σ} {run : Nat} {place : Place} {reply : Option PlacesReply}
    {r : Machine σ × List Effect} (h : PollLoad m run place reply r) :
    r.2.filterMap Effect.opened? = [] ∧ r.1.core.phase = m.core.phase := by
  have hfirst : ∀ l : Load, (firstFetch l place).filterMap Effect.opened? = [] := by
    intro l
    unfold firstFetch
    split <;> rfl
  cases h with
  | gone => exact ⟨rfl, rfl⟩
  | waiting l => exact ⟨hfirst l, rfl⟩
  | dropped l => exact ⟨hfirst l, rfl⟩
  | settled l found result =>
    rw [List.filterMap_append, hfirst]
    cases result <;> exact ⟨rfl, rfl⟩

theorem Sound.split {m : Machine σ} (h : m.Sound) {run : Nat} {place : Place} {l : Load}
    (hf : m.loads.find? (isLoad run place) = some l) :
    l.place = place ∧ ∃ before rest, m.loads = before ++ l :: rest ∧
      (m.withoutLoad run place).loads = before ++ rest ∧
      (m.withLoadStarted run place).loads = before ++ { l with started := true } :: rest := by
  obtain ⟨hl, before, rest, heq, hbefore⟩ := List.find?_eq_some_iff_append.mp hf
  have hkey := isLoad_iff.mp hl
  have hbefore : ∀ x ∈ before, isLoad run place x = false := by
    intro x hx
    simpa using hbefore x hx
  -- A second load of the same key would be of the same run, and loads are apart.
  have hrest : ∀ x ∈ rest, isLoad run place x = false := by
    intro x hx
    have hp := h.loads_apart
    rw [heq] at hp
    have hapart := (List.pairwise_cons.mp (List.pairwise_append.mp hp).2.1).1 x hx
    rw [← Bool.not_eq_true]
    intro hload
    have hk := isLoad_iff.mp hload
    exact (hapart (hkey.2.trans hk.2.symm)).2 (hkey.1.trans hk.1.symm)
  refine ⟨hkey.2, before, rest, heq, ?_, ?_⟩
  · change (m.loads.filter fun x => !isLoad run place x) = _
    rw [heq, List.filter_append, List.filter_cons_of_neg (by simp [hl]), filter_others hbefore,
      filter_others hrest]
  · change m.loads.map _ = _
    rw [heq, List.map_append, List.map_cons, if_pos hl, map_others hbefore, map_others hrest]

theorem fetches_first (l : Load) (place : Place) :
    (firstFetch l place).filterMap Effect.fetch? = if l.started then [] else [.places place] := by
  unfold firstFetch
  split <;> rfl

theorem fetches_notices (place : Place) (result : PlacesReply) :
    (loadNotices place result).filterMap Effect.fetch? = [] := by
  cases result <;> rfl

theorem PollLoad.asks {m : Machine σ} (hs : m.Sound) {run : Nat} {place : Place}
    {reply : Option PlacesReply} {r : Machine σ × List Effect} (h : PollLoad m run place reply r)
    (other : Place) :
    (r.2.filterMap Effect.fetch?).count (.places other) + r.1.unasked other = m.unasked other := by
  -- What the poll asks for is what the load still had to ask for.
  have hfirst : ∀ l : Load, l.place = place →
      ((firstFetch l place).filterMap Effect.fetch?).count (.places other) =
        if l.place == other && !l.started then 1 else 0 := by
    rintro l rfl
    rw [fetches_first]
    cases l.started
    · by_cases hp : l.place = other <;> simp [hp]
    · simp
  cases h with
  | gone => exact Nat.zero_add _
  | waiting l found =>
    -- The load that is polled is the only one whose mark changes.
    obtain ⟨hp, before, rest, hm, -, hstarted⟩ := hs.split found
    rw [hfirst l hp, unasked, unasked, hstarted, hm]
    simp only [List.countP_append, List.countP_cons, Bool.not_true, Bool.and_false,
      Bool.false_eq_true, if_false]
    omega
  | dropped l found =>
    obtain ⟨hp, before, rest, hm, hwithout, -⟩ := hs.split found
    rw [hfirst l hp, unasked, unasked, hwithout, hm]
    simp only [List.countP_append, List.countP_cons]
    omega
  | settled l found result =>
    obtain ⟨hp, before, rest, hm, hwithout, -⟩ := hs.split found
    rw [List.filterMap_append, fetches_notices, List.append_nil, hfirst l hp, unasked, unasked]
    change _ + (m.withoutLoad run place).loads.countP _ = _
    rw [hwithout, hm]
    simp only [List.countP_append, List.countP_cons]
    omega

theorem PollLoad.fetches {m : Machine σ} {run : Nat} {place : Place} {reply : Option PlacesReply}
    {r : Machine σ × List Effect} (h : PollLoad m run place reply r) :
    ∀ x ∈ r.2.filterMap Effect.fetch?, x = .places place := by
  have hfirst : ∀ l : Load, ∀ x ∈ (firstFetch l place).filterMap Effect.fetch?,
      x = .places place := by
    intro l x hx
    rw [fetches_first] at hx
    split at hx
    · cases hx
    · exact List.mem_singleton.mp hx
  cases h with
  | gone => exact fun x hx => (by cases hx)
  | waiting l => exact hfirst l
  | dropped l => exact hfirst l
  | settled l found result =>
    rw [List.filterMap_append, fetches_notices, List.append_nil]
    exact hfirst l

/-- What a step says of the first screen: nothing, or that one call has published it, which leaves one
load more of each kind of places to be asked for. -/
inductive Opens (m : Machine σ) (e : Event) (r : Machine σ × List Effect) : Prop
  | none (opened : r.2.filterMap Effect.opened? = [])
    (started : Load.newKeys m.loads r.1.loads = [])
    (asks : ∀ place, (r.2.filterMap Effect.fetch?).count (.places place) + r.1.unasked place =
      m.unasked place)
    (stays : e ≠ .reset → m.core.phase = .ready → r.1.core.phase = .ready)
  | one (id : Nat) (opened : r.2.filterMap Effect.opened? = [id])
    (started : Load.newKeys m.loads r.1.loads = bothLoads id)
    (asks : ∀ place, (r.2.filterMap Effect.fetch?).count (.places place) + r.1.unasked place =
      m.unasked place + 1)
    (closed : m.core.phase ≠ .ready) (ready : r.1.core.phase = .ready)

theorem Opens.silent {m : Machine σ} {e : Event} {r : Machine σ × List Effect}
    (ho : r.2.filterMap Effect.opened? = [])
    (hf : ∀ place, (r.2.filterMap Effect.fetch?).count (.places place) = 0)
    (hl : r.1.loads = m.loads)
    (hp : e ≠ .reset → m.core.phase = .ready → r.1.core.phase = .ready) : Opens m e r := by
  refine .none ho ?_ ?_ hp
  · rw [hl]
    exact Load.newKeys_of_old fun l hl => ⟨l, hl, rfl⟩
  · intro place
    rw [hf, unasked, unasked, hl, Nat.zero_add]

/-- A step that goes on with a run, after some effects of its own. -/
theorem Opening.opens {m m₀ : Machine σ} {run : Run} {r : Machine σ × List Effect}
    (h : Opening m₀ run r) (hf : r.2.filterMap Effect.fetch? = []) (hl : m₀.loads = m.loads)
    (hn : ∀ l ∈ m.loads, run.id ≠ l.run) (hp : m.core.phase = .ready → m₀.core.phase = .ready)
    (b : List Effect) (ho : b.filterMap Effect.opened? = [])
    (hb : ∀ place, (b.filterMap Effect.fetch?).count (.places place) = 0) (e : Event) :
    Opens m e (r.1, b ++ r.2) := by
  -- Neither what comes before nor the run asks for places.
  have hcount : ∀ place,
      ((b ++ r.2).filterMap Effect.fetch?).count (.places place) = 0 := by
    -- The two loads that are started have one of each kind, and none has asked yet.
    intro place
    rw [List.filterMap_append, hf, List.append_nil, hb]
  have hopened : (b ++ r.2).filterMap Effect.opened? = r.2.filterMap Effect.opened? := by
    rw [List.filterMap_append, ho, List.nil_append]
  cases h with
  | none opened loads stays =>
    refine .silent (hopened.trans opened) hcount (loads.trans hl) ?_
    intro _ hready
    exact stays (hp hready)
  | one opened loads closed ready =>
    have hloads : r.1.loads = m.loads ++ loadsOf run := loads.trans (by rw [hl])
    refine .one run.id (hopened.trans opened) ?_ ?_ (fun hready => closed (hp hready)) ready
    · change Load.newKeys m.loads r.1.loads = _
      rw [hloads]
      exact Load.newKeys_loadsOf hn
    · intro place
      rw [hcount, unasked, unasked, hloads, List.countP_append]
      cases place <;> exact Nat.zero_add _

variable [Slot σ]

theorem step_opens {m : Machine σ} (hs : m.Sound) (e : Event) : Opens m e (m.step e) := by
  have hc := m.step_cases e
  generalize m.step e = r at hc
  cases hc with
  | quiet hq still waking =>
    have hopened := filterMap_waking Effect.opened? (fun _ => rfl) (fun _ _ => rfl) waking
    refine .silent hopened ?_ still.loads ?_
    · intro place
      rw [fetches_of_waking waking]
      rfl
    · intro _ hp
      rw [still.phase]
      exact hp
  | answered i a outcome no =>
    refine .silent ?_ (fun _ => rfl) rfl fun _ hp => hp
    rcases no with rfl | rfl <;> rfl
  | begun i a free closed advance =>
    have hopening := advance.opening (hs.begun free closed)
    -- The number of the new run is above those of all loads.
    have hn : ∀ l ∈ m.loads, m.newRun.id ≠ l.run := by
      intro l hl
      exact Nat.ne_of_gt (hs.loads_known l hl).1
    have hasked : ∀ place,
        ((askedFetches i).filterMap Effect.fetch?).count (.places place) = 0 := by
      intro place
      rw [fetches_asked]
      split <;> rfl
    exact hopening.opens (m := m) advance.fetches rfl hn (fun hp => absurd hp closed)
      (askedFetches i) (opened_asked i) hasked _
  | missed => exact .silent rfl (fun _ => rfl) rfl fun _ hp => hp
  | polled i a run member found advance =>
    have hopening := advance.opening (hs.resumed found)
    have hn : ∀ l ∈ m.loads, run.id ≠ l.run := by
      intro l hl
      exact (hs.loads_known l hl).2 run member
    exact hopening.opens (m := m) advance.fetches rfl hn (fun hp => hp) [] rfl
      (fun _ => rfl) _
  | load run place reply load =>
    obtain ⟨hopened, hphase⟩ := load.opened
    -- A poll of a load brings no key that was not there.
    refine .none hopened ?_ (load.asks hs) ?_
    · apply Load.newKeys_of_old
      intro l hl
      obtain ⟨l', hl', hkey, -⟩ := load.tasks.loads l hl
      exact ⟨l', hl', hkey⟩
    · intro _ hp
      rw [hphase]
      exact hp
  | reset =>
    refine .silent rfl (fun _ => rfl) rfl ?_
    intro he
    exact absurd rfl he

theorem fetches_places {m : Machine σ} {e : Event} (he : ∀ i a, e ≠ .start i a) :
    ∀ x ∈ (m.step e).2.filterMap Effect.fetch?, ∃ place, x = .places place := by
  have hc := m.step_cases e
  generalize m.step e = r at hc
  cases hc with
  | quiet _ _ waking => simp [fetches_of_waking waking]
  | answered i a => exact absurd rfl (he i a)
  | begun i a => exact absurd rfl (he i a)
  | missed | reset => simp
  | polled _ _ _ _ _ advance => simp [advance.fetches]
  | load run place reply load =>
    intro x hx
    exact ⟨place, load.fetches x hx⟩

end Machine
end MiningClient.Session
