import Mathlib.Logic.Basic
import MiningClient.Proofs.Session.Steps
import MiningClient.Proofs.State.Following

namespace MiningClient.Session

/-- The first screen is there, and followers know. -/
structure Core.IsOpen (c : Core) : Prop where
  phase : c.phase = .ready
  ready : c.ready.value = true
  items : c.state.value.items.isSome
  index : c.state.value.index.isSome
  account : c.state.value.account.isSome

/-- There is nothing yet. -/
structure Core.IsBlank (c : Core) : Prop where
  phase : c.phase = .uninitialized ∨ c.phase = .initializing ∨ ∃ message, c.phase = .failed message
  ready : c.ready.value = false
  items : c.state.value.items = none
  index : c.state.value.index = none
  account : c.state.value.account = none
  mine : c.state.value.mine = none
  gamble : c.state.value.gamble = none
  mineLoad : c.loads.value.mine = .pending
  gambleLoad : c.loads.value.gamble = .pending

structure Core.Coherent (c : Core) : Prop where
  ready : c.ready.value = true ↔ c.phase = .ready
  loaded : c.state.value.firstScreen.isSome ↔ c.phase = .ready
  blank : c.phase ≠ .ready → c.state.value = {} ∧ c.loads.value = {}
  merged : ∀ place, (c.state.value.places place).isSome ↔ c.loads.value.status place = .loaded

namespace Core.Coherent
variable {c : Core}

theorem isOpen (h : c.Coherent) (hp : c.phase = .ready) : c.IsOpen := by
  obtain ⟨screen, hs⟩ := Option.isSome_iff_exists.mp (h.loaded.mpr hp)
  refine ⟨hp, h.ready.mpr hp, ?_, ?_, ?_⟩
  · simp [GameState.items, hs]
  · simp [GameState.index, hs]
  · simp [GameState.account, hs]

theorem isBlank (h : c.Coherent) (hp : c.phase ≠ .ready) : c.IsBlank := by
  -- At any other phase the state and the loads are those of the beginning.
  obtain ⟨hs, hl⟩ := h.blank hp
  have hphase : c.phase = .uninitialized ∨ c.phase = .initializing ∨
      ∃ message, c.phase = .failed message := by
    cases hc : c.phase with
    | uninitialized => exact .inl rfl
    | initializing => exact .inr (.inl rfl)
    | ready => exact absurd hc hp
    | failed message => exact .inr (.inr ⟨message, rfl⟩)
  have hready : c.ready.value = false := Bool.eq_false_iff.mpr fun hr => hp (h.ready.mp hr)
  exact ⟨hphase, hready, by rw [hs]; rfl, by rw [hs]; rfl, by rw [hs]; rfl, by rw [hs], by rw [hs],
    by rw [hl], by rw [hl]⟩

theorem shape (h : c.Coherent) : Xor c.IsOpen c.IsBlank ∧ (c.IsOpen →
    (c.state.value.mine.isSome ↔ c.loads.value.mine = .loaded) ∧
    (c.state.value.gamble.isSome ↔ c.loads.value.gamble = .loaded)) := by
  refine ⟨?_, fun _ => ⟨h.merged .mine, h.merged .gamble⟩⟩
  -- The phase decides, and the two shapes disagree about readiness.
  by_cases hp : c.phase = .ready
  · refine .inl ⟨h.isOpen hp, fun hb => ?_⟩
    have hr := hb.ready
    rw [(h.isOpen hp).ready] at hr
    cases hr
  · exact .inr ⟨h.isBlank hp, fun ho => hp ho.phase⟩

theorem withPhase (h : c.Coherent) (hp : c.phase ≠ .ready) {p : Phase} (hq : p ≠ .ready) :
    Coherent { c with phase := p } where
  ready := ⟨fun hr => absurd (h.ready.mp hr) hp, fun hr => absurd hr hq⟩
  loaded := ⟨fun hl => absurd (h.loaded.mp hl) hp, fun hr => absurd hr hq⟩
  blank _ := h.blank hp
  merged := h.merged

theorem shown (h : c.Coherent) (items : List ItemDescriptor) (account : UserAccountInfo) :
    (c.shown items account).Coherent where
  ready := ⟨fun _ => rfl, fun _ => rfl⟩
  loaded := ⟨fun _ => rfl, fun _ => rfl⟩
  blank hn := absurd rfl hn
  -- Publishing the first screen touches neither the places nor their loads.
  merged place := by
    have hm := h.merged place
    simpa only [Core.shown, Observable.value_update, GameState.places_withFirstScreen] using hm

theorem settled (h : c.Coherent) (hp : c.phase = .ready) {place : Place}
    (hl : c.loads.value.status place = .pending) (result : PlacesReply) :
    (c.settled place result).Coherent := by
  -- The load was pending, so its places are not there yet.
  have hnone : c.state.value.places place = none := by
    have hm := h.merged place
    rw [hl] at hm
    simpa using hm
  cases result with
  | ok locations =>
    refine ⟨h.ready, ?_, fun hn => absurd hp hn, ?_⟩
    · simpa only [Core.settled, Observable.value_update, GameState.firstScreen_withPlaces] using
        h.loaded
    · intro other
      simp only [Core.settled, Observable.value_update]
      by_cases ho : other = place
      · subst ho
        simp
      · rw [GameState.places_withPlaces_of_ne _ _ ho, Loads.status_mark_of_ne _ _ ho]
        exact h.merged other
  | error e =>
    refine ⟨h.ready, h.loaded, fun hn => absurd hp hn, ?_⟩
    intro other
    simp only [Core.settled, Observable.value_update]
    by_cases ho : other = place
    · subst ho
      simp [hnone]
    · rw [Loads.status_mark_of_ne _ _ ho]
      exact h.merged other

theorem reset (c : Core) : c.reset.Coherent where
  ready := by simp [Core.reset]
  loaded := by simp [Core.reset]
  blank _ := ⟨rfl, rfl⟩
  merged place := by simp [Core.reset]

end Core.Coherent

end MiningClient.Session
