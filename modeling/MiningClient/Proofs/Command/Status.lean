import Mathlib.Control.Monad.Basic
import MiningClient.Command.Run
import MiningClient.Proofs.App.Awaiting
import MiningClient.Proofs.Text.JsonReading

namespace MiningClient
open Session

/-- The account that the response has, or the error that stands for none. -/
def GetAccountResponse.account? (r : GetAccountResponse) : Except Error UserAccountInfo :=
  r.userAccountInfo.elim (.error (.protocol .accountMissing)) .ok

/-- The answers to the calls of a startup, each with the time that it takes, unless it never comes. -/
structure Answers where
  catalog : Option (Nat × Except Error GetItemDescriptorsResponse)
  account : Option (Nat × Except Error GetAccountResponse)
  mine : Option (Nat × Except Error GetMineLocationsResponse)
  gamble : Option (Nat × Except Error GetGambleLocationsResponse)
  deriving DecidableEq

namespace Answers

/-- One of the answers without which nothing is shown is an error, or has no account. -/
inductive Fails (a : Answers) : Error → Prop
  | catalog {delay : Nat} {e : Error} (answer : a.catalog = some (delay, .error e)) : Fails a e
  | account {delay : Nat} {e : Error} (answer : a.account = some (delay, .error e)) : Fails a e
  | missing {delay : Nat} {r : GetAccountResponse} (answer : a.account = some (delay, .ok r))
      (none : r.userAccountInfo = none) : Fails a (.protocol .accountMissing)

/-- The answers without which nothing is shown come, with a catalog and an account. -/
structure Opens (a : Answers) (catalog : List ItemDescriptor) (account : UserAccountInfo) : Prop where
  catalog : ∃ delay r, a.catalog = some (delay, .ok r) ∧ r.itemDescriptors = catalog
  account : ∃ delay r, a.account = some (delay, .ok r) ∧ r.userAccountInfo = some account

def load (a : Answers) : Place → Option (Nat × Except Error (List Location))
  | .mine => a.mine.map fun (delay, r) => (delay, r.map fun r => Location.ofMine r.mineLocations)
  | .gamble => a.gamble.map fun (delay, r) => (delay, r.map fun r => Location.ofGamble r.gambleLocations)

def ending (a : Answers) (patience : Nat) (place : Place) : Option (Except Error (List Location)) :=
  ((a.load place).filter fun answer => answer.1 < patience).map Prod.snd

def listed (a : Answers) (patience : Nat) (place : Place) : List Location :=
  match a.ending patience place with
  | some (.ok places) => places
  | _ => []

def waited (a : Answers) (patience : Nat) : List Notice :=
  match a.ending patience .mine, a.ending patience .gamble with
  | some (.ok _), some (.ok _) => []
  | some _, some _ => [.locationsIncomplete]
  | _, _ => [.locationsLate]

/-- Both loads end before the time is over. -/
def BothEnd (a : Answers) (patience : Nat) : Prop := ∀ place, (a.ending patience place).isSome

def supply (a : Answers) : Supply where
  items := a.catalog.map fun answer => answer.2.map (·.itemDescriptors)
  account := a.account.map fun answer => answer.2.bind (·.account?)
  places
    | .mine => a.mine.map fun answer => answer.2.map fun r =>
      (Location.ofMine r.mineLocations, Location.skippedMine r.mineLocations)
    | .gamble => a.gamble.map fun answer => answer.2.map fun r =>
      (Location.ofGamble r.gambleLocations, Location.skippedGamble r.gambleLocations)

variable {a : Answers} {patience : Nat} {place : Place}

theorem fails_iff {e : Error} :
    a.Fails e ↔ a.supply.items = some (.error e) ∨ a.supply.account = some (.error e) := by
  constructor
  · rintro (⟨answer⟩ | ⟨answer⟩ | ⟨answer, none⟩)
    · exact .inl (by rw [supply, answer]; rfl)
    · exact .inr (by rw [supply, answer]; rfl)
    · refine .inr ?_
      rw [supply, answer]
      show some (GetAccountResponse.account? _) = _
      rw [GetAccountResponse.account?, none]
      rfl
  · rintro (failed | failed)
    · obtain ⟨⟨delay, _ | r⟩, answer, failed⟩ := Option.map_eq_some_iff.1 failed
      · cases failed
        exact .catalog answer
      · cases failed
    · obtain ⟨⟨delay, _ | ⟨⟨_ | account⟩⟩⟩, answer, failed⟩ := Option.map_eq_some_iff.1 failed
      · cases failed
        exact .account answer
      · cases failed
        exact .missing answer rfl
      · cases failed

theorem Opens.supplies {catalog : List ItemDescriptor} {account : UserAccountInfo}
    (h : a.Opens catalog account) :
    a.supply.items = some (.ok catalog) ∧ a.supply.account = some (.ok account) := by
  obtain ⟨⟨_, r, catalog, rfl⟩, ⟨_, r', answer, there⟩⟩ := h
  refine ⟨by rw [supply, catalog]; rfl, ?_⟩
  rw [supply, answer]
  show some (GetAccountResponse.account? _) = _
  rw [GetAccountResponse.account?, there]
  rfl

theorem supply_ending : a.supply.ending place = (a.load place).map Prod.snd := by
  cases place with
  | mine => rcases a with ⟨_, _, _ | ⟨_, _ | _⟩, _⟩ <;> rfl
  | gamble => rcases a with ⟨_, _, _, _ | ⟨_, _ | _⟩⟩ <;> rfl

/-- A load that ends in time ends as it would at any time. -/
theorem supply_ending_of_ending {r : Except Error (List Location)}
    (ends : a.ending patience place = some r) : a.supply.ending place = some r := by
  obtain ⟨answer, answered, rfl⟩ := Option.map_eq_some_iff.1 ends
  rw [supply_ending, (Option.filter_eq_some_iff.1 answered).1]
  rfl

theorem isSome_ending_iff : (a.ending patience place).isSome ↔
    ∃ delay, (a.load place).map Prod.fst = some delay ∧ delay < patience := by
  unfold ending
  cases a.load place <;> simp [Option.filter_some]

end Answers

/-- A notice that the status logs about its waiting. -/
def Notice.isOfStatus : Notice → Bool
  | locationsIncomplete | locationsLate => true
  | _ => false

namespace App
variable {σ : Type}

def askedFirst (w : App σ) : App σ := (w.asked .items).asked .account

def answers (w : App σ) : Answers where
  catalog := w.client.getItemDescriptors.answer? w.network w.requests
  account := w.client.getAccount.answer? w.network (w.asked .items).requests
  mine := w.client.getMineLocations.answer? w.network w.askedFirst.requests
  gamble := w.client.getGambleLocations.answer? w.network (w.askedFirst.asked (.places .mine)).requests

section Brings
variable {w w' : App σ}

theorem answer?_items :
    w.answer? .items = w.answers.catalog.map fun answer =>
      (answer.1, answer.2.map fun r => ({ items := r.itemDescriptors }, [])) :=
  Call.answer?_map (fun _ => rfl) _ _ _

theorem answer?_account :
    (w.asked .items).answer? .account = w.answers.account.map fun answer =>
      (answer.1, answer.2.bind fun r => r.account?.map fun account => ({ account }, [])) := by
  have fetched : fetch w.client .account = w.client.getAccount.map fun r =>
      r.bind fun r => r.account?.map fun account => ({ account }, []) := by
    rw [fetch]
    refine congrArg w.client.getAccount.map (funext fun r => ?_)
    rcases r with _ | ⟨⟨_ | _⟩⟩ <;> rfl
  have asks : (w.asked .items).answer? .account =
      (fetch w.client .account).answer? w.network (w.asked .items).requests := rfl
  rw [asks, fetched]
  exact Call.answer?_map (fun _ => rfl) _ _ _

theorem answer?_mine :
    w.askedFirst.answer? (.places .mine) = w.answers.mine.map fun answer =>
      (answer.1, answer.2.map fun r =>
        ({ places := Location.ofMine r.mineLocations }, Location.skippedMine r.mineLocations)) :=
  Call.answer?_map (fun _ => rfl) _ _ _

theorem answer?_gamble :
    (w.askedFirst.asked (.places .mine)).answer? (.places .gamble) = w.answers.gamble.map fun answer =>
      (answer.1, answer.2.map fun r =>
        ({ places := Location.ofGamble r.gambleLocations }, Location.skippedGamble r.gambleLocations)) :=
  Call.answer?_map (fun _ => rfl) _ _ _

theorem brings_items : w.Brings w.answers.supply .items := by
  rw [Brings, answer?_items]
  generalize w.answers = a
  rcases a with ⟨_ | ⟨_, _ | _⟩, _, _, _⟩ <;> rfl

theorem brings_account : (w.asked .items).Brings w.answers.supply .account := by
  rw [Brings, answer?_account]
  generalize w.answers = a
  rcases a with ⟨_, _ | ⟨_, _ | ⟨⟨_ | _⟩⟩⟩, _, _⟩ <;> rfl

theorem brings_mine : w.askedFirst.Brings w.answers.supply (.places .mine) := by
  rw [Brings, answer?_mine]
  generalize w.answers = a
  rcases a with ⟨_, _, _ | ⟨_, _ | _⟩, _⟩ <;> rfl

theorem brings_gamble :
    (w.askedFirst.asked (.places .mine)).Brings w.answers.supply (.places .gamble) := by
  rw [Brings, answer?_gamble]
  generalize w.answers = a
  rcases a with ⟨_, _, _, _ | ⟨_, _ | _⟩⟩ <;> rfl

theorem loadFirstScreen_fails (idle : w.Idle) {e : Error} (fails : w.answers.Fails e) :
    ∃ e' w', w.answers.Fails e' ∧ w.loadFirstScreen = some (.error e', w') := by
  -- A request for the catalog that cannot be made fails at once, before any load is under way.
  by_cases prompt : ∃ e', w.answer? .items = some (0, .error e')
  · obtain ⟨e', refused⟩ := prompt
    obtain ⟨w', returned⟩ := loadFirstScreen_refused idle refused
    refine ⟨e', w', ?_, returned⟩
    rw [answer?_items] at refused
    obtain ⟨⟨delay, _ | r⟩, answer, refused⟩ := Option.map_eq_some_iff.1 refused
    · cases refused
      exact .catalog answer
    · cases refused
  · have failed := Answers.fails_iff.1 fails
    obtain ⟨result, w', returned, ended⟩ := loadFirstScreen_ends idle (.inr ⟨e, failed⟩) brings_items
      (fun e' refused => prompt ⟨e', refused⟩) brings_account
    cases ended with
    | failed w due fetching e' error => exact ⟨e', _, Answers.fails_iff.2 error, returned⟩
    | opened _ _ _ _ _ _ items account =>
      obtain failed | failed := failed
      · cases items.symm.trans failed
      · cases account.symm.trans failed

end Brings

section Opened
variable {w w₂ : App σ} {due : Arrivals} (fetching : Fetching w.answers.supply w w₂ due)
  (catalog : List ItemDescriptor) (account : UserAccountInfo)
include fetching

/-- The loads ask as they would right after the first screen. -/
theorem Fetching.answers_opened :
    let w₁ := w₂.opened w catalog account
    w₁.answer? (.places .mine) = w.askedFirst.answer? (.places .mine) ∧
      (w₁.asked (.places .mine)).answer? (.places .gamble) =
        (w.askedFirst.asked (.places .mine)).answer? (.places .gamble) := by
  intro w₁
  have client : w₁.client = w.askedFirst.client := by
    show App.client w₁ = App.client w
    unfold App.client
    rw [show w₁.timeout = w.timeout from fetching.timeout]
    rfl
  have network : w₁.network = w.network := fetching.network
  have requests : w₁.requests = w.askedFirst.requests := fetching.requests
  exact ⟨answer?_congr client network requests _,
    answer?_asked_congr client network requests _ _⟩

theorem Fetching.schedule_opened (place : Place) :
    let w₁ := w₂.opened w catalog account
    w₁.schedule place = (w.answers.load place).map fun answer => w₁.now + answer.1 := by
  intro w₁
  obtain ⟨mine, gamble⟩ := fetching.answers_opened catalog account
  cases place with
  | mine =>
    rw [schedule, mine, answer?_mine, Option.map_map, Answers.load, Option.map_map]
    rfl
  | gamble =>
    rw [schedule, gamble, answer?_gamble, Option.map_map, Answers.load, Option.map_map]
    rfl

/-- An answer comes before the deadline if it comes within the time. -/
theorem Fetching.inTime_opened (place : Place) :
    let w₁ := w₂.opened w catalog account
    InTime w₁.schedule (w₁.now + w.patience) place ↔ (w.answers.ending w.patience place).isSome := by
  intro w₁
  unfold InTime
  rw [fetching.schedule_opened catalog account, Answers.isSome_ending_iff]
  cases w.answers.load place with
  | none => simp
  | some answer => simp [w₁]

end Opened

section Over
variable {a : Answers} {patience deadline : Nat} {w₀ w : App σ} {catalog : List ItemDescriptor}
  {account : UserAccountInfo} {schedule : Schedule} {loads : Option Loads} {stage : Place → Stage}

/-- When the waiting is over, a kind of places is shown if its load has ended well. -/
theorem Awaited.listed (h : Awaited a.supply w₀ catalog account schedule deadline loads stage w)
    (inTime : ∀ place, InTime schedule deadline place ↔ (a.ending patience place).isSome)
    (place : Place) : (w.machine.core.state.value.places place).getD [] = a.listed patience place := by
  rw [h.showing.places, Answers.listed]
  cases ends : a.ending patience place with
  | none =>
    -- A load that is late is still going, and while it goes nothing is shown for it.
    have late : stage place ≠ .settled := by
      rw [Ne, h.settled, inTime, ends]
      exact nofun
    have going : (stage place).isGoing = true := by
      revert late
      cases stage place <;> simp
    rw [if_pos going]
    rfl
  | some r =>
    have settled : stage place = .settled := (h.settled place).2 ((inTime place).2 (by rw [ends]; rfl))
    rw [settled, if_neg (by decide), Supply.shown, Answers.supply_ending_of_ending ends]
    cases r <;> rfl

/-- The waiting is told of as the two loads have ended. -/
theorem Awaited.notices (h : Awaited a.supply w₀ catalog account schedule deadline loads stage w)
    (inTime : ∀ place, InTime schedule deadline place ↔ (a.ending patience place).isSome) :
    (Command.loadsNotice? loads).toList = a.waited patience := by
  have late : ∀ place, a.ending patience place = none → loads = none := by
    intro place never
    refine (h.late ⟨place, fun there => ?_⟩).1
    rw [inTime, never] at there
    cases there
  unfold Answers.waited
  cases mine : a.ending patience .mine with
  | none =>
    rw [late .mine mine]
    rfl
  | some m =>
    cases gamble : a.ending patience .gamble with
    | none =>
      rw [late .gamble gamble]
      cases m <;> rfl
    | some g =>
      have both : ∀ place, InTime schedule deadline place := by
        intro place
        rw [inTime]
        cases place with
        | mine => rw [mine]; rfl
        | gamble => rw [gamble]; rfl
      have status : ∀ {place r}, a.ending patience place = some r →
          w.machine.core.loads.value.status place = .ofReply r := by
        intro place r ends
        rw [h.showing.status, (h.settled place).2 (both place), if_neg (by decide), Supply.status,
          Answers.supply_ending_of_ending ends]
        rfl
      have ended : w.machine.core.loads.value = ⟨.ofReply m, .ofReply g⟩ :=
        Loads.eq_of_status fun place => by
          cases place with
          | mine => exact status mine
          | gamble => exact status gamble
      rw [(h.both both).1, ended]
      cases m <;> cases g <;> rfl

end Over
end App

namespace Command
variable {σ : Type} {w : App σ}

/-- What there is to show, of which the places are those that come in time. -/
def StatusView.ofAnswers (a : Answers) (patience : Nat) (catalog : List ItemDescriptor)
    (account : UserAccountInfo) : StatusView where
  username := account.username
  itemTypes := catalog.length
  mine := a.listed patience .mine
  gamble := a.listed patience .gamble

theorem ofState_awaited {a : Answers} {patience deadline : Nat} {w₀ : App σ}
    {catalog : List ItemDescriptor} {account : UserAccountInfo} {schedule : App.Schedule}
    {loads : Option Loads} {stage : Place → App.Stage}
    (h : App.Awaited a.supply w₀ catalog account schedule deadline loads stage w)
    (inTime : ∀ place, App.InTime schedule deadline place ↔ (a.ending patience place).isSome) :
    StatusView.ofState w.machine.core.state.value = .ofAnswers a patience catalog account := by
  have username : (w.machine.core.state.value.account.map (·.username)).getD "" = account.username := by
    rw [GameState.account, h.showing.screen]
    rfl
  have itemTypes : (w.machine.core.state.value.items.map (·.length)).getD 0 = catalog.length := by
    rw [GameState.items, h.showing.screen]
    rfl
  have mine := h.listed inTime .mine
  have gamble := h.listed inTime .gamble
  rw [StatusView.ofState, StatusView.ofAnswers, username, itemTypes, ← mine, ← gamble]
  rfl

theorem isOfStatus_of_warnings {a : Answers} {place : Place} :
    ∀ notice ∈ a.supply.warnings place, notice.isOfStatus = false := by
  intro notice mem
  obtain skipped | reported := List.mem_append.1 mem
  · cases place with
    | mine =>
      rcases a with ⟨_, _, _ | ⟨_, _ | r⟩, _⟩
      · cases skipped
      · cases skipped
      · obtain ⟨_, -, rfl⟩ := List.mem_map.1 skipped
        rfl
    | gamble =>
      rcases a with ⟨_, _, _, _ | ⟨_, _ | r⟩⟩
      · cases skipped
      · cases skipped
      · obtain ⟨_, -, rfl⟩ := List.mem_map.1 skipped
        rfl
  · split at reported
    · cases List.mem_singleton.1 reported
      rfl
    · cases reported

theorem isOfStatus_of_warned {a : Answers} {stage : Place → App.Stage} :
    ∀ notice ∈ App.warned a.supply stage, notice.isOfStatus = false := by
  intro notice mem
  have settled : ∀ place, notice ∈ (if (stage place).isGoing then [] else a.supply.warnings place) →
      notice.isOfStatus = false := by
    intro place mem
    split at mem
    · cases mem
    · exact isOfStatus_of_warnings notice mem
  exact (List.mem_append.1 mem).elim (settled .mine) (settled .gamble)

namespace StatusView

/-- The document that stands for the view: a JSON text that is read as it shows the view. -/
def document (v : StatusView) : Text.Json :=
  let places (locations : List Location) : Text.Json := .list (locations.map fun location =>
    .object [("name", .text location.descriptor.name), ("available", .flag location.isAvailable)])
  .object [("username", .text v.username), ("item_types", .number v.itemTypes),
    ("mine_locations", places v.mine), ("gamble_locations", places v.gamble)]

def ShowsJson (v : StatusView) (text : String) : Prop := Text.Json.read? text = some v.document

/-- The name fills a column of 24 characters, and a longer one stands there whole. -/
def ShowsPlace (location : Location) (line : String) : Prop :=
  ∃ fill : Nat, location.descriptor.name.length + fill = max 24 location.descriptor.name.length ∧
    line.toList = ' ' :: ' ' :: location.descriptor.name.toList ++ List.replicate fill ' ' ++
      (if location.isAvailable then " open" else " locked").toList

def ShowsLines (v : StatusView) (lines : List String) : Prop :=
  ∃ mines gambling, List.Forall₂ ShowsPlace v.mine mines ∧ List.Forall₂ ShowsPlace v.gamble gambling ∧
    lines = ("Player: " ++ v.username) :: ("Known item types: " ++ toString v.itemTypes) ::
      "Mines:" :: mines ++ "Gambling:" :: gambling

theorem showsJson (v : StatusView) : v.ShowsJson v.json.pretty := by
  rw [ShowsJson, Text.Json.read?_pretty]
  rfl

theorem showsPlace (location : Location) : ShowsPlace location (locationLine location) := by
  refine ⟨24 - location.descriptor.name.length, by omega, ?_⟩
  rw [locationLine, Text.padRight, Text.spaces, String.length_toList]
  cases location.isAvailable <;> simp

theorem showsLines (v : StatusView) : v.ShowsLines v.lines := by
  have each (locations : List Location) : List.Forall₂ ShowsPlace locations (locations.map locationLine) := by
    rw [List.forall₂_map_right_iff, List.forall₂_same]
    exact fun location _ => showsPlace location
  refine ⟨_, _, each v.mine, each v.gamble, ?_⟩
  rw [lines, Decimal.text_eq]
  rfl

end StatusView

variable [Slot σ]

/-- The status comes out with the view in either form, after waiting from `w₁` until both loads have ended
or the time is over. It logs what there is to log about that, and nothing else does. -/
structure Reports (w w₁ w' : App σ) (view : StatusView) : Prop where
  printed : ∀ json, runStatus json w =
    some ({ acts := (if json then [view.json.pretty] else view.lines).map .line }, w')
  json : view.ShowsJson view.json.pretty
  lines : view.ShowsLines view.lines
  early : w.answers.BothEnd w.patience → w'.now < w₁.now + w.patience
  late : ¬w.answers.BothEnd w.patience → w'.now = w₁.now + w.patience
  log : ∃ others, w'.log = w.log ++ others ++ w.answers.waited w.patience ∧
    ∀ notice ∈ others, notice.isOfStatus = false

theorem runStatus_reports (idle : w.Idle) (numbered : w.machine.Numbered)
    (loggedIn : w.isLoggedIn = true) {catalog : List ItemDescriptor} {account : UserAccountInfo}
    (opens : w.answers.Opens catalog account) :
    ∃ w₁ w', w.loadFirstScreen = some (.ok .initialized, w₁) ∧
      Reports w w₁ w' (.ofAnswers w.answers w.patience catalog account) := by
  obtain ⟨items, there⟩ := opens.supplies
  -- Answers that open have a catalog, so the first request is not refused on the spot.
  have prompt : ∀ e, w.answer? .items ≠ some (0, .error e) := by
    intro e refused
    have brings : w.Brings w.answers.supply .items := App.brings_items
    rw [App.Brings, refused, Supply.fetched, items] at brings
    cases brings
  obtain ⟨result, w₁, returned, ended⟩ := App.loadFirstScreen_ends idle
    (.inl ⟨by rw [items]; rfl, by rw [there]; rfl⟩) App.brings_items prompt App.brings_account
  cases ended with
  | failed _ _ _ _ error =>
    obtain failed | failed := error
    · cases items.symm.trans failed
    · cases there.symm.trans failed
  | opened w₂ due fetching arrived catalog' account' items' there' =>
    cases items.symm.trans items'
    cases there.symm.trans there'
    obtain ⟨mine, gamble⟩ := fetching.answers_opened catalog account
    obtain ⟨loads, w', stage, waited, awaited⟩ := App.waitForLocations_ends idle numbered fetching arrived
      rfl (App.brings_mine.of_same mine) (App.brings_gamble.of_same gamble)
    have patience : (w₂.opened w catalog account).patience = w.patience := fetching.patience
    rw [patience] at awaited
    have inTime := fetching.inTime_opened catalog account
    refine ⟨_, { w' with log := w'.log ++ (loadsNotice? loads).toList }, returned, ?_,
      StatusView.showsJson _, StatusView.showsLines _, ?_, ?_, ?_⟩
    · intro json
      unfold runStatus withFirstScreen
      rw [if_pos loggedIn, returned]
      simp only [andThen, waited, prints, ofState_awaited awaited inTime]
    · intro both
      exact (awaited.both fun place => (inTime place).2 (both place)).2
    · intro late
      obtain ⟨place, never⟩ := not_forall.1 late
      exact (awaited.late ⟨place, fun there => never ((inTime place).1 there)⟩).2
    · obtain ⟨warnings, logged, perm⟩ := awaited.log
      refine ⟨(GameState.repeatedIds catalog).map .repeatedItem ++ warnings, ?_, ?_⟩
      · rw [awaited.notices inTime, logged]
        simp only [List.append_assoc]
      · intro notice mem
        obtain repeated | warning := List.mem_append.1 mem
        · obtain ⟨_, -, rfl⟩ := List.mem_map.1 repeated
          rfl
        · exact isOfStatus_of_warned notice (perm.mem_iff.1 warning)

/-- Without a token the status fails. With one it fails where the catalog or the account does, and it
prints nothing then. Where both come, it succeeds whatever becomes of the two kinds of places: both forms
are of the same view, with the places that have come in time. -/
theorem runStatus_ends (idle : w.Idle) (numbered : w.machine.Numbered) :
    (w.isLoggedIn = false → ∀ json,
      runStatus json w = some ({ acts := [], result := .error .notLoggedIn }, w)) ∧
    (w.isLoggedIn = true →
      (∀ e, w.answers.Fails e → ∃ e' w', w.answers.Fails e' ∧ ∀ json,
        runStatus json w = some ({ acts := [], result := .error (.error e') }, w')) ∧
      ∀ catalog account, w.answers.Opens catalog account →
        ∃ w₁ w', w.loadFirstScreen = some (.ok .initialized, w₁) ∧
          Reports w w₁ w' (.ofAnswers w.answers w.patience catalog account)) := by
  refine ⟨fun loggedOut json => ?_, fun loggedIn => ⟨fun e failing => ?_, fun _ _ opens => ?_⟩⟩
  · unfold runStatus withFirstScreen
    rw [loggedOut]
    rfl
  · obtain ⟨e', w', fails', returned⟩ := App.loadFirstScreen_fails idle failing
    refine ⟨e', w', fails', fun json => ?_⟩
    unfold runStatus withFirstScreen
    rw [if_pos loggedIn, returned]
    rfl
  · exact runStatus_reports idle numbered loggedIn opens

/-- The mines come after three, one of them without a descriptor; the gambling places fail after four. -/
def reefNetwork (account : GetAccountResponse) : Network := fun requests =>
  match requests.getLast?.map (·.path) with
  | some "/mine.MinePrivateService/GetItemDescriptors" =>
    ⟨some 2, .ok { body := [.ok (Frame.ofMessage
      ({ itemDescriptors := [{ id := 7, name := "pick" }] } : GetItemDescriptorsResponse))] }⟩
  | some "/mine.MinePrivateService/GetAccount" =>
    ⟨some 1, .ok { body := [.ok (Frame.ofMessage account)] }⟩
  | some "/mine.MinePrivateService/GetMineLocations" =>
    ⟨some 3, .ok { body := [.ok (Frame.ofMessage
      ({ mineLocations := [{ descriptor := some { name := "Reef" }, isAvailable := true }, {}] } :
        GetMineLocationsResponse))] }⟩
  | _ => ⟨some 4, .error (.network "gone")⟩

def reefClient (account : GetAccountResponse) (token : Option String) (patience : Nat) :
    App MemorySlot where
  machine := .fresh ⟨token, ⟨token⟩⟩
  network := reefNetwork account
  patience

def reefAccount : GetAccountResponse where
  userAccountInfo := some { username := "ada" }

def reefAnswers : Answers where
  catalog := some (2, .ok { itemDescriptors := [{ id := 7, name := "pick" }] })
  account := some (1, .ok reefAccount)
  mine := some (3, .ok { mineLocations :=
    [{ descriptor := some { name := "Reef" }, isAvailable := true }, {}] })
  gamble := some (4, .error (.network "gone"))

/-- With a patience of five both loads end, with one of four the second does not. -/
theorem runStatus_ends_reef :
    let lines := ["Player: ada", "Known item types: 1", "Mines:", "  Reef                     open",
      "Gambling:"]
    let document := "\x7b\n  \"username\": \"ada\",\n  \"item_types\": 1,\n  \"mine_locations\": [\n    \x7b\n" ++
      "      \"name\": \"Reef\",\n      \"available\": true\n    \x7d\n  ],\n  \"gamble_locations\": []\n\x7d"
    (∃ w log, runStatus false (reefClient reefAccount (some "session") 5) =
        some ({ acts := lines.map .line }, w) ∧
      w.log = log ++ [.locationsIncomplete]) ∧
    (∃ w log, runStatus false (reefClient reefAccount (some "session") 4) =
        some ({ acts := lines.map .line }, w) ∧
      w.log = log ++ [.locationsLate]) ∧
    ((∃ w, runStatus true (reefClient reefAccount (some "session") 5) =
        some ({ acts := [.line document] }, w)) ∧
      Text.Json.read? document = some (.object [("username", .text "ada"), ("item_types", .number 1),
        ("mine_locations", .list [.object [("name", .text "Reef"), ("available", .flag true)]]),
        ("gamble_locations", .list [])])) ∧
    (∃ e w, runStatus true (reefClient {} (some "session") 5) =
      some ({ result := .error (.error e) }, w)) ∧
    ∃ w, runStatus true (reefClient reefAccount none 5) = some ({ result := .error .notLoggedIn }, w) := by
  intro lines document
  have ends : ∀ account token patience, _ := fun account token patience =>
    runStatus_ends (w := reefClient account token patience) (.fresh ..) (.fresh _)
  -- The answers are the same however long they are waited for.
  have answers : ∀ patience, (reefClient reefAccount (some "session") patience).answers = reefAnswers :=
    have same : (reefClient reefAccount (some "session") 0).answers = reefAnswers := by decide +kernel
    fun _ => same
  have opens : ∀ patience, (reefClient reefAccount (some "session") patience).answers.Opens
      [{ id := 7, name := "pick" }] { username := "ada" } := by
    intro patience
    rw [answers]
    exact ⟨⟨_, _, rfl, rfl⟩, ⟨_, _, rfl, rfl⟩⟩
  let view (patience : Nat) : StatusView :=
    .ofAnswers reefAnswers patience [{ id := 7, name := "pick" }] { username := "ada" }
  have reports : ∀ patience, ∃ w₁ w',
      Reports (reefClient reefAccount (some "session") patience) w₁ w' (view patience) := by
    intro patience
    obtain ⟨w₁, w, -, reports⟩ :=
      ((ends reefAccount (some "session") patience).2 rfl).2 _ _ (opens patience)
    rw [answers] at reports
    exact ⟨w₁, w, reports⟩
  have shows : ∀ patience, (view patience).lines = lines → ∃ w log,
      runStatus false (reefClient reefAccount (some "session") patience) =
        some ({ acts := lines.map .line }, w) ∧ w.log = log ++ reefAnswers.waited patience := by
    intro patience same
    obtain ⟨w₁, w, reports⟩ := reports patience
    obtain ⟨log, logged, -⟩ := reports.log
    have printed := reports.printed false
    rw [answers] at logged
    rw [← same]
    exact ⟨w, _, printed, logged⟩
  have json : (view 5).json.pretty = document := by decide +kernel
  obtain ⟨_, whole, reported⟩ := reports 5
  have printed := reported.printed true
  have read := reported.json
  rw [StatusView.ShowsJson, json] at read
  rw [if_pos rfl, json] at printed
  have missing : (reefClient {} (some "session") 5).answers.Fails (.protocol .accountMissing) := by
    have account : (reefClient {} (some "session") 5).answers.account = some (1, .ok {}) := by
      decide +kernel
    exact .missing account rfl
  obtain ⟨e, w, -, fails⟩ := ((ends {} (some "session") 5).2 rfl).1 _ missing
  exact ⟨shows 5 (by decide +kernel), shows 4 (by decide +kernel), ⟨⟨whole, printed⟩, read⟩,
    ⟨e, w, fails true⟩, _, (ends reefAccount none 5).1 rfl true⟩

end Command
end MiningClient
