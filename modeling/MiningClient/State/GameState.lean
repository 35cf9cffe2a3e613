import MiningClient.Messages.Account
import MiningClient.Messages.Catalog
import MiningClient.Messages.Locations
import Std.Data.TreeMap

namespace MiningClient

structure Location where
  descriptor : LocationDescriptor
  isAvailable : Bool
  deriving DecidableEq, Repr

inductive Place
  | mine | gamble
  deriving DecidableEq, Repr

def Place.text : Place → String
  | mine => "mine"
  | gamble => "gamble"

namespace Location

/-- The location that a server's entry describes, nothing for an entry without a descriptor. -/
def ofMine? (l : MineLocation) : Option Location := l.descriptor.map (⟨·, l.isAvailable⟩)

def ofGamble? (l : GambleLocation) : Option Location := l.descriptor.map (⟨·, l.isAvailable⟩)

def ofMine (ls : List MineLocation) : List Location := ls.filterMap ofMine?

def ofGamble (ls : List GambleLocation) : List Location := ls.filterMap ofGamble?

end Location

inductive LoadStatus
  | pending | loaded | failed
  deriving DecidableEq, Repr

def LoadStatus.isSettled (s : LoadStatus) : Bool := s != .pending

structure Loads where
  mine : LoadStatus := .pending
  gamble : LoadStatus := .pending
  deriving DecidableEq, Repr

namespace Loads

def isSettled (l : Loads) : Bool := l.mine.isSettled && l.gamble.isSettled

def anyFailed (l : Loads) : Bool := l.mine == .failed || l.gamble == .failed

def mark (l : Loads) (place : Place) (s : LoadStatus) : Loads :=
  match place with
  | .mine => { l with mine := s }
  | .gamble => { l with gamble := s }

def status (l : Loads) : Place → LoadStatus
  | .mine => l.mine
  | .gamble => l.gamble

@[simp] theorem status_mark_self (l : Loads) (place : Place) (s : LoadStatus) :
    (l.mark place s).status place = s := by
  cases place <;> rfl

theorem status_mark_of_ne (l : Loads) {place other : Place} (s : LoadStatus) (h : other ≠ place) :
    (l.mark place s).status other = l.status other := by
  cases place <;> cases other <;> first | rfl | exact absurd rfl h

@[simp] theorem status_blank (place : Place) : ({} : Loads).status place = .pending := by
  cases place <;> rfl

end Loads

abbrev Index := Std.TreeMap UInt32 ItemDescriptor

/-- Enters the items one after another over those already there. The ids that were found taken come
with the index, in the order of the items. -/
def Index.enter (index : Index) : List ItemDescriptor → Index × List UInt32
  | [] => (index, [])
  | item :: items =>
    let (last, repeated) := enter (index.insert item.id item) items
    (last, if index.contains item.id then item.id :: repeated else repeated)

structure FirstScreen where
  items : List ItemDescriptor
  index : Index
  account : UserAccountInfo

structure GameState where
  firstScreen : Option FirstScreen := none
  mine : Option (List Location) := none
  gamble : Option (List Location) := none

namespace GameState

def isLoaded (s : GameState) : Bool := s.firstScreen.isSome

def items (s : GameState) : Option (List ItemDescriptor) := s.firstScreen.map (·.items)

def index (s : GameState) : Option Index := s.firstScreen.map (·.index)

def account (s : GameState) : Option UserAccountInfo := s.firstScreen.map (·.account)

def item? (s : GameState) (id : UInt32) : Option ItemDescriptor := s.index.bind (·[id]?)

def places (s : GameState) : Place → Option (List Location)
  | .mine => s.mine
  | .gamble => s.gamble

def withFirstScreen (s : GameState) (items : List ItemDescriptor) (account : UserAccountInfo) :
    GameState :=
  { s with firstScreen := some ⟨items, (Index.enter ∅ items).1, account⟩ }

/-- The ids that stand for more than one item, one for each item but the first. -/
def repeatedIds (items : List ItemDescriptor) : List UInt32 := (Index.enter ∅ items).2

def withPlaces (s : GameState) (place : Place) (locations : List Location) : GameState :=
  match place with
  | .mine => { s with mine := some locations }
  | .gamble => { s with gamble := some locations }

@[simp] theorem firstScreen_withPlaces (s : GameState) (place : Place) (ls : List Location) :
    (s.withPlaces place ls).firstScreen = s.firstScreen := by
  cases place <;> rfl

@[simp] theorem places_withPlaces_self (s : GameState) (place : Place) (ls : List Location) :
    (s.withPlaces place ls).places place = some ls := by
  cases place <;> rfl

theorem places_withPlaces_of_ne (s : GameState) {place other : Place} (ls : List Location)
    (h : other ≠ place) : (s.withPlaces place ls).places other = s.places other := by
  cases place <;> cases other <;> first | rfl | exact absurd rfl h

@[simp] theorem places_withFirstScreen (s : GameState) (items : List ItemDescriptor)
    (account : UserAccountInfo) (place : Place) :
    (s.withFirstScreen items account).places place = s.places place := by
  cases place <;> rfl

@[simp] theorem places_blank (place : Place) : ({} : GameState).places place = none := by
  cases place <;> rfl

end GameState
end MiningClient
