import MiningClient.Wire.Message

namespace MiningClient
open Wire

structure ItemModifier where
  name : String := ""
  value : Single := .zero
  deriving DecidableEq, Repr

instance : Message ItemModifier where
  name := "ItemModifier"
  empty := {}
  fields := [
    ⟨1, "name", .text, (·.name), fun v m => { m with name := v }⟩,
    ⟨2, "value", .single, (·.value), fun v m => { m with value := v }⟩]

structure Item where
  id : Int32 := 0
  modifiers : List ItemModifier := []
  quality : Single := .zero
  value : Single := .zero
  deriving DecidableEq, Repr

instance : Message Item where
  name := "Item"
  empty := {}
  fields := [
    ⟨1, "id", .signed, (·.id), fun v m => { m with id := v }⟩,
    ⟨2, "modifiers", .repeated, (·.modifiers), fun v m => { m with modifiers := v }⟩,
    ⟨3, "quality", .single, (·.quality), fun v m => { m with quality := v }⟩,
    ⟨4, "value", .single, (·.value), fun v m => { m with value := v }⟩]

inductive SortBy
  | dateAcquired | rarityTier | value
  deriving DecidableEq, Repr

namespace SortBy

def number : SortBy → Int32
  | dateAcquired => 0
  | rarityTier => 1
  | value => 2

def ofNumber? (n : Int32) : Option SortBy :=
  if n = 0 then some .dateAcquired
  else if n = 1 then some .rarityTier
  else if n = 2 then some .value
  else none

/-- An unknown number reads as the first alternative. -/
def ofNumber (n : Int32) : SortBy := (ofNumber? n).getD .dateAcquired

theorem ofNumber?_number (x : SortBy) : ofNumber? x.number = some x := by
  cases x <;> rfl

end SortBy

inductive SortDirection
  | ascending | descending
  deriving DecidableEq, Repr

namespace SortDirection

def number : SortDirection → Int32
  | ascending => 0
  | descending => 1

def ofNumber? (n : Int32) : Option SortDirection :=
  if n = 0 then some .ascending else if n = 1 then some .descending else none

/-- An unknown number reads as the first alternative. -/
def ofNumber (n : Int32) : SortDirection := (ofNumber? n).getD .ascending

theorem ofNumber?_number (x : SortDirection) : ofNumber? x.number = some x := by
  cases x <;> rfl

end SortDirection

structure GetInventoryRequest where
  pageSize : UInt32 := 0
  pageNumber : UInt32 := 0
  sortBy : Int32 := 0
  sortDirection : Int32 := 0
  deriving DecidableEq, Repr

instance : Message GetInventoryRequest where
  name := "GetInventoryRequest"
  empty := {}
  fields := [
    ⟨1, "page_size", .unsigned, (·.pageSize), fun v m => { m with pageSize := v }⟩,
    ⟨2, "page_number", .unsigned, (·.pageNumber), fun v m => { m with pageNumber := v }⟩,
    ⟨3, "sort_by", .signed, (·.sortBy), fun v m => { m with sortBy := v }⟩,
    ⟨4, "sort_direction", .signed, (·.sortDirection), fun v m => { m with sortDirection := v }⟩]

structure GetInventoryResponse where
  items : List Item := []
  totalItems : UInt32 := 0
  deriving DecidableEq, Repr

instance : Message GetInventoryResponse where
  name := "GetInventoryResponse"
  empty := {}
  fields := [
    ⟨1, "items", .repeated, (·.items), fun v m => { m with items := v }⟩,
    ⟨2, "total_items", .unsigned, (·.totalItems), fun v m => { m with totalItems := v }⟩]

end MiningClient
