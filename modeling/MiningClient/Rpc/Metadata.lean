import MiningClient.Text.Blank
import MiningClient.Text.Utf8

namespace MiningClient

/-- The characters of a token, upper case letters left out, and the double quote. -/
def isNameChar (c : Char) : Bool :=
  c.isLower || c.isDigit || "!\x22#$%&'*+-.^_\x60|~".toList.contains c

def maxNameLength : Nat := 65535

def isHeaderName (cs : List Char) : Bool :=
  !cs.isEmpty && cs.all isNameChar && cs.length ≤ maxNameLength

/-- A name in lower case. -/
structure HeaderName where
  text : String
  valid : isHeaderName text.toList = true
  deriving DecidableEq

namespace HeaderName

def ofText? (s : String) : Option HeaderName :=
  if h : isHeaderName (Text.lowercase s).toList = true then some ⟨Text.lowercase s, h⟩ else none

end HeaderName

def isValueByte (b : UInt8) : Bool := b == 9 || (0x20 ≤ b && b != 0x7F)

/-- Any bytes but control characters; the tab is allowed. A sensitive value is not to be shown. -/
structure HeaderValue where
  bytes : Bytes
  sensitive : Bool := false
  valid : bytes.all isValueByte = true
  deriving DecidableEq

namespace HeaderValue

def ofBytes? (bs : Bytes) : Option HeaderValue :=
  if h : bs.all isValueByte = true then some ⟨bs, false, h⟩ else none

def ofText? (s : String) : Option HeaderValue := ofBytes? (Utf8.encode s)

def isVisible (b : UInt8) : Bool := b == 9 || (0x20 ≤ b && b ≤ 0x7E)

/-- The value as text, when it has visible ASCII characters and tabs only. -/
def visible? (v : HeaderValue) : Option String :=
  if v.bytes.all isVisible then Utf8.decode? v.bytes else none

def asSensitive (v : HeaderValue) : HeaderValue := { v with sensitive := true }

end HeaderValue

namespace Metadata

structure Entry where
  name : HeaderName
  first : HeaderValue
  more : List HeaderValue := []
  deriving DecidableEq

def Entry.values (e : Entry) : List HeaderValue := e.first :: e.more

def addTo (name : HeaderName) (value : HeaderValue) : List Entry → List Entry
  | [] => [⟨name, value, []⟩]
  | e :: es =>
    if e.name = name then { e with more := e.more ++ [value] } :: es else e :: addTo name value es

def replaceIn (name : HeaderName) (value : HeaderValue) : List Entry → List Entry
  | [] => [⟨name, value, []⟩]
  | e :: es => if e.name = name then ⟨name, value, []⟩ :: es else e :: replaceIn name value es

theorem names_addTo (name : HeaderName) (value : HeaderValue) (es : List Entry) :
    (addTo name value es).map (·.name) =
      if name ∈ es.map (·.name) then es.map (·.name) else es.map (·.name) ++ [name] := by
  induction es with
  | nil => rfl
  | cons e es ih =>
    by_cases h : e.name = name
    · simp [addTo, h]
    · have h' : name ≠ e.name := fun he => h he.symm
      simp only [addTo, if_neg h, List.map_cons, ih, List.mem_cons, h', false_or]
      split <;> rfl

theorem names_replaceIn (name : HeaderName) (value : HeaderValue) (es : List Entry) :
    (replaceIn name value es).map (·.name) =
      if name ∈ es.map (·.name) then es.map (·.name) else es.map (·.name) ++ [name] := by
  induction es with
  | nil => rfl
  | cons e es ih =>
    by_cases h : e.name = name
    · simp [replaceIn, h]
    · have h' : name ≠ e.name := fun he => h he.symm
      simp only [replaceIn, if_neg h, List.map_cons, ih, List.mem_cons, h', false_or]
      split <;> rfl

theorem nodup_of_names {es es' : List Entry} {name : HeaderName}
    (h : es'.map (·.name) =
      if name ∈ es.map (·.name) then es.map (·.name) else es.map (·.name) ++ [name])
    (distinct : (es.map (·.name)).Nodup) : (es'.map (·.name)).Nodup := by
  rw [h]
  split
  · exact distinct
  · next hn =>
    rw [List.nodup_append]
    refine ⟨distinct, by simp, fun a ha b hb he => hn ?_⟩
    rw [List.mem_singleton] at hb
    exact hb ▸ he ▸ ha

end Metadata

/-- Names with their values. A name stands where it was first added, followed by all its values, and
names are compared without regard to case. -/
structure Metadata where
  entries : List Metadata.Entry
  distinct : (entries.map (·.name)).Nodup
  deriving DecidableEq

namespace Metadata

def empty : Metadata := ⟨[], by simp⟩

instance : EmptyCollection Metadata := ⟨empty⟩

def append (m : Metadata) (name : HeaderName) (value : HeaderValue) : Metadata :=
  ⟨addTo name value m.entries, nodup_of_names (names_addTo name value m.entries) m.distinct⟩

def insert (m : Metadata) (name : HeaderName) (value : HeaderValue) : Metadata :=
  ⟨replaceIn name value m.entries, nodup_of_names (names_replaceIn name value m.entries) m.distinct⟩

def ofList (fields : List (HeaderName × HeaderValue)) : Metadata :=
  fields.foldl (fun m f => m.append f.1 f.2) ∅

def toList (m : Metadata) : List (HeaderName × HeaderValue) :=
  m.entries.flatMap fun e => e.values.map (e.name, ·)

def getAll (m : Metadata) (name : String) : List HeaderValue :=
  (m.entries.filter (·.name.text == name)).flatMap (·.values)

def get? (m : Metadata) (name : String) : Option HeaderValue :=
  (m.entries.find? (·.name.text == name)).map (·.first)

end Metadata
end MiningClient
