import MiningClient.Number.Radix
import MiningClient.Yaml.Cursor

namespace MiningClient.Yaml

structure Tag where
  handle : String
  suffix : String
  deriving DecidableEq, Repr

def isTagChar (c : Char) : Bool :=
  isNameChar c || ";/?:@&=+$,.!~*\x27()[]".contains c

def sequenceLength? (byte : Nat) : Option Nat :=
  if byte < 0x80 then some 1
  else if byte / 0x20 = 0x6 then some 2
  else if byte / 0x10 = 0xE then some 3
  else if byte / 0x8 = 0x1E then some 4
  else none

def readByte : List Char → Option (Nat × List Char)
  | '%' :: a :: b :: cs => (Radix.read? 16 [a, b]).map fun n => (n, cs)
  | _ => none

def readBytes (code : Nat) : Nat → List Char → Option (Nat × List Char)
  | 0, cs => some (code, cs)
  | more + 1, cs =>
    (readByte cs).bind fun (byte, cs) =>
      if byte / 0x40 = 2 then readBytes (code * 0x100 + byte) more cs else none

/-- A character by its bytes. Its number is that of the bytes as they are. -/
def readTagEscape (cs : List Char) : Option (Char × List Char) :=
  (readByte cs).bind fun (byte, cs) =>
    (sequenceLength? byte).bind fun length =>
      (readBytes byte (length - 1) cs).bind fun (code, cs) =>
        if code.isValidChar then some (Char.ofNat code, cs) else none

def readTagChars : Nat → List Char → Option (List Char × List Char)
  | most + 1, '%' :: cs =>
    (readTagEscape ('%' :: cs)).bind fun (c, cs) =>
      (readTagChars most cs).map fun (text, cs) => (c :: text, cs)
  | most + 1, c :: cs =>
    if isTagChar c then (readTagChars most cs).map fun (text, cs) => (c :: text, cs)
    else some ([], c :: cs)
  | _, cs => some ([], cs)

/-- The suffix of a tag from `c` on. It may be empty only behind a `head`, of which all but the mark
belongs to it. -/
def readSuffix (head : List Char) (most : Nat) (c : Cursor) : Option (String × Cursor) :=
  (readTagChars most c.rest).bind fun (text, rest) =>
    if head = [] ∧ text = [] then none
    else
      some (String.ofList (head.tail ++ text), c.skip (c.rest.length - rest.length))

/-- The handle of a tag: a mark, and possibly a name and a second mark. -/
def readHandle (c : Cursor) : Option (List Char × Cursor) :=
  if c.char? ≠ some '!' then none
  else
    let (name, c) := c.next.span isNameChar
    if c.char? = some '!' then some ('!' :: name ++ ['!'], c.next) else some ('!' :: name, c)

/-- A tag in full length between angle brackets, behind the opening one. -/
def readFullTag (most : Nat) (c : Cursor) : Option (Tag × Cursor) :=
  (readSuffix [] most c).bind fun (suffix, c) =>
    if c.char? = some '>' then some (⟨"", suffix⟩, c.next) else none

/-- A tag with a handle, which may be the mark alone. -/
def readShortTag (most : Nat) (c : Cursor) : Option (Tag × Cursor) :=
  (readHandle c).bind fun (handle, c) =>
    if 2 ≤ handle.length ∧ handle.getLast? = some '!' then
      (readSuffix [] most c).map fun (suffix, c) => (⟨String.ofList handle, suffix⟩, c)
    else
      (readSuffix handle most c).map fun (suffix, c) =>
        (if suffix = "" then ⟨"", "!"⟩ else ⟨"!", suffix⟩, c)

def readTag (most : Nat) (c : Cursor) : Option (Tag × Cursor) :=
  (if c.second? = some '<' then readFullTag most c.next.next else readShortTag most c).filter
    fun (_, c) => !isSolid c.char?

def readVersionNumber (c : Cursor) : Option Cursor :=
  let (ds, c) := c.span Char.isDigit
  if ds = [] ∨ 9 < ds.length then none else some c

def readVersion (c : Cursor) : Option Cursor :=
  (readVersionNumber (c.skipWhile isBlank)).bind fun c =>
    if c.char? = some '.' then readVersionNumber c.next else none

def readTagLine (most : Nat) (c : Cursor) : Option Cursor :=
  (readHandle (c.skipWhile isBlank)).bind fun (handle, c) =>
    if handle ≠ ['!'] ∧ ¬(2 ≤ handle.length ∧ handle.getLast? = some '!') then none
    else
      (readSuffix [] most (c.skipWhile isBlank)).bind fun (_, c) =>
        if isSolid c.char? then none else some c

/-- A line behind a percent sign, with the name of what it speaks of. -/
def readDirective (most : Nat) (c : Cursor) : Option Cursor :=
  let (name, c) := c.span isNameChar
  if name = [] ∨ isSolid c.char? then none
  else
    let spoken :=
      match String.ofList name with
      | "YAML" => readVersion c
      | "TAG" => readTagLine most c
      | _ => some (c.skipWhile fun _ => true)
    spoken.bind fun c =>
      let c := (c.skipWhile isBlank).skipComment
      if c.atLineEnd then some c.nextLine else none

end MiningClient.Yaml
