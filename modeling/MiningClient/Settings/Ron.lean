import MiningClient.Number.Radix
import MiningClient.Settings.Value
import MiningClient.Text.Layout
import MiningClient.Text.Spacing

namespace MiningClient.Settings.Ron

def isSpace (c : Char) : Bool := c == ' ' || c == '\t' || c == '\n' || c == '\r'

def spacing : Text.Spacing := ⟨isSpace, (· == '\n'), true⟩

def skip (cs : List Char) : List Char := spacing.skip cs

def startsName (c : Char) : Bool := c.isAlpha || c == '_'

def isNameChar (c : Char) : Bool := c.isAlphanum || c == '_'

/-- What a raw name may have besides. -/
def isRawNameChar (c : Char) : Bool := isNameChar c || c == '.' || c == '+' || c == '-'

def readName : List Char → Option (String × List Char)
  | ['r'] => none
  | 'r' :: '\x22' :: _ => none
  | 'r' :: '#' :: cs =>
    let (name, rest) := cs.span isRawNameChar
    if name = [] then none else some (String.ofList name, rest)
  | c :: cs =>
    let (name, rest) := (c :: cs).span isNameChar
    if startsName c && !rest.head?.any isRawNameChar then some (String.ofList name, rest) else none
  | [] => none

def afterWord? (word : String) (cs : List Char) : Option (List Char) :=
  if word.toList.isPrefixOf cs then
    let rest := cs.drop word.length
    if rest.head?.any isNameChar then none else some rest
  else none

/-- The number between the braces of a character by its number: up to six digits. -/
def readNumbered (cs : List Char) : Option (Char × List Char) :=
  let (ds, rest) := cs.span (· != '\x7d')
  if ds = [] ∨ 6 < ds.length then none
  else
    match rest with
    | _ :: rest =>
      (Radix.read? 16 ds).bind fun n =>
        if n.isValidChar then some (Char.ofNat n, rest) else none
    | [] => none

def readEscape : List Char → Option (Char × List Char)
  | '\x27' :: cs => some ('\x27', cs)
  | '\x22' :: cs => some ('\x22', cs)
  | '\\' :: cs => some ('\\', cs)
  | 'n' :: cs => some ('\n', cs)
  | 'r' :: cs => some ('\r', cs)
  | 't' :: cs => some ('\t', cs)
  | '0' :: cs => some ('\x00', cs)
  | 'x' :: a :: b :: cs => (Radix.read? 16 [a, b]).map fun n => (Char.ofNat n, cs)
  | 'u' :: '\x7b' :: cs => readNumbered cs
  | _ => none

def readChars : Nat → List Char → Option (List Char × List Char)
  | _, '\x22' :: cs => some ([], cs)
  | most + 1, '\\' :: cs =>
    (readEscape cs).bind fun (c, cs) => (readChars most cs).map fun (text, cs) => (c :: text, cs)
  | most + 1, c :: cs => (readChars most cs).map fun (text, cs) => (c :: text, cs)
  | _, _ => none

/-- What stands before the first place where `ending` stands, and what follows it. -/
def cutAtWord (ending : List Char) : List Char → Option (List Char × List Char)
  | [] => none
  | c :: cs =>
    if ending.isPrefixOf (c :: cs) then some ([], (c :: cs).drop ending.length)
    else (cutAtWord ending cs).map fun (before, rest) => (c :: before, rest)

/-- A text in quotes, with escapes or, behind a mark, without them. -/
def readText : List Char → Option (String × List Char)
  | '\x22' :: cs => (readChars cs.length cs).map fun (text, cs) => (String.ofList text, cs)
  | 'r' :: cs =>
    let (hashes, rest) := cs.span (· == '#')
    match rest with
    | '\x22' :: rest =>
      (cutAtWord ('\x22' :: hashes) rest).map fun (text, rest) => (String.ofList text, rest)
    | _ => none
  | _ => none

def readChar : List Char → Option (String × List Char)
  | '\\' :: cs =>
    (readEscape cs).bind fun (c, cs) =>
      match cs with
      | '\x27' :: cs => some (c.toString, cs)
      | _ => none
  | c :: '\x27' :: cs => if c == '\x27' then none else some (c.toString, cs)
  | _ => none

def splitBase : List Char → Nat × List Char
  | '0' :: 'x' :: cs => (16, cs)
  | '0' :: 'b' :: cs => (2, cs)
  | '0' :: 'o' :: cs => (8, cs)
  | cs => (10, cs)

def isIntegerChar (c : Char) : Bool := Radix.isDigit 16 c || c == '_'

def isFloatChar (c : Char) : Bool :=
  c.isDigit || c == 'e' || c == 'E' || c == '.' || c == '+' || c == '-' || c == '_'

/-- The digits write a number, with underscores behind the first. -/
def digits? (base : Nat) (cs : List Char) : Option Nat :=
  if cs = [] ∨ cs.head? = some '_' then none else Radix.read? base (cs.filter (· != '_'))

/-- A float; underscores have no place in it. -/
def readFloat (cs : List Char) : Option (Raw × List Char) :=
  let (word, rest) := cs.span isFloatChar
  (Binary64.ofWord? word).map fun x => (.float x, rest)

/-- A whole number. One without a sign may have 64 bits, and is a float if it needs them all. -/
def readInteger (cs : List Char) : Option (Raw × List Char) :=
  let isSigned := cs.head?.any fun c => c == '+' || c == '-'
  let (negative, cs) := Decimal.splitSign cs
  let (base, cs) := splitBase cs
  let (word, rest) := cs.span isIntegerChar
  (digits? base word).bind fun n =>
    let signed : Int := if negative then -n else n
    if Decimal.fits64 signed then some (.integer signed, rest)
    else if ¬isSigned ∧ n < UInt64.size then some (.float (.ofRatio n 1), rest)
    else none

/-- A number. One that cannot be a whole number is a float. -/
def readNumber (cs : List Char) : Option (Raw × List Char) :=
  let (_, size) := Decimal.splitSign cs
  if (size.takeWhile isIntegerChar).length < (size.takeWhile isFloatChar).length then readFloat cs
  else (readInteger cs).or (readFloat cs)

def readWord (cs : List Char) : Option (Raw × List Char) :=
  let put (word : String) (raw : Raw) := (afterWord? word cs).map fun rest => (raw, rest)
  (put "true" (.flag true)).or <| (put "false" (.flag false)).or <|
    (put "None" .unusable).or <| (put "inf" (.float .infinity)).or <|
      (put "-inf" (.float Binary64.infinity.negate)).or <| put "NaN" (.float .notANumber)

def readSingle : List Char → Option (Raw × List Char)
  | [] => none
  | c :: cs =>
    if c == '\x22' || c == 'r' then (readText (c :: cs)).map fun (text, cs) => (.text text, cs)
    else if c == '\x27' then (readChar cs).map fun (text, cs) => (.text text, cs)
    else if c == '.' then readFloat (c :: cs)
    else if c.isDigit || c == '+' || c == '-' then readNumber (c :: cs)
    else none

/-- Parentheses hold fields if what stands first in them is a name with a colon. -/
def hasFields (cs : List Char) : Bool :=
  (readName (skip cs)).any fun (_, cs) => (skip cs).head? == some ':'

def tupleLayout : Text.Layout := ⟨')', skip, true⟩

def listLayout : Text.Layout := ⟨']', skip, true⟩

def mapLayout : Text.Layout := ⟨'\x7d', skip, true⟩

/-- A map. Only texts can be its keys. -/
def mapOf (members : List (Value × Value)) : Value :=
  let named := members.filterMap fun (key, value) =>
    match key with
    | .single (.text name) => some (name, value)
    | _ => none
  if named.length = members.length then .ofMembers named else .invalid

def readParens (value : List Char → Option (Value × List Char)) (cs : List Char) :
    Option (Value × List Char) :=
  if hasFields cs then
    (tupleLayout.read (tupleLayout.readMember readName value) cs).map fun (members, cs) =>
      (.ofMembers members, cs)
  else (tupleLayout.read value cs).map fun (items, cs) => (.ofItems items, cs)

def readSome (value : List Char → Option (Value × List Char)) (cs : List Char) :
    Option (Value × List Char) :=
  match skip cs with
  | '(' :: cs =>
    (value (skip cs)).bind fun (v, cs) =>
      let cs := skip cs
      let cs := if cs.head? = some ',' then skip cs.tail else cs
      match cs with
      | ')' :: cs => some (v, cs)
      | _ => none
  | _ => none

def readBrackets (part : List Char → Option (Value × List Char)) :
    List Char → Option (Value × List Char)
  | '(' :: cs => readParens part cs
  | '[' :: cs => (listLayout.read part cs).map fun (items, cs) => (.ofItems items, cs)
  | '\x7b' :: cs =>
    (mapLayout.read (mapLayout.readMember part part) cs).map fun (members, cs) =>
      (mapOf members, cs)
  | _ => none

/-- A value, with `opened` for what stands in brackets, and `content` for what is in an option. A
name that no parentheses follow says nothing. -/
def readBy (opened content : List Char → Option (Value × List Char)) (cs : List Char) :
    Option (Value × List Char) :=
  match readWord cs, afterWord? "Some" cs, afterWord? "()" cs, readName cs with
  | some (raw, cs), _, _, _ => some (.single raw, cs)
  | _, some cs, _, _ => readSome content cs
  | _, _, some cs, _ => some (.nothing, cs)
  | _, _, _, some (_, cs) =>
    match skip cs with
    | '(' :: cs => opened ('(' :: cs)
    | cs => some (.nothing, cs)
  | _, _, _, none =>
    if cs.head?.any fun c => c == '(' || c == '[' || c == '\x7b' then opened cs
    else (readSingle cs).map fun (raw, cs) => (.single raw, cs)

/-- A value into whose parts so many steps lead: one into brackets, one into each part, and one into
an option. -/
def readValue : Nat → List Char → Option (Value × List Char)
  | 0, cs => readBy (fun _ => none) (fun _ => none) cs
  | 1, cs => readBy (readBrackets fun _ => none) (readValue 0) cs
  | steps + 2, cs => readBy (readBrackets (readValue steps)) (readValue (steps + 1)) cs

def maxSteps : Nat := 128

/-- The features of the format that a text can ask for. They are of no matter to these values. -/
def features : List String := ["unwrap_newtypes", "implicit_some", "unwrap_variant_newtypes"]

def featureLayout : Text.Layout := ⟨')', skip, true⟩

/-- The name of a feature. -/
def readFeature (cs : List Char) : Option (String × List Char) :=
  (readName cs).filter fun (name, _) => features.contains name

/-- What follows the words, with blanks between them. -/
def afterWords? : List String → List Char → Option (List Char)
  | [], cs => some cs
  | word :: words, cs =>
    if word.toList.isPrefixOf cs then afterWords? words (skip (cs.drop word.length)) else none

/-- Skips at most so many lines that ask for features. -/
def skipFeatures : Nat → List Char → Option (List Char)
  | most + 1, '#' :: cs => do
    let cs ← afterWords? ["#", "!", "[", "enable", "("] ('#' :: cs)
    let (first, cs) ← featureLayout.read readFeature cs
    if first = [] then none
    let cs ← afterWords? ["]"] (skip cs)
    skipFeatures most cs
  | _, cs => some cs

/-- The value that a text writes. -/
def read? (text : String) : Option Value := do
  let cs ← skipFeatures text.length (skip text.toList)
  let (value, cs) ← readValue maxSteps cs
  if skip cs = [] then some value else none

end MiningClient.Settings.Ron
