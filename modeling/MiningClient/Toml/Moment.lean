import MiningClient.Number.Decimal

namespace MiningClient.Toml

structure Date where
  year : Nat
  month : Nat
  day : Nat
  deriving DecidableEq, Repr

structure Time where
  hour : Nat
  minute : Nat
  second : Nat
  nanosecond : Nat := 0
  deriving DecidableEq, Repr

inductive Offset
  | utc
  | minutes (ahead : Int)
  deriving DecidableEq, Repr

inductive Moment
  | date (date : Date)
  | time (time : Time)
  | dateTime (date : Date) (time : Time) (offset : Option Offset)
  deriving DecidableEq, Repr

namespace Date

def isLeap (year : Nat) : Bool := year % 4 == 0 && (year % 100 != 0 || year % 400 == 0)

def daysIn (year month : Nat) : Nat :=
  if month = 2 then (if isLeap year then 29 else 28)
  else if month = 4 ∨ month = 6 ∨ month = 9 ∨ month = 11 then 30
  else 31

def Valid (d : Date) : Prop :=
  1 ≤ d.month ∧ d.month ≤ 12 ∧ 1 ≤ d.day ∧ d.day ≤ daysIn d.year d.month

instance (d : Date) : Decidable d.Valid := by unfold Valid; infer_instance

def text (d : Date) : List Char :=
  Decimal.padded 4 d.year ++ '-' :: Decimal.padded 2 d.month ++ '-' :: Decimal.padded 2 d.day

end Date

namespace Time

/-- A minute may have a leap second. -/
def Valid (t : Time) : Prop := t.hour ≤ 23 ∧ t.minute ≤ 59 ∧ t.second ≤ 60

instance (t : Time) : Decidable t.Valid := by unfold Valid; infer_instance

/-- The digits behind the point, without the zeros at the end. -/
def fraction (t : Time) : List Char :=
  ((Decimal.padded 9 t.nanosecond).reverse.dropWhile (· == '0')).reverse

def text (t : Time) : List Char :=
  Decimal.padded 2 t.hour ++ ':' :: Decimal.padded 2 t.minute ++ ':' :: Decimal.padded 2 t.second ++
    (if t.nanosecond = 0 then [] else '.' :: t.fraction)

end Time

def Offset.text : Offset → List Char
  | utc => ['Z']
  | minutes ahead =>
    (if ahead < 0 then '-' else '+') :: Decimal.padded 2 (ahead.natAbs / 60) ++
      ':' :: Decimal.padded 2 (ahead.natAbs % 60)

def Moment.text : Moment → String
  | date d => String.ofList d.text
  | time t => String.ofList t.text
  | dateTime d t offset => String.ofList (d.text ++ 'T' :: t.text ++ offset.elim [] Offset.text)

def readDigits (n : Nat) (cs : List Char) : Option (Nat × List Char) :=
  if n ≤ cs.length then (Decimal.natural? (cs.take n)).map fun k => (k, cs.drop n) else none

def readChar (c : Char) : List Char → Option (List Char)
  | [] => none
  | x :: cs => if x = c then some cs else none

def Date.read (cs : List Char) : Option (Date × List Char) := do
  let (year, cs) ← readDigits 4 cs
  let cs ← readChar '-' cs
  let (month, cs) ← readDigits 2 cs
  let cs ← readChar '-' cs
  let (day, cs) ← readDigits 2 cs
  let date : Date := ⟨year, month, day⟩
  if date.Valid then some (date, cs) else none

/-- Digits behind a point, at least one; those after the ninth are dropped. -/
def readFraction : List Char → Option (Nat × List Char)
  | '.' :: cs => do
    let ds := cs.takeWhile Char.isDigit
    let kept := ds.take 9
    let n ← Decimal.natural? kept
    some (n * Nat.pow 10 (9 - kept.length), cs.dropWhile Char.isDigit)
  | cs => some (0, cs)

def Time.read (cs : List Char) : Option (Time × List Char) := do
  let (hour, cs) ← readDigits 2 cs
  let cs ← readChar ':' cs
  let (minute, cs) ← readDigits 2 cs
  let cs ← readChar ':' cs
  let (second, cs) ← readDigits 2 cs
  let (nanosecond, cs) ← readFraction cs
  let time : Time := ⟨hour, minute, second, nanosecond⟩
  if time.Valid then some (time, cs) else none

def readAhead (cs : List Char) : Option Nat := do
  let (hours, cs) ← readDigits 2 cs
  let cs ← readChar ':' cs
  let (minutes, cs) ← readDigits 2 cs
  if hours ≤ 23 ∧ minutes ≤ 59 ∧ cs = [] then some (hours * 60 + minutes) else none

def Offset.read? : List Char → Option Offset
  | ['Z'] | ['z'] => some utc
  | '+' :: cs => (readAhead cs).map fun n => minutes n
  | '-' :: cs => (readAhead cs).map fun n => minutes (-(n : Int))
  | _ => none

/-- Between a date and a time there is a T or a space; an offset follows only where there are
both. -/
def Moment.read? (cs : List Char) : Option Moment :=
  match Date.read cs with
  | some (d, []) => some (date d)
  | some (d, mark :: cs) =>
    if mark = 'T' ∨ mark = 't' ∨ mark = ' ' then
      match Time.read cs with
      | some (t, []) => some (dateTime d t none)
      | some (t, cs) => (Offset.read? cs).map fun offset => dateTime d t (some offset)
      | none => none
    else none
  | none =>
    match Time.read cs with
    | some (t, []) => some (time t)
    | _ => none

end MiningClient.Toml
