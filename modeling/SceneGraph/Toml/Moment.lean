import SceneGraph.Decimal.Reading
import SceneGraph.Toml.Text

/-!
# Dates and times of settings files

A `Moment` is a date, a time of day, or both, and then perhaps with the offset of the clock from
universal time. Its text has one spelling (`Moment.text`): a `T` stands between date and time,
and a fraction of a second has neither more than nine digits nor zeros at its end.
-/

namespace SceneGraph.Toml

/-- Years with a 29th of February. -/
def isLeapYear (year : Nat) : Bool := year % 4 == 0 && (year % 100 != 0 || year % 400 == 0)

/-- How many days a month has. -/
def daysIn (year month : Nat) : Nat :=
  if month = 2 then if isLeapYear year then 29 else 28
  else if month = 4 ∨ month = 6 ∨ month = 9 ∨ month = 11 then 30
  else 31

/-- A day of the calendar. -/
structure Date where
  year : Nat
  month : Nat
  day : Nat
  exists_day : 1 ≤ month ∧ month ≤ 12 ∧ 1 ≤ day ∧ day ≤ daysIn year month
  deriving DecidableEq

/-- A time of day. A minute may have a leap second. -/
structure Time where
  hour : Nat
  minute : Nat
  second : Nat
  nanosecond : Nat
  exists_time : hour < 24 ∧ minute < 60 ∧ second ≤ 60 ∧ nanosecond < 1000000000
  deriving DecidableEq

/-- How far a clock is from universal time. -/
inductive Offset where
  /-- Not at all, written as a letter. -/
  | universal
  | minutes (ahead : Int)
  deriving DecidableEq, Repr

/-- A date, a time of day, or both. -/
inductive Moment where
  | date (d : Date)
  | time (t : Time)
  | dateTime (d : Date) (t : Time) (offset : Option Offset)
  deriving DecidableEq

/-! ### Writing -/

/-- A number with zeros in front, at least so many digits wide. -/
def padded (width n : Nat) : List Char :=
  let ds := (toString n).toList
  List.replicate (width - ds.length) '0' ++ ds

def Date.chars (d : Date) : List Char :=
  padded 4 d.year ++ '-' :: padded 2 d.month ++ '-' :: padded 2 d.day

/-- The digits of a fraction of a second without zeros at the end. -/
def Time.fractionDigits (t : Time) : List Char :=
  ((padded 9 t.nanosecond).reverse.dropWhile (· == '0')).reverse

def Time.chars (t : Time) : List Char :=
  let fraction := t.fractionDigits
  padded 2 t.hour ++ ':' :: padded 2 t.minute ++ ':' :: padded 2 t.second ++
    if fraction.isEmpty then [] else '.' :: fraction

def Offset.chars : Offset → List Char
  | universal => ['Z']
  | minutes ahead =>
    let m := ahead.natAbs
    (if ahead < 0 then '-' else '+') :: padded 2 (m / 60) ++ ':' :: padded 2 (m % 60)

def Moment.chars : Moment → List Char
  | date d => d.chars
  | time t => t.chars
  | dateTime d t offset => d.chars ++ 'T' :: t.chars ++ (offset.map Offset.chars).getD []

def Moment.text (m : Moment) : String := String.ofList m.chars

/-! ### Reading -/

/-- Passes over a character. -/
def expect (c : Char) : List Char → Option (List Char)
  | [] => none
  | d :: rest => if c == d then some rest else none

/-- A number of two digits. -/
def twoDigits : Scan Nat
  | c :: d :: rest => if c.isDigit && d.isDigit then some (Decimal.natOfDigits [c, d], rest) else none
  | _ => none

def Date.scan : Scan Date := fun s => do
  let (century, s) ← twoDigits s
  let (year, s) ← twoDigits s
  let (month, s) ← twoDigits (← expect '-' s)
  let (day, s) ← twoDigits (← expect '-' s)
  let year := 100 * century + year
  if h : 1 ≤ month ∧ month ≤ 12 ∧ 1 ≤ day ∧ day ≤ daysIn year month then
    return (⟨year, month, day, h⟩, s)
  else none

/-- A fraction of a second in nanoseconds; digits after the ninth do not count. -/
def nanoseconds : List Char → Nat × List Char
  | '.' :: s =>
    match s.takeWhile Char.isDigit with
    | [] => (0, '.' :: s)
    | ds => (Decimal.natOfDigits ((ds ++ List.replicate 9 '0').take 9), s.dropWhile Char.isDigit)
  | s => (0, s)

def Time.scan : Scan Time := fun s => do
  let (hour, s) ← twoDigits s
  let (minute, s) ← twoDigits (← expect ':' s)
  let (second, s) ← twoDigits (← expect ':' s)
  let (nanosecond, s) := nanoseconds s
  if h : hour < 24 ∧ minute < 60 ∧ second ≤ 60 ∧ nanosecond < 1000000000 then
    return (⟨hour, minute, second, nanosecond, h⟩, s)
  else none

/-- An offset in hours and minutes after its sign. -/
def hoursAndMinutes (sign : Int) : Scan Offset := fun s => do
  let (hours, s) ← twoDigits s
  let (minutes, s) ← twoDigits (← expect ':' s)
  if hours < 24 ∧ minutes < 60 then return (.minutes (sign * (60 * hours + minutes)), s) else none

def Offset.scan : Scan Offset
  | 'Z' :: s | 'z' :: s => some (.universal, s)
  | '+' :: s => hoursAndMinutes 1 s
  | '-' :: s => hoursAndMinutes (-1) s
  | _ => none

/-- What may stand between a date and a time. -/
def isDateEnd (c : Char) : Bool := c == 'T' || c == 't' || c == ' '

/-- The time of a day, and its offset if one follows. -/
def dayTime : Scan (Time × Option Offset) := fun s => do
  let (t, s) ← Time.scan s
  match Offset.scan s with
  | some (offset, s) => return ((t, some offset), s)
  | none => return ((t, none), s)

/-- A date goes on with a time if one follows. -/
def Moment.scan : Scan Moment := fun s =>
  match Date.scan s with
  | none => (Time.scan s).map fun (t, s) => (.time t, s)
  | some (d, s) =>
    match s with
    | [] => some (.date d, [])
    | c :: rest =>
      match if isDateEnd c then dayTime rest else none with
      | some ((t, offset), rest) => some (.dateTime d t offset, rest)
      | none => some (.date d, c :: rest)

end SceneGraph.Toml
