import SqlAlgebra.Json.Basic
import SqlAlgebra.Toml.Layout

/-!
# Dates and times

A moment is a date, a time of day, or both with or without an offset from universal time. No
setting is a moment, so that of each only its text is kept.
-/

namespace SqlAlgebra.Toml

/-- A number of exactly as many digits. -/
def fixedDigits (width : Nat) (cs : List Char) : Option (Nat × List Char) :=
  let ds := cs.take width
  if ds.length = width ∧ ds.all Char.isDigit then
    some (ds.foldl (fun acc d => 10 * acc + (d.toNat - '0'.toNat)) 0, cs.drop width)
  else none

def isLeapYear (year : Nat) : Bool := year % 4 == 0 && (year % 100 != 0 || year % 400 == 0)

def daysInMonth (year month : Nat) : Nat :=
  if month = 2 then (if isLeapYear year then 29 else 28)
  else if month = 4 ∨ month = 6 ∨ month = 9 ∨ month = 11 then 30
  else 31

/-- What follows a date. -/
def date? (cs : List Char) : Option (List Char) := do
  let (year, cs) ← fixedDigits 4 cs
  let (month, cs) ← fixedDigits 2 (← expect '-' cs)
  let (day, cs) ← fixedDigits 2 (← expect '-' cs)
  if 1 ≤ month ∧ month ≤ 12 ∧ 1 ≤ day ∧ day ≤ daysInMonth year month then some cs else none

/-- What follows hours and minutes. -/
def clock? (cs : List Char) : Option (List Char) := do
  let (hour, cs) ← fixedDigits 2 cs
  let (minute, cs) ← fixedDigits 2 (← expect ':' cs)
  if hour ≤ 23 ∧ minute ≤ 59 then some cs else none

/-- What follows a time of day, which may fall into a leap second. -/
def time? (cs : List Char) : Option (List Char) := do
  let cs ← clock? cs
  let (second, cs) ← fixedDigits 2 (← expect ':' cs)
  if 60 < second then none
  else
    match cs with
    | '.' :: d :: more => if d.isDigit then some (more.dropWhile Char.isDigit) else none
    | '.' :: [] => none
    | _ => some cs

/-- What follows an offset, if there is one. -/
def offset? : List Char → Option (List Char)
  | 'Z' :: cs => some cs
  | 'z' :: cs => some cs
  | '+' :: cs => clock? cs
  | '-' :: cs => clock? cs
  | cs => some cs

/-- What follows a time of day and an offset after a date, if there is one. -/
def timeOfDate? : List Char → Option (List Char)
  | 'T' :: cs => time? cs >>= offset?
  | 't' :: cs => time? cs >>= offset?
  | ' ' :: cs =>
    match time? cs with
    | some rest => offset? rest
    | none => some (' ' :: cs)
  | cs => some cs

/-- A date, a time of day, or both. -/
def moment (cs : List Char) : Option (Json × List Char) := do
  let rest ← (date? cs >>= timeOfDate?) <|> time? cs
  return (.object [("moment", .text (.ofList (cs.take (cs.length - rest.length))))], rest)

end SqlAlgebra.Toml
