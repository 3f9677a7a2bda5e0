import HubBindings.Text.Decimal

/-!
Dates and times of TOML: how they are read, and the one text that each of them has whatever way it
was written.
-/

namespace HubBindings.Toml

open Text

/-- A day of the calendar. -/
structure Date where
  year : Nat
  month : Nat
  day : Nat

/-- A time of day. -/
structure Time where
  hour : Nat
  minute : Nat
  second : Nat
  nanosecond : Nat

/-- The place of a time relative to universal time. -/
inductive Offset where
  | universal
  /-- A distance in minutes. -/
  | minutes (n : Int)

/-- A date, a time, or both. -/
inductive DateTime where
  | date (d : Date)
  | time (t : Time)
  | both (d : Date) (t : Time) (offset : Option Offset)

/-! ## Text -/

/-- The text of a date, `YYYY-MM-DD`. -/
def Date.text (d : Date) : String :=
  padded 4 d.year ++ "-" ++ padded 2 d.month ++ "-" ++ padded 2 d.day

/-- The fraction of a second with its point and without zeros at the end. A whole second has
none. -/
def fractionText (nanosecond : Nat) : String :=
  if nanosecond = 0 then ""
  else "." ++ String.ofList ((padded 9 nanosecond).toList.reverse.dropWhile (· == '0')).reverse

/-- The text of a time, `HH:MM:SS` and the fraction. -/
def Time.text (t : Time) : String :=
  padded 2 t.hour ++ ":" ++ padded 2 t.minute ++ ":" ++ padded 2 t.second ++
    fractionText t.nanosecond

/-- The text of an offset. A distance of zero has the sign `+`. -/
def Offset.text : Offset → String
  | .universal => "Z"
  | .minutes n =>
    (if n < 0 then "-" else "+") ++ padded 2 (n.natAbs / 60) ++ ":" ++ padded 2 (n.natAbs % 60)

/-- The text of a date, a time, or both with `T` between them. -/
def DateTime.text : DateTime → String
  | .date d => d.text
  | .time t => t.text
  | .both d t offset => d.text ++ "T" ++ t.text ++ (offset.map Offset.text).getD ""

/-! ## Reading -/

/-- Reads exactly `n` digits. -/
def fixedDigits? (n : Nat) (cs : List Char) : Option (Nat × List Char) :=
  let (ds, rest) := (cs.take n, cs.drop n)
  if ds.length = n && ds.all Char.isDigit then some (decimalNumber ds, rest) else none

/-- Reads one given character. -/
def expectChar? (c : Char) : List Char → Option (List Char)
  | d :: rest => if d = c then some rest else none
  | [] => none

/-- The number of days of a month. -/
def daysIn (year month : Nat) : Nat :=
  if month = 2 then
    if year % 4 = 0 && (year % 100 ≠ 0 || year % 400 = 0) then 29 else 28
  else if month = 4 || month = 6 || month = 9 || month = 11 then 30
  else 31

/-- Reads a date `YYYY-MM-DD` of the calendar. -/
def date? (cs : List Char) : Option (Date × List Char) := do
  let (year, cs) ← fixedDigits? 4 cs
  let cs ← expectChar? '-' cs
  let (month, cs) ← fixedDigits? 2 cs
  let cs ← expectChar? '-' cs
  let (day, cs) ← fixedDigits? 2 cs
  if 1 ≤ month && month ≤ 12 && 1 ≤ day && day ≤ daysIn year month then
    some ({ year, month, day }, cs)
  else none

/-- The nanoseconds that a fraction of a second denotes. Digits after the ninth are dropped. -/
def nanoseconds (ds : List Char) : Nat :=
  decimalNumber (ds.take 9 ++ List.replicate (9 - ds.length) '0')

/-- Reads a time `HH:MM:SS` with an optional fraction. Second 60 is a leap second. -/
def time? (cs : List Char) : Option (Time × List Char) := do
  let (hour, cs) ← fixedDigits? 2 cs
  let cs ← expectChar? ':' cs
  let (minute, cs) ← fixedDigits? 2 cs
  let cs ← expectChar? ':' cs
  let (second, cs) ← fixedDigits? 2 cs
  if hour ≤ 23 && minute ≤ 59 && second ≤ 60 then
    match cs with
    | '.' :: rest =>
      let (ds, after) := spanDigits rest
      if ds.isEmpty then none
      else some ({ hour, minute, second, nanosecond := nanoseconds ds }, after)
    | _ => some ({ hour, minute, second, nanosecond := 0 }, cs)
  else none

/-- Reads the rest of a date with a time: nothing, `Z`, or a distance `±HH:MM`. -/
def offset? : List Char → Option (Option Offset)
  | [] => some none
  | ['Z'] => some (some .universal)
  | ['z'] => some (some .universal)
  | c :: cs => do
    if c = '+' ∨ c = '-' then
      let (hour, cs) ← fixedDigits? 2 cs
      let cs ← expectChar? ':' cs
      let (minute, cs) ← fixedDigits? 2 cs
      let distance : Int := Int.ofNat (60 * hour + minute)
      if hour ≤ 23 && minute ≤ 59 && cs.isEmpty then
        some (some (.minutes (if c = '-' then -distance else distance)))
      else none
    else none

/-- Reads a date, a time, or both with an optional offset, from its whole spelling. -/
def dateTime? (cs : List Char) : Option DateTime :=
  match date? cs with
  | some (d, []) => some (.date d)
  | some (d, c :: rest) =>
    if c = 'T' ∨ c = 't' ∨ c = ' ' then do
      let (t, after) ← time? rest
      let offset ← offset? after
      return .both d t offset
    else none
  | none =>
    match time? cs with
    | some (t, []) => some (.time t)
    | _ => none

end HubBindings.Toml
