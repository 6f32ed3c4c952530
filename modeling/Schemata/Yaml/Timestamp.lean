/-
  Dates, and dates with a time of day, as plain scalars spell them.

  * `Timestamp.read?` reads the spelling of a timestamp, which need not be a day of the calendar;
    `Timestamp.checked` is the timestamp, or what is wrong with it;
  * `text` is the timestamp for readers, `shown` the form inside larger values.
-/
import Schemata.Number.Reading
import Schemata.Number.Rounding

namespace Schemata.Yaml

/-- A time of day. -/
structure TimeOfDay where
  hour : Nat
  minute : Nat
  second : Nat
  micro : Nat
  /-- The minutes by which local time is ahead. -/
  zone : Option Int := none
deriving DecidableEq, Repr

/-- A day, perhaps with a time. -/
structure Timestamp where
  year : Nat
  month : Nat
  day : Nat
  time : Option TimeOfDay := none
deriving DecidableEq, Repr

namespace Timestamp

/-! ## Reading -/

/-- A number of `least` to `most` digits at the start of a text, and the rest. -/
def number? (least most : Nat) (cs : List Char) : Option (Nat × List Char) :=
  let ds := (cs.takeWhile Text.isAsciiDigit).take most
  if ds.length < least then none else some (Number.asciiValue ds, cs.drop ds.length)

/-- The text after a character that it starts with. -/
def after? (c : Char) : List Char → Option (List Char)
  | [] => none
  | x :: cs => if x = c then some cs else none

/-- The text after the letter `T` or after blanks, which stand between a day and a time. -/
def afterDay? (cs : List Char) : Option (List Char) :=
  match cs with
  | 'T' :: rest => some rest
  | 't' :: rest => some rest
  | _ =>
    let rest := cs.dropWhile fun c => c == ' ' || c == '\t'
    if rest.length < cs.length then some rest else none

/-- Microseconds, from the digits after the point. -/
def microseconds (ds : List Char) : Nat :=
  let ds := ds.take 6
  Number.asciiValue (ds ++ List.replicate (6 - ds.length) '0')

/-- The zone at the end of a time; there need not be one. -/
def zone? (cs : List Char) : Option (Option Int) :=
  match cs.dropWhile fun c => c == ' ' || c == '\t' with
  | [] => if cs.isEmpty then some none else none
  | ['Z'] => some (some 0)
  | sign :: rest =>
    if sign != '+' && sign != '-' then none
    else do
      let (hours, rest) ← number? 1 2 rest
      let minutes ← match rest with
        | [] => some 0
        | ':' :: rest => (number? 2 2 rest).bind fun r => if r.2.isEmpty then some r.1 else none
        | _ => none
      return some (Number.signed (sign == '-') (60 * hours + minutes))

/-- A time of day. -/
def time? (cs : List Char) : Option TimeOfDay := do
  let (hour, rest) ← number? 1 2 cs
  let (minute, rest) ← number? 2 2 (← after? ':' rest)
  let (second, rest) ← number? 2 2 (← after? ':' rest)
  let (places, rest) := match rest with
    | '.' :: rest => rest.span Text.isAsciiDigit
    | rest => ([], rest)
  return { hour, minute, second, micro := microseconds places, zone := ← zone? rest }

/-- A timestamp as it is spelled.  A day without a time has a month and a day of two digits each,
    unless `loose`. -/
def read? (loose : Bool) (cs : List Char) : Option Timestamp := do
  let (year, rest) ← number? 4 4 cs
  let (month, rest) ← number? 1 2 (← after? '-' rest)
  let (day, rest) ← number? 1 2 (← after? '-' rest)
  if rest.isEmpty then if loose || cs.length = 10 then some { year, month, day } else none
  else return { year, month, day, time := ← time? (← afterDay? rest) }

/-! ## The calendar -/

/-- Whether a year has a day more. -/
def isLeap (year : Nat) : Bool := year % 4 == 0 && (year % 100 != 0 || year % 400 == 0)

/-- The number of days of a month. -/
def daysIn (year month : Nat) : Nat :=
  if month = 2 then if isLeap year then 29 else 28
  else if [4, 6, 9, 11].contains month then 30 else 31

/-- A span of time by its days and the seconds beyond them. -/
def spanText (minutes : Int) : String :=
  let days := minutes.fdiv 1440
  let seconds := 60 * minutes.fmod 1440
  let parts := (if days = 0 then [] else ["days=" ++ toString days]) ++
    if seconds = 0 then [] else ["seconds=" ++ toString seconds]
  "datetime.timedelta(" ++ ", ".intercalate parts ++ ")"

/-- What is wrong with a timestamp. -/
def flaw? (t : Timestamp) : Option String :=
  let zone := (t.time.bind (·.zone)).getD 0
  if zone ≤ -1440 ∨ 1440 ≤ zone then
    some ("offset must be a timedelta strictly between -timedelta(hours=24) and " ++
      "timedelta(hours=24), not " ++ spanText zone ++ ".")
  else if t.year = 0 then some "year 0 is out of range"
  else if t.month = 0 ∨ 12 < t.month then some "month must be in 1..12"
  else if t.day = 0 ∨ daysIn t.year t.month < t.day then some "day is out of range for month"
  else
    match t.time with
    | none => none
    | some c =>
      if 23 < c.hour then some "hour must be in 0..23"
      else if 59 < c.minute then some "minute must be in 0..59"
      else if 59 < c.second then some "second must be in 0..59"
      else none

/-- The timestamp, or what is wrong with it. -/
def checked (t : Timestamp) : Except String Timestamp :=
  match t.flaw? with
  | some message => .error message
  | none => .ok t

/-! ## Writing -/

/-- Two digits. -/
def two (n : Nat) : String := Number.padded 2 n

/-- The zone of a time for readers. -/
def zoneText (minutes : Int) : String :=
  (if minutes < 0 then "-" else "+") ++ two (minutes.natAbs / 60) ++ ":" ++
    two (minutes.natAbs % 60)

/-- The timestamp for readers. -/
def text (t : Timestamp) : String :=
  let day := Number.padded 4 t.year ++ "-" ++ two t.month ++ "-" ++ two t.day
  match t.time with
  | none => day
  | some c =>
    day ++ " " ++ two c.hour ++ ":" ++ two c.minute ++ ":" ++ two c.second ++
      (if c.micro = 0 then "" else "." ++ Number.padded 6 c.micro) ++
      (match c.zone with
        | some z => zoneText z
        | none => "")

/-- The zone of a time inside larger values. -/
def zoneShown (minutes : Int) : String :=
  if minutes = 0 then "datetime.timezone.utc"
  else "datetime.timezone(" ++ spanText minutes ++ ")"

/-- The timestamp inside larger values. -/
def shown (t : Timestamp) : String :=
  let numbers (l : List Nat) : List String := l.map toString
  let day := [t.year, t.month, t.day]
  match t.time with
  | none => "datetime.date(" ++ ", ".intercalate (numbers day) ++ ")"
  | some c =>
    let small := if c.micro != 0 then [c.second, c.micro] else if c.second != 0 then [c.second]
      else []
    "datetime.datetime(" ++
      ", ".intercalate (numbers (day ++ [c.hour, c.minute] ++ small) ++
        (c.zone.map fun z => "tzinfo=" ++ zoneShown z).toList) ++ ")"

/-- The name of the kind of a timestamp. -/
def kindName (t : Timestamp) : String :=
  if t.time.isSome then "datetime.datetime" else "datetime.date"

/-- The minutes of universal time since the year 0, of a time that has a zone. -/
def universal? (t : Timestamp) : Option Int :=
  t.time.bind fun c => c.zone.map fun z =>
    let years := t.year - 1
    let before := (List.range (t.month - 1)).foldl (fun n m => n + daysIn t.year (m + 1)) t.day
    let days := 365 * years + years / 4 - years / 100 + years / 400 + before
    (1440 * days + 60 * c.hour + c.minute : Nat) - z

/-- Whether two timestamps are the same moment. -/
def same (a b : Timestamp) : Bool :=
  match a.universal?, b.universal? with
  | some m, some n =>
    m == n && (a.time.map fun c => (c.second, c.micro)) == b.time.map fun c => (c.second, c.micro)
  | none, none => a == b
  | _, _ => false

end Timestamp

end Schemata.Yaml
