/-! # Dates and times

A configuration may hold dates, times of day, and both together with or without the distance from
universal time.  Each has a plain text, the one a configuration is saved with, and a longer one
that messages show, which names the fields and leaves out seconds that are zero.
-/
namespace FileTags

/-- A day of the calendar. -/
structure Day where
  year : Nat
  month : Nat
  day : Nat
  deriving DecidableEq, Repr

/-- A time of day, to the millionth of a second. -/
structure Clock where
  hour : Nat
  minute : Nat
  second : Nat
  micro : Nat
  deriving DecidableEq, Repr

/-- A date, a time, or both, the last with the minutes ahead of universal time if they are given. -/
inductive Moment where
  | day (d : Day)
  | clock (c : Clock)
  | both (d : Day) (c : Clock) (offset : Option Int)
  deriving DecidableEq, Repr

/-- A number with zeros in front up to a width. -/
def padNumber (width n : Nat) : String :=
  let digits := toString n
  String.ofList (List.replicate (width - digits.length) '0') ++ digits

/-- Whether the year is a leap year. -/
def isLeap (year : Nat) : Bool := year % 4 = 0 && (year % 100 ≠ 0 || year % 400 = 0)

/-- The number of days of a month. -/
def daysIn (year month : Nat) : Nat :=
  if month = 2 then if isLeap year then 29 else 28
  else if month ∈ [4, 6, 9, 11] then 30 else 31

namespace Day

/-- Whether the calendar has this day. -/
def isValid (d : Day) : Bool :=
  1 ≤ d.year && 1 ≤ d.month && d.month ≤ 12 && 1 ≤ d.day && d.day ≤ daysIn d.year d.month

/-- The day so many days after the first of January 1970.  Years are counted from March, so that a
leap day ends its year, in cycles of 400 years that begin with the year zero. -/
def ofCount (days : Nat) : Day :=
  let fromZero := days + 719468
  let inCycle := fromZero % 146097
  let yearOfCycle := (inCycle - inCycle / 1460 + inCycle / 36524 - inCycle / 146096) / 365
  let inYear := inCycle - (365 * yearOfCycle + yearOfCycle / 4 - yearOfCycle / 100)
  let month := (5 * inYear + 2) / 153
  let year := fromZero / 146097 * 400 + yearOfCycle
  ⟨if month < 10 then year else year + 1, if month < 10 then month + 3 else month - 9,
    inYear - (153 * month + 2) / 5 + 1⟩

/-- Year, month and day, joined by dashes. -/
def toText (d : Day) : String :=
  padNumber 4 d.year ++ "-" ++ padNumber 2 d.month ++ "-" ++ padNumber 2 d.day

/-- Year, month and day as messages show them. -/
def fields (d : Day) : List String := [toString d.year, toString d.month, toString d.day]

end Day

namespace Clock

/-- Whether the clock shows this time. -/
def isValid (c : Clock) : Bool := c.hour < 24 && c.minute < 60 && c.second < 60

/-- The time of day after so many millionths of a second. -/
def ofMicros (micros : Nat) : Clock :=
  let seconds := micros / 1000000
  ⟨seconds / 3600, seconds / 60 % 60, seconds % 60, micros % 1000000⟩

/-- Hour, minute and second, and the fraction if it is not zero. -/
def toText (c : Clock) : String :=
  padNumber 2 c.hour ++ ":" ++ padNumber 2 c.minute ++ ":" ++ padNumber 2 c.second
    ++ if c.micro = 0 then "" else "." ++ padNumber 6 c.micro

/-- Hour and minute, and as much of the rest as is not zero. -/
def fields (c : Clock) : List String :=
  [toString c.hour, toString c.minute]
    ++ (if c.second = 0 ∧ c.micro = 0 then [] else [toString c.second])
    ++ (if c.micro = 0 then [] else [toString c.micro])

end Clock

namespace Moment

/-- The distance from universal time, with its sign. -/
def offsetText (minutes : Int) : String :=
  (if minutes < 0 then "-" else "+") ++ padNumber 2 (minutes.natAbs / 60) ++ ":"
    ++ padNumber 2 (minutes.natAbs % 60)

/-- The distance from universal time as messages show it: whole days and seconds. -/
def offsetShown (minutes : Int) : String :=
  if minutes = 0 then "datetime.timezone.utc"
  else
    let days := minutes / 1440
    let seconds := (minutes % 1440) * 60
    let parts := (if days = 0 then [] else ["days=" ++ toString days])
      ++ (if seconds = 0 then [] else ["seconds=" ++ toString seconds])
    "datetime.timezone(datetime.timedelta(" ++ String.intercalate ", " parts ++ "))"

/-- The moment so many millionths of a second after the start of 1970, in universal time. -/
def ofEpoch (micros : Nat) : Moment :=
  .both (.ofCount (micros / 86400000000)) (.ofMicros (micros % 86400000000)) (some 0)

/-- The plain text. -/
def toText : Moment → String
  | .day d => d.toText
  | .clock c => c.toText
  | .both d c offset => d.toText ++ " " ++ c.toText ++ (offset.map offsetText).getD ""

/-- The text of a time stamp: the plain text with a letter between date and time. -/
def stamp : Moment → String
  | .both d c offset => d.toText ++ "T" ++ c.toText ++ (offset.map offsetText).getD ""
  | m => m.toText

/-- The text that starts a line of a log: date and time in whole seconds. -/
def logStamp : Moment → String
  | .both d c _ => d.toText ++ " " ++ Clock.toText { c with micro := 0 }
  | m => m.toText

/-- The text that messages show. -/
def shown : Moment → String
  | .day d => "datetime.date(" ++ String.intercalate ", " d.fields ++ ")"
  | .clock c => "datetime.time(" ++ String.intercalate ", " c.fields ++ ")"
  | .both d c offset =>
    let zone := (offset.map fun minutes => ["tzinfo=" ++ offsetShown minutes]).getD []
    "datetime.datetime(" ++ String.intercalate ", " (d.fields ++ c.fields ++ zone) ++ ")"

end Moment

end FileTags
