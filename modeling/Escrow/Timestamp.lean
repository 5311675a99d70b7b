import Escrow.Text.Blank

/-!
# Timestamps

Moments in universal time, as seconds since the start of 1970 and a fraction of
a second. A fraction of a whole second or more lies in a leap second, which
follows the second it is counted with.

Moments are written as in RFC 3339, in universal time, with as many digits of
the fraction as it needs: none, three, six or nine. Reading takes any offset, and
is lenient about blank characters and leading zeros.
-/

namespace Escrow

/-- A moment. -/
structure Timestamp where
  /-- The seconds since the start of 1970. -/
  seconds : Int
  /-- The billionths of a second. -/
  nanos : Nat := 0
  deriving DecidableEq

namespace Timestamp

/-- The number of billionths in a second. -/
def perSecond : Nat := 1000000000

/-- The moment some seconds later. One within a leap second leaves it. -/
def plus (t : Timestamp) (k : Int) : Timestamp :=
  if t.nanos < perSecond ∨ k = 0 then ⟨t.seconds + k, t.nanos⟩
  else if k < 0 then ⟨t.seconds + 1 + k, t.nanos - perSecond⟩
  else ⟨t.seconds + k, t.nanos - perSecond⟩

/-- The days from the start of 1970 to a date. Years are counted from March, so
    that a leap day is the last day of one. -/
def daysFrom (year : Int) (month day : Nat) : Int :=
  let y := if month ≤ 2 then year - 1 else year
  let era := y / 400
  let yearOfEra := y % 400
  let dayOfYear : Int := (153 * ((month + 9) % 12) + 2) / 5 + day - 1
  let dayOfEra := yearOfEra * 365 + yearOfEra / 4 - yearOfEra / 100 + dayOfYear
  era * 146097 + dayOfEra - 719468

/-- The year, month and day that lies some days after the start of 1970. -/
def dateOf (days : Int) : Int × Nat × Nat :=
  let z := days + 719468
  let era := z / 146097
  let dayOfEra := z % 146097
  let yearOfEra := (dayOfEra - dayOfEra / 1460 + dayOfEra / 36524 - dayOfEra / 146096) / 365
  let dayOfYear := dayOfEra - (365 * yearOfEra + yearOfEra / 4 - yearOfEra / 100)
  let m := (5 * dayOfYear + 2) / 153
  let day := dayOfYear - (153 * m + 2) / 5 + 1
  let month := if m < 10 then m + 3 else m - 9
  let year := yearOfEra + era * 400 + (if month ≤ 2 then 1 else 0)
  (year, month.toNat, day.toNat)

def isLeapYear (year : Int) : Bool :=
  year % 4 = 0 && (year % 100 ≠ 0 || year % 400 = 0)

def daysInMonth (year : Int) (month : Nat) : Nat :=
  if month = 2 then (if isLeapYear year then 29 else 28)
  else if month = 4 ∨ month = 6 ∨ month = 9 ∨ month = 11 then 30
  else 31

/-- A number in at least `width` digits. -/
def padded (width n : Nat) : String :=
  let ds := Nat.toDigits 10 n
  String.ofList (List.replicate (width - ds.length) '0' ++ ds)

/-- A year, with a sign unless it has four digits. -/
def yearText (year : Int) : String :=
  if 0 ≤ year ∧ year ≤ 9999 then padded 4 year.toNat
  else (if year < 0 then "-" else "+") ++ padded 4 year.natAbs

/-- The fraction of a second, in as many digits as it needs. -/
def fractionText (nanos : Nat) : String :=
  if nanos = 0 then ""
  else if nanos % 1000000 = 0 then "." ++ padded 3 (nanos / 1000000)
  else if nanos % 1000 = 0 then "." ++ padded 6 (nanos / 1000)
  else "." ++ padded 9 nanos

/-- A moment as text. -/
def text (t : Timestamp) : String :=
  let (year, month, day) := dateOf (t.seconds / 86400)
  let s := (t.seconds % 86400).toNat
  let leap := if t.nanos < perSecond then 0 else 1
  yearText year ++ "-" ++ padded 2 month ++ "-" ++ padded 2 day ++ "T" ++
    padded 2 (s / 3600) ++ ":" ++ padded 2 (s / 60 % 60) ++ ":" ++ padded 2 (s % 60 + leap) ++
    fractionText (t.nanos % perSecond) ++ "Z"

/-! ## Reading -/

/-- The number in front of a text, of at least one and at most `most` digits. -/
def number? (most : Nat) (cs : List Char) : Option (Nat × List Char) :=
  match (cs.take most).takeWhile Char.isDigit with
  | [] => none
  | ds => some (ds.foldl (fun n d => 10 * n + (d.toNat - 48)) 0, cs.drop ds.length)

/-- A number after blank characters. -/
def blankNumber? (most : Nat) (cs : List Char) : Option (Nat × List Char) :=
  number? most (Text.dropBlank cs)

/-- A year: four digits at most, or any number of them after a sign. -/
def year? (cs : List Char) : Option (Int × List Char) :=
  match Text.dropBlank cs with
  | '-' :: rest => (number? rest.length rest).map fun (n, r) => (-(n : Int), r)
  | '+' :: rest => (number? rest.length rest).map fun (n, r) => ((n : Int), r)
  | rest => (number? 4 rest).map fun (n, r) => ((n : Int), r)

/-- The text after a character that has to come next, blank ones aside. -/
def after? (c : Char) (cs : List Char) : Option (List Char) :=
  match Text.dropBlank cs with
  | d :: rest => if c = d then some rest else none
  | [] => none

/-- The fraction of a second, of which nine digits count. -/
def fraction? : List Char → Option (Nat × List Char)
  | '.' :: rest => do
    let (n, r) ← number? 9 rest
    let used := ((rest.take 9).takeWhile Char.isDigit).length
    return (n * Nat.pow 10 (9 - used), r.dropWhile Char.isDigit)
  | cs => some (0, cs)

/-- Hours and minutes of an offset, in seconds. -/
def hoursAndMinutes? : List Char → Option (Nat × List Char)
  | a :: b :: rest => do
    if !(a.isDigit && b.isDigit) then none
    match rest.dropWhile fun c => c = ':' || Text.isBlank c with
    | c :: d :: rest =>
      if !(c.isDigit && d.isDigit) || '5' < c then none
      let v (x : Char) := x.toNat - 48
      return (((v a) * 10 + v b) * 3600 + ((v c) * 10 + v d) * 60, rest)
    | _ => none
  | _ => none

/-- An offset from universal time, in seconds. -/
def offset? : List Char → Option (Int × List Char)
  | '+' :: rest => (hoursAndMinutes? rest).map fun (n, r) => ((n : Int), r)
  | '-' :: rest => (hoursAndMinutes? rest).map fun (n, r) => (-(n : Int), r)
  | '−' :: rest => (hoursAndMinutes? rest).map fun (n, r) => (-(n : Int), r)
  | c :: rest =>
    if c = 'Z' ∨ c = 'z' then some (0, rest)
    else
      match rest with
      | d :: e :: rest =>
        if c.toUpper = 'U' ∧ d.toUpper = 'T' ∧ e.toUpper = 'C' then some (0, rest) else none
      | _ => none
  | [] => none

/-- The first day that a moment may lie on. -/
def firstDay : Int :=
  daysFrom (-262143) 1 1

/-- The last day that a moment may lie on. -/
def lastDay : Int :=
  daysFrom 262142 12 31

/-- Whether a day is among those that a moment may lie on. -/
def isDay (day : Int) : Bool :=
  firstDay ≤ day && day ≤ lastDay

/-- The most seconds that a span of time may have, either way. -/
def maxSpan : Nat := 9223372036854775

/-- The moment some seconds later, unless the span is too long or there is no such
    day. -/
def plus? (t : Timestamp) (k : Int) : Option Timestamp :=
  if k.natAbs ≤ maxSpan ∧ isDay ((t.plus k).seconds / 86400) then some (t.plus k) else none

/-- The moment written in a text. Both the day that is written there and the one in
    universal time have to be among those that there are. -/
def ofText? (s : String) : Option Timestamp := do
  let (year, cs) ← year? s.toList
  let (month, cs) ← blankNumber? 2 (← after? '-' cs)
  let (day, cs) ← blankNumber? 2 (← after? '-' cs)
  let cs ← match cs with
    | c :: rest => if c = 'T' ∨ c = 't' ∨ c = ' ' then some rest else none
    | [] => none
  let (hour, cs) ← blankNumber? 2 cs
  let (minute, cs) ← blankNumber? 2 (← after? ':' cs)
  let (second, cs) ← blankNumber? 2 (← after? ':' cs)
  let (nanos, cs) ← fraction? cs
  let (offset, cs) ← offset? (Text.dropBlank cs)
  if !(Text.dropBlank cs).isEmpty then none
  if month = 0 ∨ 12 < month ∨ day = 0 ∨ daysInMonth year month < day then none
  if 23 < hour ∨ 59 < minute ∨ 60 < second then none
  let leap : Nat := if second = 60 then 1 else 0
  let time := hour * 3600 + minute * 60 + (second - leap)
  let seconds := daysFrom year month day * 86400 + time - offset
  if !isDay (daysFrom year month day) || !isDay (seconds / 86400) then none
  if 86400 ≤ offset.natAbs then none
  return ⟨seconds, nanos + leap * perSecond⟩

end Timestamp

end Escrow
