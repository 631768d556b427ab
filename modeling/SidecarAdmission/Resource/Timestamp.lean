import SidecarAdmission.Text.Class

/-!
Points in time. A time is read in a lenient form of RFC 3339: white space may stand before a number
or a mark, a number may have fewer digits than it should, the date and the time are parted by a `T`
or a space, and the offset may lack its colon or be `UTC`. It is written in UTC, in whole seconds.
-/

set_option autoImplicit false
set_option relaxedAutoImplicit false

namespace SidecarAdmission.Resource

open SidecarAdmission.Text

/-- A date and time of day in UTC; a leap second is second 60. -/
structure Timestamp where
  year : Int
  month : Nat
  day : Nat
  hour : Nat
  minute : Nat
  second : Nat
deriving DecidableEq, Repr, Inhabited

namespace Timestamp

/-- The years in which there are dates. -/
def leastYear : Int := -262143

/-- The last year in which there are dates. -/
def greatestYear : Int := 262142

/-- Whether a year has a 29th of February. -/
def isLeap (year : Int) : Bool := year % 4 = 0 && (year % 100 != 0 || year % 400 = 0)

/-- The number of days of a month. -/
def daysIn (year : Int) (month : Nat) : Nat :=
  if month = 2 then if isLeap year then 29 else 28
  else if month = 4 ∨ month = 6 ∨ month = 9 ∨ month = 11 then 30
  else 31

/-- The text after its white space. -/
def skipBlank (s : List Char) : List Char := s.dropWhile Class.isBlank

/-- The number of at least one and at most `width` digits that a text begins with. -/
def number? (width : Nat) (s : List Char) : Option (Nat × List Char) :=
  let ds := (s.take width).takeWhile Char.isDigit
  if ds.isEmpty then none
  else some (ds.foldl (fun n c => n * 10 + (c.toNat - '0'.toNat)) 0, s.drop ds.length)

/-- A number in a range, after white space. -/
def bounded? (width low high : Nat) (s : List Char) : Option (Nat × List Char) := do
  let (n, s) ← number? width (skipBlank s)
  if low ≤ n ∧ n ≤ high then some (n, s) else none

/-- A year of four digits, or of any number of them after a sign. -/
def year? (s : List Char) : Option (Int × List Char) :=
  match skipBlank s with
  | '-' :: s => (number? s.length s).map fun (n, s) => (-(n : Int), s)
  | '+' :: s => (number? s.length s).map fun (n, s) => ((n : Int), s)
  | s => (number? 4 s).map fun (n, s) => ((n : Int), s)

/-- The text after a mark, before which white space may stand. -/
def mark? (c : Char) (s : List Char) : Option (List Char) :=
  match skipBlank s with
  | d :: s => if d = c then some s else none
  | [] => none

/-- The text after a fraction of a second, if there is one. -/
def skipFraction? : List Char → Option (List Char)
  | '.' :: s =>
    match s with
    | c :: _ => if c.isDigit then some (s.dropWhile Char.isDigit) else none
    | [] => none
  | s => some s

/-- The two digits that a text begins with. -/
def twoDigits? : List Char → Option (Nat × List Char)
  | a :: b :: s =>
    if a.isDigit && b.isDigit then
      some ((a.toNat - '0'.toNat) * 10 + (b.toNat - '0'.toNat), s)
    else none
  | _ => none

/-- The minutes and the sign of an offset from UTC. -/
def signedOffset? (sign : Int) (s : List Char) : Option (Int × List Char) := do
  let (hours, s) ← twoDigits? s
  let s := s.dropWhile fun c => c == ':' || Class.isBlank c
  let (minutes, s) ← twoDigits? s
  if minutes < 60 ∧ hours < 24 then some (sign * ((hours * 60 + minutes : Nat) : Int), s) else none

/-- The offset from UTC in minutes. -/
def offset? (s : List Char) : Option (Int × List Char) :=
  match s with
  | 'Z' :: s | 'z' :: s => some (0, s)
  | '+' :: s => signedOffset? 1 s
  | '-' :: s | '−' :: s => signedOffset? (-1) s
  | u :: t :: c :: s =>
    if u.toLower = 'u' ∧ t.toLower = 't' ∧ c.toLower = 'c' then some (0, s) else none
  | _ => none

/-- The date after a date. -/
def nextDate (year : Int) (month day : Nat) : Int × Nat × Nat :=
  if day < daysIn year month then (year, month, day + 1)
  else if month < 12 then (year, month + 1, 1)
  else (year + 1, 1, 1)

/-- The date before a date. -/
def previousDate (year : Int) (month day : Nat) : Int × Nat × Nat :=
  if 1 < day then (year, month, day - 1)
  else if 1 < month then (year, month - 1, daysIn year (month - 1))
  else (year - 1, 12, 31)

/-- A local time moved to UTC by its offset in minutes, which is less than a day. -/
def shift (t : Timestamp) (offset : Int) : Timestamp :=
  let minutes : Int := (t.hour * 60 + t.minute : Nat) - offset
  let (date, minutes) :=
    if minutes < 0 then (previousDate t.year t.month t.day, minutes + 1440)
    else if 1440 ≤ minutes then (nextDate t.year t.month t.day, minutes - 1440)
    else ((t.year, t.month, t.day), minutes)
  ⟨date.1, date.2.1, date.2.2, (minutes / 60).toNat, (minutes % 60).toNat, t.second⟩

/-- Whether there are dates in a year. -/
def isYear (year : Int) : Bool := leastYear ≤ year && year ≤ greatestYear

/-- The time that a text gives, if it gives one. -/
def parse? (text : String) : Option Timestamp := do
  let s := text.toList
  let (year, s) ← year? s
  let s ← mark? '-' s
  let (month, s) ← bounded? 2 1 12 s
  let s ← mark? '-' s
  let (day, s) ← bounded? 2 1 31 s
  let s ←
    match s with
    | 'T' :: s | 't' :: s | ' ' :: s => some s
    | _ => none
  let (hour, s) ← bounded? 2 0 23 s
  let s ← mark? ':' s
  let (minute, s) ← bounded? 2 0 59 s
  let s ← mark? ':' s
  let (second, s) ← bounded? 2 0 60 s
  let s ← skipFraction? s
  let (offset, s) ← offset? (skipBlank s)
  if !(skipBlank s).isEmpty || !isYear year || daysIn year month < day then none
  else
    let t := shift ⟨year, month, day, hour, minute, second⟩ offset
    if isYear t.year then some t else none

/-- A number with zeros before it up to a width. -/
def padded (width n : Nat) : String :=
  let ds := Nat.toDigits 10 n
  String.ofList (List.replicate (width - ds.length) '0' ++ ds)

/-- A year of four digits, or with a sign if it is not between 0 and 9999. -/
def yearText (year : Int) : String :=
  if 0 ≤ year ∧ year ≤ 9999 then padded 4 year.toNat
  else (if year < 0 then "-" else "+") ++ padded 4 year.natAbs

/-- The text of a time. -/
def text (t : Timestamp) : String :=
  yearText t.year ++ "-" ++ padded 2 t.month ++ "-" ++ padded 2 t.day ++ "T" ++ padded 2 t.hour
    ++ ":" ++ padded 2 t.minute ++ ":" ++ padded 2 t.second ++ "Z"

end Timestamp

end SidecarAdmission.Resource
