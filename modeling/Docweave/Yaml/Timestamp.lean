import Docweave.Text.Basic

/-!
# Timestamps

A point in time as it is written: a date, a time of day and the distance from universal time. `parse?`
reads the date alone or with a time behind `T`, `t` or spaces; behind spaces there is no zone.
-/

namespace Docweave.Yaml

/-- A date with a time of day. -/
structure Timestamp where
  year : Nat
  month : Nat
  day : Nat
  hour : Nat := 0
  minute : Nat := 0
  second : Nat := 0
  nanosecond : Nat := 0
  /-- The distance from universal time in minutes, to the east. -/
  offset : Int := 0
deriving DecidableEq, Inhabited

namespace Timestamp

/-- Digits in front of a text: one or two. -/
def number? (t : Text) : Option (Nat × Text) :=
  match t with
  | a :: b :: r =>
    if Text.isDigit a then
      if Text.isDigit b then some (Text.digitsValue [a, b], r) else some (Text.digitsValue [a], b :: r)
    else none
  | [a] => if Text.isDigit a then some (Text.digitsValue [a], []) else none
  | [] => none

/-- A number up to `most` in front of a text. -/
def bounded? (most : Nat) (t : Text) : Option (Nat × Text) :=
  (number? t).bind fun (n, r) => if n ≤ most then some (n, r) else none

/-- Every fourth year is a leap year, but of the centuries only every fourth. -/
def isLeap (year : Nat) : Bool := year % 4 = 0 && (year % 100 ≠ 0 || year % 400 = 0)

/-- The number of days of a month. -/
def daysIn (year month : Nat) : Nat :=
  if month = 2 then (if isLeap year then 29 else 28)
  else if month = 4 || month = 6 || month = 9 || month = 11 then 30
  else 31

/-- A fraction of a second in nanoseconds, from its digits. -/
def nanoseconds (digits : Text) : Nat :=
  let d := digits.take 9
  Text.digitsValue d * Nat.pow 10 (9 - d.length)

/-- The fraction in front of a text, behind a point or comma; zero when there is none. -/
def fraction (t : Text) : Nat × Text :=
  match t with
  | p :: d :: r =>
    if (p = '.' || p = ',') && Text.isDigit d then
      (nanoseconds ((d :: r).takeWhile Text.isDigit), (d :: r).dropWhile Text.isDigit)
    else (0, t)
  | _ => (0, t)

/-- The time of day in front of a text, on a date. -/
def timeOfDay? (date : Timestamp) (t : Text) : Option (Timestamp × Text) := do
  let (hour, t) ← bounded? 23 t
  let t ← Text.dropPrefix? ":" t
  let (minute, t) ← bounded? 59 t
  let t ← Text.dropPrefix? ":" t
  let (second, t) ← bounded? 59 t
  let (nanosecond, t) := fraction t
  some ({ date with hour := hour, minute := minute, second := second, nanosecond := nanosecond }, t)

/-- The zone that a text is: `Z`, or a sign, hours and minutes. -/
def zone? (t : Text) : Option Int :=
  match t with
  | ['Z'] => some 0
  | [sign, a, b, ':', c, d] =>
    if [a, b, c, d].all Text.isDigit then
      let h := Text.digitsValue [a, b]
      let m := Text.digitsValue [c, d]
      if h > 24 || m > 60 then none
      else if sign = '+' then some (h * 60 + m)
      else if sign = '-' then some (-(h * 60 + m : Int))
      else none
    else none
  | _ => none

/-- The date in front of a text. -/
def date? (t : Text) : Option (Timestamp × Text) := do
  let digits := t.takeWhile Text.isDigit
  guard (digits.length = 4)
  let t ← Text.dropPrefix? "-" (t.drop 4)
  let (month, t) ← bounded? 12 t
  guard (month ≥ 1)
  let t ← Text.dropPrefix? "-" t
  let (day, t) ← number? t
  let year := Text.digitsValue digits
  guard (1 ≤ day && day ≤ daysIn year month)
  some ({ year := year, month := month, day := day }, t)

/-- A timestamp. -/
def parse? (t : Text) : Option Timestamp := do
  let (date, rest) ← date? t
  match rest with
  | [] => some date
  | c :: r =>
    if c = 'T' || c = 't' then do
      let (time, r) ← timeOfDay? date r
      let offset ← zone? r
      some { time with offset := offset }
    else if c = ' ' then do
      let (time, r) ← timeOfDay? date (r.dropWhile (· = ' '))
      guard r.isEmpty
      some time
    else none

/-- A number with zeros in front. -/
def padded (width n : Nat) : Text :=
  let d := Text.ofNat n
  List.replicate (width - d.length) '0' ++ d

/-- The fraction of a second, without zeros at its end. -/
def fractionText (nanosecond : Nat) : Text :=
  if nanosecond = 0 then [] else '.' :: Text.trimRight (· = '0') (padded 9 nanosecond)

/-- The zone. -/
def zoneText (offset : Int) : Text :=
  if offset = 0 then "Z"
  else (if offset < 0 then '-' else '+') :: padded 2 (offset.natAbs / 60) ++ ":" ++ padded 2 (offset.natAbs % 60)

/-- The text of a timestamp: date, `T`, time, and zone. -/
def text (s : Timestamp) : Text :=
  padded 4 s.year ++ "-" ++ padded 2 s.month ++ "-" ++ padded 2 s.day ++ "T" ++ padded 2 s.hour ++ ":" ++
    padded 2 s.minute ++ ":" ++ padded 2 s.second ++ fractionText s.nanosecond ++ zoneText s.offset

end Timestamp

end Docweave.Yaml
