import LogLayout.Bundled.TimeFormat.Token
import LogLayout.Bundled.ZonedTime
import LogLayout.Calendar.CivilTime

/-!
# A library for times: writing a format

The text of a local time in a format: every token writes its own part, and the first token that
cannot is the problem of the whole format.
-/

namespace LogLayout.Bundled.TimeFormat

open Calendar (zeroPadded)

/-! ## Numbers -/

/-- The width up to which digits are filled up at most: that of the greatest number of 64 bits. -/
def fillLimit : Nat := 20

/-- Digits with fill characters before them up to the width, or to the limit of it. -/
def filled (pad : Char) (width : Nat) (digits : List Char) : List Char :=
  List.replicate (min width fillLimit - digits.length) pad ++ digits

/-- A number filled up to the width. The sign counts in the width, and stands before zeros but
behind spaces; the spaces before a sign go to the full width. -/
def padded (pad : Char) (width : Nat) (value : Int) : List Char :=
  let digits := Nat.toDigits 10 value.natAbs
  if 0 ≤ value then filled pad width digits
  else if pad == '0' then '-' :: filled pad (width - 1) digits
  else List.replicate (width - (digits.length + 1)) pad ++ '-' :: digits

def signed (width : Nat) (value : Int) : List Char :=
  (if value < 0 then ['-'] else []) ++ zeroPadded width value.natAbs

/-- The directive's number: its flag and width replace the usual ones. -/
def Directive.number (d : Directive) (pad : Char) (width : Nat) (value : Int) : List Char :=
  let pad := match d.flag with
    | some .spaces => ' '
    | some .zeros => '0'
    | _ => pad
  if d.flag = some .unpadded then padded pad 0 value else padded pad (d.width.getD width) value

/-! ## Names -/

def monthName : Nat → String
  | 1 => "January"
  | 2 => "February"
  | 3 => "March"
  | 4 => "April"
  | 5 => "May"
  | 6 => "June"
  | 7 => "July"
  | 8 => "August"
  | 9 => "September"
  | 10 => "October"
  | 11 => "November"
  | _ => "December"

/-- The English name of a day of the week, from zero on Sunday. -/
def weekdayName : Nat → String
  | 0 => "Sunday"
  | 1 => "Monday"
  | 2 => "Tuesday"
  | 3 => "Wednesday"
  | 4 => "Thursday"
  | 5 => "Friday"
  | _ => "Saturday"

/-- The first three letters. -/
def abbreviated (name : String) : String :=
  String.ofList (name.toList.take 3)

/-- The directive's name, in capitals under the flag for it. -/
def Directive.name (d : Directive) (name : String) : List Char :=
  if d.flag = some .upper then (Text.upperCase name).toList else name.toList

/-! ## Fractions of a second -/

/-- The first digits of the fraction, at most nine. -/
def fractionDigits (nanosecond digits : Nat) : List Char :=
  (zeroPadded 9 nanosecond).take digits

/-- The digits of the fraction without the zeros at its end. -/
def shortFraction (nanosecond : Nat) : List Char :=
  ((zeroPadded 9 nanosecond).reverse.dropWhile (· == '0')).reverse

/-- The fraction behind a point: of the given width, or as short as it is; nothing for no
digits. -/
def pointFractionText (width : Option Nat) (nanosecond : Nat) : List Char :=
  let digits := match width with
    | some width => fractionDigits nanosecond width
    | none => shortFraction nanosecond
  if digits.isEmpty then [] else '.' :: digits

/-- The fraction alone: of the given width, or as the directive writes it without one. -/
def Directive.fraction (d : Directive) (usual : List Char) (nanosecond : Nat) :
    Except FormatError (List Char) :=
  match d.width with
  | some 0 => .error (.zeroPrecision d.letter)
  | some width => .ok (fractionDigits nanosecond width)
  | none => .ok usual

/-! ## Dates, times and offsets -/

def isoDate (t : ZonedTime) : List Char :=
  signed 4 t.date.year ++ ['-'] ++ zeroPadded 2 t.date.month ++ ['-'] ++ zeroPadded 2 t.date.day

/-- Month, day and the last two digits of the year. -/
def shortDate (t : ZonedTime) : List Char :=
  zeroPadded 2 t.date.month ++ ['/'] ++ zeroPadded 2 t.date.day ++ ['/'] ++
    signed 2 (t.date.year.tmod 100)

/-- Year, month and day, the month behind an `M`. -/
def plainDate (t : ZonedTime) : List Char :=
  padded '0' 4 t.date.year ++ [' ', 'M'] ++ zeroPadded 2 t.date.month ++ [' '] ++
    Nat.toDigits 10 t.date.day

def clock (t : ZonedTime) : List Char :=
  zeroPadded 2 t.hour ++ [':'] ++ zeroPadded 2 t.minute

def fullClock (t : ZonedTime) : List Char :=
  clock t ++ [':'] ++ zeroPadded 2 t.second

/-- The half of the day in capitals. -/
def halfDay (t : ZonedTime) : String :=
  if t.isAfternoon then "PM" else "AM"

/-- Hour on a dial of twelve, minute, second and half of the day. -/
def dialClock (t : ZonedTime) : List Char :=
  Nat.toDigits 10 t.dialHour ++ [':'] ++ zeroPadded 2 t.minute ++ [':'] ++ zeroPadded 2 t.second ++
    [' '] ++ (halfDay t).toList

/-- The offset from universal time. Without colons hours and minutes are written together; one
colon separates them, a second one adds seconds, and with three only the parts needed are
written. -/
def offsetText (colons : Nat) (seconds : Int) : List Char :=
  let hours := zeroPadded 2 (seconds.natAbs / 3600)
  let minute := seconds.natAbs / 60 % 60
  let second := seconds.natAbs % 60
  let minutes := zeroPadded 2 minute
  let seconds' := zeroPadded 2 second
  (if seconds < 0 then '-' else '+') ::
    match colons with
    | 0 => hours ++ minutes
    | 1 => hours ++ [':'] ++ minutes
    | 2 => hours ++ [':'] ++ minutes ++ [':'] ++ seconds'
    | _ =>
      if second ≠ 0 then hours ++ [':'] ++ minutes ++ [':'] ++ seconds'
      else if minute ≠ 0 then hours ++ [':'] ++ minutes
      else hours

/-! ## Directives -/

def Directive.text (d : Directive) (t : ZonedTime) : Except FormatError (List Char) :=
  match d.letter with
  | 'Y' => .ok (d.number '0' 4 t.date.year)
  | 'C' => .ok (d.number ' ' 0 (t.date.year.tdiv 100))
  | 'y' => .ok (d.number '0' 2 (t.date.year.tmod 100))
  | 'G' => .ok (d.number '0' 4 (weekYear t.day))
  | 'g' => .ok (d.number '0' 2 ((weekYear t.day).tmod 100))
  | 'm' => .ok (d.number '0' 2 t.date.month)
  | 'd' => .ok (d.number '0' 2 t.date.day)
  | 'e' => .ok (d.number ' ' 2 t.date.day)
  | 'j' => .ok (d.number '0' 3 (dayOfYear t.day))
  | 'q' => .ok (d.number '0' 0 ((t.date.month + 2) / 3 : Nat))
  | 'U' => .ok (d.number '0' 2 (sundayWeek t.day))
  | 'W' => .ok (d.number '0' 2 (mondayWeek t.day))
  | 'V' => .ok (d.number '0' 2 (isoWeek t.day))
  | 'u' => .ok (d.number ' ' 0 (isoWeekday t.day))
  | 'w' => .ok (d.number ' ' 0 (weekday t.day))
  | 'H' => .ok (d.number '0' 2 t.hour)
  | 'k' => .ok (d.number ' ' 2 t.hour)
  | 'I' => .ok (d.number '0' 2 t.dialHour)
  | 'l' => .ok (d.number ' ' 2 t.dialHour)
  | 'M' => .ok (d.number '0' 2 t.minute)
  | 'S' => .ok (d.number '0' 2 t.second)
  | 's' => .ok (d.number ' ' 0 (t.instant.nanos.tdiv nanosPerSecond))
  | 'A' => .ok (d.name (weekdayName (weekday t.day)))
  | 'a' => .ok (d.name (abbreviated (weekdayName (weekday t.day))))
  | 'B' => .ok (d.name (monthName t.date.month))
  | 'b' | 'h' => .ok (d.name (abbreviated (monthName t.date.month)))
  | 'p' =>
    .ok (if d.flag = some .swapped then Text.lowerCase (halfDay t) else halfDay t).toList
  | 'P' => .ok (if d.flag = some .upper then halfDay t else Text.lowerCase (halfDay t)).toList
  | 'Z' =>
    .ok (if d.flag = some .swapped then Text.lowerCase t.offset.abbreviation
      else Text.upperCase t.offset.abbreviation).toList
  | 'F' => .ok (isoDate t)
  | 'D' => .ok (shortDate t)
  | 'T' | 'X' => .ok (fullClock t)
  | 'R' => .ok (clock t)
  | 'x' => .ok (plainDate t)
  | 'c' =>
    .ok (plainDate t ++ [',', ' '] ++ d.name (abbreviated (weekdayName (weekday t.day))) ++
      [' '] ++ fullClock t)
  | 'r' => .ok (dialClock t)
  | 'f' =>
    let short := shortFraction t.nanosecond
    d.fraction (if short.isEmpty then ['0'] else short) t.nanosecond
  | 'N' => d.fraction (zeroPadded 9 t.nanosecond) t.nanosecond
  | 'z' => .ok (offsetText d.colons t.offset.seconds)
  | 'Q' => if 1 < d.colons then .error .colonsBeforeZoneName else .ok t.zone.name.toList
  | 'n' => .ok ['\n']
  | 't' => .ok ['\t']
  | '%' => .ok ['%']
  | letter => .error (.unknownLetter (leadByte letter))

def Token.text (t : ZonedTime) : Token → Except FormatError (List Char)
  | .literal c => .ok [c]
  | .directive d => d.text t
  | .pointFraction width => .ok (pointFractionText width t.nanosecond)
  | .malformed problem => .error problem

def format (fmt : String) (t : ZonedTime) : Except FormatError String :=
  ((tokens fmt.toList).mapM (Token.text t)).map fun parts => String.ofList parts.flatten

end LogLayout.Bundled.TimeFormat
