import SqlPaging.Calendar.DateTime
import SqlPaging.Decimal.Reader
import SqlPaging.Text.Blank

/-!
# SqlPaging — read dates and times

Fields are read as numbers of a greatest width and need no leading zeros; a year
may have a sign, and then any width. Blanks may stand before every field. A
*loose* text may also have blanks before the marks between the fields and at its
end. A zone is `Z` or a signed number of hours and minutes.
-/

namespace SqlPaging.Calendar.Reader

open SqlPaging.Text (trimStart isBlank)

/-- A step that reads something off the front of a text. -/
abbrev Step (α : Type) := List Char → Option (α × List Char)

/-- At least `least` and at most `most` digits. -/
def number (least most : Nat) : Step Nat := fun s =>
  -- Further digits are left for the next step, which refuses them.
  let digits := (s.take most).takeWhile Char.isDigit
  if digits.length < least then none
  else some (Decimal.ofDigits digits, s.drop digits.length)

/-- A field of at most two digits, after blanks. -/
def field : Step Nat := fun s => number 1 2 (trimStart s)

/-- A year after blanks: four digits at most, or a sign and any number of digits. -/
def year : Step Int := fun s =>
  match trimStart s with
  | '-' :: t => (number 1 t.length t).map fun (n, r) => (-(n : Int), r)
  | '+' :: t => (number 1 t.length t).map fun (n, r) => ((n : Int), r)
  | t => (number 1 4 t).map fun (n, r) => ((n : Int), r)

/-- A mark between fields; a loose text may have blanks before it. -/
def mark (loose : Bool) (c : Char) (s : List Char) : Option (List Char) :=
  match if loose then trimStart s else s with
  | x :: r => if x = c then some r else none
  | [] => none

/-- Year, month and day. -/
def date (loose : Bool) : Step Date := fun s => do
  let (y, s) ← year s
  let s ← mark loose '-' s
  let (m, s) ← field s
  let s ← mark loose '-' s
  let (d, s) ← field s
  let date ← Date.ofYmd? y m d
  some (date, s)

/-- The nanoseconds of a fraction with its point, if there is one; digits after
the ninth are dropped. -/
def fraction : Step Nat
  | '.' :: s => do
    let (n, r) ← number 1 9 s
    -- Fewer than nine digits count tenths, hundredths and so on.
    let width := s.length - r.length
    some (n * Nat.pow 10 (9 - width), r.dropWhile Char.isDigit)
  | s => some (0, s)

/-- Hour, minute and second, and a fraction where one is allowed. -/
def time (loose fractional : Bool) : Step TimeOfDay := fun s => do
  let (h, s) ← field s
  let s ← mark loose ':' s
  let (m, s) ← field s
  let s ← mark loose ':' s
  let (sec, s) ← field s
  let (nanos, s) ← if fractional then fraction s else some (0, s)
  let time ← TimeOfDay.ofHms? h m sec nanos
  some (time, s)

/-- What may stand between the hours and the minutes of a zone. -/
inductive ZoneMark where
  /-- a colon -/
  | colon
  /-- any number of colons and blanks -/
  | any

/-- The characters after the mark between the hours and the minutes of a zone. -/
def ZoneMark.skip : ZoneMark → List Char → Option (List Char)
  | .colon, ':' :: s => some s
  | .colon, _ => none
  | .any, s => some (s.dropWhile fun c => c = ':' || isBlank c)

/-- A signed number of hours and minutes, in seconds ahead of UTC. It is less
than a day. -/
def offset (between : ZoneMark) : Step Int := fun s => do
  let (sign, s) ← match s with
    | '+' :: t => some (1, t)
    | '-' :: t => some (-1, t)
    -- The minus sign of Unicode counts as a sign too.
    | '\u2212' :: t => some (-1, t)
    | _ => none
  let (h, s) ← number 2 2 s
  let s ← between.skip s
  let (m, s) ← number 2 2 s
  let seconds := 3600 * h + 60 * m
  -- Hours are not bounded on their own.
  if m < 60 ∧ seconds < daySeconds then some (sign * (seconds : Int), s) else none

/-- A zone: the letter of UTC, or an offset. -/
def zone (between : ZoneMark) : Step Int := fun s =>
  match s with
  | 'Z' :: t => some (0, t)
  | 'z' :: t => some (0, t)
  | t => offset between t

/-- A step has read the whole text. -/
def whole {α : Type} (step : Step α) (s : List Char) : Option α := do
  let (a, r) ← step s
  if r.isEmpty then some a else none

/-- A step has read the whole text up to blanks at its end. -/
def wholeLoose {α : Type} (step : Step α) (s : List Char) : Option α := do
  let (a, r) ← step s
  if (trimStart r).isEmpty then some a else none

/-- A date and a time, each read by a step, with something between them. -/
def dateTime (date : Step Date) (between : List Char → Option (List Char)) (time : Step TimeOfDay) :
    Step DateTime := fun s => do
  let (date, s) ← date s
  let s ← between s
  let (time, s) ← time s
  some ({ date, time }, s)

/-- The letter between date and time, in either case, or a blank. -/
def letterOrSpace : List Char → Option (List Char)
  | 'T' :: s => some s
  | 't' :: s => some s
  | ' ' :: s => some s
  | _ => none

/-- The zone after a loose time: blanks, then the name of UTC in any case, or a zone. -/
def looseZone : Step Int := fun s =>
  let s := trimStart s
  if (s.take 3).map Char.toUpper = ['U', 'T', 'C'] then some (0, s.drop 3)
  else zone .any s

/-- A time in a zone, as the time of UTC. -/
def inZone (local_ : Step DateTime) (zone : Step Int) : Step DateTime := fun s => do
  let (t, s) ← local_ s
  let (seconds, s) ← zone s
  let utc ← t.toUtc? seconds
  some (utc, s)

/-- Two, or four, digits exactly. -/
def digits (n : Nat) : Step Nat := number n n

/-- A date whose fields have all their digits. -/
def fullDate : Step Date := fun s => do
  let (y, s) ← digits 4 s
  let s ← mark false '-' s
  let (m, s) ← digits 2 s
  let s ← mark false '-' s
  let (d, s) ← digits 2 s
  let date ← Date.ofYmd? y m d
  some (date, s)

/-- A time of day whose fields have all their digits. -/
def fullTime : Step TimeOfDay := fun s => do
  let (h, s) ← digits 2 s
  let s ← mark false ':' s
  let (m, s) ← digits 2 s
  let s ← mark false ':' s
  let (sec, s) ← digits 2 s
  let (nanos, s) ← fraction s
  let time ← TimeOfDay.ofHms? h m sec nanos
  some (time, s)

end SqlPaging.Calendar.Reader

namespace SqlPaging.Calendar

open Reader

/-! ## Whole texts -/

/-- A date in loose form. -/
def Date.parse? (text : String) : Option Date := wholeLoose (Reader.date true) text.toList

/-- A date with a time, in loose form, with a `T` between them. -/
def DateTime.parse? (text : String) : Option DateTime :=
  wholeLoose (dateTime (Reader.date true) (mark true 'T') (Reader.time true true)) text.toList

/-- A time in a zone, in loose form, as the time of UTC. -/
def DateTime.parseZoned? (text : String) : Option DateTime :=
  wholeLoose (inZone (dateTime (Reader.date true) letterOrSpace (Reader.time true true)) looseZone)
    text.toList

/-- A time in a zone with all its digits, as the time of UTC. -/
def DateTime.parseFull? (text : String) : Option DateTime :=
  whole (inZone (dateTime fullDate letterOrSpace fullTime) (zone .colon)) text.toList

/-- A date as it is written in SQL text. -/
def Date.parseSql? (text : String) : Option Date := whole (Reader.date false) text.toList

/-- A date with a time as it is written in SQL text. -/
def DateTime.parseSql? (text : String) : Option DateTime :=
  whole (dateTime (Reader.date false) (fun s => some (Text.trimStart s)) (Reader.time false false))
    text.toList

/-- A time with its offset from UTC as it is written in SQL text, as the time of UTC. -/
def DateTime.parseSqlZoned? (text : String) : Option DateTime :=
  whole (inZone
    (dateTime (Reader.date false) (fun s => some (Text.trimStart s)) (Reader.time false false))
    (fun s => offset .any (Text.trimStart s))) text.toList

end SqlPaging.Calendar
