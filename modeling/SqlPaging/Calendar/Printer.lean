import SqlPaging.Calendar.DateTime

/-!
# SqlPaging — printed dates and times

Years from 0 to 9999 are printed with four digits, all others with a sign and
at least four digits. A fraction of a second is printed with three, six or nine
digits, as many as it needs, and not at all when it is zero.

Main results:

* `length_padded` — a number that fits its width is printed in that width.
-/

namespace SqlPaging.Calendar

/-- The decimal digits of a number, with zeros in front up to the width. -/
def padded (width n : Nat) : List Char :=
  let digits := Nat.toDigits 10 n
  List.replicate (width - digits.length) '0' ++ digits

/-- A number that fits its width is printed in that width. -/
theorem length_padded {width n : Nat} (h : (Nat.toDigits 10 n).length ≤ width) :
    (padded width n).length = width := by
  simp [padded]
  omega

/-- The text of a year. -/
def yearText (y : Int) : List Char :=
  if 0 ≤ y ∧ y ≤ 9999 then padded 4 y.toNat
  else (if y < 0 then '-' else '+') :: padded 4 y.natAbs

/-- The text of a date. -/
def Date.chars (d : Date) : List Char :=
  yearText d.year ++ '-' :: padded 2 d.month ++ '-' :: padded 2 d.day

/-- The text of a date. -/
def Date.text (d : Date) : String := String.ofList d.chars

/-- Hours, minutes and seconds. -/
def TimeOfDay.chars (t : TimeOfDay) : List Char :=
  padded 2 t.hour ++ ':' :: padded 2 t.minute ++ ':' :: padded 2 t.shownSecond

/-- The fraction of a second, with its point. -/
def fractionChars (nanos : Nat) : List Char :=
  if nanos = 0 then []
  -- Whole milliseconds, then whole microseconds.
  else if nanos % 1000000 = 0 then '.' :: padded 3 (nanos / 1000000)
  else if nanos % 1000 = 0 then '.' :: padded 6 (nanos / 1000)
  else '.' :: padded 9 nanos

namespace DateTime

/-- Date and time to the second, with the given character between them. -/
def chars (t : DateTime) (between : Char) : List Char := t.date.chars ++ between :: t.time.chars

/-- The text with the fraction of the second. -/
def isoChars (t : DateTime) : List Char := t.chars 'T' ++ fractionChars (t.time.nanos % billion)

/-- The text with the fraction of the second. -/
def iso (t : DateTime) : String := String.ofList t.isoChars

/-- The text of a time in UTC, with the mark of that zone. -/
def isoUtc (t : DateTime) : String := String.ofList (t.isoChars ++ ['Z'])

end DateTime

end SqlPaging.Calendar
