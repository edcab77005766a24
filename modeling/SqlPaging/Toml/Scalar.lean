import SqlPaging.Calendar.Reader
import SqlPaging.Text.Hexadecimal
import SqlPaging.Toml.Basic

/-!
# SqlPaging — numbers, truth values and times in TOML

A scalar that is not quoted is a run of characters that has to be an integer, a
float, a truth value or a time as a whole. Digits may be grouped by single
underscores between them, and decimal numbers do not start with a needless zero.

Main results:

* `digits?_ungrouped` — digits without underscores are read as they are.
-/

namespace SqlPaging.Toml

open Calendar (Date)
open Calendar.Reader (fraction fullDate mark whole zone)

/-! ## Numbers -/

/-- The digits of a group without the underscores between them. -/
def digits? (isDigit : Char → Bool) : List Char → Option (List Char)
  | [] => none
  | [c] => if isDigit c then some [c] else none
  | c :: '_' :: s => if isDigit c then (digits? isDigit s).map (c :: ·) else none
  | c :: s => if isDigit c then (digits? isDigit s).map (c :: ·) else none

/-- Decimal digits without a needless zero at the front. -/
def wholeDigits? (s : List Char) : Option (List Char) :=
  match digits? Char.isDigit s with
  -- A zero may stand alone, but not in front of other digits.
  | some ('0' :: _ :: _) => none
  | ds => ds

/-- The value of digits in a base. -/
def inBase (base : Nat) (ds : List Char) : Nat :=
  ds.foldl (fun n c => base * n + (Text.hexValue? c).getD 0) 0

/-- A digit of a base. -/
def isDigitOf (base : Nat) (c : Char) : Bool := (Text.hexValue? c).any (· < base)

/-- An integer. -/
def integer? : List Char → Option Int
  -- A number with a base has no sign.
  | '0' :: 'x' :: s => (digits? (isDigitOf 16) s).map fun ds => inBase 16 ds
  | '0' :: 'o' :: s => (digits? (isDigitOf 8) s).map fun ds => inBase 8 ds
  | '0' :: 'b' :: s => (digits? (isDigitOf 2) s).map fun ds => inBase 2 ds
  | '-' :: s => (wholeDigits? s).map fun ds => -(inBase 10 ds : Int)
  | '+' :: s => (wholeDigits? s).map fun ds => inBase 10 ds
  | s => (wholeDigits? s).map fun ds => inBase 10 ds

/-- A digit, or what groups digits. -/
def isGrouped (c : Char) : Bool := c.isDigit || c = '_'

/-- The exponent of a float. -/
def exponent? : List Char → Option Int
  | c :: s =>
    if c = 'e' ∨ c = 'E' then
      let (negative, s) := Decimal.splitSign s
      (digits? Char.isDigit s).map fun ds =>
        if negative then -(Decimal.ofDigits ds : Int) else Decimal.ofDigits ds
    else none
  | [] => none

/-- A float without its sign: digits, and a fraction, an exponent or both. -/
def magnitude? (s : List Char) : Option Decimal := do
  let before ← wholeDigits? (s.takeWhile isGrouped)
  match s.dropWhile isGrouped with
  | '.' :: s =>
    let after ← digits? Char.isDigit (s.takeWhile isGrouped)
    let exponent ← match s.dropWhile isGrouped with
      | [] => some 0
      | s => exponent? s
    some { digits := Decimal.ofDigits (before ++ after), exponent := exponent - after.length }
  | s =>
    -- Without a point it is the exponent that makes it a float.
    let exponent ← exponent? s
    some { digits := Decimal.ofDigits before, exponent }

/-- A float. -/
def float? (s : List Char) : Option Decimal.Reading :=
  let (negative, s) := Decimal.splitSign s
  if s = "inf".toList then some (.infinite negative)
  else if s = "nan".toList then some (.nan negative)
  else (magnitude? s).map (.number negative)

/-! ## Times -/

/-- Hours and minutes, and seconds with a fraction where they are written. -/
def clock (s : List Char) : Option (Calendar.TimeOfDay × List Char) := do
  let (h, s) ← Calendar.Reader.digits 2 s
  let s ← mark false ':' s
  let (m, s) ← Calendar.Reader.digits 2 s
  let ((sec, nanos), s) ← match s with
    | ':' :: s => do
      let (sec, s) ← Calendar.Reader.digits 2 s
      let (nanos, s) ← fraction s
      some ((sec, nanos), s)
    | s => some ((0, 0), s)
  let time ← Calendar.TimeOfDay.ofHms? h m sec nanos
  some (time, s)

/-- A time of day, after a date or alone, with a zone only after a date. -/
def clockAfter (dated : Bool) (s : List Char) : Option (Unit × List Char) := do
  let (_, s) ← clock s
  -- Without a date, a zone behind the time makes the run no time at all.
  if dated && !s.isEmpty then
    let (_, s) ← zone .colon s
    some ((), s)
  else some ((), s)

/-- The run is a date. -/
def isDate (s : List Char) : Bool := (whole fullDate s).isSome

/-- The run is a time of day, a date, or a date with a time of day. It is written in
ASCII, also the sign of a zone. -/
def isTime (s : List Char) : Bool :=
  -- The zone alone would be read with the minus sign of Unicode, too.
  s.all (·.toNat < 128) &&
    (isDate s || (whole (clockAfter false) s).isSome ||
      match fullDate s with
      | some (_, c :: s) => (c = 'T' || c = 't' || c = ' ') && (whole (clockAfter true) s).isSome
      | _ => false)

/-! ## Runs -/

/-- What a run of characters stands for. -/
def scalar? (s : List Char) : Option Toml :=
  if s = "true".toList then some (.bool true)
  else if s = "false".toList then some (.bool false)
  -- A date looks like a number at first, so times are tried before numbers.
  else if isTime s then some .time
  else
    match integer? s with
    | some n => some (.integer n)
    | none => (float? s).map .float

/-- A character that ends a run. -/
def endsRun (c : Char) : Bool := " \t\r\n,]\x7d#".toList.contains c

/-- A scalar that is not quoted. One blank may stand between a date and a time. -/
def readScalar? (s : List Char) : Option (Toml × List Char) :=
  let run := s.takeWhile (!endsRun ·)
  match s.dropWhile (!endsRun ·) with
  | ' ' :: c :: rest =>
    if isDate run && c.isDigit then
      let more := (c :: rest).takeWhile (!endsRun ·)
      (scalar? (run ++ ' ' :: more)).map (·, (c :: rest).dropWhile (!endsRun ·))
    else (scalar? run).map (·, ' ' :: c :: rest)
  | rest => (scalar? run).map (·, rest)

/-- Digits without underscores are read as they are. -/
theorem digits?_ungrouped {isDigit : Char → Bool} {s : List Char} (h : ∀ c ∈ s, isDigit c = true)
    (hu : '_' ∉ s) (hs : s ≠ []) : digits? isDigit s = some s := by
  fun_induction digits? isDigit s with
  | case1 => exact absurd rfl hs
  | case2 => rfl
  | case3 c hc => simp [hc] at h
  | case4 => simp at hu
  | case5 => simp at hu
  | case6 c s hne _ hc ih =>
    rw [ih (fun c hc => h c (by simp [hc])) (fun hm => hu (by simp [hm])) hne]
    rfl
  | case7 c s _ _ hc => exact absurd (h c (by simp)) hc

end SqlPaging.Toml
