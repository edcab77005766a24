import SqlPaging.Decimal.Shortest

/-!
# SqlPaging — decimal reader

Numbers in text form: an optional sign, digits with an optional point, and an
optional exponent; or one of the words `inf`, `infinity` and `nan` in any case.
There is at least one digit before the exponent and at least one in it, and
nothing else around the number. A number is rounded once, to nearest.

Main results:

* `ofDigits_toDigits` — the digits of a natural number are read back.
-/

namespace SqlPaging.Decimal

/-- What a number text stands for. -/
inductive Reading where
  | number (negative : Bool) (value : Decimal)
  | infinite (negative : Bool)
  | nan (negative : Bool)
deriving DecidableEq, Repr

/-- The value of a list of decimal digits. -/
def ofDigits (ds : List Char) : Nat := Nat.ofDigitChars 10 ds 0

/-- The digits of a number stand for that number. -/
theorem ofDigits_toDigits (n : Nat) : ofDigits (Nat.toDigits 10 n) = n :=
  Nat.ofDigitChars_toDigits (by decide) (by decide)

/-- A sign, if there is one, and the characters after it. -/
def splitSign : List Char → Bool × List Char
  | '-' :: s => (true, s)
  | '+' :: s => (false, s)
  | s => (false, s)

/-- The exponent at the end of a number text: none, or a mark, a sign and digits. -/
def readExponent? : List Char → Option Int
  | [] => some 0
  | c :: s =>
    if c = 'e' ∨ c = 'E' then
      let (negative, ds) := splitSign s
      if ds.isEmpty || !ds.all Char.isDigit then none
      else some (if negative then -(ofDigits ds : Int) else ofDigits ds)
    else none

/-- A number text without its sign. -/
def readUnsigned? (s : List Char) : Option Decimal :=
  let whole := s.takeWhile Char.isDigit
  let afterWhole := s.dropWhile Char.isDigit
  let (fraction, rest) :=
    match afterWhole with
    | '.' :: t => (t.takeWhile Char.isDigit, t.dropWhile Char.isDigit)
    | t => ([], t)
  -- A point needs a digit on one side of it.
  if whole.isEmpty && fraction.isEmpty then none
  else (readExponent? rest).map fun e =>
    { digits := ofDigits (whole ++ fraction), exponent := e - fraction.length }

/-- What the text stands for, if it is a number text. -/
def read? (text : String) : Option Reading :=
  let (negative, s) := splitSign text.toList
  match readUnsigned? s with
  | some d => some (.number negative d)
  | none =>
    -- The words may be in any case.
    let word := s.map Char.toLower
    if word = "inf".toList ∨ word = "infinity".toList then some (.infinite negative)
    else if word = "nan".toList then some (.nan negative)
    else none

/-! ## Rounding -/

/-- The decimal is so large that every format rounds it to infinity. -/
def huge (d : Decimal) : Bool := 400 < d.exponent + digitCount d.digits

/-- The decimal is so small that every format rounds it to zero. -/
def tiny (d : Decimal) : Bool := d.exponent + digitCount d.digits < -400

/-- The bits of the double nearest to a decimal. -/
def bits64 (d : Decimal) : UInt64 :=
  if d.digits = 0 ∨ d.tiny then 0
  else if d.huge then 0x7FF0000000000000
  else (Float.ofScientific d.digits (d.exponent < 0) d.exponent.natAbs).toBits

/-- The bits of the single-precision number nearest to a decimal. -/
def bits32 (d : Decimal) : UInt32 :=
  if d.digits = 0 ∨ d.tiny then 0
  else if d.huge then 0x7F800000
  else (Float32.ofScientific d.digits (d.exponent < 0) d.exponent.natAbs).toBits

/-- The bits of the double that the text stands for. -/
def Reading.bits64 : Reading → UInt64
  | .number negative d => (if negative then 0x8000000000000000 else 0) ||| d.bits64
  | .infinite negative => (if negative then 0x8000000000000000 else 0) ||| 0x7FF0000000000000
  | .nan negative => (if negative then 0x8000000000000000 else 0) ||| 0x7FF8000000000000

/-- The bits of the single-precision number that the text stands for. -/
def Reading.bits32 : Reading → UInt32
  | .number negative d => (if negative then 0x80000000 else 0) ||| d.bits32
  | .infinite negative => (if negative then 0x80000000 else 0) ||| 0x7F800000
  | .nan negative => (if negative then 0x80000000 else 0) ||| 0x7FC00000

/-- The text names a finite number, but the double that it stands for is infinite. -/
def Reading.overflows : Reading → Bool
  | .number _ d => 0x7FF0000000000000 ≤ d.bits64
  | _ => false

/-- The double that the text stands for. -/
def Reading.toFloat (r : Reading) : Float := Float.ofBits r.bits64

/-- The single-precision number that the text stands for, as a double. -/
def Reading.toFloatOfSingle (r : Reading) : Float := (Float32.ofBits r.bits32).toFloat

end SqlPaging.Decimal
