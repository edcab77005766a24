import SqlPaging.Decimal.Reader
import SqlPaging.Fields
import SqlPaging.Integer

/-!
# SqlPaging — JSON documents

A document is kept as it was written: the members of an object in order, with
repeated names; numbers as their digits; and a text only if it is one, since an
escape sequence can name half of a surrogate pair. What is allowed where, and how
large a number may be, is decided by those who read the document
(`SqlPaging.Json.Record`).

A number becomes a double in steps: the digits that fit a 64-bit word are taken
as a whole number, and that is multiplied or divided by a power of ten. Each step
rounds.

Main results:

* `Number.int?_of_point` — a number with a fraction is no integer.
-/

namespace SqlPaging

/-- A number as it was written. -/
structure Json.Number where
  negative : Bool
  /-- the digits before the point -/
  whole : List Char
  /-- the digits after the point -/
  fraction : List Char
  /-- the sign and the digits of the exponent -/
  exponent : Option (Bool × List Char)
deriving DecidableEq, Repr

/-- A JSON document. -/
inductive Json where
  | null
  | bool (b : Bool)
  | number (n : Json.Number)
  /-- a text, if it has no lone half of a surrogate pair -/
  | string (text : Option String)
  | array (items : List Json)
  | object (members : List (Option String × Json))
deriving Repr

namespace Json

instance : Inhabited Json := ⟨.null⟩

namespace Number

/-! ## Integers -/

/-- The number is written without a point and without an exponent. -/
def plain (n : Number) : Bool := n.fraction.isEmpty && n.exponent.isNone

/-- The value of the digits before the point. -/
def magnitude (n : Number) : Nat := Decimal.ofDigits n.whole

/-- The 64-bit integer that the number is. A negative zero is none. -/
def int? (n : Number) : Option Int64 :=
  -- A negative zero is a double, since its sign counts.
  if n.plain && !(n.negative && n.magnitude == 0) then
    Integer.fit? (if n.negative then -(n.magnitude : Int) else n.magnitude)
  else none

/-- A number with a fraction is no integer, whatever its digits are. -/
theorem int?_of_point {n : Number} (h : n.fraction ≠ []) : n.int? = none := by
  cases hf : n.fraction with
  | nil => exact absurd hf h
  | cons c cs => simp [int?, plain, hf]

/-! ## Doubles -/

/-- The greatest unsigned 64-bit integer. -/
def wordMax : Nat := 18446744073709551615

/-- The longest run of digits whose value, continuing a value, fits a 64-bit
word: the value after it and the digits that are left. -/
def takeWord : Nat → List Char → Nat × List Char
  | v, [] => (v, [])
  | v, c :: s =>
    let next := 10 * v + (c.toNat - '0'.toNat)
    if next ≤ wordMax then takeWord next s else (v, c :: s)

/-- The significand that fits a 64-bit word, and the power of ten that the
position of its last digit stands for. Further digits are dropped. -/
def significand (n : Number) : Nat × Int :=
  let (v, left) := takeWord 0 n.whole
  let (w, unread) := takeWord v n.fraction
  (w, (left.length : Int) - (n.fraction.length - unread.length : Nat))

/-- The greatest exponent that counts. -/
def exponentMax : Nat := 2147483647

/-- The power of ten as a double. -/
def powerOfTen (e : Nat) : Float := Float.ofScientific 1 false e

/-- A double times a power of ten: one multiplication or division, and more
divisions for a power that is no double. An infinite result is none. -/
def scale? : Nat → Float → Int → Option Float
  | 0, _, _ => none
  | steps + 1, x, e =>
    if e.natAbs ≤ 308 then
      if 0 ≤ e then
        let y := x * powerOfTen e.natAbs
        if y.isInf then none else some y
      else some (x / powerOfTen e.natAbs)
    -- A zero stays zero, whatever the power is.
    else if x == 0 then some x
    else if 0 ≤ e then none
    -- Two divisions make any 64-bit word zero, so few steps are enough.
    else scale? steps (x / 1e308) (e + 308)

/-- The number as a double without its sign, if it is not too large. -/
def unsignedFloat? (n : Number) : Option Float :=
  let (v, position) := n.significand
  match n.exponent with
  | none => scale? 4 (Float.ofScientific v false 0) position
  | some (negative, ds) =>
    let e := Decimal.ofDigits ds
    -- Beyond the greatest exponent only zero and tiny numbers are left.
    if exponentMax < e then if v ≠ 0 && !negative then none else some 0
    else scale? 4 (Float.ofScientific v false 0)
      (if negative then position - e else position + e)

/-- The number as a double, if it is not too large. -/
def float? (n : Number) : Option Float :=
  n.unsignedFloat?.map fun x => if n.negative then -x else x

end Number

end Json

end SqlPaging
