/-!
# SqlPaging — bounded integers

Page numbers, sizes, limits and column values are signed 64-bit integers. No
operation of the library wraps around: it either stops at the end of the range
(`plus`, `minus`, `times`) or refuses a result that does not fit (`plus?`,
`times?`). Every operation is exact integer arithmetic followed by `saturate`
or `fit?`, so that its law is a statement about `Int`.

Main results:

* `toInt_saturate` — saturation is the nearest integer of the range.
* `fit?_eq_some_iff` — a checked result exists exactly when the integer is in
  range, and then it is that integer.
-/

namespace SqlPaging.Integer

/-- The least 64-bit integer. -/
def least : Int := -9223372036854775808

/-- The greatest 64-bit integer. -/
def greatest : Int := 9223372036854775807

/-- The integer has a signed 64-bit form. -/
def InRange (n : Int) : Prop := least ≤ n ∧ n ≤ greatest

instance (n : Int) : Decidable (InRange n) := inferInstanceAs (Decidable (_ ∧ _))

/-- Every 64-bit integer is in range. -/
theorem inRange_toInt (n : Int64) : InRange n.toInt := by
  have := n.toInt_lt
  have := n.le_toInt
  unfold InRange least greatest
  omega

/-- The integer of the range that is nearest to `n`. -/
def saturate (n : Int) : Int64 := Int64.ofInt (max least (min n greatest))

/-- The integer as a 64-bit integer, if it is one. -/
def fit? (n : Int) : Option Int64 := if InRange n then some (Int64.ofInt n) else none

/-- A number that fits into 64 bits is kept. -/
theorem toInt_ofInt {n : Int} (h : InRange n) : (Int64.ofInt n).toInt = n := by
  unfold InRange least greatest at h
  rw [Int64.toInt_ofInt, Int.bmod_def]
  simp only [Int64.size]
  omega

/-- Saturation stops at the ends of the range. -/
theorem toInt_saturate (n : Int) : (saturate n).toInt = max least (min n greatest) := by
  unfold saturate
  apply toInt_ofInt
  unfold InRange least greatest
  omega

/-- Within the range saturation changes nothing. -/
theorem toInt_saturate_of_inRange {n : Int} (h : InRange n) : (saturate n).toInt = n := by
  rw [toInt_saturate]
  unfold InRange at h
  omega

/-- A 64-bit integer saturates to itself. -/
theorem saturate_toInt (n : Int64) : saturate n.toInt = n :=
  Int64.toInt_inj.mp (toInt_saturate_of_inRange (inRange_toInt n))

/-- What fits is the integer of the same value, and no other one. -/
theorem fit?_eq_some_iff {n : Int} {m : Int64} : fit? n = some m ↔ m.toInt = n := by
  unfold fit?
  split
  case isTrue h =>
    rw [Option.some.injEq]
    constructor
    · rintro rfl
      exact toInt_ofInt h
    · rintro rfl
      exact Int64.ofInt_toInt m
  case isFalse h =>
    constructor
    · simp
    · rintro rfl
      exact absurd (inRange_toInt m) h

/-! ## Operations -/

/-- Addition that stops at the ends of the range. -/
def plus (a b : Int64) : Int64 := saturate (a.toInt + b.toInt)

/-- Subtraction that stops at the ends of the range. -/
def minus (a b : Int64) : Int64 := saturate (a.toInt - b.toInt)

/-- Multiplication that stops at the ends of the range. -/
def times (a b : Int64) : Int64 := saturate (a.toInt * b.toInt)

/-- Addition, if the sum is in range. -/
def plus? (a b : Int64) : Option Int64 := fit? (a.toInt + b.toInt)

/-- Multiplication, if the product is in range. -/
def times? (a b : Int64) : Option Int64 := fit? (a.toInt * b.toInt)

/-- A natural number, stopped at the end of the range. -/
def ofLength (n : Nat) : Int64 := saturate n

/-- A length that fits is kept. -/
theorem toInt_ofLength {n : Nat} (h : (n : Int) ≤ greatest) : (ofLength n).toInt = n := by
  apply toInt_saturate_of_inRange
  unfold InRange least
  omega

/-- The decimal text of a 64-bit integer. -/
def text (n : Int64) : String := toString n.toInt

end SqlPaging.Integer
