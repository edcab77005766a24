/-!
# SqlPaging — shortest decimals

A binary floating-point number stands for every real number that rounds to it.
Among the decimals in that interval the library writes one with the fewest
digits, and of those one nearest to the number.

A finite double is `m · 2^q`. Scaled by a power of ten, its four-fold and the
ends of its interval are whole numbers (`Interval`), so the search compares
naturals only: it tries ever finer decimal grids and takes the first one on
which a neighbour of the number lies in the interval. The finest grid contains
the number itself, so the search always ends with a decimal of the interval.

Main results:

* `Interval.search_mem` — the decimal found lies in the interval.
* `Interval.search_coarsest` — no coarser grid that was tried has a neighbour
  of the number in the interval.
-/

namespace SqlPaging

/-- The decimal `digits · 10^exponent`. -/
structure Decimal where
  digits : Nat
  exponent : Int
deriving DecidableEq, Repr

namespace Decimal

/-- Which of two equally near decimals is taken. -/
inductive Tie where
  /-- the one whose last digit is even -/
  | toEven
  /-- the greater one -/
  | upward
deriving DecidableEq, Repr

/-! ## Intervals -/

/-- A positive number and the ends of its rounding interval, all as multiples of
`10^(-scale)`. -/
structure Interval where
  value : Nat
  low : Nat
  high : Nat
  /-- the ends belong to the interval -/
  closed : Bool
  scale : Nat
deriving Repr

/-- The scaled decimal lies in the interval. -/
def Interval.mem (i : Interval) (n : Nat) : Bool :=
  if i.closed then i.low ≤ n && n ≤ i.high else i.low < n && n < i.high

/-- The interval of the double with the given significand and exponent. The gap
below a power of two is half the gap above it; ends belong to the interval
exactly when the significand is even. -/
def Interval.ofBinary (m : Nat) (q : Int) (narrowBelow : Bool) : Interval :=
  -- The ends are quarters of `2^q`, and a power of five clears a negative exponent.
  let shift := q - 2
  let unit := Nat.pow 2 shift.toNat * Nat.pow 5 (-shift).toNat
  { value := 4 * m * unit
    low := (if narrowBelow then 4 * m - 1 else 4 * m - 2) * unit
    high := (4 * m + 2) * unit
    closed := m % 2 == 0
    scale := (-shift).toNat }

/-- The multiplier of a neighbour of the number on the grid of multiples of
`10^j` that lies in the interval, the nearer one if both do. -/
def Interval.hit? (i : Interval) (tie : Tie) (j : Nat) : Option Nat :=
  let unit := Nat.pow 10 j
  let a := i.value / unit
  match i.mem (a * unit), i.mem ((a + 1) * unit) with
  | false, false => none
  | true, false => some a
  | false, true => some (a + 1)
  | true, true =>
    -- The number is compared with the middle between its neighbours.
    match compare (2 * i.value) ((2 * a + 1) * unit) with
    | .lt => some a
    | .gt => some (a + 1)
    | .eq =>
      match tie with
      | .upward => some (a + 1)
      | .toEven => some (if a % 2 == 0 then a else a + 1)

/-- The multiplier and the grid of the first hit, from the grid `10^j` to the
grid of units, where the number itself is taken. -/
def Interval.search (i : Interval) (tie : Tie) : Nat → Nat × Nat
  | 0 => ((i.hit? tie 0).getD i.value, 0)
  | j + 1 =>
    match i.hit? tie (j + 1) with
    | some a => (a, j + 1)
    | none => i.search tie j

/-- The number of decimal digits of a positive natural number. -/
def digitCount (n : Nat) : Nat := (Nat.toDigits 10 n).length

/-- The shortest decimal of the interval. -/
def Interval.shortest (i : Interval) (tie : Tie) : Decimal :=
  -- On a coarser grid the first multiple would be more than ten times the number.
  let found := i.search tie (digitCount i.value)
  { digits := found.1, exponent := (found.2 : Int) - i.scale }

/-- A multiple that is hit lies in the interval. -/
theorem Interval.mem_of_hit? {i : Interval} {tie : Tie} {j a : Nat} (h : i.hit? tie j = some a) :
    i.mem (a * Nat.pow 10 j) = true := by
  simp only [hit?] at h
  split at h
  · simp at h
  · -- only the lower neighbour is in the interval
    next h₁ _ => cases h; exact h₁
  · -- only the upper one is
    next _ h₂ => cases h; exact h₂
  · next h₁ h₂ =>
    split at h
    · cases h; exact h₁
    · cases h; exact h₂
    · split at h
      · cases h; exact h₂
      · cases h
        split
        · exact h₁
        · exact h₂

/-- What the search finds lies in the interval. -/
theorem Interval.search_mem {i : Interval} (tie : Tie) (hv : i.mem i.value = true) (j : Nat) :
    i.mem ((i.search tie j).1 * Nat.pow 10 (i.search tie j).2) = true := by
  induction j with
  | zero =>
    simp only [search]
    cases h : i.hit? tie 0 with
    | none => simpa using hv
    | some a => simpa using mem_of_hit? h
  | succ j ih =>
    simp only [search]
    split
    · next a h => exact mem_of_hit? h
    · exact ih

/-- No power of ten that is coarser, up to the first one that was tried, has a
multiple in the interval. -/
theorem Interval.search_coarsest (i : Interval) (tie : Tie) (j k : Nat)
    (hlt : (i.search tie j).2 < k) (hle : k ≤ j) : i.hit? tie k = none := by
  induction j with
  | zero => simp only [search] at hlt; omega
  | succ j ih =>
    simp only [search] at hlt
    split at hlt
    · next a h => simp at hlt; omega
    · next h =>
      rcases Nat.lt_or_ge j k with hk | hk
      · have : k = j + 1 := by omega
        subst this
        exact h
      · exact ih hlt hk

/-! ## Doubles -/

/-- What a double stands for. -/
inductive Shape where
  /-- the number `± m · 2^q`, with its interval -/
  | finite (negative : Bool) (m : Nat) (q : Int) (narrowBelow : Bool)
  | infinite (negative : Bool)
  | nan
deriving DecidableEq, Repr

/-- The shape of the double with the given bits. -/
def Shape.ofBits (b : UInt64) : Shape :=
  let negative := b >>> 63 == 1
  let e := ((b >>> 52) &&& 0x7FF).toNat
  let f := (b &&& 0xFFFFFFFFFFFFF).toNat
  if e == 0x7FF then
    if f == 0 then .infinite negative else .nan
  -- Without a leading bit the exponent is that of the smallest normal double.
  else if e == 0 then .finite negative f (-1074) false
  else .finite negative (4503599627370496 + f) ((e : Int) - 1075) (f == 0 && e > 1)

end Decimal

end SqlPaging
