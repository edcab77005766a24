import SqlPaging.Decimal.Shortest

/-!
# SqlPaging — number layouts

A layout says how the shortest decimal of a double is written: up to which
size it is positional, and what stands for the values that are no number. Each
output format of the library has one layout, defined where the format is.
-/

namespace SqlPaging.Decimal

/-- The decisions of a number format. -/
structure Layout where
  /-- exponents of the leading digit, from the first to below the second, that
  are written positionally; without bounds all are -/
  plain : Option (Int × Int)
  /-- a whole number is written with `.0` -/
  pointZero : Bool
  /-- which of two equally near decimals is written -/
  tie : Tie
  nan : String
  infinity : String
  negativeInfinity : String
deriving Repr

/-- A number with this exponent of the leading digit is written positionally. -/
def Layout.positional (l : Layout) (e : Int) : Bool :=
  match l.plain with
  | none => true
  | some (low, high) => low ≤ e && e < high

/-- The given number of zero digits. -/
def zeros (n : Nat) : List Char := List.replicate n '0'

/-- The digits, with the point after the first `point` of them. -/
def Layout.fixed (l : Layout) (digits : List Char) (point : Int) : List Char :=
  -- The digits start behind the point.
  if point ≤ 0 then
    '0' :: '.' :: (zeros (-point).toNat ++ digits)
  else if point < digits.length then
    digits.take point.toNat ++ '.' :: digits.drop point.toNat
  else
    digits ++ zeros (point.toNat - digits.length) ++ (if l.pointZero then ['.', '0'] else [])

/-- The digits with the point after the first one, and the exponent with its sign. -/
def scientific (digits : List Char) (exponent : Int) : List Char :=
  let rest := digits.drop 1
  digits.take 1 ++ (if rest.isEmpty then [] else '.' :: rest) ++
    'e' :: (if exponent < 0 then '-' else '+') :: Nat.toDigits 10 exponent.natAbs

/-- The text of a positive decimal. -/
def Layout.decimal (l : Layout) (d : Decimal) : List Char :=
  let digits := Nat.toDigits 10 d.digits
  let point := d.exponent + digits.length
  if l.positional (point - 1) then l.fixed digits point else scientific digits (point - 1)

/-- The text of a shape. -/
def Layout.shape (l : Layout) : Shape → String
  | .nan => l.nan
  | .infinite false => l.infinity
  | .infinite true => l.negativeInfinity
  | .finite negative m q narrowBelow =>
    let body :=
      -- Zero has no interval of its own, and keeps its sign.
      if m == 0 then l.fixed ['0'] 1
      else l.decimal ((Interval.ofBinary m q narrowBelow).shortest l.tie)
    String.ofList (if negative then '-' :: body else body)

/-- The text of a double. -/
def Layout.text (l : Layout) (x : Float) : String := l.shape (.ofBits x.toBits)

end SqlPaging.Decimal
