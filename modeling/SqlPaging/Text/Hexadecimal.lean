/-!
# SqlPaging — hexadecimal digits

Hexadecimal digits in either case, as they name characters in escapes.
-/

namespace SqlPaging.Text

/-- The value of a hexadecimal digit. -/
def hexValue? (c : Char) : Option Nat :=
  if c.isDigit then some (c.toNat - '0'.toNat)
  else if 'a' ≤ c ∧ c ≤ 'f' then some (c.toNat - 'a'.toNat + 10)
  else if 'A' ≤ c ∧ c ≤ 'F' then some (c.toNat - 'A'.toNat + 10)
  else none

/-- The number that a list of hexadecimal digits names, after a number that is
already read. -/
def hexFrom? (n : Nat) : List Char → Option Nat
  | [] => some n
  | c :: cs => (hexValue? c).bind fun d => hexFrom? (16 * n + d) cs

/-- The number that a list of hexadecimal digits names. -/
def hexNumber? (ds : List Char) : Option Nat := hexFrom? 0 ds

/-- The character with a number, if there is one. -/
def scalar? (n : Nat) : Option Char := if n.isValidChar then some (Char.ofNat n) else none

end SqlPaging.Text
