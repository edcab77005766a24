import SqlPaging.Decimal.Layout
import SqlPaging.Json.Reader

/-!
# SqlPaging — JSON writer

Documents are written without blanks. In texts only the quote, the backslash and
control characters are escaped. Doubles are positional from `1e-5` to below
`1e16` and have a point; a double that is no number is written as null.

Main results:

* `escape_of_plain` — a character that needs no escape stands for itself.
-/

namespace SqlPaging.Json

/-! ## Texts -/

/-- The digit of a value below 16. -/
def hexDigit (n : Nat) : Char := Nat.digitChar n

/-- A character inside a text. -/
def escape (c : Char) : List Char :=
  if c = '"' then ['\\', '"']
  else if c = '\\' then ['\\', '\\']
  else if c = '\x08' then ['\\', 'b']
  else if c = '\t' then ['\\', 't']
  else if c = '\n' then ['\\', 'n']
  else if c = '\x0c' then ['\\', 'f']
  else if c = '\r' then ['\\', 'r']
  -- Control characters without a letter of their own are shown by their number.
  else if c.toNat < 32 then
    ['\\', 'u', '0', '0', hexDigit (c.toNat / 16), hexDigit (c.toNat % 16)]
  else [c]

/-- A character that is neither a quote nor a backslash nor a control character is
written as it is. -/
theorem escape_of_plain {c : Char} (hq : c ≠ '"') (hb : c ≠ '\\') (hc : 32 ≤ c.toNat) :
    escape c = [c] := by
  -- no control character has a number from 32 on
  have ne : ∀ d : Char, d.toNat < 32 → c ≠ d := fun d hd h => by subst h; omega
  simp [escape, hq, hb, ne '\x08' (by decide), ne '\t' (by decide), ne '\n' (by decide),
    ne '\x0c' (by decide), ne '\r' (by decide), Nat.not_lt.mpr hc]

/-- A text in its quotes. -/
def quote (s : List Char) : List Char := '"' :: s.flatMap escape ++ ['"']

/-! ## Numbers -/

/-- The text of a number. -/
def Number.chars (n : Number) : List Char :=
  (if n.negative then ['-'] else []) ++ n.whole ++
    (if n.fraction.isEmpty then [] else '.' :: n.fraction) ++
    match n.exponent with
    | none => []
    | some (negative, ds) => 'e' :: (if negative then '-' else '+') :: ds

/-- The number of a natural number. -/
def Number.ofNat (n : Nat) : Number :=
  { negative := false, whole := Nat.toDigits 10 n, fraction := [], exponent := none }

/-- The number of a 64-bit integer. -/
def Number.ofInt (n : Int64) : Number :=
  { Number.ofNat n.toInt.natAbs with negative := n.toInt < 0 }

/-- How doubles are written. -/
def floatLayout : Decimal.Layout :=
  { plain := some (-5, 16)
    pointZero := true
    tie := .toEven
    nan := "null"
    infinity := "null"
    negativeInfinity := "null" }

/-- The document of a double: null if it is no number. -/
def ofFloat (x : Float) : Json :=
  -- The text of a NaN or an infinity is `null`, which is no number.
  match readNumber? (floatLayout.text x).toList with
  | some (n, _) => .number n
  | none => .null

/-- The document of a 64-bit integer. -/
def ofInt (n : Int64) : Json := .number (.ofInt n)

/-- The document of a text. -/
def ofText (s : String) : Json := .string (some s)

/-- The object with the given members. -/
def ofMembers (members : List (String × Json)) : Json :=
  .object (members.map fun m => (some m.1, m.2))

/-! ## Documents -/

mutual

/-- The text of a document. -/
def chars : Json → List Char
  | .null => "null".toList
  | .bool true => "true".toList
  | .bool false => "false".toList
  | .number n => n.chars
  | .string text => quote ((text.getD "").toList)
  | .array items => '[' :: itemChars items ++ [']']
  | .object members => '\x7b' :: memberChars members ++ ['\x7d']

/-- The texts of the items of a list, with commas between them. -/
def itemChars : List Json → List Char
  | [] => []
  | [item] => chars item
  | item :: items => chars item ++ ',' :: itemChars items

/-- The texts of the members of an object, with commas between them. -/
def memberChars : List (Option String × Json) → List Char
  | [] => []
  | [(name, value)] => quote ((name.getD "").toList) ++ ':' :: chars value
  | (name, value) :: members =>
    quote ((name.getD "").toList) ++ ':' :: chars value ++ ',' :: memberChars members

end

/-- The text of a document. -/
def render (json : Json) : String := String.ofList json.chars

end SqlPaging.Json
