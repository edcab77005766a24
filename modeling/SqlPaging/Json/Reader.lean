import SqlPaging.Json.Basic
import SqlPaging.Text.Hexadecimal

/-!
# SqlPaging — JSON reader

Reads a whole text as one document. The grammar is that of JSON alone: no
leading zeros, no raw control characters in a text, no marks after the last
item, blanks only where they may stand.

The reader descends by a bound that every bracket and every item uses up; the
length of the text is enough for any document in it.

Main results:

* `parse?_empty` — the empty text is no document.
-/

namespace SqlPaging.Json

/-- A blank of the grammar. -/
def isBlank (c : Char) : Bool := c = ' ' || c = '\t' || c = '\n' || c = '\r'

/-- The characters after the blanks at the front. -/
def skipBlanks (s : List Char) : List Char := s.dropWhile isBlank

/-! ## Numbers -/

/-- One or more digits. -/
def readDigits? (s : List Char) : Option (List Char × List Char) :=
  let ds := s.takeWhile Char.isDigit
  if ds.isEmpty then none else some (ds, s.dropWhile Char.isDigit)

/-- The digits before the point: a zero, or digits that start with none. -/
def readWhole? : List Char → Option (List Char × List Char)
  | '0' :: s => some (['0'], s)
  | s => readDigits? s

/-- The digits after a point, if there is one. -/
def readFraction? : List Char → Option (List Char × List Char)
  | '.' :: s => readDigits? s
  | s => some ([], s)

/-- The sign and the digits of an exponent, if there is one. -/
def readPower? : List Char → Option (Option (Bool × List Char) × List Char)
  | c :: s =>
    if c = 'e' ∨ c = 'E' then
      let (negative, t) := Decimal.splitSign s
      (readDigits? t).map fun (ds, r) => (some (negative, ds), r)
    else some (none, c :: s)
  | [] => some (none, [])

/-- A number. -/
def readNumber? (s : List Char) : Option (Number × List Char) := do
  -- Only a minus sign may stand here; an exponent may also have a plus sign.
  let (negative, s) := match s with
    | '-' :: t => (true, t)
    | t => (false, t)
  let (whole, s) ← readWhole? s
  let (fraction, s) ← readFraction? s
  let (exponent, s) ← readPower? s
  some ({ negative, whole, fraction, exponent }, s)

/-! ## Texts -/

/-- The 16-bit unit that four hexadecimal digits name. -/
def unit? (a b c d : Char) : Option Nat := Text.hexNumber? [a, b, c, d]

/-- The first half of a surrogate pair. -/
def isHighHalf (u : Nat) : Bool := 0xD800 ≤ u && u ≤ 0xDBFF

/-- The second half of a surrogate pair. -/
def isLowHalf (u : Nat) : Bool := 0xDC00 ≤ u && u ≤ 0xDFFF

/-- The character that two halves name. -/
def joinHalves (high low : Nat) : Char :=
  Char.ofNat (0x10000 + (high - 0xD800) * 1024 + (low - 0xDC00))

/-- The character that a letter after a backslash names. -/
def escaped? : Char → Option Char
  | '"' => some '"'
  | '\\' => some '\\'
  | '/' => some '/'
  | 'b' => some '\x08'
  | 'f' => some '\x0c'
  | 'n' => some '\n'
  | 'r' => some '\r'
  | 't' => some '\t'
  | _ => none

/-- A part of a written text. -/
inductive Piece where
  /-- a character that stands for itself or that a letter names -/
  | char (c : Char)
  /-- a 16-bit unit that digits name -/
  | unit (u : Nat)
deriving DecidableEq, Repr

/-- The parts of a text after its opening quote, and what comes after its closing
quote. -/
def readPieces? : List Char → Option (List Piece × List Char)
  | [] => none
  | '"' :: r => some ([], r)
  | '\\' :: 'u' :: a :: b :: c :: d :: r => do
    let u ← unit? a b c d
    let (more, rest) ← readPieces? r
    some (.unit u :: more, rest)
  | '\\' :: e :: r => do
    let c ← escaped? e
    let (more, rest) ← readPieces? r
    some (.char c :: more, rest)
  | c :: r =>
    -- A backslash at the end of the text escapes nothing.
    if c.toNat < 32 ∨ c = '\\' then none
    else do
      let (more, rest) ← readPieces? r
      some (.char c :: more, rest)

/-- The characters of the parts, if no unit is a lone half of a pair. -/
def joinPieces? : List Piece → Option (List Char)
  | [] => some []
  | .char c :: r => (joinPieces? r).map (c :: ·)
  | .unit u :: r =>
    if isHighHalf u then
      match r with
      | .unit v :: t => if isLowHalf v then (joinPieces? t).map (joinHalves u v :: ·) else none
      | _ => none
    -- A second half has to follow a first one.
    else if isLowHalf u then none
    else (joinPieces? r).map (Char.ofNat u :: ·)

/-- A text after its opening quote. -/
def readText? (s : List Char) : Option (Option String × List Char) :=
  (readPieces? s).map fun (pieces, r) => ((joinPieces? pieces).map String.ofList, r)

/-- A name of a member with its colon. -/
def readName? (s : List Char) : Option (Option String × List Char) :=
  match skipBlanks s with
  | '"' :: t => do
    let (name, r) ← readText? t
    match skipBlanks r with
    | ':' :: u => some (name, u)
    | _ => none
  | _ => none

/-! ## Documents -/

mutual

/-- A value. -/
def readValue? : Nat → List Char → Option (Json × List Char)
  | 0, _ => none
  | bound + 1, s =>
    match skipBlanks s with
    | 'n' :: 'u' :: 'l' :: 'l' :: r => some (.null, r)
    | 't' :: 'r' :: 'u' :: 'e' :: r => some (.bool true, r)
    | 'f' :: 'a' :: 'l' :: 's' :: 'e' :: r => some (.bool false, r)
    | '"' :: r => (readText? r).map fun (text, rest) => (.string text, rest)
    | '[' :: r =>
      match skipBlanks r with
      | ']' :: t => some (.array [], t)
      | _ => (readItems? bound r).map fun (items, rest) => (.array items, rest)
    | '\x7b' :: r =>
      match skipBlanks r with
      | '\x7d' :: t => some (.object [], t)
      | _ => (readMembers? bound r).map fun (members, rest) => (.object members, rest)
    -- What is left can only be a number.
    | r => (readNumber? r).map fun (n, rest) => (.number n, rest)

/-- The items of a list, and its closing bracket. -/
def readItems? : Nat → List Char → Option (List Json × List Char)
  | 0, _ => none
  | bound + 1, s => do
    let (item, r) ← readValue? bound s
    match skipBlanks r with
    | ']' :: t => some ([item], t)
    | ',' :: t =>
      let (items, rest) ← readItems? bound t
      some (item :: items, rest)
    | _ => none

/-- The members of an object, and its closing bracket. -/
def readMembers? : Nat → List Char → Option (List (Option String × Json) × List Char)
  | 0, _ => none
  | bound + 1, s => do
    let (name, r) ← readName? s
    let (value, r) ← readValue? bound r
    match skipBlanks r with
    | '\x7d' :: t => some ([(name, value)], t)
    | ',' :: t =>
      let (members, rest) ← readMembers? bound t
      some ((name, value) :: members, rest)
    | _ => none

end

/-- The document that the whole text is. -/
def parseChars? (s : List Char) : Option Json := do
  -- Each character of the text uses up at most two of the bound.
  let (json, rest) ← readValue? (2 * s.length + 1) s
  if (skipBlanks rest).isEmpty then some json else none

/-- The document that the whole text is. -/
def parse? (text : String) : Option Json := parseChars? text.toList

/-- The empty text is no document. -/
theorem parse?_empty : parse? "" = none := by decide

end SqlPaging.Json
