import SqlPaging.Text.Hexadecimal

/-!
# SqlPaging — texts and keys in TOML

Texts are quoted once, for one line, or three times, for several. Between double
quotes a backslash starts an escape; between single quotes all characters stand
for themselves. Control characters other than the tab must be escaped.

Main results:

* `unescape?_eq_self` — a text without backslashes stands for itself.
-/

namespace SqlPaging.Toml

/-- A blank within a line. -/
def isSpace (c : Char) : Bool := c = ' ' || c = '\t'

/-- The characters after the blanks at the front. -/
def skipSpaces (s : List Char) : List Char := s.dropWhile isSpace

/-- A character that may stand in a line of text or in a comment. -/
def isPlain (c : Char) : Bool := c = '\t' || (32 ≤ c.toNat && c.toNat != 127)

/-- Lines of plain characters. -/
def arePlainLines : List Char → Bool
  | '\r' :: '\n' :: s => arePlainLines s
  | '\n' :: s => arePlainLines s
  | c :: s => isPlain c && arePlainLines s
  | [] => true

/-! ## Escapes -/

/-- The character that a letter after a backslash names. -/
def escaped? : Char → Option Char
  | '"' => some '"'
  | '\\' => some '\\'
  | 'b' => some '\x08'
  | 'e' => some '\x1b'
  | 'f' => some '\x0c'
  | 'n' => some '\n'
  | 'r' => some '\r'
  | 't' => some '\t'
  | _ => none

/-- A character of a blank or of a line end. -/
def isGap (c : Char) : Bool := isSpace c || c = '\n' || c = '\r'

/-- Only blanks are left in the line, and the line ends. -/
def endsLine (s : List Char) : Bool :=
  match skipSpaces s with
  | '\n' :: _ => true
  | '\r' :: '\n' :: _ => true
  | _ => false

/-- The character that hexadecimal digits name. -/
def named? (ds : List Char) : Option Char := (Text.hexNumber? ds).bind Text.scalar?

/-- What a text between double quotes stands for. A backslash at the end of a line
drops all blanks and line ends up to the next character; `inGap` says that these
are being dropped. -/
def unescape? (inGap : Bool) : List Char → Option (List Char)
  | [] => some []
  | '\\' :: 'x' :: a :: b :: s => do
    let c ← named? [a, b]
    some (c :: (← unescape? false s))
  | '\\' :: 'u' :: a :: b :: c :: d :: s => do
    let x ← named? [a, b, c, d]
    some (x :: (← unescape? false s))
  | '\\' :: 'U' :: a :: b :: c :: d :: e :: f :: g :: h :: s => do
    let x ← named? [a, b, c, d, e, f, g, h]
    some (x :: (← unescape? false s))
  | '\\' :: c :: s =>
    match escaped? c with
    | some x => (unescape? false s).map (x :: ·)
    -- No letter: the backslash has to be the last character of its line.
    | none => if endsLine (c :: s) then unescape? true s else none
  | c :: s =>
    -- What follows the backslash is dropped up to the next character.
    if inGap && isGap c then unescape? true s
    else if c = '\\' then none
    else (unescape? false s).map (c :: ·)

/-- A text without backslashes stands for itself. -/
theorem unescape?_eq_self {s : List Char} (h : '\\' ∉ s) : unescape? false s = some s := by
  induction s with
  | nil => rfl
  | cons c s ih =>
    simp only [List.mem_cons, not_or] at h
    have hc : c ≠ '\\' := fun he => h.1 he.symm
    unfold unescape?
    split <;> simp_all

/-! ## Quotes -/

/-- The characters up to the closing double quote, and what comes after it. -/
def untilQuote? : List Char → Option (List Char × List Char)
  | [] => none
  | '"' :: s => some ([], s)
  -- An escaped quote does not close the text.
  | '\\' :: c :: s => (untilQuote? s).map fun (t, rest) => ('\\' :: c :: t, rest)
  | c :: s => (untilQuote? s).map fun (t, rest) => (c :: t, rest)

/-- The characters up to three closing quotes, and what comes after them. Up to two
more quotes before them belong to the text. A backslash protects the character
after it where escapes are known. -/
def untilQuotes? (quote : Char) (escapes : Bool) : List Char → Option (List Char × List Char)
  | [] => none
  | [_] => none
  | [_, _] => none
  | a :: b :: c :: s =>
    if escapes && a = '\\' then
      (untilQuotes? quote escapes (c :: s)).map fun (t, rest) => (a :: b :: t, rest)
    else if a = quote && b = quote && c = quote then
      -- Five quotes are two of the text and three that close it.
      let more := (s.takeWhile (· = quote)).take 2
      some (more, s.drop more.length)
    else (untilQuotes? quote escapes (b :: c :: s)).map fun (t, rest) => (a :: t, rest)

/-- A text of several lines starts in the line after its quotes, if that line is
otherwise empty. -/
def dropLineEnd : List Char → List Char
  | '\n' :: s => s
  | '\r' :: '\n' :: s => s
  | s => s

/-- A text after its opening double quote. -/
def readBasic? (s : List Char) : Option (List Char × List Char) := do
  let (raw, rest) ← untilQuote? s
  if raw.all isPlain then some (← unescape? false raw, rest) else none

/-- A text after three opening double quotes. -/
def readBasicLines? (s : List Char) : Option (List Char × List Char) := do
  let (raw, rest) ← untilQuotes? '"' true (dropLineEnd s)
  if arePlainLines raw then some (← unescape? false raw, rest) else none

/-- A text after its opening single quote. -/
def readLiteral? (s : List Char) : Option (List Char × List Char) :=
  let raw := s.takeWhile (· != '\'')
  match s.dropWhile (· != '\'') with
  | _ :: rest => if raw.all isPlain then some (raw, rest) else none
  | [] => none

/-- A text after three opening single quotes. -/
def readLiteralLines? (s : List Char) : Option (List Char × List Char) := do
  let (raw, rest) ← untilQuotes? '\'' false (dropLineEnd s)
  if arePlainLines raw then some (raw, rest) else none

/-- A quoted text. -/
def readText? : List Char → Option (List Char × List Char)
  | '"' :: '"' :: '"' :: s => readBasicLines? s
  | '"' :: s => readBasic? s
  | '\'' :: '\'' :: '\'' :: s => readLiteralLines? s
  | '\'' :: s => readLiteral? s
  | _ => none

end SqlPaging.Toml
