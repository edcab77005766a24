import SqlPaging.Text.Printable

/-!
# SqlPaging — quoted texts

Messages show lists of texts in brackets, every text in double quotes. Inside the
quotes a quote, a backslash and the usual control characters have a backslash
before them or a letter of their own, and every other character that is not
printable is shown by its number.
-/

namespace SqlPaging.Text

/-- A character inside the quotes. -/
def shown (c : Char) : List Char :=
  if c = '"' then ['\\', '"']
  else if c = '\\' then ['\\', '\\']
  else if c = '\n' then ['\\', 'n']
  else if c = '\r' then ['\\', 'r']
  else if c = '\t' then ['\\', 't']
  else if c = '\x00' then ['\\', '0']
  else if isPrintable c then [c]
  else ['\\', 'u', '\x7b'] ++ Nat.toDigits 16 c.toNat ++ ['\x7d']

/-- A text in its quotes. -/
def quoted (s : String) : String := String.ofList ('"' :: s.toList.flatMap shown ++ ['"'])

/-- A list of texts in brackets. -/
def quotedList (ss : List String) : String := "[" ++ ", ".intercalate (ss.map quoted) ++ "]"

end SqlPaging.Text
