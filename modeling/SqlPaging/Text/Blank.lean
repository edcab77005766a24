/-!
# SqlPaging — blank characters

The white space of Unicode, and trimming of texts at their ends. ASCII letters
are compared without case by `String.toLower`, which leaves all other
characters alone.

Main results:

* `isBlank_of_isWhitespace` — the table extends the ASCII white space.
* `trim_eq_trimEnd_trimStart` — both ends are trimmed independently.
-/

namespace SqlPaging.Text

/-- The ranges of code points with the property White_Space. -/
def blankRanges : List (Nat × Nat) :=
  [(0x09, 0x0D), (0x20, 0x20), (0x85, 0x85), (0xA0, 0xA0), (0x1680, 0x1680), (0x2000, 0x200A),
   (0x2028, 0x2029), (0x202F, 0x202F), (0x205F, 0x205F), (0x3000, 0x3000)]

/-- A character with the property White_Space. -/
def isBlank (c : Char) : Bool := blankRanges.any fun r => r.1 ≤ c.toNat && c.toNat ≤ r.2

/-- The characters from the first one that is not blank. -/
def trimStart (s : List Char) : List Char := s.dropWhile isBlank

/-- The characters up to the last one that is not blank. -/
def trimEnd (s : List Char) : List Char := (s.reverse.dropWhile isBlank).reverse

/-- The text without the blanks at its ends. -/
def trim (s : String) : String := String.ofList (trimEnd (trimStart s.toList))

/-- White space of ASCII is blank. -/
theorem isBlank_of_isWhitespace {c : Char} (h : c.isWhitespace = true) : isBlank c = true := by
  simp only [Char.isWhitespace, Bool.or_eq_true, decide_eq_true_eq] at h
  rcases h with ((rfl | rfl) | rfl) | rfl <;> decide

/-- Blanks are taken off the front and then off the end. -/
theorem trim_eq_trimEnd_trimStart (s : String) :
    (trim s).toList = trimEnd (trimStart s.toList) := by
  simp [trim]

/-- Two texts are equal up to the case of ASCII letters. -/
def sameIgnoringCase (a b : String) : Bool := a.toLower == b.toLower

end SqlPaging.Text
