import SqlPaging.Dialect

/-!
# SqlPaging — lexemes

A statement is split into lexemes: words, `:name` placeholders, numbers, quoted
regions, parentheses, semicolons, other symbols, and the spaces and comments
between them. Nothing is parsed beyond that. A quoted region or a comment is one
lexeme, so that nothing inside it is taken for a keyword or a placeholder.

The split loses nothing: the lexemes concatenate to the text. A text that ends
inside a quoted region or a block comment has no lexeme from there on, and the
split reports the region it ends in.

Main results:

* `text_lex_of_complete` — the lexemes of a completely split text concatenate to it.
-/

namespace SqlPaging.Sql

/-- The kinds of lexeme. -/
inductive LexemeKind where
  | space
  | comment
  | word
  /-- a colon and a name -/
  | placeholder
  | number
  /-- a string, a quoted identifier or a dollar-quoted string -/
  | quoted
  | openParen
  | closeParen
  | semicolon
  | symbol
deriving DecidableEq, Repr

/-- A piece of a statement. -/
structure Lexeme where
  kind : LexemeKind
  text : List Char
deriving DecidableEq, Repr

/-- The regions that have an end mark of their own. -/
inductive Region where
  | blockComment
  | stringLiteral
  | doubleQuoted
  | quotedIdentifier
  | dollarQuoted
deriving DecidableEq, Repr

/-- The name of a region, as messages show it. -/
def Region.label : Region → String
  | .blockComment => "block comment"
  | .stringLiteral => "string literal"
  | .doubleQuoted => "double-quoted string"
  | .quotedIdentifier => "quoted identifier"
  | .dollarQuoted => "dollar-quoted string"

/-! ## Rules of the dialects -/

/-- The differences between the dialects. -/
structure LexicalRules where
  /-- a backslash takes the next character with it in single and double quotes -/
  backslashEscapes : Bool
  /-- `#` starts a comment -/
  hashComments : Bool
  /-- a block comment may contain block comments -/
  nestedComments : Bool
  /-- `$tag$ … $tag$` and `E'…'` are strings -/
  dollarQuotes : Bool

/-- The rules of a dialect. -/
def LexicalRules.ofDialect : Dialect → LexicalRules
  | .mySql => ⟨true, true, false, false⟩
  | .sqlite => ⟨false, false, false, false⟩
  | .postgres => ⟨false, false, true, true⟩

/-! ## Characters -/

/-- A character that separates words. -/
def isSpace (c : Char) : Bool := c = ' ' || c = '\t' || c = '\n' || c = '\x0c' || c = '\r'

/-- A character that starts a word: a letter, an underscore, or any character
beyond ASCII. -/
def isWordStart (c : Char) : Bool := c = '_' || c.isAlpha || 128 ≤ c.toNat

/-- A character of a name. -/
def isNameChar (c : Char) : Bool := isWordStart c || c.isDigit

/-- A character of a word. -/
def isWordChar (c : Char) : Bool := isNameChar c || c = '$'

/-- A character of a number after its first digit. -/
def isNumberChar (c : Char) : Bool := c.isAlphanum || c = '.'

/-! ## Lengths of regions -/

/-- The number of characters at the front of a text that satisfy a test. -/
def runLength (p : Char → Bool) (s : List Char) : Nat := (s.takeWhile p).length

/-- The number of characters up to and with the end of the line. -/
def lineLength : List Char → Nat
  | [] => 0
  | c :: s => if c = '\n' then 1 else lineLength s + 1

/-- The number of characters of a quoted region after its opening quote, up to
and with its closing quote. A doubled quote does not close the region, nor does
a quote that a backslash takes with it. -/
def quotedLength? (quote : Char) (escapes : Bool) : List Char → Option Nat
  | [] => none
  | c :: s =>
    if escapes && c = '\\' then
      -- The backslash takes the next character with it, whatever it is.
      match s with
      | [] => none
      | _ :: t => (quotedLength? quote escapes t).map (· + 2)
    else if c = quote then
      -- Only the character after the quote shows whether it closes the region.
      match s with
      | [] => some 1
      | d :: t => if d = quote then (quotedLength? quote escapes t).map (· + 2) else some 1
    else (quotedLength? quote escapes s).map (· + 1)

/-- The number of characters of a block comment that is open `depth` times, up to
and with the mark that closes it. -/
def commentLength? (nested : Bool) : Nat → List Char → Option Nat
  | _, [] => none
  | _, [_] => none
  | depth, c :: d :: s =>
    if c = '*' && d = '/' then
      -- Only the mark that closes the outermost comment ends the region.
      if depth ≤ 1 then some 2 else (commentLength? nested (depth - 1) s).map (· + 2)
    else if nested && c = '/' && d = '*' then
      (commentLength? nested (depth + 1) s).map (· + 2)
    else (commentLength? nested depth (d :: s)).map (· + 1)

/-- The number of characters up to and with the first occurrence of a mark. -/
def throughMark? (mark : List Char) : List Char → Option Nat
  | [] => if mark.isEmpty then some 0 else none
  | c :: s =>
    if mark.isPrefixOf (c :: s) then some mark.length
    else (throughMark? mark s).map (· + 1)

/-- The rest of a dollar tag after its first dollar sign: a name that does not
start with a digit, perhaps empty, and a dollar sign. -/
def dollarTag? (s : List Char) : Option (List Char) :=
  let name := s.takeWhile isNameChar
  -- A digit would make it a numbered placeholder.
  if name.head?.any Char.isDigit then none
  else if s[name.length]? = some '$' then some (name ++ ['$'])
  else none

/-! ## One lexeme -/

/-- The kind of the lexeme that starts with a character, and the number of the
characters after it that belong to it; or the region in which the text ends. -/
def lexeme (r : LexicalRules) (c : Char) (s : List Char) : Except Region (LexemeKind × Nat) :=
  let quotedBy (region : Region) (n : Option Nat) : Except Region (LexemeKind × Nat) :=
    match n with
    | some n => .ok (.quoted, n)
    | none => .error region
  if isSpace c then .ok (.space, 0)
  else if c = '-' && s.head? = some '-' then .ok (.comment, lineLength s)
  else if c = '#' && r.hashComments then .ok (.comment, lineLength s)
  else if c = '/' && s.head? = some '*' then
    match commentLength? r.nestedComments 1 (s.drop 1) with
    | some n => .ok (.comment, n + 1)
    | none => .error .blockComment
  else if c = '\'' then quotedBy .stringLiteral (quotedLength? '\'' r.backslashEscapes s)
  else if c = '"' then quotedBy .doubleQuoted (quotedLength? '"' r.backslashEscapes s)
  -- Between backquotes a backslash stands for itself in all dialects.
  else if c = '\x60' then quotedBy .quotedIdentifier (quotedLength? '\x60' false s)
  else if c = '$' && r.dollarQuotes then
    match dollarTag? s with
    | some tag =>
      quotedBy .dollarQuoted
        ((throughMark? ('$' :: tag) (s.drop tag.length)).map (· + tag.length))
    -- A dollar sign without a tag takes the digits of a numbered placeholder with it.
    | none => .ok (.symbol, runLength Char.isDigit s)
  else if c = '(' then .ok (.openParen, 0)
  else if c = ')' then .ok (.closeParen, 0)
  else if c = ';' then .ok (.semicolon, 0)
  -- A cast comes before a placeholder, so that `::name` asks for no parameter.
  else if c = ':' && s.head? = some ':' then .ok (.symbol, 1)
  else if c = ':' && s.head?.any isWordStart then .ok (.placeholder, runLength isNameChar s)
  else if isWordStart c then
    -- The letter of an escape string belongs to the region that follows it.
    if r.dollarQuotes && (c = 'E' || c = 'e') && s.head? = some '\'' then
      quotedBy .stringLiteral ((quotedLength? '\'' true (s.drop 1)).map (· + 1))
    else .ok (.word, runLength isWordChar s)
  else if c.isDigit then .ok (.number, runLength isNumberChar s)
  else .ok (.symbol, 0)

/-! ## All lexemes -/

/-- The lexemes of a text, after as many characters as belong to the lexeme
before it, and the region in which the text ends if it ends in one. -/
def lexFrom (r : LexicalRules) : Nat → List Char → List Lexeme × Option Region
  | _, [] => ([], none)
  | skip + 1, _ :: s => lexFrom r skip s
  | 0, c :: s =>
    match lexeme r c s with
    -- What is left of the text belongs to the region.
    | .error region => ([], some region)
    | .ok (kind, n) =>
      let rest := lexFrom r n s
      ({ kind, text := c :: s.take n } :: rest.1, rest.2)

/-- The lexemes of a text, and the region in which it ends if it ends in one. -/
def lex (d : Dialect) (s : List Char) : List Lexeme × Option Region :=
  lexFrom (.ofDialect d) 0 s

/-- The text of a list of lexemes. -/
def lexemeText (ls : List Lexeme) : List Char := ls.flatMap (·.text)

/-- Where nothing is left open, the lexemes make up the text behind what was
skipped. -/
theorem text_lexFrom_of_complete (r : LexicalRules) (skip : Nat) (s : List Char)
    (h : (lexFrom r skip s).2 = none) : lexemeText (lexFrom r skip s).1 = s.drop skip := by
  fun_induction lexFrom r skip s with
  | case1 => simp [lexemeText]
  | case2 skip c s ih => simpa using ih h
  | case3 c s region hl => simp at h
  | case4 c s kind n hl rest ih =>
    simp only [lexemeText, List.flatMap_cons] at *
    simp [rest, ih h]

/-- Where nothing is left open, the lexemes of a text make up the text. -/
theorem text_lex_of_complete {d : Dialect} {s : List Char} (h : (lex d s).2 = none) :
    lexemeText (lex d s).1 = s :=
  text_lexFrom_of_complete _ 0 s h

end SqlPaging.Sql
