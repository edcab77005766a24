import SqlPaging.Sql.Lexeme

/-!
# SqlPaging — tokens

The tokens of a statement are its lexemes other than spaces and comments. A
token keeps the gap before it, its place in the text in bytes, and the number of
parentheses that are open around it; a parenthesis itself has the depth of what
is outside of it.

Main results:

* `nestFrom_text` — gaps and tokens and the rest after the last token
  concatenate to the text of the lexemes.
-/

namespace SqlPaging.Sql

/-- The clauses whose places in a statement matter. -/
inductive Clause where
  | filter
  | groupBy
  | having
  | window
  | orderBy
  | limit
  | offset
  | fetch
  /-- `FOR UPDATE` and its kin -/
  | locking
  /-- `UNION` and its kin -/
  | setOperator
deriving DecidableEq, Repr

/-- The name of a clause, as messages show it. -/
def Clause.label : Clause → String
  | .filter => "WHERE"
  | .groupBy => "GROUP BY"
  | .having => "HAVING"
  | .window => "WINDOW"
  | .orderBy => "ORDER BY"
  | .limit => "LIMIT"
  | .offset => "OFFSET"
  | .fetch => "FETCH"
  | .locking => "locking clause"
  | .setOperator => "set operator"

/-- Why paging cannot be put into a statement. Places are byte offsets. -/
inductive Fault where
  | unterminated (region : Region) (at_ : Nat)
  | unexpectedClose (at_ : Nat)
  | unclosed (count : Nat)
  | emptyStatement
  | severalStatements (at_ : Nat)
  | setOperator (at_ : Nat)
  | clausePresent (clause : Clause) (at_ : Nat)
  | emptyCondition (clause : Clause)
  | startsWith (clause : Clause)
deriving DecidableEq, Repr

/-- The message about a fault. -/
def Fault.message : Fault → String
  | .unterminated region at_ =>
    "unterminated " ++ region.label ++ " starting at byte " ++ toString at_
  | .unexpectedClose at_ => "unbalanced parentheses: unexpected ')' at byte " ++ toString at_
  | .unclosed count => "unbalanced parentheses: " ++ toString count ++ " unclosed '('"
  | .emptyStatement => "statement is empty"
  | .severalStatements at_ =>
    "multiple statements are not supported (';' at byte " ++ toString at_ ++ ")"
  | .setOperator at_ =>
    "top-level set operator at byte " ++ toString at_ ++ "; wrap the statement in a subquery"
  | .clausePresent clause at_ =>
    "statement already has a top-level " ++ clause.label ++ " at byte " ++ toString at_
  | .emptyCondition clause => "empty " ++ clause.label ++ " condition"
  | .startsWith clause => "statement starts with " ++ clause.label

/-! ## Tokens -/

/-- A lexeme that is neither a space nor a comment, with its surroundings. -/
structure Token where
  kind : LexemeKind
  text : List Char
  /-- the spaces and comments before it -/
  gap : List Char
  /-- the byte offset of its first character -/
  start : Nat
  /-- the parentheses that are open around it -/
  depth : Nat
deriving DecidableEq, Repr

namespace Token

/-- The token is outside of all parentheses. -/
def topLevel (t : Token) : Bool := t.depth == 0

/-- The name that a placeholder asks for. -/
def placeholder? (t : Token) : Option String :=
  if t.kind = .placeholder then some (String.ofList (t.text.drop 1)) else none

/-- The word in upper case, if the token is a word. -/
def word? (t : Token) : Option (List Char) :=
  if t.kind = .word then some (t.text.map Char.toUpper) else none

/-- The token is one of the given words, which are in upper case. -/
def isWord (t : Token) (words : List String) : Bool :=
  t.word?.any fun w => words.any fun x => x.toList == w

end Token

/-- The number of bytes of a text in UTF-8. -/
def byteLength (s : List Char) : Nat := s.foldr (fun c n => c.utf8Size + n) 0

/-- Tokens, with what comes after the last one. -/
structure Nested where
  tokens : List Token
  /-- the spaces and comments after the last token -/
  rest : List Char
  /-- the parentheses that are open at the end -/
  depth : Nat
deriving DecidableEq, Repr

/-- The tokens of lexemes that start at a byte offset, inside a number of
parentheses, after a gap. -/
def nestFrom (at_ depth : Nat) (gap : List Char) : List Lexeme → Except Fault Nested
  | [] => .ok { tokens := [], rest := gap, depth }
  | l :: ls =>
    let next := at_ + byteLength l.text
    let token (d : Nat) : Token := { kind := l.kind, text := l.text, gap, start := at_, depth := d }
    let before (t : Token) (n : Nested) : Nested := { n with tokens := t :: n.tokens }
    match l.kind with
    -- Spaces and comments are collected for the token that follows them.
    | .space => nestFrom next depth (gap ++ l.text) ls
    | .comment => nestFrom next depth (gap ++ l.text) ls
    | .openParen => (nestFrom next (depth + 1) [] ls).map (before (token depth))
    -- Both parentheses of a group have the depth outside of it.
    | .closeParen =>
      match depth with
      | 0 => .error (.unexpectedClose at_)
      | d + 1 => (nestFrom next d [] ls).map (before (token d))
    | _ => (nestFrom next depth [] ls).map (before (token depth))

/-- A statement's tokens and the text after the last one. -/
structure Scan where
  tokens : List Token
  rest : List Char
deriving DecidableEq, Repr

/-- The tokens of a text, all of whose regions and parentheses are closed. The
first fault in the order of the text is reported. -/
def scan (d : Dialect) (s : List Char) : Except Fault Scan := do
  let (lexemes, open_) := lex d s
  -- A parenthesis that closes nothing stands before the region in which the text ends.
  let nested ← nestFrom 0 0 [] lexemes
  match open_ with
  | some region => .error (.unterminated region (byteLength (lexemeText lexemes)))
  | none =>
    -- All regions are closed; now parentheses have to be.
    if nested.depth = 0 then .ok { tokens := nested.tokens, rest := nested.rest }
    else .error (.unclosed nested.depth)

/-- The text of tokens with the gaps before them. -/
def tokenText (ts : List Token) : List Char := ts.flatMap fun t => t.gap ++ t.text

/-- Tokens with their gaps and the rest behind them make up the text of the
lexemes. -/
theorem nestFrom_text {at_ depth : Nat} {gap : List Char} {ls : List Lexeme} {n : Nested}
    (h : nestFrom at_ depth gap ls = .ok n) :
    tokenText n.tokens ++ n.rest = gap ++ lexemeText ls := by
  induction ls generalizing at_ depth gap n with
  | nil =>
    simp only [nestFrom, Except.ok.injEq] at h
    subst h
    simp [tokenText, lexemeText]
  | cons l ls ih =>
    -- all kinds that become a token differ only in the depths
    have step : ∀ {a b : Nat} {t : Token},
        (nestFrom a b [] ls).map (fun m => { m with tokens := t :: m.tokens }) = .ok n →
        t.gap = gap → t.text = l.text →
        tokenText n.tokens ++ n.rest = gap ++ lexemeText (l :: ls) := by
      intro a b t hm hg ht
      cases hr : nestFrom a b [] ls with
      | error e => simp [hr, Except.map] at hm
      | ok m =>
        simp only [hr, Except.map, Except.ok.injEq] at hm
        subst hm
        have := ih hr
        simp only [tokenText, lexemeText, List.flatMap_cons, List.nil_append] at this ⊢
        rw [List.append_assoc, List.append_assoc, this, hg, ht]
    simp only [nestFrom] at h
    split at h
    · simpa [lexemeText] using ih h
    · simpa [lexemeText] using ih h
    · exact step h rfl rfl
    · split at h
      · simp at h
      · exact step h rfl rfl
    · exact step h rfl rfl

end SqlPaging.Sql
