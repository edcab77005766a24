import SqlPaging.Sql.Token

/-!
# SqlPaging — statements

A statement is one scanned SQL statement without the semicolons at its end. Its
*markers* are the places where its own clauses start, found by their keywords
outside of all parentheses. They decide whether the statement can be paged at
all and where text is put into it.

Main results:

* `text_of_parse` — a statement's body and rest concatenate to the parsed text.
* `noSemicolon_of_parse` — no token of a statement is a semicolon.
-/

namespace SqlPaging.Sql

/-- One statement. -/
structure Statement where
  tokens : List Token
  /-- what comes after the last token: semicolons, spaces and comments -/
  rest : List Char
deriving DecidableEq, Repr

/-- The tokens without the semicolons at their end, and the text of those. -/
def splitSemicolons : List Token → List Token × List Token
  | [] => ([], [])
  | t :: ts =>
    let (body, dropped) := splitSemicolons ts
    -- A semicolon goes only if nothing but semicolons follows it.
    if body.isEmpty && t.kind = .semicolon then ([], t :: dropped) else (t :: body, dropped)

namespace Statement

/-- The statement that a text holds. -/
def parse (d : Dialect) (s : List Char) : Except Fault Statement := do
  let found ← scan d s
  let (body, dropped) := splitSemicolons found.tokens
  if body.isEmpty then .error .emptyStatement
  else
    -- A semicolon that is left has a statement behind it.
    match body.find? (·.kind = .semicolon) with
    | some t => .error (.severalStatements t.start)
    | none => .ok { tokens := body, rest := tokenText dropped ++ found.rest }

/-- The text of a statement up to its last token. -/
def body (s : Statement) : List Char := tokenText s.tokens

/-- The tokens that are kept and the semicolons at the end make up the text of
them all. -/
theorem splitSemicolons_text (ts : List Token) :
    tokenText (splitSemicolons ts).1 ++ tokenText (splitSemicolons ts).2 = tokenText ts := by
  induction ts with
  | nil => rfl
  | cons t ts ih =>
    simp only [splitSemicolons]
    split
    · next h =>
      simp only [Bool.and_eq_true, List.isEmpty_iff] at h
      simp only [h.1, tokenText, List.flatMap_nil, List.nil_append, List.flatMap_cons] at ih ⊢
      rw [ih]
    · simp only [tokenText, List.flatMap_cons, List.append_assoc] at ih ⊢
      rw [ih]

/-- A statement that parses has no semicolon among its tokens. -/
theorem noSemicolon_of_parse {d : Dialect} {s : List Char} {st : Statement}
    (h : parse d s = .ok st) : ∀ t ∈ st.tokens, t.kind ≠ .semicolon := by
  simp only [parse, bind, Except.bind] at h
  split at h
  · simp at h
  · split at h
    · simp at h
    · split at h
      · simp at h
      · next hf =>
        cases h
        simpa using hf

/-! ## Markers -/

/-- The place where a clause starts: the index of the first and of the last token
of its keyword. -/
structure Marker where
  clause : Clause
  first : Nat
  last : Nat
deriving DecidableEq, Repr

/-- The clause that a top-level token starts, given the token after it, and
whether the keyword has two words. -/
def clauseAt (t : Token) (next : Option Token) : Option (Clause × Bool) :=
  let followedBy (words : List String) : Bool := next.any (·.isWord words)
  -- A clause of a subquery is none of the statement's own.
  if !t.topLevel then none
  else if t.isWord ["WHERE"] then some (.filter, false)
  else if t.isWord ["HAVING"] then some (.having, false)
  else if t.isWord ["WINDOW"] then some (.window, false)
  else if t.isWord ["LIMIT"] then some (.limit, false)
  else if t.isWord ["OFFSET"] then some (.offset, false)
  else if t.isWord ["FETCH"] then some (.fetch, false)
  -- The next four words are in use elsewhere, and need the word behind them.
  else if t.isWord ["GROUP"] && followedBy ["BY"] then some (.groupBy, true)
  else if t.isWord ["ORDER"] && followedBy ["BY"] then some (.orderBy, true)
  else if t.isWord ["FOR"] && followedBy ["UPDATE", "SHARE", "NO", "KEY"] then
    some (.locking, false)
  else if t.isWord ["LOCK"] && followedBy ["IN"] then some (.locking, false)
  else if t.isWord ["UNION", "INTERSECT", "EXCEPT", "MINUS"] then some (.setOperator, false)
  else none

/-- The markers among tokens of which the first one has the given index. -/
def markersFrom (index : Nat) : List Token → List Marker
  | [] => []
  | t :: ts =>
    match clauseAt t ts.head? with
    -- The second word of a keyword is looked at on its own, and starts no clause.
    | some (clause, two) =>
      { clause, first := index, last := if two then index + 1 else index } ::
        markersFrom (index + 1) ts
    | none => markersFrom (index + 1) ts

/-- The markers of a statement in order. -/
def markers (s : Statement) : List Marker := markersFrom 0 s.tokens

/-- The first marker of a clause. -/
def marker? (s : Statement) (clause : Clause) : Option Marker :=
  s.markers.find? (·.clause = clause)

/-- The clauses that a statement must not have of its own. -/
def refused (ordered : Bool) : List Clause :=
  [.setOperator, .limit, .offset, .fetch] ++ if ordered then [.orderBy] else []

/-- The fault of having a clause of its own. -/
def refusal (clause : Clause) (at_ : Nat) : Fault :=
  match clause with
  | .setOperator => .setOperator at_
  | clause => .clausePresent clause at_

/-- The statement can be paged: it has none of the clauses that paging adds, and
no `ORDER BY` when an order is added. -/
def ensurePageable (s : Statement) (ordered : Bool) : Except Fault Unit :=
  -- Of several clauses the first one in the text is reported.
  match s.markers.find? fun m => (refused ordered).contains m.clause with
  | some m => .error (refusal m.clause ((s.tokens[m.first]?.map (·.start)).getD 0))
  | none => .ok ()

/-! ## Places -/

/-- The index of the token before a marker, after which text goes that belongs
before the marker. -/
def indexBefore (m : Marker) : Except Fault Nat :=
  match m.first with
  -- Text is put behind tokens, and here there is none to put it behind.
  | 0 => .error (.startsWith m.clause)
  | i + 1 => .ok i

/-- The index of the last token. -/
def lastIndex (s : Statement) : Nat := s.tokens.length - 1

/-- The index of the token after which order and limit go: before the locking
clause, or at the end. -/
def tailIndex (s : Statement) : Except Fault Nat :=
  match s.marker? .locking with
  | some m => indexBefore m
  | none => .ok s.lastIndex

/-- The indices of the first and the last token of the condition after a marker,
which ends before the next marker or at the end. -/
def conditionSpan (s : Statement) (m : Marker) : Except Fault (Nat × Nat) :=
  let first := m.last + 1
  -- Any clause ends a condition, also one that is refused elsewhere.
  let stop := ((s.markers.find? fun n => m.last < n.first).map (·.first)).getD s.tokens.length
  if first < stop then .ok (first, stop - 1) else .error (.emptyCondition m.clause)

/-- The clauses that come after a `WHERE`. -/
def afterFilter : List Clause :=
  [.groupBy, .having, .window, .orderBy, .limit, .offset, .fetch, .locking]

/-- The index of the token after which a `WHERE` goes. -/
def filterIndex (s : Statement) : Except Fault Nat :=
  match s.markers.find? fun m => afterFilter.contains m.clause with
  | some m => indexBefore m
  | none => .ok s.lastIndex

end Statement

/-- Where nothing is left open, the body of a statement and the rest behind it
make up its text. -/
theorem Statement.text_of_parse {d : Dialect} {s : List Char} {st : Statement}
    (h : Statement.parse d s = .ok st) (hc : (lex d s).2 = none) : st.body ++ st.rest = s := by
  simp only [Statement.parse, bind, Except.bind] at h
  split at h
  · simp at h
  · next found hs =>
    have hfound : tokenText found.tokens ++ found.rest = s := by
      simp only [scan, bind, Except.bind] at hs
      split at hs
      · simp at hs
      · next n hn =>
        have := nestFrom_text hn
        rw [List.nil_append, text_lex_of_complete hc] at this
        split at hs
        · simp at hs
        · split at hs
          · cases hs
            exact this
          · simp at hs
    split at h
    · simp at h
    · split at h
      · simp at h
      · cases h
        simp only [Statement.body]
        rw [← List.append_assoc, splitSemicolons_text, hfound]

end SqlPaging.Sql
