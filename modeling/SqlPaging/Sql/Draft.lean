import SqlPaging.Fields
import SqlPaging.Sql.Statement

/-!
# SqlPaging — drafts

A draft is a statement in which text is being put. Every token of the statement
has a slot with the text before it, its own text or what replaces it, and the
text after it. Text put twice into the same place stays in the order in which it
was put there. The gaps between tokens are never touched.

Main results:

* `text_ofStatement` — a fresh draft has the text of its statement.
* `length_putBefore`, `length_putAfter` — putting text moves no slot.
-/

namespace SqlPaging.Sql

/-- A token in a draft. -/
structure Slot where
  /-- the spaces and comments before the token -/
  gap : List Char
  before : List Char
  body : List Char
  after : List Char
deriving DecidableEq, Repr

/-- A statement in which text is being put: one slot for each of its tokens. -/
abbrev Draft := List Slot

/-- The text of a slot. -/
def Slot.text (s : Slot) : List Char := s.gap ++ s.before ++ s.body ++ s.after

/-- The slot of a token, with the given text in the place of its own. -/
def Slot.ofToken (t : Token) (body : List Char) : Slot :=
  { gap := t.gap, before := [], body, after := [] }

namespace Draft

/-- The draft of a statement in which nothing has been put. -/
def ofStatement (s : Statement) : Draft := s.tokens.map fun t => .ofToken t t.text

/-- The text of a draft. -/
def text (d : Draft) : List Char := d.flatMap Slot.text

/-- Puts text right before a token. -/
def putBefore (d : Draft) (i : Nat) (t : List Char) : Draft :=
  d.modify i fun s => { s with before := s.before ++ t }

/-- Puts text right after a token. -/
def putAfter (d : Draft) (i : Nat) (t : List Char) : Draft :=
  d.modify i fun s => { s with after := s.after ++ t }

/-- A draft in which nothing is changed has the text of its statement. -/
theorem text_ofStatement (s : Statement) : (ofStatement s).text = s.body := by
  simp only [ofStatement, text, Statement.body, tokenText, List.flatMap_map]
  congr 1
  funext t
  simp [Slot.text, Slot.ofToken]

/-- Text put before a token does not change the number of tokens. -/
theorem length_putBefore (d : Draft) (i : Nat) (t : List Char) :
    (d.putBefore i t).length = d.length := by simp [putBefore]

/-- Text put after a token does not change the number of tokens either. -/
theorem length_putAfter (d : Draft) (i : Nat) (t : List Char) :
    (d.putAfter i t).length = d.length := by simp [putAfter]

/-! ## Conditions -/

/-- Adds a condition to a statement's own: to its `WHERE`, else to its `HAVING`,
else as a new `WHERE`. A condition of its own is put in parentheses first. -/
def addCondition (s : Statement) (condition : List Char) (d : Draft) : Except Fault Draft :=
  match (s.marker? .filter).or (s.marker? .having) with
  | some m => do
    let (first, last) ← s.conditionSpan m
    -- The parentheses keep an `OR` of the condition to itself.
    .ok ((d.putBefore first "(".toList).putAfter last (") AND ".toList ++ condition))
  -- No condition is there: a new one goes in front of the clauses that follow conditions.
  | none => do
    let i ← s.filterIndex
    .ok (d.putAfter i (" WHERE ".toList ++ condition))

/-! ## Placeholders of collections -/

/-- The tokens before a placeholder, the last one first, end with `NOT IN (`. -/
def followsNotIn : List Token → Bool
  | open_ :: keyword :: not_ :: _ =>
    open_.kind = .openParen && keyword.isWord ["IN"] && not_.isWord ["NOT"]
  | _ => false

/-- The placeholders that stand for the elements of a collection. -/
def slots : List String → List Char
  | [] => []
  | [n] => ':' :: n.toList
  | n :: ns => ':' :: n.toList ++ ", ".toList ++ slots ns

/-- The draft of tokens in which every placeholder of a collection is replaced by
one for each element, and by `NULL` if there are none. An empty collection
directly in a `NOT IN` is refused with the name of its placeholder. `previous`
holds the tokens before, the last one first. -/
def expandFrom (expansions : Fields (List String)) (previous : List Token) :
    List Token → Except String Draft
  | [] => .ok []
  | t :: ts =>
    let more (body : List Char) : Except String Draft :=
      (expandFrom expansions (t :: previous) ts).map (.ofToken t body :: ·)
    match t.placeholder? with
    | none => more t.text
    | some name =>
      -- A name that is not expanded is that of a scalar, or of nothing that is bound.
      match expansions.get? name with
      | none => more t.text
      -- `NOT IN (NULL)` would let no row pass, where all of them should.
      | some [] => if followsNotIn previous then .error name else more "NULL".toList
      | some names => more (slots names)

/-- The draft of a statement in which collections are expanded. -/
def expanded (s : Statement) (expansions : Fields (List String)) : Except String Draft :=
  expandFrom expansions [] s.tokens

end Draft

end SqlPaging.Sql
