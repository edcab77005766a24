import SqlPaging.Error
import SqlPaging.Event
import SqlPaging.Sql.Draft

/-!
# SqlPaging — paged queries

A base statement becomes a paged one by putting text into it. Collections are
expanded to as many placeholders as they have elements; with a cursor the keyset
predicate is added to the statement's condition; and the order and the limit are
put at its end. Without a cursor the rows before the page are skipped by an
offset.

The count query wraps the statement instead.

Main results:

* `compile_window` — the window of a query without a cursor is that of its pager.
-/

namespace SqlPaging

open Sql (Draft Statement)

/-- A paged query. -/
structure Query where
  sql : String
  binds : Binds
  window : Window
deriving DecidableEq, Repr

/-- A query that counts rows. -/
structure CountQuery where
  sql : String
  binds : Binds
deriving DecidableEq, Repr

namespace Query

/-- The name of the table that a count query counts. -/
def countAlias : String := "seekpage_count"

/-- The statement of a text. -/
def parse (d : Dialect) (sql : String) : Except PageError Statement :=
  (Statement.parse d sql.toList).mapError .insertionPoint

/-- The draft of a statement in which collections are expanded. -/
def expand (s : Statement) (n : Normalized) : Except PageError Draft :=
  (Draft.expanded s n.expansions).mapError fun name => .normalize ⟨name, .emptyInNotIn⟩

/-- No bind and no placeholder has a name that belongs to a cursor value. The
binds are looked at first. -/
def checkReserved (s : Statement) (bs : Binds) : Except PageError Unit :=
  match (bs.names ++ s.tokens.filterMap (·.placeholder?)).find? Keyset.isReserved with
  | some name => .error (.paramCollision name)
  | none => .ok ()

/-- The order and the limit of a window, as they are put at the end. -/
def tail (order : Order) (w : Window) : List Char :=
  (order.suffix ++ " LIMIT " ++ Integer.text w.limit ++ " OFFSET " ++
    Integer.text w.offset).toList

/-- Puts the tail into a draft. -/
def addTail (s : Statement) (order : Order) (w : Window) (d : Draft) : Except PageError Draft :=
  match s.tailIndex with
  -- A condition that was put after the same token stays in front of the tail.
  | .ok i => .ok (d.putAfter i (tail order w))
  | .error fault => .error (.insertionPoint fault)

/-- What a cursor adds to a query: the draft with the predicate, its binds, and
the window and the order of the walk. -/
structure Seek where
  draft : Draft
  binds : Binds
  window : Window
  order : Order

/-- The part of a query that does without a cursor. -/
def skipping (order : Order) (pager : Pager) (draft : Draft) : Except PageError Seek := do
  let window ← (Window.offsetMode pager.page pager.size pager.eachSide).mapError .invalidArgument
  .ok { draft, binds := [], window, order }

/-- The part of a query that starts at the boundary row of a cursor. -/
def seeking (dialect : Dialect) (s : Statement) (order : Order) (bs : Binds) (pager : Pager)
    (c : Cursor) (draft : Draft) : Except PageError Seek := do
  -- Reserved names come first: a cursor's binds must not take the place of others.
  checkReserved s bs
  let keyset ← (Keyset.ofCursor dialect order c).mapError .invalidCursor
  let draft ← (Draft.addCondition s (Keyset.grouped keyset.predicate).toList draft).mapError
    .insertionPoint
  let window ← (Window.keysetMode pager.page pager.size c.eachSide c.direction).mapError
    .invalidArgument
  .ok
    { draft
      binds := keyset.binds
      window
      -- A walk back reads the rows in the reverse order.
      order := if c.direction = .prev then order.reversed else order }

/-- The paged query of a base statement. -/
def compile (dialect : Dialect) (sql : String) (order : Order) (params : Params) (pager : Pager)
    (cursor : Option Cursor) : Except PageError Query := do
  -- Faults of the parameters come before those of the statement.
  let n ← (normalize dialect params).mapError .normalize
  let s ← parse dialect sql
  -- Where no order is asked for, the statement may have one of its own.
  (s.ensurePageable !order.isEmpty).mapError .insertionPoint
  let draft ← expand s n
  let seek ← match cursor with
    | none => skipping order pager draft
    | some c => seeking dialect s order n.binds pager c draft
  let draft ← addTail s seek.order seek.window seek.draft
  .ok
    { sql := String.ofList draft.text
      binds := n.binds ++ seek.binds
      window := seek.window }

/-- The query that counts the rows of a base statement. -/
def count (dialect : Dialect) (sql : String) (params : Params) : Except PageError CountQuery := do
  -- Any statement can be counted, also one with a limit.
  let n ← (normalize dialect params).mapError .normalize
  let s ← parse dialect sql
  let draft ← expand s n
  .ok
    { sql := "SELECT COUNT(*) FROM (" ++ String.ofList draft.text ++ ") AS " ++ countAlias
      binds := n.binds }

/-- What compiling a query reports. -/
def event (dialect : Dialect) (q : Query) : Event :=
  .compiled dialect q.window q.binds.length q.sql

/-- The window of a query without a cursor is that of its pager. -/
theorem compile_window {dialect : Dialect} {sql : String} {order : Order} {params : Params}
    {pager : Pager} {q : Query} (h : compile dialect sql order params pager none = .ok q) :
    Window.offsetMode pager.page pager.size pager.eachSide = .ok q.window := by
  simp only [compile, skipping, bind, Except.bind] at h
  -- a query is made just if each of its parts is
  repeat' split at h
  all_goals cases h
  next seek hs _ _ _ =>
    split at hs
    · simp at hs
    · next w hw =>
      cases hs
      -- the part without a cursor has made the window
      cases ho : Window.offsetMode pager.page pager.size pager.eachSide with
      | error e =>
        rw [ho] at hw
        cases hw
      | ok w' =>
        rw [ho] at hw
        cases hw
        rfl

end Query

end SqlPaging
