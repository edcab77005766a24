import SqlPaging.Direction
import SqlPaging.Order
import SqlPaging.Pager
import SqlPaging.Param
import SqlPaging.Text.Quoted

/-!
# SqlPaging — cursors

A cursor remembers a boundary row: the values that the row has for the
expressions of the order, and the pager of the page that starts there. From it a
query goes on without counting rows.

A row is asked for an expression by its whole text, and then by what follows its
last point, so that `t.id` is found in a column `id`.

Main results:

* `lookup_of_column` — a column of the expression's own name comes first.
* `create_of_isEmpty` — without an order there is no cursor.
-/

namespace SqlPaging

open Calendar

/-! ## Faults -/

/-- What is wrong with a cursor. -/
inductive CursorFault where
  | emptyOrder
  | missingColumn (expression : String)
  /-- a row's value is no scalar -/
  | notScalar (expression : String) (why : Value.Unresolved)
  /-- a value cannot be bound -/
  | unbindable (expression : String) (why : ParamError)
  | nullBoundary (expression : String)
  | otherColumns (have_ want : List String)

/-- The message about a cursor. -/
def CursorFault.message : CursorFault → String
  | .emptyOrder => "a cursor needs at least one ORDER BY expression"
  | .missingColumn e => "boundary row has no value for '" ++ e ++ "'"
  | .notScalar e why => "'" ++ e ++ "': " ++ why.message
  | .unbindable e why => "'" ++ e ++ "': " ++ why.message
  | .nullBoundary e => "NULL value for '" ++ e ++ "' cannot bound a keyset page"
  | .otherColumns have_ want =>
    "cursor columns " ++ Text.quotedList have_ ++ " do not match ORDER BY " ++
      Text.quotedList want

/-! ## Rows -/

/-- A row, by the values of its columns. -/
abbrev Row := String → Option Value

/-- What follows the last point of an expression. -/
def unqualified? (expression : String) : Option String :=
  -- Seen from its end, the expression is cut at its first point.
  let name := expression.toList.reverse.takeWhile (· ≠ '.')
  if name.length < expression.length then some (String.ofList name.reverse) else none

/-- The value of an expression in a row. -/
def Row.lookup (row : Row) (expression : String) : Option Value :=
  (row expression).or ((unqualified? expression).bind row)

/-- A column of the expression's own name comes first. -/
theorem Row.lookup_of_column {row : Row} {expression : String} {v : Value}
    (h : row expression = some v) : row.lookup expression = some v := by
  simp [lookup, h]

/-! ## Cursors -/

/-- A boundary row. -/
structure Cursor where
  pager : Pager
  /-- the values of the expressions of the order -/
  values : Fields Value
  /-- the width that was in force, if it was not that of the pager -/
  eachSideSnapshot : Option Int64
  direction : Direction
  /-- the boundary row belongs to the page -/
  inclusive : Bool
  createdAt : DateTime

instance : Inhabited DateTime :=
  ⟨⟨⟨2000, 1, 1, by decide⟩, ⟨0, 0, 0, 0, by decide⟩⟩⟩

namespace Cursor

/-- The value of an expression in a row, which must be a scalar. -/
def boundary (row : Row) (expression : String) : Except CursorFault Value :=
  match row.lookup expression with
  | none => .error (.missingColumn expression)
  | some v => v.resolveScalar.mapError (.notScalar expression)

/-- The values of expressions in a row. -/
def boundaries (row : Row) (expressions : List String) : Except CursorFault (Fields Value) :=
  expressions.mapM fun e => (boundary row e).map fun v => (e, v)

/-- The cursor of a boundary row, made at a time. The row belongs to the page. -/
def create (order : Order) (pager : Pager) (row : Row) (eachSide : Option Int64)
    (now : DateTime) : Except CursorFault Cursor :=
  if order.isEmpty then .error .emptyOrder
  else do
    let pairs ← boundaries row order.expressions
    .ok
      { pager
        -- An expression that comes twice is one field.
        values := Fields.ofPairs pairs
        eachSideSnapshot := eachSide.map (atLeast 0)
        direction := .next
        inclusive := true
        createdAt := now }

/-- Without an order there is nothing to keep a place in, and no cursor. -/
theorem create_of_isEmpty {order : Order} (h : order.isEmpty = true) (pager : Pager) (row : Row)
    (eachSide : Option Int64) (now : DateTime) :
    create order pager row eachSide now = .error .emptyOrder := by
  simp [create, h]

/-- The width that is in force. -/
def eachSide (c : Cursor) : Int64 := c.eachSideSnapshot.getD c.pager.eachSide

/-- The cursor for a walk in a direction. Walking on, the boundary row belongs to
the page; walking back, it does not. -/
def withDirection (c : Cursor) (direction : Direction) : Cursor :=
  { c with direction, inclusive := direction = .next }

/-- The cursor whose boundary row belongs to the page, or does not. -/
def withInclusive (c : Cursor) (inclusive : Bool) : Cursor := { c with inclusive }

/-- The cursor with another pager. -/
def withPager (c : Cursor) (pager : Pager) : Cursor := { c with pager }

/-- The cursor has a value for exactly the expressions of an order, in order. -/
def fits (c : Cursor) (order : Order) : Bool := c.values.keys == order.expressions

/-- How long a cursor lives, in nanoseconds, unless a store says otherwise. -/
def lifetime : Nat := 30 * 60 * billion

/-- The cursor has lived as long as the given number of nanoseconds. A lifetime
that ends after the last date never ends. -/
def expiredAt (c : Cursor) (now : DateTime) (lifetime : Nat) : Bool :=
  match c.createdAt.later? lifetime with
  | some deadline => now.instant.atOrAfter deadline
  -- A deadline beyond the last date never comes.
  | none => false

/-- Two cursors mark the same boundary: pager, values and width are the same. -/
def same (a b : Cursor) : Bool :=
  -- Direction, inclusion and age do not count.
  a.pager == b.pager && Value.same (.map a.values) (.map b.values) &&
    a.eachSideSnapshot == b.eachSideSnapshot

end Cursor

end SqlPaging
