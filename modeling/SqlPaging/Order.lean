import SqlPaging.Argument
import SqlPaging.Text.Blank

/-!
# SqlPaging — sort orders

An order is a list of expressions with a direction each, the most important one
first. `Order.push` keeps it fit for a statement: expressions are trimmed, not
empty, without a semicolon, and no two are the same.

Main results:

* `reverse_reverse`, `reversed_reversed` — reversing twice changes nothing.
* `expressions_reversed` — reversing keeps the expressions.
* `push_eq_ok_iff` — what an order accepts.
-/

namespace SqlPaging

/-- A direction of sorting. -/
inductive SortDirection where
  | ascending
  | descending
deriving DecidableEq, Repr, Inhabited

namespace SortDirection

/-- The keyword of a direction. -/
def sql : SortDirection → String
  | .ascending => "ASC"
  | .descending => "DESC"

/-- The name of a direction in a token. -/
def tokenName : SortDirection → String
  | .ascending => "asc"
  | .descending => "desc"

/-- The other direction. -/
def reverse : SortDirection → SortDirection
  | .ascending => .descending
  | .descending => .ascending

/-- To turn a direction round twice is to leave it. -/
@[simp] theorem reverse_reverse (d : SortDirection) : d.reverse.reverse = d := by
  cases d <;> rfl

/-- The direction with a name in any case. -/
def parse (name : String) : Except ArgumentFault SortDirection :=
  if Text.sameIgnoringCase name "asc" then .ok .ascending
  else if Text.sameIgnoringCase name "desc" then .ok .descending
  else .error (.unknownDirection name)

end SortDirection

/-- An expression to sort by. -/
structure OrderItem where
  expression : String
  direction : SortDirection
deriving DecidableEq, Repr

/-- A sort order. -/
structure Order where
  items : List OrderItem
deriving DecidableEq, Repr

namespace Order

/-- No order. -/
def empty : Order := ⟨[]⟩

instance : Inhabited Order := ⟨empty⟩

/-- Nothing is sorted by. -/
def isEmpty (o : Order) : Bool := o.items.isEmpty

/-- The number of expressions. -/
def size (o : Order) : Nat := o.items.length

/-- The expressions in order. -/
def expressions (o : Order) : List String := o.items.map (·.expression)

/-- An expression is sorted by, in exactly this spelling. -/
def contains (o : Order) (expression : String) : Bool :=
  o.items.any (·.expression == expression)

/-- The direction of an expression. -/
def direction? (o : Order) (expression : String) : Option SortDirection :=
  (o.items.find? (·.expression == expression)).map (·.direction)

/-- Adds an expression of least importance. -/
def push (o : Order) (expression : String) (direction : SortDirection) :
    Except ArgumentFault Order :=
  -- Blanks around an expression do not make it another one.
  let e := Text.trim expression
  if e.isEmpty then .error .emptyExpression
  -- A semicolon would end the statement.
  else if e.toList.contains ';' then .error (.semicolonInExpression e)
  else if o.contains e then .error (.duplicateExpression e)
  else .ok ⟨o.items ++ [{ expression := e, direction }]⟩

/-- The order of pairs, pushed one after the other. -/
def ofPairs (pairs : List (String × SortDirection)) : Except ArgumentFault Order :=
  pairs.foldlM (fun o p => o.push p.1 p.2) empty

/-- The order that sorts backwards. -/
def reversed (o : Order) : Order :=
  ⟨o.items.map fun i => { i with direction := i.direction.reverse }⟩

/-- An item as SQL. -/
def itemSql (i : OrderItem) : String := i.expression ++ " " ++ i.direction.sql

/-- The `ORDER BY` clause, or nothing if there is no order. -/
def sql (o : Order) : String :=
  if o.isEmpty then "" else "ORDER BY " ++ ", ".intercalate (o.items.map itemSql)

/-- The `ORDER BY` clause after a space, or nothing if there is no order. -/
def suffix (o : Order) : String := if o.isEmpty then "" else " " ++ o.sql

/-- To turn an order round twice is to leave it. -/
@[simp] theorem reversed_reversed (o : Order) : o.reversed.reversed = o := by
  simp [reversed, Function.comp_def]

/-- An order that is turned round has the same expressions, in the same places. -/
@[simp] theorem expressions_reversed (o : Order) : o.reversed.expressions = o.expressions := by
  simp [reversed, expressions, Function.comp_def]

/-- An expression is taken just if something is left of it without the blanks
around it, it has no semicolon, and it is new; it goes to the end. -/
theorem push_eq_ok_iff {o o' : Order} {expression : String} {d : SortDirection} :
    o.push expression d = .ok o' ↔
      Text.trim expression ≠ "" ∧ ';' ∉ (Text.trim expression).toList ∧
      Text.trim expression ∉ o.expressions ∧
      o' = ⟨o.items ++ [{ expression := Text.trim expression, direction := d }]⟩ := by
  have hc : o.contains (Text.trim expression) = true ↔
      Text.trim expression ∈ o.expressions := by
    simp [contains, expressions]
  simp only [push, String.isEmpty_iff, List.contains_iff_mem, hc]
  split
  · next h => simp [h]
  · split
    · next h => simp [h]
    · split
      · next h => simp [h]
      · next h₁ h₂ h₃ => simp [h₁, h₂, h₃, eq_comm]

end Order

end SqlPaging
