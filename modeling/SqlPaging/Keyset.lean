import SqlPaging.Cursor

/-!
# SqlPaging — keyset predicates

The rows after a boundary row in a sort order are those that satisfy a
disjunction of clauses. The first clause asks for equality in all expressions but
the last one and for more in that; every further clause has one expression less:

`(c1 = v1 AND … AND cn >= vn) OR … OR (c1 = v1 AND c2 > v2) OR (c1 > v1)`

Only the longest clause lets the boundary row itself pass, and only if it belongs
to the page. What "more" means follows the direction of each expression, and
turns round when the walk goes back. The values are bound to parameters, not
written into the text.

Main results:

* `clause_equalities` — all comparisons of a clause but the last one are equalities.
* `length_after` — one clause for each expression.
-/

namespace SqlPaging

/-- A comparison between an expression and a boundary value. -/
inductive Comparison where
  | equal
  | less
  | lessOrEqual
  | greater
  | greaterOrEqual
deriving DecidableEq, Repr

namespace Comparison

/-- The operator of a comparison. -/
def sql : Comparison → String
  | .equal => "="
  | .less => "<"
  | .lessOrEqual => "<="
  | .greater => ">"
  | .greaterOrEqual => ">="

/-- The comparison of the rows that come later on a walk. -/
def seek (sort : SortDirection) (walk : Direction) (inclusive : Bool) : Comparison :=
  -- Walking back turns every direction round.
  let sort := match walk with
    | .next => sort
    | .prev => sort.reverse
  match sort, inclusive with
  | .ascending, false => .greater
  | .ascending, true => .greaterOrEqual
  | .descending, false => .less
  | .descending, true => .lessOrEqual

end Comparison

namespace Keyset

/-- What the names of cursor parameters start with. -/
def namePart : String := "cursor"

/-- The name of the parameter of a boundary value. -/
def paramName (index : Nat) : String := expandedName namePart index

/-- The name could be one of a cursor parameter. -/
def isReserved (name : String) : Bool :=
  (namePart ++ expansionMark).toList.isPrefixOf name.toList

/-- A term of a clause: an expression compared with a boundary value. -/
structure Term where
  expression : String
  comparison : Comparison
  /-- the number of the boundary value -/
  index : Nat
deriving DecidableEq, Repr

/-- A conjunction of terms. -/
abbrev Clause := List Term

/-- A disjunction of clauses. -/
abbrev Predicate := List Clause

/-- The text of a term. -/
def Term.sql (t : Term) : String :=
  t.expression ++ " " ++ t.comparison.sql ++ " :" ++ paramName t.index

/-- The text of a clause. -/
def clauseSql (c : Clause) : String := "(" ++ " AND ".intercalate (c.map Term.sql) ++ ")"

/-- The text of a predicate. -/
def sql (p : Predicate) : String := " OR ".intercalate (p.map clauseSql)

/-- The text of a predicate, in parentheses if it has more than one clause. -/
def grouped (p : Predicate) : String := if 1 < p.length then "(" ++ sql p ++ ")" else sql p

/-- The clause of the first items: equalities in all but the last one, and `last`
there. `index` is the number of the first item. -/
def clause (index : Nat) (last : Comparison) : List OrderItem → Clause
  | [] => []
  | [i] => [{ expression := i.expression, comparison := last, index }]
  | i :: is =>
    { expression := i.expression, comparison := .equal, index } :: clause (index + 1) last is

/-- The comparison at the end of the clause of the given items. -/
def lastComparison (walk : Direction) (inclusive : Bool) (items : List OrderItem) : Comparison :=
  match items.getLast? with
  | some i => .seek i.direction walk inclusive
  | none => .equal

/-- The clauses of the first `n` items, `n - 1` items and so on. -/
def clausesUpTo (items : List OrderItem) (walk : Direction) (inclusive : Bool) : Nat → Predicate
  | 0 => []
  | n + 1 =>
    let part := items.take (n + 1)
    -- Only the clause of all items may let the boundary row pass.
    clause 0 (lastComparison walk (inclusive && n + 1 == items.length) part) part ::
      clausesUpTo items walk inclusive n

/-- The predicate of the rows that a walk reaches from a boundary row. -/
def after (order : Order) (walk : Direction) (inclusive : Bool) : Predicate :=
  clausesUpTo order.items walk inclusive order.size

/-- There is one clause for each number of items, from all of them down to one. -/
theorem length_clausesUpTo (items : List OrderItem) (walk : Direction) (inclusive : Bool)
    (n : Nat) : (clausesUpTo items walk inclusive n).length = n := by
  induction n with
  | zero => rfl
  | succ n ih => simp [clausesUpTo, ih]

/-- A predicate has one clause for each expression of the order. -/
theorem length_after (order : Order) (walk : Direction) (inclusive : Bool) :
    (after order walk inclusive).length = order.size :=
  length_clausesUpTo ..

/-- All comparisons of a clause but the last one ask for equality. -/
theorem clause_equalities (index : Nat) (last : Comparison) (items : List OrderItem) :
    ∀ t ∈ (clause index last items).dropLast, t.comparison = .equal := by
  fun_induction clause index last items with
  | case1 => simp
  | case2 => simp
  | case3 index i is hne ih =>
    cases h : clause (index + 1) last is with
    | nil => simp
    | cons t ts =>
      rw [h] at ih
      simpa using ih

/-! ## Boundary values -/

/-- The bind of a boundary value. -/
def bindBoundary (d : Dialect) (index : Nat) (expression : String) (v : Value) :
    Except CursorFault Bind :=
  -- The number is the place of the value in the order.
  let name := paramName index
  match normalizeScalar d v with
  | .error fault => .error (.unbindable expression ⟨name, fault⟩)
  | .ok bound =>
    -- No comparison with null is true, so the walk would end at once.
    if bound.type = .null then .error (.nullBoundary expression)
    else .ok { name, value := bound }

/-- The binds of boundary values, of which the first one has the given number. -/
def bindBoundaries (d : Dialect) (index : Nat) : Fields Value → Except CursorFault Binds
  | [] => .ok []
  | (expression, v) :: rest => do
    let b ← bindBoundary d index expression v
    let bs ← bindBoundaries d (index + 1) rest
    .ok (b :: bs)

end Keyset

/-- A keyset predicate with the binds of its boundary values. -/
structure Keyset where
  predicate : Keyset.Predicate
  binds : Binds
deriving DecidableEq, Repr

/-- The keyset predicate of a cursor under an order, which must have the cursor's
expressions. -/
def Keyset.ofCursor (d : Dialect) (order : Order) (c : Cursor) : Except CursorFault Keyset :=
  if c.fits order then do
    let binds ← bindBoundaries d 0 c.values
    .ok { predicate := after order c.direction c.inclusive, binds }
  else .error (.otherColumns c.values.keys order.expressions)

end SqlPaging
