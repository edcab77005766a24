/-!
# SqlPaging — directions

A page is reached by walking on from a boundary row or by walking back from it.

Main results:

* `reverse_reverse` — turning round twice changes nothing.
-/

namespace SqlPaging

/-- The direction of a walk from a boundary row. -/
inductive Direction where
  | next
  | prev
deriving DecidableEq, Repr, Inhabited

namespace Direction

/-- The name of a direction. -/
def name : Direction → String
  | .next => "next"
  | .prev => "prev"

/-- The direction with a name. -/
def ofName? : String → Option Direction
  | "next" => some .next
  | "prev" => some .prev
  | _ => none

/-- The other direction. -/
def reverse : Direction → Direction
  | .next => .prev
  | .prev => .next

/-- To turn a walk round twice is to leave it. -/
@[simp] theorem reverse_reverse (d : Direction) : d.reverse.reverse = d := by cases d <;> rfl

/-- A direction is found by its name. -/
theorem ofName?_name (d : Direction) : ofName? d.name = some d := by cases d <;> decide

end Direction

end SqlPaging
