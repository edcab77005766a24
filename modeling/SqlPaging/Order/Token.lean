import SqlPaging.Json.Record
import SqlPaging.Json.Writer
import SqlPaging.Order

/-!
# SqlPaging — order tokens

An order token is a record with the list of its items, and each item is a record
of an expression and a direction. A token is trusted: its expressions are taken
as they are written.

Main results:

* `ofToken?_toToken` — the token of an order is read back.
-/

namespace SqlPaging

open Json (Record)

/-! ## Directions -/

namespace SortDirection

/-- The direction with a name from a token. -/
def ofTokenName? : String → Option SortDirection
  | "asc" => some .ascending
  | "desc" => some .descending
  | _ => none

/-- The token of a direction. -/
def toToken (d : SortDirection) : Json := .ofText d.tokenName

/-- The direction of a token. -/
def ofToken? : Json → Option SortDirection := Json.choice? ofTokenName?

/-- A direction is read back from its token. -/
theorem ofToken?_toToken (d : SortDirection) : ofToken? d.toToken = some d := by
  cases d <;> rfl

/-- The direction of a token that is a whole text. -/
def parseToken? (text : String) : Option SortDirection := (Json.parse? text).bind ofToken?

end SortDirection

/-! ## Orders -/

/-- The token of an item. -/
def OrderItem.toToken (i : OrderItem) : Json :=
  .ofMembers [("expr", .ofText i.expression), ("dir", i.direction.toToken)]

/-- The item of a token. -/
def OrderItem.ofToken? (json : Json) : Option OrderItem := do
  let r ← Record.ofJson? ["expr", "dir"] json
  let expression ← r.required "expr" Json.text?
  let direction ← r.required "dir" SortDirection.ofToken?
  some { expression, direction }

/-- An item is read back from its token. -/
theorem OrderItem.ofToken?_toToken (i : OrderItem) : ofToken? i.toToken = some i := by
  obtain ⟨e, d⟩ := i
  cases d <;> rfl

namespace Order

/-- The items of a token. -/
def items? : Json → Option (List OrderItem)
  | .array items => items.mapM OrderItem.ofToken?
  | _ => none

/-- The token of an order. -/
def toToken (o : Order) : Json :=
  .ofMembers [("items", .array (o.items.map OrderItem.toToken))]

/-- The order of a token. -/
def ofToken? (json : Json) : Option Order := do
  let r ← Record.ofJson? ["items"] json
  let items ← r.required "items" items?
  some ⟨items⟩

/-- An order is read back from its token. -/
theorem ofToken?_toToken (o : Order) : ofToken? o.toToken = some o := by
  have h : ∀ items : List OrderItem,
      (items.map OrderItem.toToken).mapM OrderItem.ofToken? = some items := by
    intro items
    induction items with
    | nil => rfl
    | cons i items ih => simp [OrderItem.ofToken?_toToken, ih]
  -- the record has one field, which holds the items
  have hr : ofToken? o.toToken =
      ((o.items.map OrderItem.toToken).mapM OrderItem.ofToken?).bind fun items => some ⟨items⟩ :=
    rfl
  rw [hr, h]
  rfl

/-- The order of a token that is a whole text. -/
def parseToken? (text : String) : Option Order := (Json.parse? text).bind ofToken?

/-- The text of the token of an order. -/
def token (o : Order) : String := o.toToken.render

end Order

end SqlPaging
