import SqlPaging.Cursor
import SqlPaging.Pager.Token
import SqlPaging.Value.Token

/-!
# SqlPaging — cursor tokens

A cursor token is a record with the pager, the values by their expressions, the
width, the direction, whether the boundary row belongs to the page, and the time
at which the cursor was made.
-/

namespace SqlPaging.Cursor

open Calendar
open Json (Record)

/-- The token of a cursor, if all its values have one. -/
def toToken? (c : Cursor) : Option Json := do
  -- A domain value has no token, and then the cursor has none.
  let values ← Value.fieldTokens? c.values
  some (.ofMembers
    [("pager", c.pager.toToken),
      ("values", .ofMembers values),
      ("each_side_snapshot", match c.eachSideSnapshot with
        | some n => .ofInt n
        | none => .null),
      ("direction", .ofText c.direction.name),
      ("inclusive", .bool c.inclusive),
      ("created_at", .ofText c.createdAt.isoUtc)])

/-- The values of a token in which at most `room` more brackets may be open. -/
def values? (room : Nat) : Json → Option (Fields Value)
  | .object members => Value.memberValues? (Value.ofToken? room) members
  | _ => none

/-- The cursor of a token. -/
def ofToken? (json : Json) : Option Cursor := do
  let r ← Record.ofJson?
    ["pager", "values", "each_side_snapshot", "direction", "inclusive", "created_at"] json
  let pager ← r.required "pager" Pager.ofToken?
  -- The cursor and its values have opened two brackets.
  let values ← r.required "values" (values? (Json.levels - 2))
  let eachSideSnapshot ← r.optional "each_side_snapshot" Json.int?
  let direction ← r.required "direction" (Json.choice? Direction.ofName?)
  let inclusive ← r.required "inclusive" Json.bool?
  let createdAt ← r.required "created_at" fun json => json.text?.bind DateTime.parseZoned?
  some { pager, values, eachSideSnapshot, direction, inclusive, createdAt }

/-- The text of the token of a cursor. -/
def token? (c : Cursor) : Option String := c.toToken?.map Json.render

/-- The cursor of a token that is a whole text. -/
def parseToken? (text : String) : Option Cursor := (Json.parse? text).bind ofToken?

end SqlPaging.Cursor
