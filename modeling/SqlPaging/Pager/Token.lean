import SqlPaging.Json.Record
import SqlPaging.Json.Writer
import SqlPaging.Pager

/-!
# SqlPaging — pager tokens

A pager token is a record. Page and size must be there; all else has its
default. Numbers are lifted to where they start, as in any request.
-/

namespace SqlPaging.Pager

open Json (Record)

/-- The token of a pager. -/
def toToken (p : Pager) : Json :=
  .ofMembers
    [("page", .ofInt p.page),
      ("size", .ofInt p.size),
      ("each_side", .ofInt p.eachSide),
      ("need_total", .bool p.needTotal),
      ("cursor_name", match p.cursorName with
        | some name => .ofText name
        | none => .null)]

/-- The pager of a token. -/
def ofToken? (json : Json) : Option Pager := do
  let r ← Record.ofJson? ["page", "size", "each_side", "need_total", "cursor_name"] json
  let page ← r.required "page" Json.int?
  let size ← r.required "size" Json.int?
  let eachSide ← r.defaulted "each_side" 0 Json.int?
  let needTotal ← r.defaulted "need_total" false Json.bool?
  let cursorName ← r.defaulted "cursor_name" none (Json.nullable? Json.text?)
  some (make page size eachSide needTotal cursorName)

/-- The pager of a token that is a whole text. -/
def parseToken? (text : String) : Option Pager := (Json.parse? text).bind ofToken?

/-- The text of the token of a pager. -/
def token (p : Pager) : String := p.toToken.render

end SqlPaging.Pager
