import SqlPaging.Dialect
import SqlPaging.Json.Record
import SqlPaging.Json.Writer

/-!
# SqlPaging — dialect tokens

The token of a dialect is its name. Other names that a dialect goes by are read,
too, if they are written exactly.

Main results:

* `ofToken?_toToken` — the token of a dialect is read back.
-/

namespace SqlPaging.Dialect

/-- The token of a dialect. -/
def toToken (d : Dialect) : Json := .ofText d.name

/-- The dialect of a token. -/
def ofToken? : Json → Option Dialect := Json.choice? ofTokenName?

/-- A dialect is read back from its token. -/
theorem ofToken?_toToken (d : Dialect) : ofToken? d.toToken = some d := by
  cases d <;> rfl

/-- The dialect of a token that is a whole text. -/
def parseToken? (text : String) : Option Dialect := (Json.parse? text).bind ofToken?

end SqlPaging.Dialect
