import SqlPaging.Sql.Token
import SqlPaging.Window

/-!
# SqlPaging — events

What the library reports about its work: a compiled query, and what happens to
stored cursors. The text of a query is shortened for the report.

Main results:

* `shorten_of_le` — a short text is reported whole.
-/

namespace SqlPaging

/-- A report. -/
inductive Event where
  | compiled (dialect : Dialect) (window : Window) (paramCount : Nat) (sql : String)
  | saved (name : String)
  | expired (name : String)
  /-- a stored cursor was looked at for a page -/
  | checked (name : String) (usable : Bool) (page : Int64)
deriving Repr

namespace Event

/-- The part of the library that reports. -/
def target : Event → String
  | .compiled .. => "seekpage.compile"
  | _ => "seekpage.cursor"

/-- What is reported. -/
def message : Event → String
  | .compiled .. => "compiled pagination query"
  | .saved _ => "cursor saved"
  | .expired _ => "cursor expired"
  | .checked .. => "stored cursor checked"

/-- The longest prefix of a text that has at most the given number of bytes. -/
def shorten : Nat → List Char → List Char
  | _, [] => []
  -- A character is reported whole or not at all.
  | room, c :: s => if c.utf8Size ≤ room then c :: shorten (room - c.utf8Size) s else []

/-- The bytes of a query that are reported. -/
def sqlBytes : Nat := 200

/-- The part of a query that is reported. -/
def shownSql (sql : String) : String := String.ofList (shorten sqlBytes sql.toList)

/-- A text that is short enough is reported whole. -/
theorem shorten_of_le {room : Nat} {s : List Char} (h : Sql.byteLength s ≤ room) :
    shorten room s = s := by
  induction s generalizing room with
  | nil => rfl
  | cons c s ih =>
    rw [Sql.byteLength, List.foldr_cons, ← Sql.byteLength] at h
    simp only [shorten]
    rw [if_pos (by omega), ih (by omega)]

end Event

end SqlPaging
