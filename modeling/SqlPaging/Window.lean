import SqlPaging.Argument
import SqlPaging.Direction
import SqlPaging.Json.Record
import SqlPaging.Pager

/-!
# SqlPaging — windows

A window is the stretch of rows that a query fetches for a page: the rows of the
page, those of the pages after it that are to be shown, and one row more, which
tells whether there are further pages. An *offset* window skips the rows before
the page; a *keyset* window starts at a boundary row. A window whose limit or
offset does not fit a 64-bit integer is refused.

Main results:

* `toInt_effectivePages` — how many pages a window fetches.
-/

namespace SqlPaging

open Integer (plus minus plus? times?)

/-- How a window finds its first row. -/
inductive Mode where
  | offset
  | keyset
deriving DecidableEq, Repr, Inhabited

namespace Mode

/-- The name of a mode. -/
def name : Mode → String
  | .offset => "offset"
  | .keyset => "keyset"

/-- The name of a mode in a log. -/
def logName : Mode → String
  | .offset => "Offset"
  | .keyset => "Keyset"

/-- The mode with a name. -/
def ofName? : String → Option Mode
  | "offset" => some .offset
  | "keyset" => some .keyset
  | _ => none

end Mode

/-- The number of pages that a window fetches from its page on. Where fewer pages
come before the page than are to be shown, as many more come after it. -/
def effectivePages (page eachSide : Int64) : Int64 :=
  let page := atLeast 1 page
  let eachSide := atLeast 0 eachSide
  -- As many pages as there are too few before the page.
  let shift := atLeast 0 (minus (plus eachSide 1) page)
  atLeast 1 (plus eachSide shift)

/-- The stretch of rows that a query fetches. -/
structure Window where
  page : Int64
  size : Int64
  eachSide : Int64
  effectivePages : Int64
  direction : Direction
  offset : Int64
  limit : Int64
  mode : Mode
deriving DecidableEq, Repr, Inhabited

namespace Window

/-- The rows of the given number of pages and one more. -/
def probeLimit? (effectivePages size : Int64) : Option Int64 := do
  plus? (← times? effectivePages size) 1

/-- The window of a page that skips the rows before it. -/
def offsetMode (page size eachSide : Int64) : Except ArgumentFault Window :=
  let pages := SqlPaging.effectivePages page eachSide
  -- Neither number may be cut, or other rows would come back.
  match times? (minus page 1) size, probeLimit? pages size with
  | some offset, some limit =>
    .ok { page, size, eachSide, effectivePages := pages, direction := .next, offset, limit,
          mode := .offset }
  | _, _ => .error (.windowOutOfRange page size eachSide)

/-- The window of a page that starts at a boundary row. Walking back, only the
pages before the boundary count. -/
def keysetMode (page size eachSide : Int64) (direction : Direction) :
    Except ArgumentFault Window :=
  let pages := match direction with
    | .next => SqlPaging.effectivePages page eachSide
    | .prev => atLeast 1 eachSide
  match probeLimit? pages size with
  | some limit =>
    .ok { page, size, eachSide, effectivePages := pages, direction, offset := 0, limit,
          mode := .keyset }
  | none => .error (.windowOutOfRange page size eachSide)

/-- The rows of the window come in the reverse order. -/
def reversed (w : Window) : Bool := w.mode = .keyset && w.direction = .prev

/-- The window of a token. -/
def ofToken? (json : Json) : Option Window := do
  let r ← Json.Record.ofJson?
    ["page", "size", "each_side", "effective_pages", "direction", "offset", "limit", "mode"] json
  let page ← r.required "page" Json.int?
  let size ← r.required "size" Json.int?
  let eachSide ← r.required "each_side" Json.int?
  let effectivePages ← r.required "effective_pages" Json.int?
  let direction ← r.required "direction" (Json.choice? Direction.ofName?)
  let offset ← r.required "offset" Json.int?
  let limit ← r.required "limit" Json.int?
  let mode ← r.required "mode" (Json.choice? Mode.ofName?)
  some { page, size, eachSide, effectivePages, direction, offset, limit, mode }

/-- A page that is the first one or later has a page before it in 64 bits. -/
theorem toInt_minus_one {page : Int64} (hp : 1 ≤ page.toInt) :
    (minus page 1).toInt = page.toInt - 1 := by
  have := Integer.inRange_toInt page
  rw [minus, Int64.toInt_one]
  apply Integer.toInt_saturate_of_inRange
  unfold Integer.InRange Integer.least Integer.greatest at this ⊢
  omega

end Window

/-- A window fetches its width in pages, more of them where fewer pages come
before it, and at least one. -/
theorem toInt_effectivePages (page eachSide : Int64) :
    let p := max 1 page.toInt
    let e := max 0 eachSide.toInt
    (effectivePages page eachSide).toInt =
      max 1 (min (e + max 0 (min (e + 1) Integer.greatest - p)) Integer.greatest) := by
  have := Integer.inRange_toInt page
  have := Integer.inRange_toInt eachSide
  simp only [effectivePages, toInt_atLeast, plus, minus, Integer.toInt_saturate,
    Int64.toInt_one, Int64.toInt_zero]
  unfold Integer.InRange Integer.least Integer.greatest at *
  omega

end SqlPaging
