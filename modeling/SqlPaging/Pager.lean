import SqlPaging.Config

/-!
# SqlPaging — pagers

A pager is what a request says about the page it wants: the page number, the
rows of a page, how many pages around it are to be shown, whether the total is
to be counted, and the name of the cursor that is kept between requests. Pages
and sizes start at one and widths at zero; whatever a request says is lifted to
that.

Main results:

* `agrees_withPage` — pagers that differ in the page alone agree.
* `toInt_next_page` — going forward stops at the greatest page.
-/

namespace SqlPaging

open Integer (plus minus)

/-- The greater of two 64-bit integers. -/
def atLeast (least n : Int64) : Int64 := if n < least then least else n

/-- A number that is too low is lifted to the least one. -/
theorem toInt_atLeast (least n : Int64) : (atLeast least n).toInt = max least.toInt n.toInt := by
  unfold atLeast
  simp only [Int64.lt_iff_toInt_lt]
  split <;> omega

/-- A number that is high enough is not lifted. -/
theorem atLeast_of_le {least n : Int64} (h : least.toInt ≤ n.toInt) : atLeast least n = n := by
  have hnot : ¬n < least := by
    rw [Int64.lt_iff_toInt_lt]
    omega
  rw [atLeast, if_neg hnot]

theorem atLeast_one_eq {n : Int64} (h : 1 ≤ n.toInt) : atLeast 1 n = n :=
  atLeast_of_le (by rw [Int64.toInt_one]; exact h)

theorem atLeast_zero_eq {n : Int64} (h : 0 ≤ n.toInt) : atLeast 0 n = n :=
  atLeast_of_le (by rw [Int64.toInt_zero]; exact h)

/-- What a request says about its page. -/
structure Pager where
  page : Int64
  size : Int64
  eachSide : Int64 := 0
  needTotal : Bool := false
  cursorName : Option String := none
  page_pos : 1 ≤ page.toInt
  size_pos : 1 ≤ size.toInt
  eachSide_nonneg : 0 ≤ eachSide.toInt
deriving DecidableEq, Repr

namespace Pager

/-- A page or a size that was lifted is a positive one. -/
theorem one_le_atLeast (n : Int64) : 1 ≤ (atLeast 1 n).toInt := by
  rw [toInt_atLeast, Int64.toInt_one]
  omega

/-- A width that was lifted is not negative. -/
theorem zero_le_atLeast (n : Int64) : 0 ≤ (atLeast 0 n).toInt := by
  rw [toInt_atLeast, Int64.toInt_zero]
  omega

/-- The pager with all that a request can say. -/
def make (page size eachSide : Int64) (needTotal : Bool) (cursorName : Option String) : Pager :=
  { page := atLeast 1 page
    size := atLeast 1 size
    eachSide := atLeast 0 eachSide
    needTotal
    cursorName
    page_pos := one_le_atLeast page
    size_pos := one_le_atLeast size
    eachSide_nonneg := zero_le_atLeast eachSide }

/-- The pager of a page and its size. -/
def ofPage (page size : Int64) : Pager := make page size 0 false none

/-- The pager with another page. -/
def withPage (p : Pager) (page : Int64) : Pager :=
  { p with page := atLeast 1 page, page_pos := one_le_atLeast page }

/-- The pager with another size. -/
def withSize (p : Pager) (size : Int64) : Pager :=
  { p with size := atLeast 1 size, size_pos := one_le_atLeast size }

/-- The pager with another width. -/
def withEachSide (p : Pager) (eachSide : Int64) : Pager :=
  { p with eachSide := atLeast 0 eachSide, eachSide_nonneg := zero_le_atLeast eachSide }

/-- The pager that asks for the total, or does not. -/
def withNeedTotal (p : Pager) (needTotal : Bool) : Pager := { p with needTotal }

/-- The pager with a cursor of the given name. -/
def withCursorName (p : Pager) (name : String) : Pager := { p with cursorName := some name }

/-- The pager without a cursor. -/
def withoutCursor (p : Pager) : Pager := { p with cursorName := none }

/-- The first page under a configuration. -/
def ofConfig (c : PagerConfig) : Pager := make 1 c.size c.eachSide c.needTotal none

instance : Inhabited Pager := ⟨ofConfig {}⟩

/-- The page of a request under a configuration. -/
def ofRequest (c : PagerConfig) (page size : Option Int64) (cursorName : Option String) : Pager :=
  let p := ofConfig c
  let p := match page with
    | some n => p.withPage n
    | none => p
  -- Only a size that was asked for is cut to the greatest one.
  let p := match size with
    | some n => p.withSize (c.clampSize n)
    | none => p
  match cursorName with
  | some name => p.withCursorName name
  | none => p

/-- A cursor is kept between requests. -/
def usesCursor (p : Pager) : Bool := p.cursorName.isSome

/-- The number of rows before the page. -/
def offset (p : Pager) : Int := (p.page.toInt - 1) * p.size.toInt

/-- The page some steps on. -/
def next (p : Pager) (step : Int64) : Pager := p.withPage (plus p.page step)

/-- The page some steps back. -/
def previous (p : Pager) (step : Int64) : Pager := p.withPage (minus p.page step)

/-- Two pagers agree in everything but the page. -/
def agrees (p q : Pager) : Bool :=
  -- The page is not compared: a cursor is kept for a page that follows.
  p.size == q.size && p.eachSide == q.eachSide && p.needTotal == q.needTotal &&
    p.cursorName == q.cursorName

/-- Going to another page leaves all that a stored cursor is checked against. -/
theorem agrees_withPage (p : Pager) (page : Int64) : p.agrees (p.withPage page) = true := by
  simp [agrees, withPage]

/-- Going forward adds to the page, up to the greatest one. -/
theorem toInt_next_page (p : Pager) (step : Int64) (h : 0 ≤ step.toInt) :
    (p.next step).page.toInt = min (p.page.toInt + step.toInt) Integer.greatest := by
  have := p.page_pos
  have := Integer.inRange_toInt p.page
  simp only [next, withPage, toInt_atLeast, plus, Integer.toInt_saturate, Int64.toInt_one]
  unfold Integer.InRange Integer.least Integer.greatest at *
  omega

end Pager

end SqlPaging
