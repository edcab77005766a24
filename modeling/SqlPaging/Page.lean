import SqlPaging.Window

/-!
# SqlPaging — pages

A page holds the rows that were fetched for it and knows its neighbours: from the
total number of rows if that was counted, else from the number of pages that are
known to follow. The *focus* of a page are the pages that are shown around it; at
either end of the table it is moved, so that as many pages as possible are shown.

Main results:

* `map_map` — changing the rows twice is one change.
-/

namespace SqlPaging

open Integer (plus minus times plus? saturate)

/-- What a page is made of besides its rows. -/
structure PageArgs where
  eachSide : Int64
  pageSize : Int64
  page : Int64
  total : Option Int64
  nextPageCount : Option Int64
deriving DecidableEq, Repr

/-- The page arguments of a token. -/
def PageArgs.ofToken? (json : Json) : Option PageArgs := do
  let r ← Json.Record.ofJson? ["each_side", "page_size", "page", "total", "next_page_count"] json
  let eachSide ← r.required "each_side" Json.int?
  let pageSize ← r.required "page_size" Json.int?
  let page ← r.required "page" Json.int?
  let total ← r.optional "total" Json.int?
  let nextPageCount ← r.optional "next_page_count" Json.int?
  some { eachSide, pageSize, page, total, nextPageCount }

/-- A page of rows. -/
structure Page (ρ : Type) where
  items : List ρ
  eachSide : Int64
  pageSize : Int64
  page : Int64
  total : Option Int64
  lastPage : Option Int64
  nextPageCount : Int64
deriving DecidableEq, Repr

/-- The smaller of two 64-bit integers. -/
def atMost (most n : Int64) : Int64 := if most < n then most else n

/-- The number of parts of a positive size that a number of things fills. -/
def partsOf (n size : Int) : Int := -((-n) / size)

namespace Page

variable {ρ : Type}

/-- The page with the given rows. A total is stronger than a number of pages that
follow, and moves a page past the end to the last page. -/
def make (items : List ρ) (a : PageArgs) : Except ArgumentFault (Page ρ) :=
  let page := atLeast 1 a.page
  let eachSide := atLeast 0 a.eachSide
  if a.pageSize < 1 then .error (.pageSize a.pageSize)
  else
    match a.total, a.nextPageCount with
    -- What was counted is stronger than what was seen to follow.
    | some total, _ =>
      if total < 0 then .error (.negativeTotal total)
      else
        -- An empty table still has a first page.
        let last := atLeast 1 (saturate (partsOf total.toInt a.pageSize.toInt))
        let page := atMost last page
        .ok { items, eachSide, pageSize := a.pageSize, page, total := a.total,
              lastPage := some last, nextPageCount := minus last page }
    | none, some next =>
      .ok { items, eachSide, pageSize := a.pageSize, page, total := none, lastPage := none,
            nextPageCount := atLeast 0 next }
    | none, none => .error .noExtent

/-- The page that the rows fetched for a window make. Rows beyond the page only
show how many pages follow; walking back, the rows are turned round, and the page
that was walked from follows. -/
def ofWindow (rows : List ρ) (w : Window) (total : Option Int64) : Except ArgumentFault (Page ρ) :=
  let size := atLeast 1 w.size
  -- The last page may have fewer rows than its size.
  let extra := atLeast 0 (minus (Integer.ofLength rows.length) size)
  let probed := atMost w.effectivePages (saturate (partsOf extra.toInt size.toInt))
  -- On a walk back the page is what was fetched first, so it is cut before it is turned.
  let items := rows.take size.toInt.toNat
  make (if w.reversed then items.reverse else items)
    { eachSide := w.eachSide
      pageSize := size
      page := w.page
      total
      -- What lies beyond the page walked from is not known.
      nextPageCount := some (if w.reversed then 1 else probed) }

/-! ## Neighbours -/

/-- A page follows. -/
def hasNext (p : Page ρ) : Bool := 0 < p.nextPageCount

/-- A page comes before. -/
def hasPrevious (p : Page ρ) : Bool := 1 < p.page

/-- There is another page. -/
def hasPages (p : Page ρ) : Bool := p.hasPrevious || p.hasNext

/-- The page that follows. -/
def nextPage? (p : Page ρ) : Option Int64 := (plus? p.page 1).filter fun _ => p.hasNext

/-- The page before. -/
def previousPage? (p : Page ρ) : Option Int64 :=
  if p.hasPrevious then some (minus p.page 1) else none

/-- The position of the first row, from one, or zero if there is no row. -/
def first (p : Page ρ) : Int64 :=
  if p.items.isEmpty then 0 else plus (times (minus p.page 1) p.pageSize) 1

/-- The position of the last row, or zero if there is no row. -/
def last (p : Page ρ) : Int64 :=
  if p.items.isEmpty then 0 else plus p.first (minus (Integer.ofLength p.items.length) 1)

/-! ## Focus -/

/-- A range of pages, with both ends. -/
structure Range where
  first : Int64
  last : Int64
deriving DecidableEq, Repr

/-- The pages of a range. -/
def Range.pages (r : Range) : List Int64 :=
  (List.range (r.last.toInt - r.first.toInt + 1).toNat).map fun (i : Nat) =>
    saturate (r.first.toInt + (i : Int))

/-- The pages that are shown around a page. -/
def focus (p : Page ρ) : Range :=
  let upper := p.lastPage.getD (plus p.page p.nextPageCount)
  let start := minus p.page p.eachSide
  let stop := plus p.page p.eachSide
  -- What is missing before the first page is shown after the page, and the other way round.
  let stop := if start < 1 then plus stop (minus 1 start) else stop
  let start := atLeast 1 start
  -- The end is cut at the last known page, and the start moves back by as much.
  if upper < stop then
    { first := atLeast 1 (minus start (minus stop upper)), last := upper }
  else { first := start, last := stop }

/-! ## Addresses -/

/-- The mark in a template that the number of a page takes the place of. -/
def pageMark : List Char := "\x7bpage\x7d".toList

/-- A text in which every occurrence of a mark is replaced, after as many
characters of the mark before it as are to be skipped. -/
def replaceFrom (mark by_ : List Char) : Nat → List Char → List Char
  | _, [] => []
  | skip + 1, _ :: s => replaceFrom mark by_ skip s
  | 0, c :: s =>
    -- The mark's own first character is this one, so one fewer is skipped.
    if mark.isPrefixOf (c :: s) then by_ ++ replaceFrom mark by_ (mark.length - 1) s
    else c :: replaceFrom mark by_ 0 s

/-- The address of a page. -/
def url (template : String) (page : Int64) : String :=
  String.ofList (replaceFrom pageMark (Integer.text page).toList 0 template.toList)

/-- The address of the page that follows. -/
def nextUrl? (p : Page ρ) (template : String) : Option String :=
  p.nextPage?.map (url template)

/-- The address of the page before. -/
def previousUrl? (p : Page ρ) (template : String) : Option String :=
  p.previousPage?.map (url template)

/-- The addresses of the pages in the focus. -/
def focusUrls (p : Page ρ) (template : String) : List (Int64 × String) :=
  p.focus.pages.map fun n => (n, url template n)

/-- The page with its rows changed. -/
def map {σ : Type} (f : ρ → σ) (p : Page ρ) : Page σ := { p with items := p.items.map f }

/-- Rows that are changed twice are changed by both in turn. -/
theorem map_map {σ τ : Type} (f : ρ → σ) (g : σ → τ) (p : Page ρ) :
    (p.map f).map g = p.map (g ∘ f) := by
  simp [map]

end Page

end SqlPaging
