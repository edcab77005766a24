import SqlPaging.Proofs.Window.Extent

/-!
# SqlPaging — pages without a total

A window fetches one row more than its pages hold. The rows beyond the page show
how many pages follow, and that is all that navigation needs: for a page of the
table, counting the rows of the table changes nothing that is shown around the
page.

Two things have to fit together. The number of pages of the window is just what
the focus of the page can ask for (`toInt_reach_le`), and where the table ends
within the window, what was fetched gives the last page of the table exactly
(`partsOf_fetched`).

Main results:

* `focusWithin_of_reach_le` — pages beyond the reach of the focus do not matter.
* `toInt_probedPages` — the pages that are known to follow.
* `ofWindow_navigation` — a page without a total is shown like one with it.
-/

namespace SqlPaging

open Integer (plus minus saturate)

namespace Page

variable {ρ : Type}

/-! ## The reach of the focus -/

/-- The last page that the focus of a page shows if enough pages follow. -/
def reach (page eachSide : Int64) : Int64 :=
  let start := minus page eachSide
  let stop := plus page eachSide
  if start < 1 then plus stop (minus 1 start) else stop

/-- A page reaches as far as its width goes, and no less far than the first page does. -/
theorem toInt_reach {page eachSide : Int64} (hp : 1 ≤ page.toInt) (he : 0 ≤ eachSide.toInt) :
    (reach page eachSide).toInt =
      min Integer.greatest (max (page.toInt + eachSide.toInt) (2 * eachSide.toInt + 1)) := by
  have hpr := Integer.inRange_toInt page
  have her := Integer.inRange_toInt eachSide
  unfold Integer.InRange Integer.least Integer.greatest at *
  have hstart : (minus page eachSide).toInt = page.toInt - eachSide.toInt :=
    Integer.toInt_minus_of_nonneg (by omega) he
  simp only [reach, Int64.lt_iff_toInt_lt, hstart, Int64.toInt_one]
  -- either the pages in front of the first one are moved behind, or none is missing
  split
  · simp only [plus, minus, Integer.toInt_saturate, Int64.toInt_one]
    unfold Integer.least Integer.greatest
    omega
  · simp only [plus, Integer.toInt_saturate]
    unfold Integer.least Integer.greatest
    omega

/-- The pages of a window are as many as the focus can ask for. -/
theorem toInt_reach_le {page eachSide : Int64} (hp : 1 ≤ page.toInt) (he : 0 ≤ eachSide.toInt)
    (hfit : (effectivePages page eachSide).toInt < Integer.greatest) :
    (reach page eachSide).toInt ≤ page.toInt + (effectivePages page eachSide).toInt := by
  have heff := toInt_effectivePages page eachSide
  rw [toInt_reach hp he]
  dsimp only at heff
  unfold Integer.greatest at *
  omega

/-- The last page that is known of. -/
def furthest (p : Page ρ) : Int64 := p.lastPage.getD (plus p.page p.nextPageCount)

/-- The focus of a page, cut at the last page that is known of. -/
def focusWithin (page eachSide furthest : Int64) : Range :=
  let start := atLeast 1 (minus page eachSide)
  if furthest < reach page eachSide then
    { first := atLeast 1 (minus start (minus (reach page eachSide) furthest)), last := furthest }
  else { first := start, last := reach page eachSide }

theorem focus_eq_focusWithin (p : Page ρ) :
    p.focus = focusWithin p.page p.eachSide p.furthest := rfl

/-- Where pages are known beyond the reach of the focus, it does not matter how many. -/
theorem focusWithin_of_reach_le {page eachSide furthest : Int64}
    (h : (reach page eachSide).toInt ≤ furthest.toInt) :
    focusWithin page eachSide furthest =
      { first := atLeast 1 (minus page eachSide), last := reach page eachSide } := by
  unfold focusWithin
  dsimp only
  rw [if_neg]
  rw [Int64.lt_iff_toInt_lt]
  omega

/-! ## The pages of a window -/

/-- The number of pages that the fetched rows show to follow. -/
def probedPages (fetched : Nat) (pages size : Int64) : Int64 :=
  atMost pages (saturate (partsOf
    (atLeast 0 (minus (Integer.ofLength fetched) size)).toInt size.toInt))

/-- As many pages are known to follow as the rows behind the page fill or begin, up to those
that were asked for. -/
theorem toInt_probedPages {fetched : Nat} {pages size : Int64} (hs : 1 ≤ size.toInt)
    (hf : (fetched : Int) ≤ Integer.greatest) :
    (probedPages fetched pages size).toInt =
      min pages.toInt (partsOf (max 0 ((fetched : Int) - size.toInt)) size.toInt) := by
  have hlength := Integer.toInt_ofLength hf
  -- rows beyond the first page, if there are any
  have hextra : (atLeast 0 (minus (Integer.ofLength fetched) size)).toInt =
      max 0 ((fetched : Int) - size.toInt) := by
    rw [toInt_atLeast, Int64.toInt_zero, Integer.toInt_minus_of_nonneg (by omega) (by omega),
      hlength]
  -- there are no more parts than things, so that their number is not cut
  have hnonneg : 0 ≤ partsOf (max 0 ((fetched : Int) - size.toInt)) size.toInt :=
    partsOf_nonneg (by omega) (by omega)
  have hle : partsOf (max 0 ((fetched : Int) - size.toInt)) size.toInt ≤
      max 0 ((fetched : Int) - size.toInt) := by
    rw [partsOf_le_iff (by omega)]
    exact le_mul_of_one_le_right (by omega) hs
  rw [probedPages, toInt_atMost, hextra, Integer.toInt_saturate_of_inRange]
  unfold Integer.InRange Integer.least Integer.greatest at *
  omega

/-! ## Pages with and without a total -/

/-- The page of a window that goes on, without a total. -/
def uncounted (rows : List ρ) (w : Window) : Page ρ :=
  { items := rows.take w.size.toInt.toNat, eachSide := w.eachSide, pageSize := w.size,
    page := w.page, total := none, lastPage := none,
    nextPageCount := probedPages rows.length w.effectivePages w.size }

/-- The last page of a table. An empty table still has a first page. -/
def tableEnd (total size : Int64) : Int64 :=
  atLeast 1 (saturate (partsOf total.toInt size.toInt))

/-- The page of a window that goes on, with the total. -/
def counted (rows : List ρ) (w : Window) (total : Int64) : Page ρ :=
  { items := rows.take w.size.toInt.toNat, eachSide := w.eachSide, pageSize := w.size,
    page := w.page, total := some total, lastPage := some (tableEnd total w.size),
    nextPageCount := minus (tableEnd total w.size) w.page }

/-- Without a total the furthest page is the last one that was probed. -/
theorem furthest_uncounted (rows : List ρ) (w : Window) :
    (uncounted rows w).furthest =
      plus w.page (probedPages rows.length w.effectivePages w.size) := by
  simp only [furthest, uncounted, Option.getD_none]

/-- With a total it is the last page of the table. -/
theorem furthest_counted (rows : List ρ) (w : Window) (total : Int64) :
    (counted rows w total).furthest = tableEnd total w.size := by
  simp only [furthest, counted, Option.getD_some]

/-- The page of a window without a total has what was probed. -/
theorem ofWindow_uncounted {rows : List ρ} {w : Window} (hr : w.reversed = false)
    (hs : 1 ≤ w.size.toInt) (hp : 1 ≤ w.page.toInt) (he : 0 ≤ w.eachSide.toInt)
    (hn : 0 ≤ (probedPages rows.length w.effectivePages w.size).toInt) :
    ofWindow rows w none = .ok (uncounted rows w) := by
  have hnext := atLeast_zero_eq hn
  unfold probedPages at hnext
  simp [ofWindow, make, uncounted, probedPages, hr, not_lt_one hs, atLeast_one_eq hs,
    atLeast_one_eq hp, atLeast_zero_eq he, hnext]

/-- The page of a window with a total has the end of the table. -/
theorem ofWindow_counted {rows : List ρ} {w : Window} {total : Int64} (hr : w.reversed = false)
    (hs : 1 ≤ w.size.toInt) (hp : 1 ≤ w.page.toInt) (he : 0 ≤ w.eachSide.toInt)
    (ht : 0 ≤ total.toInt) (hlast : w.page.toInt ≤ (tableEnd total w.size).toInt) :
    ofWindow rows w (some total) = .ok (counted rows w total) := by
  have hmost : atMost (tableEnd total w.size) w.page = w.page := atMost_of_le hlast
  unfold tableEnd at hmost
  simp [ofWindow, make, counted, tableEnd, hr, not_lt_one hs, not_lt_zero ht, atLeast_one_eq hs,
    atLeast_one_eq hp, atLeast_zero_eq he, hmost]

/-- The last page of a table is the one that its last row is on, and page 1 of an empty
table. -/
theorem toInt_tableEnd {total size : Int64} (ht : 0 ≤ total.toInt) (hs : 1 ≤ size.toInt) :
    (tableEnd total size).toInt = max 1 (partsOf total.toInt size.toInt) := by
  have htr := Integer.inRange_toInt total
  have hnonneg := partsOf_nonneg (show 0 < size.toInt by omega) ht
  have hle : partsOf total.toInt size.toInt ≤ total.toInt := by
    rw [partsOf_le_iff (by omega)]
    exact le_mul_of_one_le_right ht hs
  rw [tableEnd, toInt_atLeast, Int64.toInt_one, Integer.toInt_saturate_of_inRange]
  unfold Integer.InRange Integer.least Integer.greatest at *
  omega

/-- The last page that is known of without a total is that of the table, or both
lie beyond the reach of the focus. -/
theorem focusWithin_uncounted {page eachSide next last : Int64} (hp : 1 ≤ page.toInt)
    (he : 0 ≤ eachSide.toInt) (hfit : (effectivePages page eachSide).toInt < Integer.greatest)
    (hle : page.toInt ≤ last.toInt)
    (hnext : next.toInt = min (effectivePages page eachSide).toInt (last.toInt - page.toInt)) :
    focusWithin page eachSide (plus page next) = focusWithin page eachSide last := by
  have hlr := Integer.inRange_toInt last
  have heff : 1 ≤ (effectivePages page eachSide).toInt := by
    rw [effectivePages, toInt_atLeast, Int64.toInt_one]
    omega
  have hplus : (plus page next).toInt = page.toInt + next.toInt := by
    apply Integer.toInt_saturate_of_inRange
    unfold Integer.InRange Integer.least Integer.greatest at *
    omega
  rcases le_total (effectivePages page eachSide).toInt (last.toInt - page.toInt) with hfar | hnear
  · -- the table goes on beyond the window, so that neither end cuts the focus
    have hreach := toInt_reach_le hp he hfit
    rw [focusWithin_of_reach_le (by omega), focusWithin_of_reach_le (by omega)]
  · -- the table ends within the window, and what follows is its last page
    have hsame : plus page next = last := by
      apply Int64.toInt_inj.mp
      omega
    rw [hsame]

/-- What is fetched for a window of a table shows the pages that follow, as far as
the window reaches. -/
theorem toInt_probedPages_of_fetched {page size pages limit offset total : Int64} {fetched : Nat}
    (hs : 1 ≤ size.toInt) (hpages : 1 ≤ pages.toInt)
    (hoff : offset.toInt = (page.toInt - 1) * size.toInt)
    (hlim : limit.toInt = pages.toInt * size.toInt + 1)
    (hf : (fetched : Int) = min limit.toInt (max 0 (total.toInt - offset.toInt))) :
    (probedPages fetched pages size).toInt =
      min pages.toInt (max 0 (partsOf total.toInt size.toInt - page.toInt)) := by
  -- no more rows are fetched than the limit allows
  have hfetched : (fetched : Int) ≤ Integer.greatest := by
    have := (Integer.inRange_toInt limit).2
    omega
  rw [toInt_probedPages hs hfetched, hf, hlim, hoff, partsOf_fetched (by omega) hpages]

/-- Pages with the same rows and the same number that agree on whether a page
follows lead to the same pages. -/
theorem neighbours_congr {p q : Page ρ} (hitems : p.items = q.items) (hpage : p.page = q.page)
    (hsize : p.pageSize = q.pageSize) (hnext : p.hasNext = q.hasNext) :
    p.hasPrevious = q.hasPrevious ∧ p.hasPages = q.hasPages ∧ p.nextPage? = q.nextPage? ∧
      p.previousPage? = q.previousPage? ∧ p.first = q.first ∧ p.last = q.last := by
  -- none of these looks at the total
  have hprevious : p.hasPrevious = q.hasPrevious := by simp only [hasPrevious, hpage]
  have hfirst : p.first = q.first := by simp only [first, hitems, hpage, hsize]
  refine ⟨hprevious, ?_, ?_, ?_, hfirst, ?_⟩
  · simp only [hasPages, hprevious, hnext]
  · simp only [nextPage?, hpage, hnext]
  · simp only [previousPage?, hprevious, hpage]
  · simp only [last, hitems, hfirst]

end Page

/-- For a page of a table, the rows that are fetched for its window make the same
page with the total and without it, as far as moving between pages goes. Without
the total, as many pages are known to follow as the table has after the page, cut
at the number of pages of the window. -/
theorem ofWindow_navigation {ρ : Type} {page size eachSide total : Int64} {w : Window}
    {rows : List ρ} (hp : 1 ≤ page.toInt) (hs : 1 ≤ size.toInt) (he : 0 ≤ eachSide.toInt)
    (ht : 0 ≤ total.toInt)
    (hlast : page.toInt ≤ max 1 ⌈(total.toInt : ℚ) / (size.toInt : ℚ)⌉)
    (hw : Window.offsetMode page size eachSide = .ok w)
    (hrows : (rows.length : Int) = min w.limit.toInt (max 0 (total.toInt - w.offset.toInt))) :
    ∃ p q : Page ρ,
      Page.ofWindow rows w none = .ok p ∧ Page.ofWindow rows w (some total) = .ok q ∧
      p.items = q.items ∧ p.page = q.page ∧ p.focus = q.focus ∧ p.hasNext = q.hasNext ∧
      p.hasPrevious = q.hasPrevious ∧ p.hasPages = q.hasPages ∧ p.nextPage? = q.nextPage? ∧
      p.previousPage? = q.previousPage? ∧ p.first = q.first ∧ p.last = q.last ∧
      p.nextPageCount.toInt =
        if total = 0 then 0
        else min w.effectivePages.toInt
          (⌈(total.toInt : ℚ) / (size.toInt : ℚ)⌉ - page.toInt) := by
  have hpos : 0 < size.toInt := by omega
  rw [← partsOf_eq_ceil total.toInt hpos.le] at hlast ⊢
  obtain ⟨⟨rfl, rfl, rfl, hpages, hforward, hlim⟩, hoff⟩ := Window.skips_of_offsetMode hw hp
  have hone : 1 ≤ w.effectivePages.toInt := by
    rw [hpages, effectivePages, toInt_atLeast, Int64.toInt_one]
    omega
  -- the limit is exact, so that the number of pages leaves room for one more
  have hfit : w.effectivePages.toInt < Integer.greatest := by
    have := le_mul_of_one_le_right (show 0 ≤ w.effectivePages.toInt by omega) hs
    have := (Integer.inRange_toInt w.limit).2
    omega
  -- what was fetched shows the pages that follow, and they end where the table ends
  have hnext := Page.toInt_probedPages_of_fetched hs hone hoff hlim hrows
  have hend := Page.toInt_tableEnd ht hs
  have hle : w.page.toInt ≤ (Page.tableEnd total w.size).toInt := by rw [hend]; exact hlast
  have hcount : (Page.probedPages rows.length w.effectivePages w.size).toInt =
      min w.effectivePages.toInt ((Page.tableEnd total w.size).toInt - w.page.toInt) := by
    omega
  -- hence a page follows in both or in none, and the focus is cut at the same page
  have hminus : (minus (Page.tableEnd total w.size) w.page).toInt =
      (Page.tableEnd total w.size).toInt - w.page.toInt :=
    Integer.toInt_minus_of_nonneg (by omega) (by omega)
  have hfollows : (Page.uncounted rows w).hasNext = (Page.counted rows w total).hasNext := by
    simp only [Page.hasNext, Page.uncounted, Page.counted, Int64.lt_iff_toInt_lt,
      Int64.toInt_zero, hminus, decide_eq_decide]
    omega
  have hfocus : (Page.uncounted rows w).focus = (Page.counted rows w total).focus := by
    rw [Page.focus_eq_focusWithin, Page.focus_eq_focusWithin, Page.furthest_uncounted,
      Page.furthest_counted]
    exact Page.focusWithin_uncounted hp he (hpages ▸ hfit) hle (hpages ▸ hcount)
  obtain ⟨hprevious, hhas, hnextPage, hpreviousPage, hfirst, hlast'⟩ :=
    Page.neighbours_congr (p := Page.uncounted rows w) (q := Page.counted rows w total)
      rfl rfl rfl hfollows
  refine ⟨Page.uncounted rows w, Page.counted rows w total,
    Page.ofWindow_uncounted hforward hs hp he (by omega),
    Page.ofWindow_counted hforward hs hp he ht hle, rfl, rfl, hfocus, hfollows, hprevious, hhas,
    hnextPage, hpreviousPage, hfirst, hlast', ?_⟩
  rw [Page.uncounted, hnext]
  split
  · next hzero =>
    -- an empty table has a first page without a part on it
    subst hzero
    have hnone : partsOf (0 : Int64).toInt w.size.toInt = 0 := by simp [partsOf]
    rw [hnone]
    omega
  · next hzero =>
    have hne : total.toInt ≠ 0 := fun h => hzero (Int64.toInt_inj.mp h)
    have hpositive := partsOf_pos hpos (show 0 < total.toInt by omega)
    omega

/-- A table of seven rows, two to a page, seen from its first page with two pages to
either side: the window holds four pages, and three follow. -/
theorem ofWindow_navigation_of_first_page :
    ∃ w : Window, Window.offsetMode 1 2 2 = .ok w ∧ w.limit = 9 ∧
    ∃ p q : Page Nat,
      Page.ofWindow [0, 1, 2, 3, 4, 5, 6] w none = .ok p ∧
      Page.ofWindow [0, 1, 2, 3, 4, 5, 6] w (some 7) = .ok q ∧
      p.items = q.items ∧ p.page = q.page ∧ p.focus = q.focus ∧ p.hasNext = q.hasNext ∧
      p.hasPrevious = q.hasPrevious ∧ p.hasPages = q.hasPages ∧ p.nextPage? = q.nextPage? ∧
      p.previousPage? = q.previousPage? ∧ p.first = q.first ∧ p.last = q.last ∧
      p.nextPageCount.toInt =
        if (7 : Int64) = 0 then 0
        else min w.effectivePages.toInt (⌈((7 : Int64).toInt : ℚ) / ((2 : Int64).toInt : ℚ)⌉ -
          (1 : Int64).toInt) := by
  -- the first page is within the table, whatever its size
  have hpages : (1 : Int64).toInt ≤
      max 1 ⌈((7 : Int64).toInt : ℚ) / ((2 : Int64).toInt : ℚ)⌉ := le_max_left _ _
  exact ⟨⟨1, 2, 2, 4, .next, 0, 9, .offset⟩, by decide, rfl,
    ofWindow_navigation (by decide) (by decide) (show 0 ≤ (2 : Int64).toInt by decide) (by decide)
      hpages (by decide) (by decide)⟩

end SqlPaging
