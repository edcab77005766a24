import SqlPaging.Proofs.Fetch.Refinement
import SqlPaging.Proofs.Page.Probe

/-!
# SqlPaging — the positions of the rows of a page

A page tells its number and the positions of its rows in the table. The rows were fetched for the
number that was asked for. Counting the rows moves a page past the end of the table to the last
page, and then the number is no longer the one that the rows were fetched for: the page is the
last one, without its rows.

Main results:

* `toInt_positions` — the positions of the rows of a page.
* `skipping_of_lists` — the rows and the number of a page that is fetched by skipping.
* `fetchSkipping_holds_iff` — the pages that have the rows of their number.
* `past_end_empty` — the last page without its rows.
-/

namespace SqlPaging

open Integer (minus)

/-- A database answers the queries of a statement that skip rows from a list of rows, which is
the table in the order of the statement, and counts them. -/
structure Lists {ρ : Type} (db : Database ρ) (d : Dialect) (b : Base) (rows : List ρ) : Prop where
  execute : ∀ pager q, Query.compile d b.sql b.order b.params pager none = .ok q →
    db.execute d q.sql q.binds =
      .ok ((rows.drop q.window.offset.toInt.toNat).take q.window.limit.toInt.toNat)
  count : ∀ q, Query.count d b.sql b.params = .ok q →
    db.count d q.sql q.binds = .ok (Integer.ofLength rows.length)
  length_le : (rows.length : Int) ≤ Integer.greatest

/-- A database that serves a table lists its sorted rows. -/
theorem Table.Serves.lists {ρ α : Type} [DecidableEq α] {t : Table ρ α} {db : Database ρ}
    {d : Dialect} {b : Base} (h : t.Serves db d b)
    (hlength : (t.rows.length : Int) ≤ Integer.greatest) :
    Lists db d b (t.sorted b.order t.rows) where
  execute pager q hq := by rw [h.execute pager none q hq, t.answer_none]
  count q hq := by rw [h.count q hq, t.length_sorted]
  length_le := by rwa [t.length_sorted]

namespace Page

variable {ρ : Type}

/-- A page has the rows of its number, where pages have the given size, and their positions. -/
structure Holds (p : Page ρ) (size : Int) (rows : List ρ) : Prop where
  items : p.items = (rows.take (min (p.page.toInt * size) rows.length).toNat).drop
    ((p.page.toInt - 1) * size).toNat
  empty : p.items = [] → p.first = 0 ∧ p.last = 0
  positions : p.items ≠ [] → p.first.toInt = (p.page.toInt - 1) * size + 1 ∧
    p.last.toInt = min (p.page.toInt * size) rows.length

/-! ## Pages of windows -/

/-- A page has the first rows of its window. It has the number of the window, but for the last
page if that comes before. -/
theorem ofWindow_forward {rows : List ρ} {w : Window} {total : Option Int64} {p : Page ρ}
    (hr : w.reversed = false) (hs : 1 ≤ w.size.toInt) (hp : 1 ≤ w.page.toInt)
    (h : ofWindow rows w total = .ok p) :
    p.items = rows.take w.size.toInt.toNat ∧ p.pageSize = w.size ∧
      p.page = total.elim w.page fun t => atMost (tableEnd t w.size) w.page := by
  simp only [ofWindow, make, hr, atLeast_one_eq hs, atLeast_one_eq hp, not_lt_one hs, if_false,
    Bool.false_eq_true] at h
  -- without a total nothing is lowered, and nothing can be refused
  cases total with
  | none =>
    cases h
    exact ⟨rfl, rfl, rfl⟩
  | some t =>
    dsimp only at h
    split at h
    · cases h
    · cases h
      exact ⟨rfl, rfl, rfl⟩

/-- The positions of the rows of a page, if they can be counted with 64 bits. -/
theorem toInt_positions {p : Page ρ} (hp : 1 ≤ p.page.toInt) (hs : 1 ≤ p.pageSize.toInt)
    (hne : p.items ≠ [])
    (hfit : (p.page.toInt - 1) * p.pageSize.toInt + p.items.length ≤ Integer.greatest) :
    p.first.toInt = (p.page.toInt - 1) * p.pageSize.toInt + 1 ∧
      p.last.toInt = (p.page.toInt - 1) * p.pageSize.toInt + p.items.length := by
  have hsome : p.items.isEmpty = false := List.isEmpty_eq_false_iff.mpr hne
  have hlength := List.length_pos_iff.mpr hne
  have hbefore : 0 ≤ (p.page.toInt - 1) * p.pageSize.toInt :=
    Int.mul_nonneg (by omega) (by omega)
  -- none of the steps leaves the range, so that none of them stops at its end
  have htimes : (Integer.times (minus p.page 1) p.pageSize).toInt =
      (p.page.toInt - 1) * p.pageSize.toInt := by
    rw [Integer.times, Window.toInt_minus_one hp]
    apply Integer.toInt_saturate_of_inRange
    unfold Integer.InRange Integer.least
    omega
  have hfirst : p.first.toInt = (p.page.toInt - 1) * p.pageSize.toInt + 1 := by
    rw [first, hsome, if_neg (by decide), Integer.plus, htimes, Int64.toInt_one]
    apply Integer.toInt_saturate_of_inRange
    unfold Integer.InRange Integer.least
    omega
  -- the number of items fits as well, since the last position does
  have hcount := Integer.toInt_ofLength (n := p.items.length) (by omega)
  refine ⟨hfirst, ?_⟩
  rw [last, hsome, if_neg (by decide), Integer.plus, hfirst,
    Window.toInt_minus_one (by rw [hcount]; omega), hcount, Integer.toInt_saturate_of_inRange]
  · omega
  · unfold Integer.InRange Integer.least
    omega

theorem positions_nil {p : Page ρ} (h : p.items = []) : p.first = 0 ∧ p.last = 0 := by
  simp [first, last, h]

end Page

/-! ## Windows of lists -/

/-- The rows of a page, in two ways to count them. -/
theorem take_window {ρ : Type} {page size : Int} (rows : List ρ) (hp : 1 ≤ page) (hs : 1 ≤ size) :
    (rows.drop ((page - 1) * size).toNat).take size.toNat =
      (rows.take (min (page * size) rows.length).toNat).drop ((page - 1) * size).toNat := by
  have hbefore : 0 ≤ (page - 1) * size := Int.mul_nonneg (by omega) (by omega)
  have hprod : page * size = (page - 1) * size + size := by ring
  rw [List.drop_take, List.take_eq_take_iff, List.length_drop]
  omega

namespace Fetch

variable {ρ : Type} {db : Database ρ} {d : Dialect} {b : Base} {rows : List ρ} {pager : Pager}
  {store : Store} {p : Page ρ}

theorem counted_of_lists (h : Lists db d b rows) {n : Option Int64}
    (hn : counted db d (b.request pager) = .ok n) :
    n = if pager.needTotal = true then some (Integer.ofLength rows.length) else none := by
  unfold counted Base.request at hn
  dsimp only at hn
  split at hn
  · next htotal =>
    -- the count query compiles, and the database answers it
    obtain ⟨c, hc, hn⟩ := bind_eq_ok.mp hn
    obtain ⟨total, hcount, hn⟩ := bind_eq_ok.mp hn
    obtain rfl := Except.ok.inj (hcount.symm.trans (h.count c hc))
    cases hn
    rw [if_pos htotal]
  · next htotal =>
    cases hn
    rw [if_neg htotal]

/-- A page that is fetched by skipping has the rows of the number that was asked for. Its own
number is the same one, but for the last page of a counted table if that comes before. -/
theorem skipping_of_lists (h : Lists db d b rows)
    (hp : (fetchSkipping db d (b.request pager) store).page = .ok p) :
    p.items = (rows.drop ((pager.page.toInt - 1) * pager.size.toInt).toNat).take
        pager.size.toInt.toNat ∧
      p.pageSize = pager.size ∧
      p.page.toInt = if pager.needTotal = true then
        min (max 1 ⌈(rows.length : ℚ) / (pager.size.toInt : ℚ)⌉) pager.page.toInt
      else pager.page.toInt := by
  obtain ⟨q, fetched, hq, hfetched, hpage⟩ := fetchSkipping_page_eq_ok_iff.mp hp
  obtain ⟨n, hn, hmade⟩ := bind_eq_ok.mp hpage
  rw [mapError_eq_ok] at hmade
  -- both the count and the rows come from the same list
  obtain rfl := counted_of_lists h hn
  obtain rfl := Except.ok.inj (hfetched.symm.trans (h.execute pager q hq))
  obtain ⟨⟨hwpage, hwsize, -, hpages, hforward, hlimit⟩, hoffset⟩ :=
    Window.skips_of_offsetMode (Query.compile_window hq) pager.page_pos
  dsimp only [Base.request] at hwpage hwsize hpages hlimit hoffset
  have hsize := pager.size_pos
  obtain ⟨hitems, hper, hnumber⟩ := Page.ofWindow_forward hforward (by rw [hwsize]; exact hsize)
    (by rw [hwpage]; exact pager.page_pos) hmade
  rw [hwsize] at hitems hper hnumber
  -- the window holds at least the rows of its page
  have hmost : pager.size.toInt ≤ q.window.limit.toInt := by
    have hone : 1 ≤ q.window.effectivePages.toInt := by
      rw [hpages, effectivePages]
      exact Pager.one_le_atLeast _
    have := le_mul_of_one_le_left (show 0 ≤ pager.size.toInt by omega) hone
    omega
  refine ⟨?_, hper, ?_⟩
  · rw [hitems, hoffset, List.take_take, Nat.min_eq_left (by omega)]
  · rw [hnumber, hwpage]
    split
    · -- the number of the last page is a ceiling, which the code takes by division
      have hceil := partsOf_eq_ceil (rows.length : Int) (show 0 ≤ pager.size.toInt by omega)
      rw [Int.cast_natCast] at hceil
      have hcount := Integer.toInt_ofLength h.length_le
      rw [Option.elim_some, toInt_atMost, Page.toInt_tableEnd (by omega) hsize, hcount, hceil]
    · rw [Option.elim_none]

end Fetch

namespace Page

variable {ρ : Type} {p : Page ρ} {rows : List ρ}

/-- A page with the rows of its number tells their positions. -/
theorem holds_of_items (hp : 1 ≤ p.page.toInt) (hs : 1 ≤ p.pageSize.toInt)
    (hlength : (rows.length : Int) ≤ Integer.greatest)
    (hitems : p.items = (rows.drop ((p.page.toInt - 1) * p.pageSize.toInt).toNat).take
      p.pageSize.toInt.toNat) : p.Holds p.pageSize.toInt rows where
  items := by rw [hitems, take_window rows hp hs]
  empty := positions_nil
  positions hne := by
    have hbefore : 0 ≤ (p.page.toInt - 1) * p.pageSize.toInt :=
      Int.mul_nonneg (by omega) (by omega)
    have hprod : p.page.toInt * p.pageSize.toInt =
        (p.page.toInt - 1) * p.pageSize.toInt + p.pageSize.toInt := by ring
    -- there are no more items than rows behind the offset
    have hlen := congrArg List.length hitems
    rw [List.length_take, List.length_drop] at hlen
    have hsome := List.length_pos_iff.mpr hne
    obtain ⟨hfirst, hlast⟩ := toInt_positions hp hs hne (by omega)
    refine ⟨hfirst, ?_⟩
    rw [hlast]
    omega

/-- A page without rows does not have those of its number where the table reaches that far. -/
theorem not_holds_of_nil {size : Int} (hitems : p.items = []) (hp : 1 ≤ p.page.toInt)
    (hs : 1 ≤ size) (hlast : (p.page.toInt - 1) * size < rows.length) : ¬ p.Holds size rows := by
  intro h
  have hbefore : 0 ≤ (p.page.toInt - 1) * size := Int.mul_nonneg (by omega) (by omega)
  have hprod : p.page.toInt * size = (p.page.toInt - 1) * size + size := by ring
  have hnil := congrArg List.length (hitems.symm.trans h.items)
  rw [List.length_nil, List.length_drop, List.length_take] at hnil
  omega

end Page

open Fetch

/-- A page that is fetched by skipping, from a database that lists rows and counts them, has the
rows of its number and their positions, unless the rows were counted and the page that was asked
for lies behind the last one of a table that is not empty. -/
theorem fetchSkipping_holds_iff {ρ : Type} {db : Database ρ} {d : Dialect} {b : Base}
    {rows : List ρ} {pager : Pager} {store : Store} {p : Page ρ} (h : Lists db d b rows)
    (hp : (fetchSkipping db d (b.request pager) store).page = .ok p) :
    p.Holds pager.size.toInt rows ↔ (pager.needTotal = true → rows ≠ [] →
      pager.page.toInt ≤ ⌈(rows.length : ℚ) / (pager.size.toInt : ℚ)⌉) := by
  have hsize := pager.size_pos
  have hpage := pager.page_pos
  obtain ⟨hitems, hper, hnumber⟩ := skipping_of_lists h hp
  have hceil := partsOf_eq_ceil (rows.length : Int) (show 0 ≤ pager.size.toInt by omega)
  rw [Int.cast_natCast] at hceil
  rw [← hceil] at hnumber ⊢
  constructor
  · intro hholds htotal hne
    by_contra hpast
    have hlength := List.length_pos_iff.mpr hne
    have hparts := partsOf_pos (show 0 < pager.size.toInt by omega)
      (show (0 : Int) < rows.length by omega)
    -- the page is the last one, and the rows were looked for behind it
    rw [if_pos htotal] at hnumber
    -- all rows are in front of the page that was asked for, so that it is empty
    have hend := (partsOf_le_iff (show 0 < pager.size.toInt by omega)
      (k := pager.page.toInt - 1)).mp (show partsOf rows.length _ ≤ _ by omega)
    have hlast : (p.page.toInt - 1) * pager.size.toInt < rows.length := by
      rw [← not_le, ← partsOf_le_iff (by omega)]
      omega
    refine Page.not_holds_of_nil ?_ (by omega) hsize hlast hholds
    rw [hitems, List.drop_eq_nil_of_le (by omega), List.take_nil]
  · intro hwithin
    rw [← hper] at hitems hsize ⊢
    refine Page.holds_of_items (by split at hnumber <;> omega) hsize h.length_le ?_
    -- an empty table has an empty page, whatever its number
    rcases eq_or_ne rows [] with rfl | hne
    · simp [hitems]
    · have hsame : p.page.toInt = pager.page.toInt := by
        rw [hnumber]
        split
        · next htotal =>
          have := hwithin htotal hne
          omega
        · rfl
      rw [hitems, hsame]

/-- The last one of five people is alone on the third page of two. -/
theorem fetchSkipping_holds_iff_of_people :
    ∃ p, (fetchSkipping peopleDatabase .sqlite
        (peopleBase.request (Pager.make 3 2 0 true none)) (.empty 60000)).page = .ok p ∧
      p.page = 3 ∧ p.items = [(1, 12)] ∧
      p.Holds 2 (people.sorted peopleBase.order people.rows) := by
  obtain ⟨p, hp, hnumber, hitems⟩ : ∃ p, (fetchSkipping peopleDatabase .sqlite
      (peopleBase.request (Pager.make 3 2 0 true none)) (.empty 60000)).page = .ok p ∧
        p.page = 3 ∧ p.items = [(1, 12)] := exists_eq_ok_of_any (by decide +kernel)
  refine ⟨p, hp, hnumber, hitems, ?_⟩
  -- page 3 is within the table
  refine (fetchSkipping_holds_iff (people_serves.lists (by decide)) hp).mpr ?_
  intro _ _
  rw [people.length_sorted]
  decide +kernel

/-- The page behind the last one of five people is the last one when they are counted. The fifth
one is on that page, but the page has no rows. -/
theorem past_end_empty :
    ∃ p, (fetchSkipping peopleDatabase .sqlite
        (peopleBase.request (Pager.make 9 2 0 true none)) (.empty 60000)).page = .ok p ∧
      p.page = 3 ∧ p.items = [] ∧ p.first = 0 ∧ p.last = 0 ∧
      (people.sorted peopleBase.order people.rows)[4]? = some (1, 12) ∧
      ¬ p.Holds 2 (people.sorted peopleBase.order people.rows) := by
  obtain ⟨p, hp, hnumber, hitems⟩ : ∃ p, (fetchSkipping peopleDatabase .sqlite
      (peopleBase.request (Pager.make 9 2 0 true none)) (.empty 60000)).page = .ok p ∧
        p.page = 3 ∧ p.items = [] := exists_eq_ok_of_any (by decide +kernel)
  have hrow : (people.sorted peopleBase.order people.rows)[4]? = some (1, 12) := by
    decide +kernel
  obtain ⟨hfirst, hlast⟩ := Page.positions_nil hitems
  have hlength := people.length_sorted peopleBase.order people.rows
  refine ⟨p, hp, hnumber, hitems, hfirst, hlast, hrow, ?_⟩
  -- page 3 has a row in the table, so an empty page does not hold
  refine Page.not_holds_of_nil hitems ?_ (by decide) ?_ <;> rw [hnumber]
  · decide
  · rw [hlength]
    decide

/-- When they are not counted, the page keeps its number. -/
example :
    (fetchSkipping peopleDatabase .sqlite (peopleBase.request (Pager.make 9 2 0 false none))
      (.empty 60000)).page.toOption.map (fun p => (p.page, p.items)) = some (9, []) := by
  decide +kernel

end SqlPaging
