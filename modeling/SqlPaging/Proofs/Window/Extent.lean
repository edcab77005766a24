import Mathlib.Data.Rat.Floor
import SqlPaging.Window
import SqlPaging.Page

/-!
# SqlPaging — the extent of a window

What a window that was made looks like, and how its number of pages, its limit
and the numbers of rows and of pages of a table are related. All of it is
arithmetic on integers: once a window fits 64 bits, none of its parts has been
cut at the end of the range.

Main results:

* `offsetMode_eq_ok_iff`, `keysetMode_eq_ok_iff` — all fields of a window.
* `partsOf_eq_ceil` — the number of parts is a quotient, rounded up.
* `partsOf_fetched` — the pages after the current one, counted by what was
  fetched, are those of the table as far as the window reaches.
-/

namespace SqlPaging

open Integer (minus times? plus?)

/-! ## Bounds -/

/-- A positive number is not below one in 64 bits either. -/
theorem not_lt_one {n : Int64} (h : 1 ≤ n.toInt) : ¬ n < 1 := by
  rw [Int64.lt_iff_toInt_lt, Int64.toInt_one]
  omega

theorem not_lt_zero {n : Int64} (h : 0 ≤ n.toInt) : ¬ n < 0 := by
  rw [Int64.lt_iff_toInt_lt, Int64.toInt_zero]
  omega

/-- A number that is too high is lowered to the greatest one. -/
theorem toInt_atMost (most n : Int64) : (atMost most n).toInt = min most.toInt n.toInt := by
  unfold atMost
  simp only [Int64.lt_iff_toInt_lt]
  split <;> omega

/-- A number that is low enough is not lowered. -/
theorem atMost_of_le {most n : Int64} (h : n.toInt ≤ most.toInt) : atMost most n = n := by
  unfold atMost
  rw [if_neg]
  rw [Int64.lt_iff_toInt_lt]
  omega

/-- The 64-bit integers are those in range. -/
theorem Integer.exists_toInt_eq_iff {n : Int} : (∃ m : Int64, m.toInt = n) ↔ InRange n :=
  ⟨fun ⟨m, h⟩ => h ▸ inRange_toInt m, fun h => ⟨Int64.ofInt n, toInt_ofInt h⟩⟩

/-- The difference of two numbers that are not negative is never stopped. -/
theorem Integer.toInt_minus_of_nonneg {a b : Int64} (ha : 0 ≤ a.toInt) (hb : 0 ≤ b.toInt) :
    (minus a b).toInt = a.toInt - b.toInt := by
  have har := inRange_toInt a
  have hbr := inRange_toInt b
  apply toInt_saturate_of_inRange
  unfold InRange least greatest at *
  omega

/-! ## Windows -/

namespace Window

/-- The limit is the number of rows of all pages and one more, if it can be counted in 64
bits. -/
theorem probeLimit?_eq_some_iff {pages size limit : Int64} :
    probeLimit? pages size = some limit ↔
      Integer.InRange (pages.toInt * size.toInt) ∧
        limit.toInt = pages.toInt * size.toInt + 1 := by
  rw [probeLimit?, Option.bind_eq_bind, Option.bind_eq_some_iff]
  -- a product or a sum has a result just if it is the exact one
  constructor
  · rintro ⟨n, hn, hl⟩
    rw [times?, Integer.fit?_eq_some_iff] at hn
    rw [plus?, Integer.fit?_eq_some_iff, Int64.toInt_one, hn] at hl
    exact ⟨hn ▸ Integer.inRange_toInt n, hl⟩
  · rintro ⟨hr, hl⟩
    refine ⟨Int64.ofInt (pages.toInt * size.toInt), ?_, ?_⟩
    · rw [times?, Integer.fit?_eq_some_iff]
      exact Integer.toInt_ofInt hr
    · rw [plus?, Integer.fit?_eq_some_iff, Int64.toInt_one, Integer.toInt_ofInt hr]
      exact hl

/-- A window that goes forward has the fields of its page, and an exact limit. -/
structure Shows (w : Window) (page size eachSide : Int64) : Prop where
  page_eq : w.page = page
  size_eq : w.size = size
  eachSide_eq : w.eachSide = eachSide
  pages_eq : w.effectivePages = SqlPaging.effectivePages page eachSide
  forward : w.reversed = false
  limit_eq : w.limit.toInt = w.effectivePages.toInt * size.toInt + 1

/-- A window that skips rows has an exact offset besides. -/
structure Skips (w : Window) (page size eachSide : Int64) : Prop
    extends w.Shows page size eachSide where
  offset_eq : w.offset.toInt = (page.toInt - 1) * size.toInt

/-- A window that skips rows has the fields of its page, an exact limit and an exact offset. -/
theorem offsetMode_eq_ok_iff {page size eachSide : Int64} {w : Window} (hp : 1 ≤ page.toInt) :
    offsetMode page size eachSide = .ok w ↔
      ∃ offset limit,
        w = { page, size, eachSide, effectivePages := SqlPaging.effectivePages page eachSide,
              direction := .next, offset, limit, mode := .offset } ∧
        offset.toInt = (page.toInt - 1) * size.toInt ∧
        probeLimit? (SqlPaging.effectivePages page eachSide) size = some limit := by
  -- both products are computed with a check, and the first one gives the offset
  have hoffset : ∀ offset, times? (minus page 1) size = some offset ↔
      offset.toInt = (page.toInt - 1) * size.toInt := by
    intro offset
    rw [times?, Integer.fit?_eq_some_iff, toInt_minus_one hp]
  unfold offsetMode
  dsimp only
  constructor
  · intro h
    split at h
    · next offset limit ho hl =>
      cases h
      exact ⟨offset, limit, rfl, (hoffset offset).mp ho, hl⟩
    · cases h
  · rintro ⟨offset, limit, rfl, ho, hl⟩
    rw [(hoffset offset).mpr ho, hl]

/-- A window that is made to skip skips the rows before its page. -/
theorem skips_of_offsetMode {page size eachSide : Int64} {w : Window}
    (h : offsetMode page size eachSide = .ok w) (hp : 1 ≤ page.toInt) :
    w.Skips page size eachSide := by
  obtain ⟨offset, limit, rfl, hoffset, hlimit⟩ := (offsetMode_eq_ok_iff hp).mp h
  exact ⟨⟨rfl, rfl, rfl, rfl, rfl, (probeLimit?_eq_some_iff.mp hlimit).2⟩, hoffset⟩

/-- A window that skips rows is refused only if its limit or its offset does not fit. -/
theorem offsetMode_of_inRange {page size eachSide limit : Int64} (hp : 1 ≤ page.toInt)
    (hoff : Integer.InRange ((page.toInt - 1) * size.toInt))
    (hlim : probeLimit? (SqlPaging.effectivePages page eachSide) size = some limit) :
    offsetMode page size eachSide =
      .ok { page, size, eachSide, effectivePages := SqlPaging.effectivePages page eachSide,
            direction := .next, offset := Int64.ofInt ((page.toInt - 1) * size.toInt), limit,
            mode := .offset } :=
  (offsetMode_eq_ok_iff hp).mpr ⟨_, limit, rfl, Integer.toInt_ofInt hoff, hlim⟩

/-- The number of pages of a window that starts at a boundary row. -/
def seekPages (page eachSide : Int64) : Direction → Int64
  | .next => SqlPaging.effectivePages page eachSide
  | .prev => atLeast 1 eachSide

/-- A window that starts at a boundary row has the fields of its page and an exact
limit, and skips nothing. -/
theorem keysetMode_eq_ok_iff {page size eachSide : Int64} {direction : Direction} {w : Window} :
    keysetMode page size eachSide direction = .ok w ↔
      ∃ limit,
        w = { page, size, eachSide, effectivePages := seekPages page eachSide direction,
              direction, offset := 0, limit, mode := .keyset } ∧
        probeLimit? (seekPages page eachSide direction) size = some limit := by
  -- the direction only chooses the number of pages
  cases direction
  all_goals
    dsimp only [keysetMode, seekPages]
    constructor
    · intro h
      split at h
      · next limit hlim =>
        cases h
        exact ⟨limit, rfl, hlim⟩
      · cases h
    · rintro ⟨limit, rfl, hlim⟩
      rw [hlim]

/-- A window that is made to walk on shows its page. -/
theorem shows_of_keysetMode {page size eachSide : Int64} {w : Window}
    (h : keysetMode page size eachSide .next = .ok w) : w.Shows page size eachSide := by
  obtain ⟨limit, rfl, hlim⟩ := keysetMode_eq_ok_iff.mp h
  exact ⟨rfl, rfl, rfl, rfl, rfl, (probeLimit?_eq_some_iff.mp hlim).2⟩

end Window

/-! ## Parts -/

/-- Parts are counted by division, rounded up. -/
theorem partsOf_eq_ceil (n : Int) {size : Int} (hs : 0 ≤ size) :
    partsOf n size = ⌈(n : ℚ) / (size : ℚ)⌉ := by
  obtain ⟨k, rfl⟩ := Int.eq_ofNat_of_zero_le hs
  exact (Rat.ceil_intCast_div_natCast n k).symm

/-- So many parts hold all the things. -/
theorem partsOf_le_iff {n size k : Int} (hs : 0 < size) : partsOf n size ≤ k ↔ n ≤ k * size := by
  rw [partsOf, neg_le, Int.le_ediv_iff_mul_le hs, Int.neg_mul, Int.neg_le_neg_iff]

theorem partsOf_mono {m n size : Int} (hs : 0 < size) (h : m ≤ n) :
    partsOf m size ≤ partsOf n size := by
  have hn : n ≤ partsOf n size * size := (partsOf_le_iff hs).mp le_rfl
  exact (partsOf_le_iff hs).mpr (h.trans hn)

theorem partsOf_nonneg {n size : Int} (hs : 0 < size) (h : 0 ≤ n) : 0 ≤ partsOf n size := by
  have := partsOf_mono hs h
  simpa [partsOf] using this

theorem partsOf_pos {n size : Int} (hs : 0 < size) (h : 0 < n) : 0 < partsOf n size := by
  have hnot : ¬ partsOf n size ≤ 0 := by
    rw [partsOf_le_iff hs]
    omega
  omega

/-- Taking away whole parts takes away as many from their number. -/
theorem partsOf_sub_mul (n k : Int) {size : Int} (hs : 0 < size) :
    partsOf (n - k * size) size = partsOf n size - k := by
  have hneg : -(n - k * size) = -n + k * size := by ring
  rw [partsOf, partsOf, hneg, Int.add_mul_ediv_right _ _ hs.ne']
  ring

/-- One thing more than whole parts needs one part more. -/
theorem partsOf_mul_add_one (k : Int) {size : Int} (hs : 0 < size) :
    partsOf (k * size + 1) size = k + 1 := by
  apply le_antisymm
  · rw [partsOf_le_iff hs]
    have : (k + 1) * size = k * size + size := by ring
    omega
  · -- `k` parts hold one thing too few
    have hlt : ¬ partsOf (k * size + 1) size ≤ k := by
      rw [partsOf_le_iff hs]
      omega
    omega

theorem partsOf_max_zero {n size : Int} (hs : 0 < size) :
    partsOf (max 0 n) size = max 0 (partsOf n size) := by
  rcases le_total 0 n with h | h
  · rw [max_eq_right h, max_eq_right (partsOf_nonneg hs h)]
  · have : partsOf n size ≤ 0 := by
      rw [partsOf_le_iff hs]
      omega
    rw [max_eq_left h, max_eq_left this]
    simp [partsOf]

/-! ## Pages that follow -/

/-- Of a table with `total` rows, a window of `pages` pages and one row more is
fetched from the first row of a page on. The rows after the page fill as many
pages as the table has after it, cut at the number of pages of the window. -/
theorem partsOf_fetched {total page pages size : Int} (hs : 0 < size) (hpages : 1 ≤ pages) :
    min pages (partsOf
        (max 0 (min (pages * size + 1) (max 0 (total - (page - 1) * size)) - size)) size) =
      min pages (max 0 (partsOf total size - page)) := by
  have hsub : partsOf (total - page * size) size = partsOf total size - page :=
    partsOf_sub_mul total page hs
  have hpage : (page - 1) * size = page * size - size := by ring
  have hlow : (pages - 1) * size = pages * size - size := by ring
  have hge : 0 ≤ (pages - 1) * size := Int.mul_nonneg (by omega) hs.le
  rcases le_total (pages * size + 1) (total - (page - 1) * size) with hfull | hshort
  · -- the whole window is fetched, and the table goes on
    have hfetched : max 0 (min (pages * size + 1) (max 0 (total - (page - 1) * size)) - size) =
        (pages - 1) * size + 1 := by omega
    have hmono := partsOf_mono hs (show (pages - 1) * size + 1 ≤ total - page * size by omega)
    rw [hfetched, partsOf_mul_add_one _ hs]
    rw [partsOf_mul_add_one _ hs, hsub] at hmono
    omega
  · -- the table ends within the window
    have hfetched : max 0 (min (pages * size + 1) (max 0 (total - (page - 1) * size)) - size) =
        max 0 (total - page * size) := by omega
    rw [hfetched, partsOf_max_zero hs, hsub]

end SqlPaging
