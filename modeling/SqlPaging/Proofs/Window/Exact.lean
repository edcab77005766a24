import SqlPaging.Proofs.Window.Extent

/-!
# SqlPaging — windows in exact numbers

The pages of a window are counted in steps that stop at the end of the 64-bit integers. Its limit
and its offset are counted in steps that refuse what lies beyond. The two go together: pages that
were stopped fill the whole range, and leave no room for the row that is fetched besides, whatever
the size of a page. So a window either has the numbers of arithmetic without bounds or is refused.

Main results:

* `toInt_seekPages` — the pages of a window, stopped at the end of the range at most.
* `probeLimit?_eq_some_iff_exact` — a limit is that of the pages without bounds.
* `windows_exact_or_refused` — which windows there are, and their numbers.
-/

namespace SqlPaging

open Integer (minus InRange greatest)

namespace Window

/-! ## Pages -/

/-- The pages of a window, counted without bounds. A negative width counts as none. -/
def exactPages (page eachSide : Int) : Direction → Int
  | .next => max 1 (max 0 eachSide + max 0 (max 0 eachSide + 1 - page))
  | .prev => max 1 (max 0 eachSide)

theorem one_le_exactPages (page eachSide : Int) (direction : Direction) :
    1 ≤ exactPages page eachSide direction := by
  cases direction with
  | next => exact le_max_left _ _
  | prev => exact le_max_left _ _

/-- Only the end of the range stops the number of pages. -/
theorem toInt_seekPages {page : Int64} (hp : 1 ≤ page.toInt) (eachSide : Int64)
    (direction : Direction) :
    (seekPages page eachSide direction).toInt =
      min (exactPages page.toInt eachSide.toInt direction) greatest := by
  -- neither number exceeds the greatest one
  have hpage := (Integer.inRange_toInt page).2
  have hwidth := (Integer.inRange_toInt eachSide).2
  cases direction with
  | next =>
    -- one page more than the width may be stopped, but then the sum is stopped as well
    have hpages := toInt_effectivePages page eachSide
    dsimp only at hpages
    rw [seekPages, exactPages, hpages]
    unfold greatest at *
    omega
  | prev =>
    rw [seekPages, exactPages, toInt_atLeast, Int64.toInt_one]
    unfold greatest at *
    omega

/-! ## Limits -/

/-- Pages that were stopped give no limit, and others give that of arithmetic without bounds. -/
theorem probeLimit?_eq_some_iff_exact {pages size limit : Int64} {exact : Int}
    (hs : 1 ≤ size.toInt) (hone : 1 ≤ exact) (hpages : pages.toInt = min exact greatest) :
    probeLimit? pages size = some limit ↔ limit.toInt = exact * size.toInt + 1 := by
  have hlimit := (Integer.inRange_toInt limit).2
  have hrows : exact ≤ exact * size.toInt := le_mul_of_one_le_right (by omega) hs
  rw [probeLimit?_eq_some_iff]
  rcases le_or_gt exact greatest with hfit | hbeyond
  · -- nothing was stopped, and the rows of the pages are fewer than the limit
    rw [hpages, min_eq_left hfit]
    refine ⟨And.right, fun h => ⟨?_, h⟩⟩
    unfold InRange Integer.least
    omega
  · -- one row more than the stopped pages hold is beyond the range, and so is the exact limit
    have hstopped : greatest ≤ greatest * size.toInt :=
      le_mul_of_one_le_right (by decide) hs
    rw [hpages, min_eq_right hbeyond.le]
    constructor
    · rintro ⟨-, h⟩
      omega
    · intro h
      omega

/-- There is a limit just if the rows of all pages, and one more, can be counted in 64
bits. -/
theorem exists_probeLimit?_iff {page size : Int64} (hp : 1 ≤ page.toInt) (hs : 1 ≤ size.toInt)
    (eachSide : Int64) (direction : Direction) :
    (∃ limit, probeLimit? (seekPages page eachSide direction) size = some limit) ↔
      InRange (exactPages page.toInt eachSide.toInt direction * size.toInt + 1) := by
  simp only [probeLimit?_eq_some_iff_exact hs (one_le_exactPages page.toInt eachSide.toInt direction)
    (toInt_seekPages hp eachSide direction)]
  exact Integer.exists_toInt_eq_iff

/-- Where there is a limit, the number of pages was not stopped. -/
theorem toInt_seekPages_of_probeLimit? {page size limit : Int64} (hp : 1 ≤ page.toInt)
    (hs : 1 ≤ size.toInt) {eachSide : Int64} (direction : Direction)
    (h : probeLimit? (seekPages page eachSide direction) size = some limit) :
    (seekPages page eachSide direction).toInt =
        exactPages page.toInt eachSide.toInt direction ∧
      limit.toInt = exactPages page.toInt eachSide.toInt direction * size.toInt + 1 := by
  have hone := one_le_exactPages page.toInt eachSide.toInt direction
  have hpages := toInt_seekPages hp eachSide direction
  have hexact := (probeLimit?_eq_some_iff_exact hs hone hpages).mp h
  refine ⟨?_, hexact⟩
  have hlimit := (Integer.inRange_toInt limit).2
  -- no page is empty, so the pages fit where their rows do
  have hrows := le_mul_of_one_le_right
    (show 0 ≤ exactPages page.toInt eachSide.toInt direction by omega) hs
  omega

/-! ## Windows -/

/-- What comes of making a window: it is made just if its offset and its limit fit 64 bits, it
then has the exact numbers, and else its arguments are refused. -/
structure ExactOrRefused (made : Except ArgumentFault Window) (page size eachSide : Int64)
    (pages offset : Int) : Prop where
  made_iff : (∃ w, made = .ok w) ↔ InRange offset ∧ InRange (pages * size.toInt + 1)
  numbers : ∀ w, made = .ok w → w.effectivePages.toInt = pages ∧
    w.limit.toInt = pages * size.toInt + 1 ∧ w.offset.toInt = offset
  refused : (¬ ∃ w, made = .ok w) → made = .error (.windowOutOfRange page size eachSide)

/-- A window that skips is refused in one way only. -/
theorem offsetMode_error {page size eachSide : Int64}
    (h : ¬ ∃ w, offsetMode page size eachSide = .ok w) :
    offsetMode page size eachSide = .error (.windowOutOfRange page size eachSide) := by
  unfold offsetMode at h ⊢
  dsimp only at h ⊢
  split at h
  · exact absurd ⟨_, rfl⟩ h
  · rfl

theorem keysetMode_error {page size eachSide : Int64} {direction : Direction}
    (h : ¬ ∃ w, keysetMode page size eachSide direction = .ok w) :
    keysetMode page size eachSide direction = .error (.windowOutOfRange page size eachSide) := by
  unfold keysetMode at h ⊢
  dsimp only at h ⊢
  split at h
  · exact absurd ⟨_, rfl⟩ h
  · rfl

theorem exactOrRefused_offsetMode {page size : Int64} (hp : 1 ≤ page.toInt) (hs : 1 ≤ size.toInt)
    (eachSide : Int64) :
    ExactOrRefused (offsetMode page size eachSide) page size eachSide
      (exactPages page.toInt eachSide.toInt .next) ((page.toInt - 1) * size.toInt) where
  made_iff := by
    rw [← exists_probeLimit?_iff hp hs eachSide .next, ← Integer.exists_toInt_eq_iff]
    -- a window is made just if its offset and its limit can be counted
    simp only [offsetMode_eq_ok_iff hp]
    constructor
    · rintro ⟨w, offset, limit, -, hoffset, hlimit⟩
      exact ⟨⟨offset, hoffset⟩, ⟨limit, hlimit⟩⟩
    · rintro ⟨⟨offset, hoffset⟩, ⟨limit, hlimit⟩⟩
      exact ⟨_, offset, limit, rfl, hoffset, hlimit⟩
  numbers w h := by
    obtain ⟨offset, limit, rfl, hoffset, hlimit⟩ := (offsetMode_eq_ok_iff hp).mp h
    obtain ⟨hpages, hexact⟩ := toInt_seekPages_of_probeLimit? hp hs .next hlimit
    exact ⟨hpages, hexact, hoffset⟩
  refused := offsetMode_error

theorem exactOrRefused_keysetMode {page size : Int64} (hp : 1 ≤ page.toInt) (hs : 1 ≤ size.toInt)
    (eachSide : Int64) (direction : Direction) :
    ExactOrRefused (keysetMode page size eachSide direction) page size eachSide
      (exactPages page.toInt eachSide.toInt direction) 0 where
  made_iff := by
    rw [← exists_probeLimit?_iff hp hs eachSide direction]
    -- nothing is skipped, so the limit alone decides
    simp only [keysetMode_eq_ok_iff]
    constructor
    · rintro ⟨w, limit, -, hlimit⟩
      exact ⟨by decide, limit, hlimit⟩
    · rintro ⟨-, limit, hlimit⟩
      exact ⟨_, limit, rfl, hlimit⟩
  numbers w h := by
    obtain ⟨limit, rfl, hlimit⟩ := keysetMode_eq_ok_iff.mp h
    obtain ⟨hpages, hexact⟩ := toInt_seekPages_of_probeLimit? hp hs direction hlimit
    exact ⟨hpages, hexact, Int64.toInt_zero⟩
  refused := keysetMode_error

end Window

open Window (ExactOrRefused exactPages)

/-- A window of a page, of whatever size and width, either has exact numbers or is refused, and
refused only if one of them does not fit 64 bits. The only step that is neither stopped nor
checked, from the page to the one before it, stays in the range, and pages are stopped at its end
alone. -/
theorem windows_exact_or_refused {page size : Int64} (hp : 1 ≤ page.toInt) (hs : 1 ≤ size.toInt)
    (eachSide : Int64) :
    ExactOrRefused (Window.offsetMode page size eachSide) page size eachSide
        (exactPages page.toInt eachSide.toInt .next) ((page.toInt - 1) * size.toInt) ∧
      (∀ direction, ExactOrRefused (Window.keysetMode page size eachSide direction) page size
        eachSide (exactPages page.toInt eachSide.toInt direction) 0) ∧
      (minus page 1).toInt = page.toInt - 1 ∧
      (effectivePages page eachSide).toInt =
        min (exactPages page.toInt eachSide.toInt .next) greatest :=
  ⟨Window.exactOrRefused_offsetMode hp hs eachSide, Window.exactOrRefused_keysetMode hp hs eachSide,
    Window.toInt_minus_one hp, Window.toInt_seekPages hp eachSide .next⟩

/-- The last page of ten rows whose offset fits, with a width below zero: one page more is refused,
and so is a width that stops the number of pages. -/
theorem windows_exact_or_refused_of_last_page :
    Window.offsetMode 922337203685477581 10 (-3) =
        .ok ⟨922337203685477581, 10, -3, 1, .next, 9223372036854775800, 11, .offset⟩ ∧
      Window.offsetMode 922337203685477582 10 (-3) =
        .error (.windowOutOfRange 922337203685477582 10 (-3)) ∧
      Window.keysetMode 922337203685477581 10 9223372036854775807 .next =
        .error (.windowOutOfRange 922337203685477581 10 9223372036854775807) ∧
      ExactOrRefused (Window.offsetMode 922337203685477581 10 (-3)) 922337203685477581 10 (-3)
        (exactPages (922337203685477581 : Int64).toInt (-3 : Int64).toInt .next)
        (((922337203685477581 : Int64).toInt - 1) * (10 : Int64).toInt) ∧
      (∀ direction, ExactOrRefused (Window.keysetMode 922337203685477581 10 (-3) direction)
        922337203685477581 10 (-3)
        (exactPages (922337203685477581 : Int64).toInt (-3 : Int64).toInt direction) 0) ∧
      (minus 922337203685477581 1).toInt = (922337203685477581 : Int64).toInt - 1 ∧
      (effectivePages 922337203685477581 (-3)).toInt =
        min (exactPages (922337203685477581 : Int64).toInt (-3 : Int64).toInt .next) greatest :=
  ⟨by decide, by decide, by decide, windows_exact_or_refused (by decide) (by decide) (-3)⟩

end SqlPaging
