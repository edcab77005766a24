import SqlPaging.Proofs.Page.Probe

/-!
# SqlPaging — the pages around a page

The focus of a page is moved twice: to the right by what it lacks before the first page, and then
to the left by what it has beyond the last page that is known of. The second move can take it back
to the first page and no further, so that neither move spoils the other. What both rely on is that
a page is one of the pages that are known of, and this holds of every page that can be made, from
whatever numbers (`known_of_make`).

Main results:

* `known_of_make`, `known_of_ofWindow` — a page that was made is one of those that are known of.
* `toInt_first_focusWithin`, `toInt_last_focusWithin` — both ends of a focus.
* `focus_of_made` — the focus lies around its page and is as wide as it can be.
-/

namespace SqlPaging

open Integer (minus plus InRange)

namespace Page

variable {ρ : Type}

/-! ## Pages that are known of -/

/-- The number of a page is one of the pages that are known of, and its width is not negative.
A last page is known just if the rows were counted. -/
structure Known (p : Page ρ) : Prop where
  page_pos : 1 ≤ p.page.toInt
  page_le : p.page.toInt ≤ p.furthest.toInt
  eachSide_nonneg : 0 ≤ p.eachSide.toInt
  lastPage_isSome : p.lastPage.isSome = p.total.isSome

/-- A page that is made keeps what it is known by. -/
theorem known_of_make {items : List ρ} {a : PageArgs} {p : Page ρ} (h : make items a = .ok p) :
    p.Known := by
  have hpos := Pager.one_le_atLeast a.page
  have hwidth := Pager.zero_le_atLeast a.eachSide
  unfold make at h
  dsimp only at h
  split at h
  · cases h
  · cases htotal : a.total with
    | some total =>
      simp only [htotal] at h
      split at h
      · cases h
      · -- a page after the last one is moved to it, and the last one is at least the first
        cases h
        have hlast := Pager.one_le_atLeast
          (Integer.saturate (partsOf total.toInt a.pageSize.toInt))
        refine ⟨?_, ?_, hwidth, rfl⟩
        · dsimp only
          rw [toInt_atMost]
          omega
        · rw [furthest]
          dsimp only
          rw [Option.getD_some, toInt_atMost]
          omega
    | none =>
      cases hnext : a.nextPageCount with
      | none =>
        simp only [htotal, hnext] at h
        cases h
      | some next =>
        -- the pages that follow are not negative, and the sum stops at the greatest page
        simp only [htotal, hnext] at h
        cases h
        have hfollow := Pager.zero_le_atLeast next
        have hpage := (Integer.inRange_toInt (atLeast 1 a.page)).2
        refine ⟨hpos, ?_, hwidth, rfl⟩
        rw [furthest]
        dsimp only
        rw [Option.getD_none, plus, Integer.toInt_saturate]
        omega

theorem known_of_ofWindow {rows : List ρ} {w : Window} {total : Option Int64} {p : Page ρ}
    (h : ofWindow rows w total = .ok p) : p.Known :=
  known_of_make h

/-! ## The ends of a focus -/

section Ends

variable {page eachSide furthest : Int64}

/-- What a focus lacks before the first page can be counted. -/
theorem toInt_minus_start (hp : 1 ≤ page.toInt) (he : 0 ≤ eachSide.toInt) :
    (minus 1 (minus page eachSide)).toInt = 1 - (page.toInt - eachSide.toInt) := by
  have hpage := Integer.inRange_toInt page
  have hwidth := Integer.inRange_toInt eachSide
  rw [minus, Integer.toInt_minus_of_nonneg (by omega) he, Int64.toInt_one]
  apply Integer.toInt_saturate_of_inRange
  unfold InRange Integer.least Integer.greatest at *
  omega

theorem le_toInt_reach (hp : 1 ≤ page.toInt) (he : 0 ≤ eachSide.toInt) :
    page.toInt ≤ (reach page eachSide).toInt := by
  have hpage := (Integer.inRange_toInt page).2
  rw [toInt_reach hp he]
  omega

/-- The pages in focus end within reach, and with the furthest page at the latest. -/
theorem toInt_last_focusWithin (page eachSide furthest : Int64) :
    (focusWithin page eachSide furthest).last.toInt =
      min (reach page eachSide).toInt furthest.toInt := by
  unfold focusWithin
  dsimp only
  -- the focus ends at the furthest page, unless it ends before
  split
  · next h =>
    rw [Int64.lt_iff_toInt_lt] at h
    exact (min_eq_right h.le).symm
  · next h =>
    rw [Int64.lt_iff_toInt_lt, not_lt] at h
    exact (min_eq_left h).symm

theorem toInt_first_focusWithin (hp : 1 ≤ page.toInt) (he : 0 ≤ eachSide.toInt)
    (hf : page.toInt ≤ furthest.toInt) :
    (focusWithin page eachSide furthest).first.toInt =
      max 1 (max 1 (page.toInt - eachSide.toInt) -
        max 0 ((reach page eachSide).toInt - furthest.toInt)) := by
  have hreach := le_toInt_reach hp he
  have hstart : (atLeast 1 (minus page eachSide)).toInt = max 1 (page.toInt - eachSide.toInt) := by
    rw [toInt_atLeast, Int64.toInt_one, Integer.toInt_minus_of_nonneg (by omega) he]
  unfold focusWithin
  dsimp only
  split
  · next h =>
    -- the first move has ended at the first page at least, so that the second one is not stopped
    rw [Int64.lt_iff_toInt_lt] at h
    -- pages that are missing behind the page move the start to the front
    have hbeyond : (minus (reach page eachSide) furthest).toInt =
        (reach page eachSide).toInt - furthest.toInt :=
      Integer.toInt_minus_of_nonneg (by omega) (by omega)
    rw [toInt_atLeast, Int64.toInt_one, Integer.toInt_minus_of_nonneg (by omega) (by omega),
      hstart, hbeyond, max_eq_right (a := 0) (by omega)]
  · next h =>
    rw [Int64.lt_iff_toInt_lt, not_lt] at h
    rw [hstart, max_eq_left (a := 0) (by omega)]
    omega

end Ends

/-- A range has a page for each number from its first to its last one. -/
theorem Range.length_pages (r : Range) :
    r.pages.length = (r.last.toInt - r.first.toInt + 1).toNat := by
  rw [pages, List.length_map, List.length_range]

/-! ## The focus of a page -/

/-- None of the differences that a focus is moved by leaves the 64-bit integers. -/
structure MovesExactly (p : Page ρ) : Prop where
  start : (minus p.page p.eachSide).toInt = p.page.toInt - p.eachSide.toInt
  lacking : (minus 1 (minus p.page p.eachSide)).toInt =
    1 - (minus p.page p.eachSide).toInt
  beyond : (minus (reach p.page p.eachSide) p.furthest).toInt =
    (reach p.page p.eachSide).toInt - p.furthest.toInt

/-- The focus of a page is a range of pages that are known of, with the page itself among them. It
has as many as the width asks for, or all that are known of. -/
structure Focused (p : Page ρ) : Prop where
  first_pos : 1 ≤ p.focus.first.toInt
  first_le : p.focus.first.toInt ≤ p.page.toInt
  le_last : p.page.toInt ≤ p.focus.last.toInt
  last_le : p.focus.last.toInt ≤ p.furthest.toInt
  moves : p.MovesExactly
  full : InRange (p.page.toInt + p.eachSide.toInt) → InRange (2 * p.eachSide.toInt + 1) →
    (p.focus.pages.length : Int) = min (2 * p.eachSide.toInt + 1) p.furthest.toInt

/-- A page moves on just if there are pages behind it, and back just if there are some in
front. -/
theorem Known.movesExactly {p : Page ρ} (h : p.Known) : p.MovesExactly := by
  obtain ⟨hp, hf, he, -⟩ := h
  have hreach := le_toInt_reach hp he
  have hstart : (minus p.page p.eachSide).toInt = p.page.toInt - p.eachSide.toInt :=
    Integer.toInt_minus_of_nonneg (by omega) he
  refine ⟨hstart, ?_, Integer.toInt_minus_of_nonneg (by omega) (by omega)⟩
  rw [toInt_minus_start hp he, hstart]

/-- A page keeps its focus where its pages are. -/
theorem Known.focused {p : Page ρ} (h : p.Known) : p.Focused := by
  have hmoves := h.movesExactly
  obtain ⟨hp, hf, he, -⟩ := h
  have hlast := toInt_last_focusWithin p.page p.eachSide p.furthest
  have hfirst := toInt_first_focusWithin hp he hf
  rw [← focus_eq_focusWithin] at hlast hfirst
  have hreach := le_toInt_reach hp he
  refine ⟨by omega, by omega, by omega, by omega, hmoves, ?_⟩
  intro hright hwide
  -- a focus that is not stopped at the greatest page has as many pages as its width asks for
  have hexact : (reach p.page p.eachSide).toInt =
      max (p.page.toInt + p.eachSide.toInt) (2 * p.eachSide.toInt + 1) := by
    rw [toInt_reach hp he]
    exact min_eq_right (max_le hright.2 hwide.2)
  rw [Range.length_pages]
  omega

end Page

/-- The focus of a page that was made, of any numbers or of any window and rows, lies around the
page and ends at the last page that is known of at the latest: the last page if the rows were
counted, and else as many pages on as are known to follow. It is as wide as it can be unless it
is stopped at the greatest page. -/
theorem focus_of_made {ρ : Type} {p : Page ρ}
    (h : (∃ items a, Page.make items a = .ok p) ∨
      ∃ rows w total, Page.ofWindow rows w total = .ok p) :
    (p.total.isSome = true → p.lastPage = some p.furthest) ∧
      (p.total = none → p.furthest = plus p.page p.nextPageCount) ∧ p.Focused := by
  have hknown : p.Known := by
    rcases h with ⟨items, a, h⟩ | ⟨rows, w, total, h⟩
    · exact Page.known_of_make h
    · exact Page.known_of_ofWindow h
  -- the last page is known just if the total is
  have hsame := hknown.lastPage_isSome
  refine ⟨fun htotal => ?_, fun htotal => ?_, hknown.focused⟩
  · rw [htotal] at hsame
    obtain ⟨last, hlast⟩ := Option.isSome_iff_exists.mp hsame
    rw [Page.furthest, hlast, Option.getD_some]
  · rw [htotal, Option.isSome_none, Option.isSome_eq_false_iff, Option.isNone_iff_eq_none] at hsame
    rw [Page.furthest, hsame, Option.getD_none]

/-- A page past the end of 95 rows, ten to a page and two pages to either side: it is moved to the
tenth page, and the focus to the five last ones. -/
theorem focus_of_made_of_last_page :
    ∃ p : Page Nat, Page.make [] ⟨2, 10, 12, some 95, none⟩ = .ok p ∧ p.focus = ⟨6, 10⟩ ∧
      (p.total.isSome = true → p.lastPage = some p.furthest) ∧
      (p.total = none → p.furthest = plus p.page p.nextPageCount) ∧ p.Focused :=
  ⟨⟨[], 2, 10, 10, some 95, some 10, 0⟩, by decide, by decide,
    focus_of_made (.inl ⟨[], ⟨2, 10, 12, some 95, none⟩, by decide⟩)⟩

end SqlPaging
