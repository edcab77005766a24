import SqlPaging.Proofs.Calendar.Instants
import SqlPaging.Proofs.Calendar.Padded
import SqlPaging.Proofs.Calendar.Shown

/-!
# SqlPaging — the order of printed dates and times

In the years from 0 to 9999 all fields of a date and of a time of day have a fixed
width, the greater ones first. So texts have the order of what they show: dates that of
the calendar, times that of the fields they show. An earlier time never shows a later
second, not even in a leap second, which is shown as the second that follows. What a text
does not show, the fraction of a second, it does not order.

Main results:

* `Date.codes_chars_lt_iff` — dates and their texts have the same order.
* `DateTime.codes_chars_lt_iff` — the earlier one of two times has the smaller text, unless
  both show the same second.
-/

namespace SqlPaging.Calendar

/-- The years that are printed with four digits. -/
def Date.FourDigits (d : Date) : Prop := 0 ≤ d.year ∧ d.year ≤ 9999

instance (d : Date) : Decidable d.FourDigits := inferInstanceAs (Decidable (_ ∧ _))

namespace Date

variable {a b : Date}

/-- In these years the text of a date has no sign. -/
theorem chars_of_fourDigits (h : a.FourDigits) :
    a.chars = padded 4 a.year.toNat ++ '-' :: padded 2 a.month ++ '-' :: padded 2 a.day := by
  unfold FourDigits at h
  rw [chars, yearText, if_pos h]

theorem length_chars (h : a.FourDigits) : a.chars.length = 10 := by
  obtain ⟨hm, hd⟩ := a.fields_lt
  -- four digits, two and two, with a mark before and after the month
  have hy : a.year.toNat < 10 ^ 4 := by
    have := h
    unfold FourDigits at this
    omega
  simp only [chars_of_fourDigits h, List.length_append, List.length_cons,
    length_padded_of_lt (by decide) hy, length_padded_of_lt (by decide) hm,
    length_padded_of_lt (by decide) hd]

/-- Dates have the order of their texts. -/
theorem codes_chars_lt_iff (ha : a.FourDigits) (hb : b.FourDigits) :
    codes a.chars < codes b.chars ↔ a.before b = true := by
  obtain ⟨hma, hda⟩ := a.fields_lt
  obtain ⟨hmb, hdb⟩ := b.fields_lt
  rw [chars_of_fourDigits ha, chars_of_fourDigits hb, before_iff]
  unfold FourDigits at ha hb
  simp only [List.append_assoc, List.cons_append]
  -- field by field, as the calendar compares dates
  rw [codes_padded_append_lt_iff (by decide) (by omega) (by omega), codes_cons_lt_iff,
    codes_padded_append_lt_iff (by decide) hma hmb, codes_cons_lt_iff,
    codes_padded_lt_iff (by decide) hda hdb]
  omega

end Date

namespace TimeOfDay

variable (a b : TimeOfDay)

theorem length_chars : a.chars.length = 8 := by
  obtain ⟨hh, hm, hs⟩ := a.fields_lt
  simp only [chars, List.length_append, List.length_cons, length_padded_of_lt (by decide) hh,
    length_padded_of_lt (by decide) hm, length_padded_of_lt (by decide) hs]

/-- A time of day shows an earlier second than another one. -/
def ShowsBefore : Prop :=
  a.hour < b.hour ∨ a.hour = b.hour ∧
    (a.minute < b.minute ∨ a.minute = b.minute ∧ a.shownSecond < b.shownSecond)

/-- Texts of times of day have the order of the seconds that they show. -/
theorem codes_chars_lt_iff : codes a.chars < codes b.chars ↔ a.ShowsBefore b := by
  obtain ⟨hha, hma, hsa⟩ := a.fields_lt
  obtain ⟨hhb, hmb, hsb⟩ := b.fields_lt
  rw [chars, chars]
  simp only [List.append_assoc, List.cons_append]
  -- field by field, and a mark between two fields is the same in both texts
  rw [codes_padded_append_lt_iff (by decide) hha hhb, codes_cons_lt_iff,
    codes_padded_append_lt_iff (by decide) hma hmb, codes_cons_lt_iff,
    codes_padded_lt_iff (by decide) hsa hsb]
  rfl

/-- The earlier one of two times of day shows the earlier second, unless both show the
same one. -/
theorem showsBefore_iff_of_lt (h : a.secondOfDay < b.secondOfDay ∨
    a.secondOfDay = b.secondOfDay ∧ a.nanos < b.nanos) :
    a.ShowsBefore b ↔
      ¬(a.hour = b.hour ∧ a.minute = b.minute ∧ a.shownSecond = b.shownSecond) := by
  have hva := a.valid
  have hvb := b.valid
  -- a leap second adds one to what is shown, no more than a later second does
  unfold ShowsBefore secondOfDay shownSecond billion at *
  omega

end TimeOfDay

namespace DateTime

variable {a b : DateTime}

/-- A second comes earlier on the line if its date does, or if it comes earlier on the same
date. -/
theorem instant_seconds_lt_iff (a b : DateTime) : a.instant.seconds < b.instant.seconds ↔
    a.date.before b.date = true ∨ a.date = b.date ∧ a.time.secondOfDay < b.time.secondOfDay := by
  have ha := a.time.secondOfDay_lt
  have hb := b.time.secondOfDay_lt
  have hdate : a.date = b.date ↔ a.date.dayNumber = b.date.dayNumber := by
    refine ⟨fun h => h ▸ rfl, fun h => Date.eq_of_not_before ?_ ?_⟩ <;>
      rw [Bool.eq_false_iff, Ne, ← Date.dayNumber_lt_iff] <;> omega
  rw [← Date.dayNumber_lt_iff, hdate]
  -- what is counted within a day never makes up for a day
  simp only [instant, daySeconds] at *
  omega

/-- One second of the line is one second of one date. -/
theorem instant_seconds_eq_iff (a b : DateTime) : a.instant.seconds = b.instant.seconds ↔
    a.date = b.date ∧ a.time.secondOfDay = b.time.secondOfDay := by
  constructor
  · intro h
    have hab := mt (instant_seconds_lt_iff a b).mpr (by omega)
    have hba := mt (instant_seconds_lt_iff b a).mpr (by omega)
    simp only [not_or, Bool.not_eq_true] at hab hba
    -- neither date comes before the other one
    have hdate := Date.eq_of_not_before hab.1 hba.1
    refine ⟨hdate, ?_⟩
    have hab := hab.2
    have hba := hba.2
    simp only [hdate, true_and] at hab hba
    omega
  · rintro ⟨hdate, htime⟩
    rw [instant, instant, hdate, htime]

/-- The earlier one of two times has the earlier date, or comes first on the same one. -/
theorem before_or_of_earlier (h : a.instant.atOrAfter b.instant = false) :
    a.date.before b.date = true ∨ a.date = b.date ∧
      (a.time.secondOfDay < b.time.secondOfDay ∨
        a.time.secondOfDay = b.time.secondOfDay ∧ a.time.nanos < b.time.nanos) := by
  have hnot := mt (Instant.atOrAfter_iff a.instant b.instant).mpr (by simp [h])
  have hearlier : a.instant.seconds < b.instant.seconds ∨
      a.instant.seconds = b.instant.seconds ∧ a.instant.nanos < b.instant.nanos := by
    omega
  -- the second of the line is that of the day, on the same date
  rw [instant_seconds_lt_iff, instant_seconds_eq_iff] at hearlier
  rcases hearlier with (hdate | ⟨hdate, hsecond⟩) | ⟨⟨hdate, hsecond⟩, hnanos⟩
  · exact .inl hdate
  · exact .inr ⟨hdate, .inl hsecond⟩
  · exact .inr ⟨hdate, .inr ⟨hsecond, hnanos⟩⟩

/-- The earlier one of two times has the smaller text, unless both show the same
second. -/
theorem codes_chars_lt_iff (ha : a.date.FourDigits) (hb : b.date.FourDigits)
    (h : a.instant.atOrAfter b.instant = false) (between : Char) (s : List Char) :
    codes (a.chars between ++ s) < codes (b.chars between ++ s) ↔ ¬a.SameSecond b := by
  -- dates have one length, and so have times of day
  have hdate : (codes a.date.chars).length = (codes b.date.chars).length := by
    rw [length_codes, length_codes, Date.length_chars ha, Date.length_chars hb]
  have htime : (codes a.time.chars).length = (codes b.time.chars).length := by
    rw [length_codes, length_codes, TimeOfDay.length_chars, TimeOfDay.length_chars]
  have heq : codes a.date.chars = codes b.date.chars ↔ a.date = b.date := by
    refine ⟨fun h => Date.eq_of_not_before ?_ ?_, fun h => h ▸ rfl⟩
    · rw [Bool.eq_false_iff, Ne, ← Date.codes_chars_lt_iff ha hb, h]
      exact List.lt_irrefl _
    · rw [Bool.eq_false_iff, Ne, ← Date.codes_chars_lt_iff hb ha, h]
      exact List.lt_irrefl _
  -- the order of what stands behind never decides, since it is the same text
  have hirrefl : ¬codes s < codes s := List.lt_irrefl _
  -- the date decides, then the time of day
  rw [chars, chars, List.append_assoc, List.append_assoc, List.cons_append, List.cons_append,
    codes_append, codes_append, append_lt_append_iff hdate, Date.codes_chars_lt_iff ha hb, heq,
    codes_cons_lt_iff, codes_append, codes_append, append_lt_append_iff htime,
    TimeOfDay.codes_chars_lt_iff]
  simp only [hirrefl, and_false, or_false]
  rcases before_or_of_earlier h with hbefore | ⟨hsame, hearlier⟩
  · -- an earlier date shows
    have hother : ¬a.SameSecond b := by
      intro hsame
      rw [hsame.date, Date.before_irrefl] at hbefore
      cases hbefore
    exact iff_of_true (.inl hbefore) hother
  · -- on one date the times of day decide
    have hshown : a.SameSecond b ↔ a.time.hour = b.time.hour ∧ a.time.minute = b.time.minute ∧
        a.time.shownSecond = b.time.shownSecond := by
      constructor
      · intro h
        exact ⟨h.hour, h.minute, h.second⟩
      · rintro ⟨hh, hm, hs⟩
        exact ⟨hsame, hh, hm, hs⟩
    rw [hshown, ← TimeOfDay.showsBefore_iff_of_lt _ _ hearlier]
    simp only [hsame, Date.before_irrefl, Bool.false_eq_true, true_and, false_or]

end DateTime

end SqlPaging.Calendar
