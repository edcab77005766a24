import SqlPaging.Calendar.Printer

/-!
# SqlPaging — what the text of a time shows

A text shows a leap second by a number: the one of the second in front of it, and one
more. Behind second 59 this is second 60, which no other time shows. Behind any other
second it is the second that follows, so that a leap second there has the text of that
second, and the text does not tell them apart.

Main results:

* `DateTime.shown_eq_self_iff` — which times are the ones that their texts show.
* `DateTime.chars_of_sameSecond`, `DateTime.sameSecond_shown` — times that show the same
  second have the same text, and so has what the text shows.
-/

namespace SqlPaging.Calendar

namespace TimeOfDay

/-- The time of day that a text shows. -/
def shown (t : TimeOfDay) : TimeOfDay :=
  if h : t.second = 59 then t
  else
    { t with
      second := t.shownSecond
      nanos := t.nanos % billion
      valid := by
        have := t.valid
        unfold shownSecond billion at *
        omega }

/-- A text tells the time of day: it is no leap second, or the last second of its
minute. -/
def Told (t : TimeOfDay) : Prop := t.nanos < billion ∨ t.second = 59

instance (t : TimeOfDay) : Decidable t.Told := inferInstanceAs (Decidable (_ ∨ _))

variable (t : TimeOfDay)

/-- A text shows another time of day just if it does not tell the one it is made of. -/
theorem shown_eq_self_iff : t.shown = t ↔ t.Told := by
  unfold shown Told
  split
  · next hlast => exact iff_of_true rfl (.inr hlast)
  · next hlast =>
    constructor
    · intro h
      -- nanoseconds that are shown stay below a second
      have hnanos : t.nanos % billion = t.nanos := congrArg nanos h
      exact .inl (hnanos ▸ Nat.mod_lt _ (by decide))
    · rintro (hnanos | h)
      · have hsecond : t.shownSecond = t.second := by
          rw [shownSecond, Nat.div_eq_of_lt hnanos, Nat.add_zero]
        simp only [hsecond, Nat.mod_eq_of_lt hnanos]
      · exact absurd h hlast

theorem hour_shown : t.shown.hour = t.hour := by
  unfold shown
  split <;> rfl

theorem minute_shown : t.shown.minute = t.minute := by
  unfold shown
  split <;> rfl

/-- The second that a text shows is the second that is shown once more. -/
theorem shownSecond_shown : t.shown.shownSecond = t.shownSecond := by
  unfold shown
  split
  · rfl
  · show t.shownSecond + t.nanos % billion / billion = t.shownSecond
    rw [Nat.div_eq_of_lt (Nat.mod_lt _ (by decide)), Nat.add_zero]

end TimeOfDay

namespace DateTime

/-- The time that a text shows. -/
def shown (t : DateTime) : DateTime := { t with time := t.time.shown }

/-- A text tells the time. -/
def Told (t : DateTime) : Prop := t.time.Told

instance (t : DateTime) : Decidable t.Told := inferInstanceAs (Decidable t.time.Told)

/-- Two times show the same second: their texts have the same date, hour and minute, and
the same number for the second. -/
structure SameSecond (a b : DateTime) : Prop where
  date : a.date = b.date
  hour : a.time.hour = b.time.hour
  minute : a.time.minute = b.time.minute
  second : a.time.shownSecond = b.time.shownSecond

instance (a b : DateTime) : Decidable (a.SameSecond b) :=
  decidable_of_iff (a.date = b.date ∧ a.time.hour = b.time.hour ∧
    a.time.minute = b.time.minute ∧ a.time.shownSecond = b.time.shownSecond)
    ⟨fun ⟨hdate, hhour, hminute, hsecond⟩ => ⟨hdate, hhour, hminute, hsecond⟩,
      fun h => ⟨h.date, h.hour, h.minute, h.second⟩⟩

/-- Times that show the same second have the same text. -/
theorem chars_of_sameSecond {a b : DateTime} (h : a.SameSecond b) (between : Char) :
    a.chars between = b.chars between := by
  rw [chars, chars, TimeOfDay.chars, TimeOfDay.chars, h.date, h.hour, h.minute, h.second]

-- A leap second behind second 4 has the text of second 5.
example : SameSecond ⟨⟨2024, 1, 15, by decide⟩, ⟨23, 56, 4, 1333333333, by decide⟩⟩
    ⟨⟨2024, 1, 15, by decide⟩, ⟨23, 56, 5, 0, by decide⟩⟩ := by decide

variable (t : DateTime)

/-- A text shows another time just if it does not tell the one it is made of. -/
theorem shown_eq_self_iff : t.shown = t ↔ t.Told := by
  rw [Told, ← TimeOfDay.shown_eq_self_iff]
  exact ⟨congrArg time, fun h => by rw [shown, h]⟩

/-- A text shows the second of the time it is made of. -/
theorem sameSecond_shown : t.shown.SameSecond t where
  date := rfl
  hour := t.time.hour_shown
  minute := t.time.minute_shown
  second := t.time.shownSecond_shown

end DateTime

end SqlPaging.Calendar
