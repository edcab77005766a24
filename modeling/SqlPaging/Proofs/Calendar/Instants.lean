import SqlPaging.Proofs.Calendar.Days

/-!
# SqlPaging — moments and what comes after them

A leap second has no second of its own on the line: it shares the place of the second
before it, with a billion nanoseconds or more. Time that passes is counted without that
billion (`Instant.elapsed`), so a leap second passes together with the second it belongs
to; a moment is inside the leap second only as long as it has not left its second.

Main results:

* `ofSeconds?_instant` — a time is found again by its place on the line.
* `exists_follows`, `later?_eq_some_iff` — the moment that lies some nanoseconds later.
* `Instant.atOrAfter_trans` — moments are ordered.
-/

namespace SqlPaging.Calendar

/-! ## The order of moments -/

namespace Instant

/-- The seconds decide which moment comes first, then the nanoseconds. -/
theorem atOrAfter_iff (a b : Instant) : a.atOrAfter b = true ↔
    b.seconds < a.seconds ∨ b.seconds = a.seconds ∧ b.nanos ≤ a.nanos := by
  simp [atOrAfter]

/-- A moment that comes after a later one comes after the earlier one. -/
theorem atOrAfter_trans {a b c : Instant} (hab : a.atOrAfter b = true)
    (hbc : b.atOrAfter c = true) : a.atOrAfter c = true := by
  rw [atOrAfter_iff] at *
  omega

/-- The nanoseconds of the line up to a moment, where a leap second passes together with
the second that it belongs to. -/
def elapsed (a : Instant) : Int := a.seconds * billion + (a.nanos % billion : Nat)

/-- The moment is inside a leap second. -/
def Leaps (a : Instant) : Prop := billion ≤ a.nanos

instance (a : Instant) : Decidable a.Leaps := inferInstanceAs (Decidable (_ ≤ _))

/-- A moment that comes some nanoseconds after another one. It is inside a leap second
just if the other one is and its second has not passed. -/
structure Follows (start : Instant) (wait : Nat) (a : Instant) : Prop where
  elapsed : a.elapsed = start.elapsed + wait
  leaps : a.Leaps ↔ start.Leaps ∧ a.seconds = start.seconds
  nanos : a.nanos < 2 * billion

/-- There is one such moment. -/
theorem Follows.unique {start a b : Instant} {wait : Nat} (ha : Follows start wait a)
    (hb : Follows start wait b) : a = b := by
  obtain ⟨ha, hla, hna⟩ := ha
  obtain ⟨hb, hlb, hnb⟩ := hb
  obtain ⟨s, n⟩ := a
  obtain ⟨t, m⟩ := b
  simp only [Instant.elapsed, Leaps, billion] at *
  -- what has elapsed gives the second, and the leap the nanoseconds in it
  have hseconds : s = t := by omega
  have hnanos : n = m := by omega
  rw [hseconds, hnanos]

end Instant

namespace DateTime

/-- A second and its leap second have two billion nanoseconds. -/
theorem nanos_lt (t : DateTime) : t.instant.nanos < 2 * billion := t.time.valid.2.2.2

/-- The line of seconds is as long as the calendar. -/
theorem instant_bounds (t : DateTime) :
    -96476249 * daySeconds ≤ t.instant.seconds ∧ t.instant.seconds < endOfCalendar := by
  obtain ⟨hlow, hhigh⟩ := t.date.dayNumber_bounds
  have := t.time.secondOfDay_lt
  simp only [instant, endOfCalendar, daySeconds] at *
  omega

/-- Some moment follows, and it is the later one if the calendar reaches so far. -/
theorem exists_follows (t : DateTime) (wait : Nat) :
    ∃ a, t.instant.Follows wait a ∧
      t.later? wait = if a.seconds < endOfCalendar then some a else none := by
  have hnanos := t.nanos_lt
  refine ⟨_, ?_, rfl⟩
  split
  · next hstays =>
    -- the moment stays inside the leap second
    constructor <;> simp only [Instant.elapsed, Instant.Leaps, billion, and_true] at * <;> omega
  · next hleaves =>
    -- the moment is outside of a leap second, or leaves it
    constructor <;> simp only [Instant.elapsed, Instant.Leaps, billion] at * <;> omega

/-- What is later by some nanoseconds is the moment that follows so, if the calendar reaches
so far. -/
theorem later?_eq_some_iff {t : DateTime} {wait : Nat} {a : Instant} :
    t.later? wait = some a ↔ t.instant.Follows wait a ∧ a.seconds < endOfCalendar := by
  obtain ⟨moved, hfollows, hlater⟩ := t.exists_follows wait
  rw [hlater]
  constructor
  · intro h
    split at h
    · next hend =>
      cases h
      exact ⟨hfollows, hend⟩
    · cases h
  · rintro ⟨ha, hend⟩
    -- no other moment follows
    cases ha.unique hfollows
    rw [if_pos hend]

/-! ## Times of moments -/

/-- A time is found again by its place on the line. -/
theorem ofSeconds?_instant (t : DateTime) :
    ofSeconds? t.instant.seconds t.instant.nanos = some t := by
  have hsecond := t.time.secondOfDay_lt
  -- the second of the day is less than a day, so that division gives both of them
  have hday : Int.fdiv t.instant.seconds daySeconds = t.date.dayNumber := by
    rw [Int.fdiv_eq_ediv_of_nonneg _ (by decide)]
    simp only [instant, daySeconds] at *
    omega
  have htime : (Int.fmod t.instant.seconds daySeconds).toNat = t.time.secondOfDay := by
    rw [Int.fmod_eq_emod_of_nonneg _ (by decide)]
    simp only [instant, daySeconds] at *
    omega
  have hnanos : t.instant.nanos = t.time.nanos := rfl
  simp only [ofSeconds?, hday, htime, hnanos, Date.ofDayNumber?_dayNumber,
    TimeOfDay.ofSecond?_secondOfDay]
  rfl

/-- In the zone of UTC a time is what it shows. -/
theorem toUtc?_zero (t : DateTime) : t.toUtc? 0 = some t := by
  rw [toUtc?, Int.sub_zero, ofSeconds?_instant]

end DateTime

end SqlPaging.Calendar
